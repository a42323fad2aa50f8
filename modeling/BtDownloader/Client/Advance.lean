import BtDownloader.Client.Cancel
import BtDownloader.Client.Window

set_option autoImplicit false

/-! # When the window advances

A piece-finished alert should move the window on only when every required piece is downloaded.
`pieceFinishedAlert` asks this with a loop that stops at once on a paused session, and that
finds nothing missing in an empty list.

* `advancesComplete_iff`: exactly when a call of `prioritizeNextPieces` by the alert finds a
  complete window.
-/

namespace BtDownloader

open Program

variable {m m' : Machine} {env : Env} {h : Nat}

/-! ## The call of `prioritizeNextPieces` -/

/-- What `pieceFinishedAlert` does from the question whether all required pieces are there up
to its call of `prioritizeNextPieces`. -/
def handleAgain (env : Env) (h : Nat) : Handler Unit := do
  let minPieces ← getMinPieces
  whenever (minPieces = 0) (metadataReceivedAlert env h)

/-- From `m`, `pieceFinishedAlert` comes to its call of `prioritizeNextPieces`, in the state
`m₂`. -/
def Advances (env : Env) (h : Nat) (m m₂ : Machine) : Prop :=
  ∃ m₁, tellProgress env h m = .ok true m₁ ∧ handleAgain env h m₁ = .ok () m₂

/-- The alert ends as its call of `prioritizeNextPieces` does. -/
theorem pieceFinishedAlert_of_advances {m₂ : Machine} (ha : Advances env h m m₂) :
    pieceFinishedAlert env h m = prioritizeNextPieces env h m₂ := by
  obtain ⟨m₁, htell, hagain⟩ := ha
  rw [pieceFinishedAlert_eq, bind_of_ok htell]
  show (do handleAgain env h; prioritizeNextPieces env h) m₁ = _
  rw [bind_of_ok hagain]

/-- Every call that the alert makes finds required pieces, all of them downloaded. -/
def AdvancesComplete (env : Env) (h : Nat) (m : Machine) : Prop :=
  ∀ m₂, Advances env h m m₂ → m₂.streamer.requiredPieces ≠ [] ∧
    ∀ t, m₂.streamer.session.find? h = some t → t.hasAll env m₂.streamer.requiredPieces = true

/-! ## The two steps return -/

theorem Torrent.has_applyAll (t : Torrent) (downloaded : Nat → Bool) (cs : List TorrentCommand)
    (piece : Int) : (t.applyAll downloaded cs).has env piece = t.has env piece := by
  unfold Torrent.has
  rw [Torrent.applyAll_info, Torrent.applyAll_handle]

theorem Torrent.hasAll_applyAll (t : Torrent) (downloaded : Nat → Bool)
    (cs : List TorrentCommand) (ps : List Int) :
    (t.applyAll downloaded cs).hasAll env ps = t.hasAll env ps := by
  unfold Torrent.hasAll
  congr 1
  funext piece
  exact Torrent.has_applyAll t downloaded cs piece

/-- Counting the required pieces of a torrent of the session returns. -/
theorem returns_countRequired {t : Torrent} (ht : m.streamer.session.find? h = some t)
    (ps : List Int) : ∀ (n : Nat) (all : Bool), Returns (countRequired env h ps n all) m := by
  induction ps with
  | nil => exact fun n all => Returns.pure _ _
  | cons p ps ih =>
      intro n all
      refine Returns.bind ⟨_, m, rfl⟩ fun paused m₁ h₁ => ?_
      obtain ⟨-, rfl⟩ := gets_eq_ok.mp h₁
      refine Returns.ite (fun _ => Returns.pure _ _) fun _ => ?_
      refine Returns.bind ⟨_, m₁, havePiece_eq_ok.mpr ⟨t, ht, rfl, rfl⟩⟩ fun b m₂ h₂ => ?_
      obtain ⟨-, -, -, rfl⟩ := havePiece_eq_ok.mp h₂
      exact Returns.ite (fun _ => ih _ _) fun _ => ih _ _

theorem returns_tellProgress {t : Torrent} (ht : m.streamer.session.find? h = some t) :
    Returns (tellProgress env h) m := by
  refine Returns.bind ⟨_, m, statusOf_eq_ok.mpr ⟨⟨t, ht⟩, rfl, rfl⟩⟩ fun st m₁ h₁ => ?_
  obtain ⟨-, -, rfl⟩ := statusOf_eq_ok.mp h₁
  refine Returns.bind ⟨(), _, rfl⟩ fun _ m₂ h₂ => ?_
  replace h₂ := modifies_eq_ok.mp h₂
  refine Returns.bind ⟨_, m₂, rfl⟩ fun required m₃ h₃ => ?_
  obtain ⟨-, rfl⟩ := gets_eq_ok.mp h₃
  have ht₃ : m₃.streamer.session.find? h = some t := by
    rw [h₂]
    exact ht
  refine Returns.bind (returns_countRequired ht₃ required 0 true) fun r m₄ _ => ?_
  exact ⟨_, _, rfl⟩

/-! ## The condition -/

/-- Where `pieceFinishedAlert` finds all required pieces there, or the session paused, then

* if `MIN_PIECES` is `0`, the device has room for the download, and the pieces that are
  required once the file is chosen again are all downloaded;
* else some piece is required, and on a paused session too all required pieces are downloaded. -/
def Machine.CompleteAt (env : Env) (h : Nat) (m : Machine) : Prop :=
  m.allPresent env h = true → ∀ t ∈ m.streamer.session.find? h,
    if m.globals.minPieces = 0 then
      ¬ env.LowSpace h ∧ ∀ md ∈ t.info, ∀ i ∈ m.choice? md.val, ∀ fe ∈ md.val.fileAt i,
        t.hasAll env (m.streamer.requiredPieces ++ headAndTail md.val i fe) = true
    else m.streamer.requiredPieces ≠ [] ∧ (m.streamer.session.paused = true →
      t.hasAll env m.streamer.requiredPieces = true)

/-- The state in which the alert asks whether all required pieces are there. -/
structure Told (env : Env) (h : Nat) (m m₁ : Machine) : Prop where
  globals : m₁.globals = m.globals
  session : m₁.streamer.session = m.streamer.session
  requiredPieces : m₁.streamer.requiredPieces = m.streamer.requiredPieces
  savePath : m₁.streamer.savePath = m.streamer.savePath
  selectionBlock : m₁.streamer.selectionBlock = m.streamer.selectionBlock
  firstPiece : m₁.streamer.firstPiece = m.streamer.firstPiece

theorem told_of_tellProgress {all : Bool} {m₁ : Machine}
    (hx : tellProgress env h m = .ok all m₁) : all = m.allPresent env h ∧ Told env h m m₁ := by
  obtain ⟨-, hall, hg, n, hs, -⟩ := tellProgress_ok hx
  refine ⟨hall, hg, ?_, ?_, ?_, ?_, ?_⟩
  all_goals
    rw [hs]
    rfl

/-- What the alert requires once it has handled the metadata again. -/
theorem handleAgain_zero {m₁ m₂ : Machine} {t : Torrent} (htold : Told env h m m₁)
    (ht : m.streamer.session.find? h = some t) (hzero : m.globals.minPieces = 0)
    (hx : handleAgain env h m₁ = .ok () m₂) :
    (env.LowSpace h ∧ m₂.streamer.requiredPieces = []) ∨
    (¬ env.LowSpace h ∧ ∃ md i fe, t.info = some md ∧ m.choice? md.val = some i ∧
      md.val.fileAt i = some fe ∧
      m₂.globals.minPieces = md.val.minPieces fe ∧
      m₂.streamer.firstPiece = m.streamer.firstPiece ∧
      m₂.streamer.requiredPieces = m.streamer.requiredPieces ++ headAndTail md.val i fe ∧
      ∃ t₂, m₂.streamer.session.find? h = some t₂ ∧ ∀ ps, t₂.hasAll env ps = t.hasAll env ps) := by
  obtain ⟨min, m₃, hmin, hrest⟩ := bind_eq_ok.mp hx
  obtain ⟨rfl, hm₃⟩ := getMinPieces_eq_ok.mp hmin
  have hmeta : metadataReceivedAlert env h m₃ = .ok () m₂ := by
    rcases whenever_eq_ok.mp hrest with ⟨-, hmeta⟩ | ⟨hpos, -⟩
    · exact hmeta
    · rw [htold.globals] at hpos
      exact absurd hzero hpos
  -- without room for it the run is cancelled, else the file is selected again
  obtain ⟨-, -, ⟨hlow, m₄, -, -, hcancel⟩ | ⟨hroom, m₄, hg₄, hs₄, hselect⟩⟩ :=
    metadataReceivedAlert_ok hmeta
  · exact Or.inl ⟨hlow, (cancel_required hcancel).1⟩
  refine Or.inr ⟨hroom, ?_⟩
  obtain ⟨t', md, i, g, es, fe, ht', hmd, hselects, hfe, hg₂, hs₂⟩ := selectFile_ok hselect
  have hs₁ : m₄.streamer = m₁.streamer.needs (env.status h).totalWanted := by rw [hs₄, hm₃]
  have ht₄ : m₄.streamer.session.find? h = some t := by
    rw [hs₁]
    show m₁.streamer.session.find? h = some t
    rw [htold.session, ht]
  obtain rfl := Option.some.inj (ht'.symm.trans ht₄)
  have hchoice : m.choice? md.val = some i := by
    refine (choice?_congr ?_ ?_).symm.trans hselects.choice
    · rw [hg₄, hm₃, htold.globals]
    · rw [hs₁]
      exact htold.selectionBlock
  have hrequired : m₄.streamer.requiredPieces = m.streamer.requiredPieces := by
    rw [hs₁]
    exact htold.requiredPieces
  have htold₄ : (m₄.streamer.log es).session.find? h = some t' := ht₄
  have hsession := congrArg Streamer.session hs₂
  have hcs := find?_of_sent hsession htold₄
  refine ⟨md, i, fe, hmd, hchoice, hfe, by rw [hg₂], ?_, ?_, _, hcs,
    fun ps => Torrent.hasAll_applyAll t' _ _ ps⟩
  · rw [hs₂, ← htold.firstPiece]
    show m₄.streamer.firstPiece = m₁.streamer.firstPiece
    rw [hs₁]
    rfl
  · rw [hs₂, ← hrequired]

/-- With `MIN_PIECES` at least `1` the alert goes straight to its call. -/
theorem handleAgain_pos {m₁ m₂ : Machine} (htold : Told env h m m₁)
    (hpos : m.globals.minPieces ≠ 0) (hx : handleAgain env h m₁ = .ok () m₂) :
    m₂.streamer = m₁.streamer := by
  obtain ⟨min, m₃, hmin, hrest⟩ := bind_eq_ok.mp hx
  obtain ⟨rfl, hm₃⟩ := getMinPieces_eq_ok.mp hmin
  rcases whenever_eq_ok.mp hrest with ⟨hzero, -⟩ | ⟨-, hm₂⟩
  · rw [htold.globals] at hzero
    exact absurd hzero hpos
  · rw [hm₂, hm₃]

/-- When the choice of a file answers one of the torrent's files, the user's answer, if it is
asked for, exists. -/
theorem answerExists_of_choice {ti : TorrentInfo} {i : Int} {fe : FileEntry}
    (hchoice : m.choice? ti = some i) (hfe : ti.fileAt i = some fe) : m.AnswerExists ti := by
  intro hflag
  rw [Machine.choice?, if_pos hflag] at hchoice
  exact ⟨i, hchoice, by rw [hfe]; rfl⟩

theorem returns_handleAgain {m₁ : Machine} {t : Torrent} (htold : Told env h m m₁)
    (ht : m.streamer.session.find? h = some t) (hpath : m.streamer.savePath.isSome)
    (hroom : m.globals.minPieces = 0 → ¬ env.LowSpace h →
      ∃ md, t.info = some md ∧ m.AnswerExists md.val) : Returns (handleAgain env h) m₁ := by
  refine Returns.bind ⟨_, _, rfl⟩ fun min m₂ h₂ => ?_
  obtain ⟨rfl, hm₂⟩ := getMinPieces_eq_ok.mp h₂
  refine Returns.ite (fun hzero => ?_) fun _ => Returns.pure _ _
  rw [htold.globals] at hzero
  have hs₂ : m₂.streamer = m₁.streamer := by rw [hm₂]
  have ht₂ : m₂.streamer.session.find? h = some t := by rw [hs₂, htold.session, ht]
  refine returns_metadataReceivedAlert ⟨t, ht₂⟩ ?_ fun hspace => ?_
  · rw [hs₂, htold.savePath]
    exact hpath
  · obtain ⟨md, hmd, hanswer⟩ := hroom hzero hspace
    refine ⟨md, ?_, t, ht₂, hmd⟩
    unfold Machine.AnswerExists Machine.answer?
    rw [hm₂, htold.globals, htold.selectionBlock]
    exact hanswer

/-! ## The equivalence -/

theorem advancesComplete_of_completeAt (hcomplete : m.CompleteAt env h) :
    AdvancesComplete env h m := by
  rintro m₂ ⟨m₁, htell, hagain⟩
  obtain ⟨hall, htold⟩ := told_of_tellProgress htell
  obtain ⟨⟨t, ht⟩, -⟩ := tellProgress_ok htell
  have hcomplete := hcomplete hall.symm t ht
  by_cases hzero : m.globals.minPieces = 0
  · rw [if_pos hzero] at hcomplete
    obtain ⟨hroom, hdownloaded⟩ := hcomplete
    rcases handleAgain_zero htold ht hzero hagain with ⟨hlow, -⟩ |
      ⟨-, md, i, fe, hmd, hchoice, hfe, -, -, hrequired, t₂', ht₂', hsame⟩
    · exact absurd hlow hroom
    · rw [hrequired]
      refine ⟨?_, fun t₂ ht₂ => ?_⟩
      · -- the ten pieces of the tail are always among them
        intro hnil
        have hlength := congrArg List.length hnil
        simp [headAndTail, piecesDownFrom] at hlength
      · obtain rfl := Option.some.inj (ht₂.symm.trans ht₂')
        rw [hsame]
        exact hdownloaded md hmd i hchoice fe hfe
  · rw [if_neg hzero] at hcomplete
    obtain ⟨hne, hpaused⟩ := hcomplete
    have hs₂ := handleAgain_pos htold hzero hagain
    rw [hs₂, htold.requiredPieces, htold.session]
    refine ⟨hne, fun t₂ ht₂ => ?_⟩
    obtain rfl := Option.some.inj (ht.symm.trans ht₂)
    cases hp : m.streamer.session.paused with
    | true => exact hpaused hp
    | false =>
        have hall : true = m.allPresent env h := hall
        rw [Machine.allPresent, hp, ht] at hall
        exact hall.symm

theorem completeAt_of_advancesComplete (hm : Reachable m) (hadvances : AdvancesComplete env h m) :
    m.CompleteAt env h := by
  intro hall t ht
  have hpath := hm.sound.isSome_savePath ht
  obtain ⟨all, m₁, htell⟩ := @returns_tellProgress m env h t ht
  obtain ⟨rfl, htold⟩ := told_of_tellProgress htell
  rw [hall] at htell
  by_cases hzero : m.globals.minPieces = 0
  · rw [if_pos hzero]
    by_cases hlow : env.LowSpace h
    · -- the run is cancelled, and nothing is required any more
      obtain ⟨_, m₂, hagain⟩ := returns_handleAgain htold ht hpath fun _ hroom => absurd hlow hroom
      obtain ⟨hne, -⟩ := hadvances m₂ ⟨m₁, htell, hagain⟩
      rcases handleAgain_zero htold ht hzero hagain with ⟨-, hnil⟩ | ⟨hroom, -⟩
      · exact absurd hnil hne
      · exact absurd hlow hroom
    · refine ⟨hlow, fun md hmd i hchoice fe hfe => ?_⟩
      obtain ⟨_, m₂, hagain⟩ := returns_handleAgain htold ht hpath fun _ _ =>
        ⟨md, hmd, answerExists_of_choice hchoice hfe⟩
      obtain ⟨-, hdownloaded⟩ := hadvances m₂ ⟨m₁, htell, hagain⟩
      rcases handleAgain_zero htold ht hzero hagain with ⟨hlow', -⟩ |
        ⟨-, md', i', fe', hmd', hchoice', hfe', -, -, hrequired, t₂, ht₂, hsame⟩
      · exact absurd hlow' hlow
      · obtain rfl := Option.some.inj (hmd'.symm.trans hmd)
        obtain rfl := Option.some.inj (hchoice'.symm.trans hchoice)
        obtain rfl := Option.some.inj (hfe'.symm.trans hfe)
        rw [← hsame, ← hrequired]
        exact hdownloaded t₂ ht₂
  · rw [if_neg hzero]
    obtain ⟨_, m₂, hagain⟩ := returns_handleAgain htold ht hpath fun hz => absurd hz hzero
    obtain ⟨hne, hdownloaded⟩ := hadvances m₂ ⟨m₁, htell, hagain⟩
    rw [handleAgain_pos htold hzero hagain, htold.requiredPieces] at hne hdownloaded
    refine ⟨hne, fun _ => hdownloaded t ?_⟩
    rw [htold.session, ht]

/-- **The window advances only when it is complete** exactly in the states that meet the
condition, whatever torrent and piece the alert is about. -/
theorem advancesComplete_iff (hm : Reachable m) : AdvancesComplete env h m ↔ m.CompleteAt env h :=
  ⟨completeAt_of_advancesComplete hm, advancesComplete_of_completeAt⟩

/-- A piece finishes after a cancel: nothing is required, and the window advances. -/
theorem not_advancesComplete_afterCancel :
    ¬ ∀ (env : Env) (h : Nat) (m : Machine), Reachable m → AdvancesComplete env h m := by
  intro hall
  let env := Env.calm (Metadata.films 1 40 []) fun _ => false
  have hfinal : (finalState (startAndCancel false)).map (fun m =>
      (m.allPresent env 0, (m.streamer.session.find? 0).isSome, m.globals.minPieces,
        m.streamer.requiredPieces)) = some (true, true, 1, []) := by decide +kernel
  obtain ⟨m, hm, hmap⟩ := Option.map_eq_some_iff.mp hfinal
  simp only [Prod.mk.injEq] at hmap
  obtain ⟨hpresent, hfind, hmin, hnil⟩ := hmap
  obtain ⟨t, ht⟩ := Option.isSome_iff_exists.mp hfind
  have hreach := reachable_of_finalState hm
  have hcomplete := completeAt_of_advancesComplete hreach (hall env 0 m hreach) hpresent t ht
  rw [hmin, if_neg (by decide)] at hcomplete
  exact hcomplete.1 hnil

/-- A piece finishes when all required ones are there: the window advances. -/
theorem advancesComplete_afterStart :
    let env := Env.calm (Metadata.films 1 40 []) fun _ => true
    ∃ m, finalState [.start env "a.torrent".toList none none none] = some m ∧
      (∃ m₂, Advances env 0 m m₂) ∧ AdvancesComplete env 0 m := by
  intro env
  have hfinal : (finalState [.start env "a.torrent".toList none none none]).map (fun m =>
      (m.allPresent env 0, (m.streamer.session.find? 0).isSome, m.streamer.savePath.isSome,
        m.globals.minPieces, decide (m.streamer.requiredPieces ≠ []), m.streamer.session.paused)) =
        some (true, true, true, 1, true, false) := by decide +kernel
  obtain ⟨m, hm, hmap⟩ := Option.map_eq_some_iff.mp hfinal
  simp only [Prod.mk.injEq] at hmap
  obtain ⟨hall, hfind, hpath, hmin, hne, hpaused⟩ := hmap
  obtain ⟨t, ht⟩ := Option.isSome_iff_exists.mp hfind
  have hpos : ¬ m.globals.minPieces = 0 := by rw [hmin]; decide
  refine ⟨m, hm, ?_, (advancesComplete_iff (reachable_of_finalState hm)).mpr fun _ t' _ => ?_⟩
  · obtain ⟨all, m₁, htell⟩ := @returns_tellProgress m env 0 t ht
    obtain ⟨rfl, htold⟩ := told_of_tellProgress htell
    obtain ⟨_, m₂, hagain⟩ := returns_handleAgain htold ht hpath fun hzero => absurd hzero hpos
    rw [hall] at htell
    exact ⟨m₂, m₁, htell, hagain⟩
  · rw [if_neg hpos]
    exact ⟨of_decide_eq_true hne, fun htrue => absurd htrue (by rw [hpaused]; decide)⟩

end BtDownloader
