import BtDownloader.Client.Reachable

set_option autoImplicit false

/-! # How a start ends

A start should either add a torrent, or call the failure block and add none, whatever its
argument names. `endsWell_iff` says exactly when it does.
-/

namespace BtDownloader

open Program

variable {m m' : Machine}

/-! ## Methods that return -/

theorem find?_isSome_iff {session : Session} {h : Nat} :
    (∃ t, session.find? h = some t) ↔ h ∈ session.torrents.map (·.handle) := by
  rw [← Option.isSome_iff_exists, Session.find?, List.find?_isSome]
  simp

theorem total_modifies {P : Machine → Prop} {Q : Unit → Machine → Prop} {f : Streamer → Streamer}
    (h : ∀ m, P m → Q () { m with streamer := f m.streamer }) : TotalTriple P (modifies f) Q :=
  fun m hm => ⟨(), _, rfl, h m hm⟩

theorem total_gets {α : Type} {P : Machine → Prop} (f : Streamer → α) :
    TotalTriple P (gets f) fun _ => P :=
  fun m hm => ⟨_, m, rfl, hm⟩

theorem total_whenever {I : Machine → Prop} {c : Prop} [Decidable c] {x : Handler Unit}
    (h : c → TotalTriple I x fun _ => I) : TotalTriple I (whenever c x) fun _ => I := by
  by_cases hc : c
  · rw [whenever, if_pos hc]
    exact h hc
  · rw [whenever, if_neg hc]
    exact TotalTriple.pure fun _ hm => hm

theorem total_send {P : Machine → Prop} {Q : Unit → Machine → Prop} {env : Env} {h : Nat}
    {c : TorrentCommand} (hP : ∀ m, P m → ∃ t, m.streamer.session.find? h = some t)
    (hQ : ∀ m, P m → Q () { m with streamer := m.streamer.sent env h [c] }) :
    TotalTriple P (send env h c) Q :=
  fun m hm => ⟨(), _, send_eq_ok.mpr ⟨hP m hm, rfl⟩, hQ m hm⟩

theorem total_orFault {α : Type} {P : Machine → Prop} {fault : Fault} {o : Option α} {a : α}
    (ho : o = some a) : TotalTriple P (orFault fault o) fun b m => b = a ∧ P m :=
  fun m hm => ⟨a, m, orFault_eq_ok.mpr ⟨ho, rfl⟩, rfl, hm⟩

/-- The session holds the torrents with these handles. -/
def Handles (hs : List Nat) (m : Machine) : Prop :=
  m.streamer.session.torrents.map (·.handle) = hs

theorem total_send_handles {env : Env} {hs : List Nat} {h : Nat} {c : TorrentCommand}
    (hh : h ∈ hs) : TotalTriple (Handles hs) (send env h c) fun _ => Handles hs := by
  refine total_send (fun m hm => ?_) fun m hm => ?_
  · exact find?_isSome_iff.mpr (by rwa [show _ = hs from hm])
  · exact (handles_sent env h [c] m.streamer).trans hm

theorem total_cancelTorrent {env : Env} {hs : List Nat} {h : Nat} (hh : h ∈ hs) :
    TotalTriple (Handles hs) (cancelTorrent env false h) fun _ => Handles hs := by
  have hmodifies : ∀ f : Session → Session, (∀ session, (f session).torrents = session.torrents) →
      TotalTriple (Handles hs) (modifies (·.mapSession f)) fun _ => Handles hs := by
    intro f hf
    refine total_modifies fun m hm => ?_
    show (f m.streamer.session).torrents.map (·.handle) = hs
    rw [hf]
    exact hm
  refine TotalTriple.bind (total_send_handles hh) fun _ => ?_
  refine TotalTriple.bind (total_whenever fun _ => ?_) fun _ => ?_
  · refine TotalTriple.bind (total_send_handles hh) fun _ => ?_
    exact hmodifies _ fun session => session.oweResumeData_torrents h
  refine TotalTriple.bind (total_send_handles hh) fun _ => ?_
  refine TotalTriple.bind (hmodifies _ fun _ => rfl) fun _ => ?_
  exact total_whenever fun hd => absurd hd (by decide)

/-- A cancel that keeps the data returns: the handles it calls are those of the session. -/
theorem returns_cancel (env : Env) (m : Machine) :
    Returns (cancelStreamingAndDeleteData env false) m := by
  refine Returns.bind ⟨_, m, rfl⟩ fun ths m₁ h₁ => ?_
  obtain ⟨rfl, rfl⟩ := gets_eq_ok.mp h₁
  refine Returns.bind (TotalTriple.returns (total_each fun h hh => total_cancelTorrent hh)
    (show Handles _ m₁ from rfl)) fun _ m₂ _ => ?_
  exact ⟨(), _, rfl⟩

theorem returns_failStart (env : Env) (failure : Option BlockId) (error : NSError) (m : Machine) :
    Returns (failStart env failure error) m := by
  refine Returns.bind ?_ fun _ m₁ _ => returns_cancel env m₁
  cases failure with
  | none => exact Returns.pure _ _
  | some block => exact ⟨(), _, rfl⟩

/-- The session holds torrent `h` with its metadata. -/
def Knows (h : Nat) (md : Metadata) (m : Machine) : Prop :=
  ∃ t, m.streamer.session.find? h = some t ∧ t.info = some md

theorem Knows.find? {h : Nat} {md : Metadata} (hm : Knows h md m) :
    ∃ t, m.streamer.session.find? h = some t := by
  obtain ⟨t, ht, -⟩ := hm
  exact ⟨t, ht⟩

theorem Knows.sent {env : Env} {h : Nat} {md : Metadata} {cs : List TorrentCommand}
    (hm : Knows h md m) : Knows h md { m with streamer := m.streamer.sent env h cs } := by
  obtain ⟨t, ht, hmd⟩ := hm
  refine ⟨t.applyAll (env.downloaded h) cs, ?_, by rw [Torrent.applyAll_info, hmd]⟩
  refine (find?_sent _ _ _ _ _).trans ?_
  rw [if_pos rfl, ht]
  rfl

theorem total_send_knows {env : Env} {h : Nat} {md : Metadata} {c : TorrentCommand} :
    TotalTriple (Knows h md) (send env h c) fun _ => Knows h md :=
  total_send (fun _ hm => hm.find?) fun _ hm => hm.sent

/-- Without a user to ask, the default file is taken. -/
theorem Selects.default {g g' : Globals} {block? : Option SelectionBlock} {ti : TorrentInfo}
    {i : Int} {es : List Effect} (h : Selects g block? (some ti) i g' es)
    (hflag : g.shouldUserSelectFiles = false) : i = defaultFileIndex ti := by
  cases h with
  | earlier hflag' => rw [hflag] at hflag'; cases hflag'
  | asked _ _ hflag' => rw [hflag] at hflag'; cases hflag'
  | largest ti' _ hti hfiles =>
      obtain rfl := Option.some.inj hti
      rw [defaultFileIndex, if_pos hfiles]
  | only ti' _ hti hfiles =>
      obtain rfl := Option.some.inj hti
      rw [defaultFileIndex, if_neg hfiles]

theorem returns_indexOfLargestFileInTorrentWithTorrentInfo {ti : TorrentInfo}
    (hflag : m.globals.shouldUserSelectFiles = false) :
    Returns (indexOfLargestFileInTorrentWithTorrentInfo (some ti)) m := by
  refine Returns.bind ⟨_, _, rfl⟩ fun b m₁ h₁ => ?_
  obtain ⟨rfl, -⟩ := getShouldUserSelectFiles_eq_ok.mp h₁
  refine Returns.ite (fun h => absurd h (by simp [hflag])) fun _ => ?_
  refine Returns.bind ⟨ti, m₁, rfl⟩ fun ti' m₂ _ => ?_
  exact Returns.ite (fun _ => ⟨_, _, rfl⟩) fun _ => Returns.pure _ _

/-- The file the user has selected or selects now, when the user is asked. -/
def Machine.answer? (m : Machine) (ti : TorrentInfo) : Option Int :=
  if m.globals.selectedFileIndex ≠ -1 then some m.globals.selectedFileIndex
  else m.streamer.selectionBlock.map (·.answer ti.fileNames)

/-- When the user is asked, the answer is one of the torrent's files. -/
def Machine.AnswerExists (m : Machine) (ti : TorrentInfo) : Prop :=
  m.globals.shouldUserSelectFiles = true → ∃ i, m.answer? ti = some i ∧ (ti.fileAt i).isSome

/-- When the user is asked, the chosen file is the user's answer. -/
theorem Selects.answer {ti : TorrentInfo} {i : Int} {g : Globals} {es : List Effect}
    (h : Selects m.globals m.streamer.selectionBlock (some ti) i g es)
    (hflag : m.globals.shouldUserSelectFiles = true) : m.answer? ti = some i := by
  cases h with
  | earlier _ hsel => exact if_pos hsel
  | asked ti' block _ hsel hti hblock =>
      obtain rfl := Option.some.inj hti
      rw [Machine.answer?, if_neg (not_not.mpr hsel), hblock]
      rfl
  | largest _ hflag' => rw [hflag] at hflag'; cases hflag'
  | only _ hflag' => rw [hflag] at hflag'; cases hflag'

theorem Selects.answerExists {ti : TorrentInfo} {i : Int} {g : Globals} {es : List Effect}
    {fe : FileEntry} (h : Selects m.globals m.streamer.selectionBlock (some ti) i g es)
    (hfe : ti.fileAt i = some fe) : m.AnswerExists ti :=
  fun hflag => ⟨i, h.answer hflag, by rw [hfe]; rfl⟩

/-- When the user is asked, a file is taken wherever there is an answer. -/
theorem returns_answer {ti : TorrentInfo} {i : Int} (hi : m.answer? ti = some i)
    (hflag : m.globals.shouldUserSelectFiles = true) :
    Returns (indexOfLargestFileInTorrentWithTorrentInfo (some ti)) m := by
  refine Returns.bind ⟨_, _, rfl⟩ fun flag m₁ h₁ => ?_
  obtain ⟨rfl, hm₁⟩ := getShouldUserSelectFiles_eq_ok.mp h₁
  refine Returns.ite (fun _ => ?_) fun hno => absurd hflag hno
  refine Returns.bind ⟨(), _, rfl⟩ fun _ m₂ h₂ => ?_
  replace h₂ := setShouldUserSelectFiles_eq_ok.mp h₂
  refine Returns.bind ⟨_, _, rfl⟩ fun selected m₃ h₃ => ?_
  obtain ⟨rfl, hm₃⟩ := getSelectedFileIndex_eq_ok.mp h₃
  refine Returns.ite (fun _ => Returns.pure _ _) fun hsel => ?_
  refine Returns.bind ⟨_, m₃, orFault_eq_ok.mpr ⟨rfl, rfl⟩⟩ fun ti m₄ h₄ => ?_
  obtain ⟨-, hm₄⟩ := orFault_eq_ok.mp h₄
  refine Returns.bind ⟨_, m₄, rfl⟩ fun block? m₅ h₅ => ?_
  obtain ⟨rfl, hm₅⟩ := gets_eq_ok.mp h₅
  -- nothing was selected before, so the answer is that of the block
  have hs₄ : m₄.streamer = m.streamer := by rw [hm₄, hm₃, h₂, hm₁]
  have hsel : ¬ m.globals.selectedFileIndex ≠ -1 := by rwa [h₂, hm₁] at hsel
  rw [Machine.answer?, if_neg hsel] at hi
  obtain ⟨block, hblock, -⟩ := Option.map_eq_some_iff.mp hi
  rw [hs₄]
  refine Returns.bind ⟨block, m₅, orFault_eq_ok.mpr ⟨hblock, rfl⟩⟩ fun block' m₆ _ => ?_
  exact ⟨_, _, rfl⟩

theorem returns_select {md : Metadata} (h : m.AnswerExists md.val) :
    ∃ i m' fe, indexOfLargestFileInTorrentWithTorrentInfo (some md.val) m = .ok i m' ∧
      md.val.fileAt i = some fe := by
  have hreturns : Returns (indexOfLargestFileInTorrentWithTorrentInfo (some md.val)) m := by
    cases hflag : m.globals.shouldUserSelectFiles with
    | false => exact returns_indexOfLargestFileInTorrentWithTorrentInfo hflag
    | true =>
        obtain ⟨i, hi, -⟩ := h hflag
        exact returns_answer hi hflag
  obtain ⟨i, m', hx⟩ := hreturns
  obtain ⟨es, hselects, -⟩ := indexOfLargestFileInTorrentWithTorrentInfo_ok hx
  cases hflag : m.globals.shouldUserSelectFiles with
  | false =>
      obtain ⟨fe, hfe, -⟩ := fileAt_defaultFileIndex md
      exact ⟨i, m', fe, hx, by rw [hselects.default hflag, hfe]⟩
  | true =>
      obtain ⟨i', hi', hsome⟩ := h hflag
      obtain rfl : i' = i := Option.some.inj (hi'.symm.trans (hselects.answer hflag))
      obtain ⟨fe, hfe⟩ := Option.isSome_iff_exists.mp hsome
      exact ⟨i', m', fe, hx, hfe⟩

/-- Choosing a file of a torrent whose metadata is there answers one of its files. -/
theorem total_indexOfLargestFileInTorrent {h : Nat} {md : Metadata} :
    TotalTriple (fun m => m.AnswerExists md.val ∧ Knows h md m) (indexOfLargestFileInTorrent h)
      fun i m => (∃ fe, md.val.fileAt i = some fe) ∧ Knows h md m := by
  rintro m ⟨hanswer, t, ht, hmd⟩
  obtain ⟨i, m', fe, hx, hfe⟩ := returns_select hanswer
  have hfile : torrentFile h m = .ok (some md) m := by
    rw [← hmd]
    exact torrentFile_eq_ok.mpr ⟨t, ht, rfl, rfl⟩
  have hindex : indexOfLargestFileInTorrent h m = .ok i m' := by
    rw [indexOfLargestFileInTorrent, bind_of_ok hfile]
    exact hx
  obtain ⟨es, -, hs⟩ := indexOfLargestFileInTorrentWithTorrentInfo_ok hx
  refine ⟨i, m', hindex, ⟨fe, hfe⟩, t, ?_, hmd⟩
  rw [hs]
  exact ht

theorem total_filePriorities {h : Nat} {md : Metadata} :
    TotalTriple (Knows h md) (filePriorities h)
      fun ps m => ps.length = md.val.numFiles ∧ Knows h md m := by
  intro m hm
  obtain ⟨t, ht, hmd⟩ := hm
  exact ⟨_, m, filePriorities_eq_ok.mpr ⟨t, ht, rfl, rfl⟩, Torrent.filePriorityList_length hmd,
    t, ht, hmd⟩

theorem total_torrentFile {h : Nat} {md : Metadata} :
    TotalTriple (Knows h md) (torrentFile h) fun info m => info = some md ∧ Knows h md m := by
  intro m hm
  obtain ⟨t, ht, hmd⟩ := hm
  exact ⟨t.info, m, torrentFile_eq_ok.mpr ⟨t, ht, rfl, rfl⟩, hmd, t, ht, hmd⟩

theorem total_piecePriorities {h : Nat} {md : Metadata} :
    TotalTriple (Knows h md) (piecePriorities h) fun _ => Knows h md := by
  rintro m ⟨t, ht, hmd⟩
  exact ⟨_, m, piecePriorities_eq_ok.mpr ⟨t, ht, rfl, rfl⟩, t, ht, hmd⟩

theorem total_statusOf {env : Env} {h : Nat} {md : Metadata} :
    TotalTriple (Knows h md) (statusOf env h) fun _ => Knows h md :=
  fun m hm => ⟨_, m, statusOf_eq_ok.mpr ⟨hm.find?, rfl, rfl⟩, hm⟩

theorem total_setMinPieces {h : Nat} {md : Metadata} (n : Int) :
    TotalTriple (Knows h md) (setMinPieces n) fun _ => Knows h md :=
  fun _ hm => ⟨(), _, rfl, hm⟩

theorem total_getMinPieces {h : Nat} {md : Metadata} :
    TotalTriple (Knows h md) getMinPieces fun _ => Knows h md :=
  fun _ hm => ⟨_, _, rfl, hm⟩

theorem total_modifies_knows {h : Nat} {md : Metadata} (f : Streamer → Streamer)
    (hf : ∀ s, (f s).session = s.session) :
    TotalTriple (Knows h md) (modifies f) fun _ => Knows h md := by
  refine total_modifies fun m hm => ?_
  rw [Knows, hf]
  exact hm

theorem total_mapFile {P : Machine → Prop} {md : Metadata} {i offset size : Int} (hi : 0 ≤ i) :
    TotalTriple P (mapFile md i offset size) fun _ => P :=
  fun m hm => ⟨_, m, mapFile_eq_ok.mpr ⟨hi, rfl, rfl⟩, hm⟩

/-- **Selecting a file returns** where the metadata is there and the user, if asked, answers
with one of the torrent's files. -/
theorem total_selectFile {env : Env} {h : Nat} {md : Metadata} :
    TotalTriple (fun m => m.AnswerExists md.val ∧ Knows h md m) (selectFile env h)
      fun _ => Knows h md := by
  refine TotalTriple.bind total_indexOfLargestFileInTorrent fun i => TotalTriple.assume fun hi => ?_
  obtain ⟨fe, hfe⟩ := hi
  -- the chosen file is one of the torrent's, so each index below is in range
  have hrange : 0 ≤ i ∧ i < md.val.numFiles := TorrentInfo.fileAt_isSome_iff.mp (by rw [hfe]; rfl)
  refine TotalTriple.bind total_filePriorities fun ps => TotalTriple.assume fun hps => ?_
  refine TotalTriple.bind (total_orFault (setAt_eq_some.mpr ⟨?_, rfl⟩)) fun ps' =>
    TotalTriple.assume fun _ => ?_
  · rw [List.length_map, hps]
    exact hrange
  refine TotalTriple.bind total_send_knows fun _ => ?_
  refine TotalTriple.bind total_torrentFile fun info => TotalTriple.assume fun hinfo => ?_
  refine TotalTriple.bind (total_orFault hinfo) fun md' => TotalTriple.assume fun hmd => ?_
  subst hmd
  refine TotalTriple.bind (total_orFault hfe) fun fe' => TotalTriple.assume fun _ => ?_
  refine TotalTriple.bind (total_setMinPieces _) fun _ => ?_
  refine TotalTriple.bind total_getMinPieces fun min => ?_
  refine TotalTriple.bind (total_mapFile hrange.1) fun _ => ?_
  refine TotalTriple.bind (total_mapFile hrange.1) fun _ => ?_
  refine TotalTriple.bind (total_modifies_knows _ fun _ => rfl) fun _ => ?_
  refine TotalTriple.bind total_send_knows fun _ => ?_
  refine TotalTriple.bind total_piecePriorities fun ps => ?_
  refine TotalTriple.bind total_send_knows fun _ => ?_
  refine TotalTriple.bind (total_gets _) fun required => ?_
  refine TotalTriple.bind (total_each fun piece _ => ?_) fun _ => ?_
  · exact TotalTriple.bind total_send_knows fun _ => total_send_knows
  exact TotalTriple.bind total_statusOf fun st => total_modifies_knows _ fun _ => rfl

/-- The metadata alert returns where the save path is set and the metadata is there, or where
there is no room for the download. -/
theorem returns_metadataReceivedAlert {env : Env} {h : Nat}
    (ht : ∃ t, m.streamer.session.find? h = some t) (hpath : m.streamer.savePath.isSome)
    (hroom : ¬ env.LowSpace h → ∃ md, m.AnswerExists md.val ∧ Knows h md m) :
    Returns (metadataReceivedAlert env h) m := by
  obtain ⟨path, hpath⟩ := Option.isSome_iff_exists.mp hpath
  refine Returns.bind ⟨_, m, statusOf_eq_ok.mpr ⟨ht, rfl, rfl⟩⟩ fun st m₁ h₁ => ?_
  obtain ⟨-, rfl, hm₁⟩ := statusOf_eq_ok.mp h₁
  refine Returns.bind ⟨(), _, rfl⟩ fun _ m₂ h₂ => ?_
  replace h₂ := modifies_eq_ok.mp h₂
  have hs₂ : m₂.streamer = m.streamer.needs (env.status h).totalWanted := by
    rw [h₂, hm₁]
    rfl
  have hg₂ : m₂.globals = m.globals := by rw [h₂, hm₁]
  refine Returns.bind ⟨_, m₂, rfl⟩ fun path? m₃ h₃ => ?_
  obtain ⟨rfl, hm₃⟩ := gets_eq_ok.mp h₃
  have hpath₂ : m₂.streamer.savePath = some path := by rw [hs₂]; exact hpath
  refine Returns.bind ⟨path, m₃, orFault_eq_ok.mpr ⟨hpath₂, rfl⟩⟩ fun _ m₄ h₄ => ?_
  obtain ⟨-, hm₄⟩ := orFault_eq_ok.mp h₄
  refine Returns.bind ⟨_, m₄, rfl⟩ fun space m₅ h₅ => ?_
  obtain ⟨rfl, hm₅⟩ := gets_eq_ok.mp h₅
  have hspace : m₄.streamer.requiredSpace = (env.status h).totalWanted := by
    rw [hm₄, hm₃, hs₂]
    rfl
  rw [hspace]
  -- without room the failure block is called and the run cancelled, which returns
  refine Returns.ite (fun hlow => ?_) fun hroom' => ?_
  · refine Returns.bind ⟨_, m₅, rfl⟩ fun failure m₆ h₆ => ?_
    exact returns_failStart env failure _ m₆
  · obtain ⟨md, hanswer, hknows⟩ := hroom hroom'
    have hs₅ : m₅.streamer = m.streamer.needs (env.status h).totalWanted := by
      rw [hm₅, hm₄, hm₃, hs₂]
    have hg₅ : m₅.globals = m.globals := by rw [hm₅, hm₄, hm₃, hg₂]
    have hknows₅ : Knows h md m₅ := by
      rw [Knows, hs₅]
      exact hknows
    refine total_selectFile.returns ⟨?_, hknows₅⟩
    unfold Machine.AnswerExists Machine.answer?
    rw [hg₅, hs₅]
    exact hanswer

/-! ## What a start tells -/

def Effect.isAdded : Effect → Bool
  | .added _ => true
  | _ => false

def Effect.isFailure (b : BlockId) : Effect → Bool
  | .calledFailure b' _ => b' = b
  | _ => false

/-- How many torrents are added. -/
def additions (es : List Effect) : Nat := es.countP Effect.isAdded

/-- How often the failure block `b` is called. -/
def failures (b : BlockId) (es : List Effect) : Nat := es.countP (Effect.isFailure b)

/-- From `s` to `s'` there are `added` additions and `failed` calls of the failure block. -/
def Streamer.Tells (b : BlockId) (added failed : Nat) (s s' : Streamer) : Prop :=
  ∃ es, s'.effects = s.effects ++ es ∧ additions es = added ∧ failures b es = failed

namespace Streamer.Tells

variable {b : BlockId} {i j k l : Nat} {s s' s'' : Streamer}

theorem trans (h : s.Tells b i j s') (h' : s'.Tells b k l s'') :
    s.Tells b (i + k) (j + l) s'' := by
  obtain ⟨es, he, rfl, rfl⟩ := h
  obtain ⟨es', he', rfl, rfl⟩ := h'
  exact ⟨es ++ es', by rw [he', he, List.append_assoc], List.countP_append, List.countP_append⟩

theorem of_effects (h : s'.effects = s.effects) : s.Tells b 0 0 s' :=
  ⟨[], by rw [h, List.append_nil], rfl, rfl⟩

/-- Neither an addition nor a failure is among the effects. -/
theorem silent {es : List Effect} (h : s'.effects = s.effects ++ es)
    (hes : ∀ e ∈ es, e.isAdded = false ∧ e.isFailure b = false) : s.Tells b 0 0 s' := by
  refine ⟨es, h, List.countP_eq_zero.mpr fun e he => ?_, List.countP_eq_zero.mpr fun e he => ?_⟩
  · rw [(hes e he).1]
    decide
  · rw [(hes e he).2]
    decide

theorem sent (env : Env) (h : Nat) (cs : List TorrentCommand) (s : Streamer) :
    s.Tells b 0 0 (s.sent env h cs) := by
  refine silent rfl fun e he => ?_
  obtain ⟨c, -, rfl⟩ := List.mem_map.mp he
  exact ⟨rfl, rfl⟩

theorem dispatch (block : MainBlock) (s : Streamer) : s.Tells b 0 0 (s.dispatch block) :=
  ⟨[.dispatched block], rfl, rfl, rfl⟩

theorem failure (error : NSError) (s : Streamer) :
    s.Tells b 0 1 (s.log (failureEffects (some b) error)) :=
  ⟨_, rfl, rfl, by simp [failures, failureEffects, Effect.isFailure]⟩

theorem unique (h : s.Tells b i j s') (h' : s.Tells b k l s') : i = k ∧ j = l := by
  obtain ⟨es, he, rfl, rfl⟩ := h
  obtain ⟨es', he', rfl, rfl⟩ := h'
  obtain rfl : es = es' := List.append_cancel_left (he.symm.trans he')
  exact ⟨rfl, rfl⟩

end Streamer.Tells

variable {b : BlockId}

theorem tells_cancel {env : Env} {u : Unit}
    (hx : cancelStreamingAndDeleteData env false m = .ok u m') :
    m.streamer.Tells b 0 0 m'.streamer := by
  obtain ⟨-, session, es, hes, hs, -⟩ := cancel_keeping_ok hx
  rw [hs]
  have heffects : (m.streamer.cancelled session es).effects = m.streamer.effects ++
      (es ++ [.cancelled, .dispatched (.networkActivityIndicator false)]) := by
    simp [Streamer.cancelled, Streamer.dispatch, Streamer.log, Streamer.reset, Streamer.withSession]
  refine .silent heffects ?_
  · intro e he
    rcases List.mem_append.mp he with he | he
    · have hteardown := hes e he
      cases e <;> first | exact hteardown.elim | exact ⟨rfl, rfl⟩
    · rcases List.mem_pair.mp he with rfl | rfl <;> exact ⟨rfl, rfl⟩

theorem Selects.silent {g g' : Globals} {block? : Option SelectionBlock} {ti? : Option TorrentInfo}
    {i : Int} {es : List Effect} (h : Selects g block? ti? i g' es) :
    ∀ e ∈ es, e.isAdded = false ∧ e.isFailure b = false := by
  cases h <;> simp [Effect.isAdded, Effect.isFailure]

theorem tells_selectFile {env : Env} {h : Nat} {u : Unit} (hx : selectFile env h m = .ok u m') :
    m.streamer.Tells b 0 0 m'.streamer := by
  obtain ⟨t, md, i, g, es, fe, -, -, hselects, -, -, hs⟩ := selectFile_ok hx
  rw [hs]
  have hlog : m.streamer.Tells b 0 0 (m.streamer.log es) := .silent rfl hselects.silent
  exact (hlog.trans (.sent env h _ _)).trans (.of_effects rfl)

/-- The metadata alert tells of a failure when there is no room for the download. -/
theorem tells_metadataReceivedAlert {env : Env} {h : Nat} {u : Unit}
    (hx : metadataReceivedAlert env h m = .ok u m')
    (hfailure : m.streamer.failureBlock = some b) :
    m.streamer.Tells b 0 (if env.LowSpace h then 1 else 0) m'.streamer := by
  obtain ⟨-, -, ⟨hlow, m₁, -, hs₁, hcancel⟩ | ⟨hroom, m₁, -, hs₁, hselect⟩⟩ :=
    metadataReceivedAlert_ok hx
  · rw [if_pos hlow]
    rw [hfailure] at hs₁
    have hfail : m.streamer.Tells b 0 1 m₁.streamer := by
      rw [hs₁]
      exact .failure _ (m.streamer.needs _)
    exact hfail.trans (tells_cancel hcancel)
  · rw [if_neg hroom]
    have hneeds : m.streamer.Tells b 0 0 m₁.streamer := by
      rw [hs₁]
      exact .of_effects rfl
    exact hneeds.trans (tells_selectFile hselect)

theorem tells_failStart {env : Env} {error : NSError} {u : Unit}
    (hx : failStart env (some b) error m = .ok u m') : m.streamer.Tells b 0 1 m'.streamer := by
  obtain ⟨m₁, -, hs₁, hcancel⟩ := failStart_ok hx
  have hfail : m.streamer.Tells b 0 1 m₁.streamer := by
    rw [hs₁]
    exact .failure error m.streamer
  exact hfail.trans (tells_cancel hcancel)

/-- The torrent of the session that has the info-hash of the parameters. -/
def Session.holding? (session : Session) (tp : AddTorrentParams) : Option Torrent :=
  session.torrents.find? (·.infoHash = tp.hash)

/-- The handle `add_torrent` answers with. -/
def Session.handleFor (session : Session) (tp : AddTorrentParams) : Nat :=
  match session.holding? tp with
  | some t => t.handle
  | none => session.nextHandle

theorem tells_addAndResume {env : Env} {arg : Text} {tp : AddTorrentParams} {u : Unit}
    (hx : addAndResume env arg (some b) tp m = .ok u m')
    (hfailure : m.streamer.failureBlock = some b) :
    m.streamer.Tells b (if m.streamer.session.holding? tp = none then 1 else 0)
      (if isMagnet arg = false ∧ env.LowSpace (m.streamer.session.handleFor tp) then 1 else 0)
      m'.streamer := by
  obtain ⟨h, s₁, m₂, m₃, hadds, -, -, hs₂, hmeta, -, hs'⟩ := addAndResume_ok hx
  -- what is told at each of the parts: the addition, the commands, the metadata, the resume
  have hadded : m.streamer.Tells b (if m.streamer.session.holding? tp = none then 1 else 0) 0 s₁ ∧
      h = m.streamer.session.handleFor tp ∧ s₁.failureBlock = some b := by
    cases hadds with
    | found t ht =>
        have hholding : m.streamer.session.holding? tp = some t := ht
        rw [Session.handleFor, hholding, if_neg (by simp)]
        exact ⟨⟨_, rfl, rfl, rfl⟩, rfl, hfailure⟩
    | added order hnew =>
        have hholding : m.streamer.session.holding? tp = none := hnew
        rw [Session.handleFor, hholding, if_pos rfl]
        exact ⟨⟨_, rfl, rfl, rfl⟩, rfl, hfailure⟩
  obtain ⟨hadded, rfl, hfailure₁⟩ := hadded
  have hcommands : s₁.Tells b 0 0 m₂.streamer := by
    rw [hs₂]
    exact .sent env _ addCommands s₁
  have hmeta : m₂.streamer.Tells b 0 (if isMagnet arg = false ∧
      env.LowSpace (m.streamer.session.handleFor tp) then 1 else 0) m₃.streamer := by
    rcases hmeta with ⟨hmagnet, rfl⟩ | ⟨hfile, hmeta⟩
    · rw [if_neg (by simp [hmagnet])]
      exact .of_effects rfl
    · have hfailure₂ : m₂.streamer.failureBlock = some b := by
        rw [hs₂]
        exact hfailure₁
      have htells := tells_metadataReceivedAlert hmeta hfailure₂
      simpa only [hfile, true_and] using htells
  have hresume : m₃.streamer.Tells b 0 0 m'.streamer := by
    rw [hs']
    exact .dispatch _ m₃.streamer.resumes
  have hall := ((hadded.trans hcommands).trans hmeta).trans hresume
  simpa only [Nat.add_zero, Nat.zero_add] using hall

/-! ## The starts that end well -/

/-- The start returns, and it has added one torrent, or it has added none and called the
failure block once. -/
def EndsWell (env : Env) (arg : Text) (directoryName : Option Text)
    (progress readyToPlay : Option BlockId) (failure : BlockId) (m : Machine) : Prop :=
  ∃ m' added failed, startStreamingFromFileInDirectory env arg directoryName progress readyToPlay
      (some failure) m = .ok () m' ∧
    m.streamer.Tells failure added failed m'.streamer ∧
    (added = 1 ∨ (added = 0 ∧ failed = 1))

/-- `add_torrent` sets no error for the parameters, and it adds a torrent, or it finds one
that the device has no room for. -/
structure Env.Takes (env : Env) (arg : Text) (session : Session) (tp : AddTorrentParams) :
    Prop where
  accepts : env.refusal tp = none
  fresh : ∀ t, session.holding? tp = some t → isMagnet arg = false ∧ env.LowSpace t.handle

/-- The starts that end well, by what their argument is. -/
inductive Handled (env : Env) (arg : Text) (directoryName : Option Text) (m : Machine) : Prop
  | magnet (tp : AddTorrentParams) (hmagnet : isMagnet arg = true)
      (hparse : env.parseMagnetUri arg = .ok tp)
      (htakes : ∀ path, openedPath env (env.md5 arg) directoryName = some path →
        env.Takes arg m.streamer.session (finalParams env arg path tp))
  | missing (hfile : isMagnet arg = false) (hmissing : env.fileExists arg = false)
  | file (md : Metadata) (hfile : isMagnet arg = false) (hexists : env.fileExists arg = true)
      (hparse : env.torrentFile arg = .ok md.val) (hanswer : m.AnswerExists md.val)
      (htakes : ∀ path, openedPath env (env.fileMD5 arg) directoryName = some path →
        env.Takes arg m.streamer.session
          (finalParams env arg path { infoHash := md.val.infoHash, ti := some md.val }))

/-- After a file was chosen the user is not asked again. -/
theorem Selects.flag {g g' : Globals} {block? : Option SelectionBlock} {ti? : Option TorrentInfo}
    {i : Int} {es : List Effect} (h : Selects g block? ti? i g' es) :
    g'.shouldUserSelectFiles = false := by
  cases h with
  | earlier => rfl
  | asked => rfl
  | largest _ hflag => exact hflag
  | only _ hflag => exact hflag

theorem returns_loadParams_magnet {env : Env} {arg : Text} {tp : AddTorrentParams}
    (hmagnet : isMagnet arg = true) (hparse : env.parseMagnetUri arg = .ok tp) :
    Returns (loadParams env arg) m := by
  refine Returns.ite (fun _ => ?_) fun hfile => absurd hmagnet hfile
  rw [hparse]
  exact Returns.pure _ _

theorem returns_loadParams_missing {env : Env} {arg : Text} (hfile : isMagnet arg = false)
    (hmissing : env.fileExists arg = false) : Returns (loadParams env arg) m := by
  refine Returns.ite (fun hmagnet => absurd hmagnet (by simp [hfile])) fun _ => ?_
  exact Returns.ite (fun hexists => absurd hexists (by simp [hmissing])) fun _ => Returns.pure _ _

theorem returns_loadParams_file {env : Env} {arg : Text} {md : Metadata}
    (hfile : isMagnet arg = false) (hexists : env.fileExists arg = true)
    (hparse : env.torrentFile arg = .ok md.val) (hanswer : m.AnswerExists md.val) :
    Returns (loadParams env arg) m := by
  obtain ⟨i, m₁, fe, hx, hfe⟩ := returns_select hanswer
  refine Returns.ite (fun hmagnet => absurd hmagnet (by simp [hfile])) fun _ => ?_
  refine Returns.ite (fun _ => ?_) fun hmissing => absurd hexists hmissing
  rw [hparse]
  refine Returns.bind ⟨i, m₁, hx⟩ fun i' m₂ h₂ => ?_
  obtain ⟨rfl, rfl⟩ : i' = i ∧ m₂ = m₁ := by
    rw [hx] at h₂
    cases h₂
    exact ⟨rfl, rfl⟩
  refine Returns.bind ⟨fe, m₂, orFault_eq_ok.mpr ⟨hfe, rfl⟩⟩ fun fe' m₃ _ => ?_
  refine Returns.bind ⟨(), m₃, ?_⟩ fun _ m₄ _ => ?_
  · -- metadata with which a torrent can be added has pieces
    exact whenever_eq_ok.mpr (Or.inr ⟨md.pieceLength_pos.ne', rfl⟩)
  exact Returns.bind ⟨(), _, rfl⟩ fun _ m₅ _ => Returns.pure _ _

theorem returns_openSavePath (env : Env) (md5 : Text) (directoryName : Option Text) (m : Machine) :
    Returns (openSavePath env md5 directoryName) m := by
  unfold openSavePath
  cases env.downloadDirectory with
  | none => exact Returns.pure _ _
  | some basePath =>
      refine Returns.bind ⟨(), _, rfl⟩ fun _ m₁ _ => ?_
      refine Returns.ite (fun _ => Returns.pure _ _) fun _ => ?_
      cases env.createDirectory _ with
      | some error => exact Returns.pure _ _
      | none => exact Returns.pure _ _

theorem addTorrent_returns {env : Env} {tp : AddTorrentParams}
    (haccepts : env.refusal tp = none) (m : Machine) :
    ∃ h m', addTorrent env tp m = .ok (.ok h) m' := by
  unfold addTorrent
  rw [haccepts]
  dsimp only
  rw [bind_of_ok (show gets _ m = .ok _ _ from rfl)]
  cases m.streamer.session.torrents.find? (·.infoHash = tp.hash) with
  | some t => exact ⟨_, _, rfl⟩
  | none => exact ⟨_, _, rfl⟩

/-- The torrent behind the handle `add_torrent` answers with. -/
theorem Adds.find? {tp : AddTorrentParams} {s s' : Streamer} {h : Nat} (hadds : Adds tp s h s')
    (hs : s.Sound) (hpath : s.savePath.isSome) :
    ∃ t, s'.session.find? h = some t ∧ (s.session.holding? tp = some t ∨
      (s.session.holding? tp = none ∧ t = tp.torrent h)) := by
  cases hadds with
  | found t ht => exact ⟨t, hs.find?_of_mem (List.mem_of_find?_eq_some ht), Or.inl ht⟩
  | added order hnew =>
      have hhandle := AddTorrentParams.torrent_handle tp s.session.nextHandle
      have hsound : (s.withSession (s.session.insert order (tp.torrent s.session.nextHandle))
          [.added s.session.nextHandle]).Sound :=
        hs.added hhandle (Torrent.allWanted_of_params tp _) hpath
      refine ⟨tp.torrent s.session.nextHandle, ?_, Or.inr ⟨hnew, rfl⟩⟩
      have hfind := hsound.find?_of_mem (Session.mem_insert.mpr (Or.inl rfl))
      rwa [hhandle] at hfind

theorem returns_addAndResume {env : Env} {arg : Text} {failure : Option BlockId}
    {tp : AddTorrentParams} (htakes : env.Takes arg m.streamer.session tp)
    (hs : m.streamer.Sound) (hpath : m.streamer.savePath.isSome)
    (hfile : isMagnet arg = false →
      m.globals.shouldUserSelectFiles = false ∧ ∃ md, tp.info = some md) :
    Returns (addAndResume env arg failure tp) m := by
  obtain ⟨h, m₁, hadd⟩ := addTorrent_returns htakes.accepts m
  obtain ⟨-, hg₁, hadds⟩ := addTorrent_ok hadd
  obtain ⟨t, ht, horigin⟩ := hadds.find? hs hpath
  have hpath₁ : m₁.streamer.savePath.isSome := by
    generalize m₁.streamer = s₁ at hadds ⊢
    cases hadds <;> exact hpath
  refine Returns.bind ⟨_, m₁, hadd⟩ fun th m₂ h₂ => ?_
  obtain ⟨rfl, rfl⟩ : th = .ok h ∧ m₂ = m₁ := by
    rw [hadd] at h₂
    cases h₂
    exact ⟨rfl, rfl⟩
  refine Returns.bind ⟨h, m₂, rfl⟩ fun h' m₃ h₃ => ?_
  obtain ⟨hh, hm₃⟩ := orFault_eq_ok.mp h₃
  obtain rfl : h = h' := Option.some.inj hh
  -- the three commands leave the torrent and its metadata where they are
  let I : Machine → Prop := fun m' =>
    (∃ t', m'.streamer.session.find? h = some t' ∧ t'.info = t.info) ∧
      m'.globals = m.globals ∧ m'.streamer.savePath.isSome
  have hsend : ∀ c, TotalTriple I (send env h c) fun _ => I := by
    refine fun c => total_send (fun m' hm' => ?_) fun m' hm' => ?_
    · obtain ⟨⟨t', ht', -⟩, -⟩ := hm'
      exact ⟨t', ht'⟩
    · obtain ⟨⟨t', ht', hinfo⟩, hg, hp⟩ := hm'
      refine ⟨⟨t'.applyAll (env.downloaded h) [c], ?_, ?_⟩, hg, hp⟩
      · refine (find?_sent _ _ _ _ _).trans ?_
        rw [if_pos rfl, ht']
        rfl
      · rw [Torrent.applyAll_info, hinfo]
  have hmeta : TotalTriple I (whenever (!isMagnet arg) (metadataReceivedAlert env h))
      fun _ _ => True := by
    rintro m' ⟨⟨t', ht', hinfo⟩, hg, hp⟩
    have hreturns : Returns (whenever (!isMagnet arg) (metadataReceivedAlert env h)) m' := by
      refine Returns.ite (fun hmagnet => ?_) fun _ => Returns.pure _ _
      obtain ⟨hflag, md, hmd⟩ := hfile (by simpa using hmagnet)
      refine returns_metadataReceivedAlert ⟨t', ht'⟩ hp fun hroom => ?_
      rcases horigin with hheld | ⟨-, rfl⟩
      · -- a torrent that was found is there because the device has no room
        exact absurd (htakes.fresh t hheld).2 (by rwa [Session.find?_handle ht])
      · have hsilent : m'.globals.shouldUserSelectFiles = false := by rw [hg, hflag]
        refine ⟨md, fun hasked => ?_, t', ht', ?_⟩
        · rw [hsilent] at hasked
          cases hasked
        rw [hinfo, AddTorrentParams.torrent, hmd]
        rfl
    obtain ⟨u, m'', hx⟩ := hreturns
    exact ⟨u, m'', hx, trivial⟩
  have hI₃ : I m₃ := by
    rw [hm₃]
    exact ⟨⟨t, ht, rfl⟩, hg₁, hpath₁⟩
  refine @TotalTriple.returns _ _ _ I (fun _ _ => True) _ _ ?_ hI₃
  · refine TotalTriple.bind (hsend _) fun _ => ?_
    refine TotalTriple.bind (hsend _) fun _ => ?_
    refine TotalTriple.bind (hsend _) fun _ => ?_
    refine TotalTriple.bind hmeta fun _ => ?_
    refine TotalTriple.bind (total_gets _) fun paused => ?_
    refine TotalTriple.bind (total_whenever fun _ => ?_) fun _ => ?_
    · exact total_modifies fun _ _ => trivial
    · exact total_modifies fun _ _ => trivial

theorem Loads.session {env : Env} {arg : Text} {p : AddTorrentParams × Text}
    (h : Loads env arg m m' p) : m'.streamer.session = m.streamer.session := by
  obtain ⟨es, hs⟩ := h.frame
  rw [hs]
  rfl

/-- A torrent file has its metadata in the parameters, and the user is not asked again. -/
theorem Loads.info {env : Env} {arg path md5 : Text} {tp : AddTorrentParams}
    (h : Loads env arg m m' (tp, md5)) (hfile : isMagnet arg = false) :
    m'.globals.shouldUserSelectFiles = false ∧
      ∃ md, (finalParams env arg path tp).info = some md := by
  cases h with
  | magnet _ hmagnet => rw [hfile] at hmagnet; cases hmagnet
  | file md i fe g es _ hexists hparse hselects hfe hg hs =>
      rw [hg]
      refine ⟨hselects.flag, md, AddTorrentParams.info_eq_some ?_⟩
      simp [finalParams, resumeParams, hfile]

theorem Handled.takes {env : Env} {arg md5 : Text} {directoryName : Option Text}
    {tp : AddTorrentParams} {m₁ m₂ : Machine} (h : Handled env arg directoryName m)
    (hloads : Loads env arg m₁ m₂ (tp, md5)) :
    ∀ path, openedPath env md5 directoryName = some path →
      env.Takes arg m.streamer.session (finalParams env arg path tp) := by
  cases hloads with
  | magnet tp hmagnet hparse =>
      cases h with
      | magnet tp' _ hparse' htakes =>
          obtain rfl := Except.ok.inj (hparse.symm.trans hparse')
          exact htakes
      | missing hfile => rw [hfile] at hmagnet; cases hmagnet
      | file _ hfile => rw [hfile] at hmagnet; cases hmagnet
  | file md i fe g es hfile hexists hparse =>
      cases h with
      | magnet _ hmagnet => rw [hfile] at hmagnet; cases hmagnet
      | missing _ hmissing => rw [hmissing] at hexists; cases hexists
      | file md' _ _ hparse' _ htakes =>
          obtain rfl := Subtype.ext (Except.ok.inj (hparse.symm.trans hparse'))
          exact htakes

theorem returns_of_handled {env : Env} {arg : Text} {directoryName : Option Text}
    {progress readyToPlay failure : Option BlockId} (hs : m.streamer.Sound)
    (h : Handled env arg directoryName m) :
    Returns (startStreamingFromFileInDirectory env arg directoryName progress readyToPlay failure)
      m := by
  refine Returns.bind ⟨(), _, rfl⟩ fun _ m₁ h₁ => ?_
  replace h₁ := modifies_eq_ok.mp h₁
  -- reading the argument returns in each of the three ways to be handled
  have hload : Returns (loadParams env arg) m₁ := by
    cases h with
    | magnet tp hmagnet hparse => exact returns_loadParams_magnet hmagnet hparse
    | missing hfile hmissing => exact returns_loadParams_missing hfile hmissing
    | file md hfile hexists hparse hanswer =>
        refine returns_loadParams_file hfile hexists hparse ?_
        rw [h₁]
        exact hanswer
  refine Returns.bind hload fun r m₂ h₂ => ?_
  rcases loadParams_ok h₂ with ⟨⟨tp, md5⟩, rfl, hloads⟩ | ⟨-, -, ⟨error, rfl⟩, -⟩
  · refine Returns.bind (returns_openSavePath env md5 directoryName m₂) fun opened m₃ h₃ => ?_
    obtain ⟨hg₃, hopened, path?, hs₃, hpath, -⟩ := openSavePath_ok h₃
    cases opened with
    | error error => exact returns_failStart env failure error m₃
    | ok path =>
        have hsession : m₃.streamer.session = m.streamer.session := by
          rw [hs₃]
          refine hloads.session.trans ?_
          rw [h₁]
          rfl
        have hsaved : m₃.streamer.savePath.isSome := by
          rw [hs₃, hpath path rfl]
          rfl
        have hsound : m₃.streamer.Sound := hs.of_session hsession hsaved
        refine returns_addAndResume ?_ hsound hsaved fun hfile => ?_
        · rw [hsession]
          exact h.takes hloads path hopened.symm
        · rw [hg₃]
          exact hloads.info hfile
  · exact returns_failStart env failure error m₂

/-- Reading the argument tells nothing. -/
theorem Loads.tells {env : Env} {arg : Text} {p : AddTorrentParams × Text}
    (h : Loads env arg m m' p) :
    m.streamer.Tells b 0 0 m'.streamer := by
  cases h with
  | magnet tp hmagnet hparse hm =>
      rw [hm]
      exact .of_effects rfl
  | file md i fe g es hfile hexists hparse hselects hfe hg hs =>
      rw [hs]
      exact .silent rfl hselects.silent

theorem Loads.failureBlock {env : Env} {arg : Text} {p : AddTorrentParams × Text}
    (h : Loads env arg m m' p) : m'.streamer.failureBlock = m.streamer.failureBlock := by
  obtain ⟨es, hs⟩ := h.frame
  rw [hs]
  rfl

/-- **What a start that returns tells.** -/
theorem tells_start {env : Env} {arg : Text} {directoryName : Option Text}
    {progress readyToPlay : Option BlockId} {u : Unit}
    (hx : startStreamingFromFileInDirectory env arg directoryName progress readyToPlay (some b) m
      = .ok u m') :
    (isMagnet arg = false ∧ env.fileExists arg = false ∧
      m.streamer.Tells b 0 1 m'.streamer) ∨
    (∃ tp md5 m₁, Loads env arg
        { m with streamer := m.streamer.acquire progress readyToPlay (some b) } m₁ (tp, md5) ∧
      ((openedPath env md5 directoryName = none ∧ m.streamer.Tells b 0 1 m'.streamer) ∨
      ∃ path, openedPath env md5 directoryName = some path ∧
        let session := m.streamer.session
        let tp := finalParams env arg path tp
        env.refusal tp = none ∧
        m.streamer.Tells b (if session.holding? tp = none then 1 else 0)
          (if isMagnet arg = false ∧ env.LowSpace (session.handleFor tp) then 1 else 0)
          m'.streamer)) := by
  -- taking the blocks over and reading the parameters tell nothing
  have hacquire : m.streamer.Tells b 0 0 (m.streamer.acquire progress readyToPlay (some b)) :=
    .of_effects rfl
  rcases startStreamingFromFileInDirectory_ok hx with ⟨hfile, hmissing, error, hfail⟩ |
    ⟨tp, md5, m₁, hloads, hclosed, error, path?, m₂, -, hs₂, -, hfail⟩ |
    ⟨tp, md5, m₁, hloads, path, m₂, hopened, -, hs₂, hadd⟩
  · have htells := tells_failStart hfail
    exact Or.inl ⟨hfile, hmissing, hacquire.trans htells⟩
  · have hload : m.streamer.Tells b 0 0 m₂.streamer := by
      rw [hs₂]
      exact (hacquire.trans hloads.tells).trans (.of_effects rfl)
    exact Or.inr ⟨tp, md5, m₁, hloads, Or.inl ⟨hclosed, hload.trans (tells_failStart hfail)⟩⟩
  · have hload : m.streamer.Tells b 0 0 m₂.streamer := by
      rw [hs₂]
      exact (hacquire.trans hloads.tells).trans (.of_effects rfl)
    have hfailure : m₂.streamer.failureBlock = some b := by
      rw [hs₂]
      exact hloads.failureBlock
    have hsession : m₂.streamer.session = m.streamer.session := by
      rw [hs₂]
      exact hloads.session
    obtain ⟨-, -, -, -, -, haccepts, -⟩ := addAndResume_ok hadd
    have htells := hload.trans (tells_addAndResume hadd hfailure)
    rw [hsession, Nat.zero_add, Nat.zero_add] at htells
    exact Or.inr ⟨tp, md5, m₁, hloads, Or.inr ⟨path, hopened, haccepts, htells⟩⟩

/-- One torrent is added, or none is and one failure is told of, exactly when a torrent that was
found leaves no room. -/
theorem holding?_cases {session : Session} {tp : AddTorrentParams} {env : Env} {arg : Text}
    {added failed : Nat}
    (hadded : added = if session.holding? tp = none then 1 else 0)
    (hfailed : failed =
      if isMagnet arg = false ∧ env.LowSpace (session.handleFor tp) then 1 else 0) :
    (added = 1 ∨ (added = 0 ∧ failed = 1)) ↔
      ∀ t, session.holding? tp = some t → isMagnet arg = false ∧ env.LowSpace t.handle := by
  cases hheld : session.holding? tp with
  | none => simp [hadded, hheld]
  | some t =>
      have hhandle : session.handleFor tp = t.handle := by rw [Session.handleFor, hheld]
      simp [hadded, hfailed, hheld, hhandle]

/-- A start whose argument could be read is handled when `add_torrent` takes its parameters. -/
theorem Loads.handled {env : Env} {arg md5 : Text} {directoryName : Option Text}
    {tp : AddTorrentParams} {progress readyToPlay failure : Option BlockId} {m₁ : Machine}
    (h : Loads env arg { m with streamer := m.streamer.acquire progress readyToPlay failure } m₁
      (tp, md5))
    (htakes : ∀ path, openedPath env md5 directoryName = some path →
      env.Takes arg m.streamer.session (finalParams env arg path tp)) :
    Handled env arg directoryName m := by
  cases h with
  | magnet tp hmagnet hparse => exact .magnet tp hmagnet hparse htakes
  | file md i fe g es hfile hexists hparse hselects hfe =>
      exact .file md hfile hexists hparse (by exact hselects.answerExists hfe) htakes

/-- **A start ends well exactly when it is handled**, in every state of every history and
whatever the shared variables hold. -/
theorem endsWell_iff {env : Env} {arg : Text} {directoryName : Option Text}
    {progress readyToPlay : Option BlockId} {failure : BlockId} (hm : Reachable m)
    (g : Globals) :
    EndsWell env arg directoryName progress readyToPlay failure { m with globals := g } ↔
      Handled env arg directoryName { m with globals := g } := by
  constructor
  -- a start that ends well has told of one torrent added or one failure, not of both
  · rintro ⟨m', added, failed, hx, htells, hends⟩
    rcases tells_start hx with ⟨hfile, hmissing, -⟩ | ⟨tp, md5, m₁, hloads, hadd⟩
    · exact .missing hfile hmissing
    refine hloads.handled fun path hopened => ?_
    rcases hadd with ⟨hclosed, -⟩ | ⟨path', hopened', haccepts, htells'⟩
    · rw [hopened] at hclosed
      cases hclosed
    obtain rfl := Option.some.inj (hopened.symm.trans hopened')
    obtain ⟨hadded, hfailed⟩ := htells.unique htells'
    exact ⟨haccepts, (holding?_cases hadded hfailed).mp hends⟩
  · intro h
    have hreturns : Returns (startStreamingFromFileInDirectory env arg directoryName progress
        readyToPlay (some failure)) { m with globals := g } :=
      returns_of_handled (by exact hm.sound) h
    obtain ⟨u, m', hx⟩ := hreturns
    rcases tells_start hx with ⟨-, -, htells⟩ | ⟨tp, md5, m₁, hloads, hadd⟩
    · exact ⟨m', 0, 1, hx, htells, Or.inr ⟨rfl, rfl⟩⟩
    rcases hadd with ⟨-, htells⟩ | ⟨path, hopened, -, htells⟩
    · exact ⟨m', 0, 1, hx, htells, Or.inr ⟨rfl, rfl⟩⟩
    have hfresh := (h.takes hloads path hopened).fresh
    exact ⟨m', _, _, hx, htells, (holding?_cases rfl rfl).mpr hfresh⟩

/-- Answers with which no link and no file parses. -/
def Env.unparsable : Env :=
  { Env.calm (Metadata.films 1 1 []) fun _ => false with
    torrentFile := fun _ => .error "invalid bencoding".toList
    parseMagnetUri := fun _ => .error "missing info-hash from URI".toList }

/-- Whether a start returns from a newly initialised streamer. -/
def startReturns (env : Env) (arg : String) : Bool :=
  match startStreamingFromFile env arg.toList none none (some ⟨0, 0⟩) (Machine.init 0) with
  | .ok _ _ => true
  | .error _ _ => false

/-- A file that is no torrent and a link that does not parse: the start does not return. -/
theorem not_endsWell_unparsable :
    ¬ EndsWell .unparsable "a.torrent".toList none none none ⟨0, 0⟩ (Machine.init 0) ∧
    ¬ EndsWell .unparsable "magnet:?".toList none none none ⟨0, 0⟩ (Machine.init 0) := by
  have hstops : startReturns .unparsable "a.torrent" = false ∧
      startReturns .unparsable "magnet:?" = false := by decide +kernel
  refine ⟨?_, ?_⟩
  · rintro ⟨m', added, failed, hx, -⟩
    have hreturns : startReturns .unparsable "a.torrent" = true := by
      rw [startReturns, startStreamingFromFile, hx]
    rw [hstops.1] at hreturns
    cases hreturns
  · rintro ⟨m', added, failed, hx, -⟩
    have hreturns : startReturns .unparsable "magnet:?" = true := by
      rw [startReturns, startStreamingFromFile, hx]
    rw [hstops.2] at hreturns
    cases hreturns

/-- A torrent file that is there, started on a newly initialised streamer. -/
theorem endsWell_oneFilm :
    EndsWell (.calm (Metadata.films 1 40 []) fun _ => false) "a.torrent".toList none none none
      ⟨0, 0⟩ (Machine.init 0) := by
  have hm : Reachable (Machine.init 0) := ⟨0, [], rfl⟩
  refine (endsWell_iff hm {}).mpr ?_
  refine .file (Metadata.films 1 40 []) (by decide) rfl rfl (fun hflag => by cases hflag) ?_
  intro path _
  exact ⟨rfl, fun t ht => by cases ht⟩

end BtDownloader
