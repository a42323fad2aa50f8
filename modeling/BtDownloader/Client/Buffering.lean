import BtDownloader.Client.Advance
import BtDownloader.Client.ChosenPieces
import BtDownloader.Client.Moves

set_option autoImplicit false

/-! # The buffering progress

`pieceFinishedAlert` divides by the number of required pieces. `prioritizeNextPieces` clears them
before it asks for the next window, and a window behind the last piece is empty.

* `buffers_of_opens`: in which runs every piece-finished alert finds required pieces.
-/

namespace BtDownloader

open Program

variable {m m' : Machine} {env : Env} {h : Nat} {u : Unit}

/-! ## What is claimed -/

/-- The quotient that `pieceFinishedAlert` tells is defined, lies in `[0, 1]`, and is `1` exactly
when all required pieces are downloaded. -/
def Buffered (env : Env) (h : Nat) (t : Torrent) (m : Machine) : Prop :=
  m.streamer.requiredPieces ≠ [] ∧ ∃ all m₁ q, tellProgress env h m = .ok all m₁ ∧
    m₁.streamer.torrentStatus.bufferingProgress = some q ∧ 0 ≤ q ∧ q ≤ 1 ∧
    (q = 1 ↔ t.hasAll env m.streamer.requiredPieces = true)

/-- Where a run goes on, every piece-finished alert that libtorrent may deliver now finds the
quotient defined, whatever torrent of the session it is about. -/
def Machine.Buffers (m : Machine) : Prop :=
  m.streamer.live ≠ none → ∀ (env : Env) (h piece : Nat) (t : Torrent),
    m.streamer.session.find? h = some t →
      m.streamer.session.canDeliver (.pieceFinished h piece) = true →
        Buffered env h t { m with streamer := m.streamer.delivers (.pieceFinished h piece) }

/-! ## The quotient -/

theorem bufferingProgress_of_pos {required downloaded : Nat} (hpos : 0 < required)
    (hle : downloaded ≤ required) : ∃ q, bufferingProgress required downloaded = some q ∧
      0 ≤ q ∧ q ≤ 1 ∧ (q = 1 ↔ downloaded = required) := by
  have hpos' : (0 : ℚ) < required := by exact_mod_cast hpos
  have hle' : (downloaded : ℚ) ≤ required := by exact_mod_cast hle
  have hquotient : 1 - ((required : ℚ) - downloaded) / required = downloaded / required := by
    field_simp
    ring
  refine ⟨downloaded / required, ?_, by positivity, ?_, ?_⟩
  · rw [bufferingProgress, if_neg (by omega), hquotient]
  · rw [div_le_one hpos']
    exact hle'
  · rw [div_eq_one_iff_eq hpos'.ne']
    exact Nat.cast_inj

theorem Torrent.hasAll_iff_length {t : Torrent} {ps : List Int} :
    t.hasAll env ps = true ↔ (ps.filter (t.has env)).length = ps.length := by
  rw [List.length_filter_eq_length_iff, Torrent.hasAll, List.all_eq_true]

/-- On a session that is not paused, a non-empty list is enough. -/
theorem buffered_of_required {t : Torrent} (ht : m.streamer.session.find? h = some t)
    (hrunning : m.streamer.session.paused = false) (hrequired : m.streamer.requiredPieces ≠ []) :
    Buffered env h t m := by
  obtain ⟨all, m₁, htell⟩ := @returns_tellProgress m env h t ht
  obtain ⟨-, -, -, n, hs₁, hcount⟩ := tellProgress_ok htell
  have hn := hcount t ht hrunning
  have hle : n ≤ m.streamer.requiredPieces.length := by
    rw [hn]
    exact List.length_filter_le _ _
  obtain ⟨q, hq, hnonneg, hone, hall⟩ :=
    bufferingProgress_of_pos (List.length_pos_iff.mpr hrequired) hle
  refine ⟨hrequired, all, m₁, q, htell, ?_, hnonneg, hone, ?_⟩
  · rw [hs₁]
    exact hq
  · rw [hall, hn, Torrent.hasAll_iff_length]

/-! ## Runs that go on -/

/-- Libtorrent may report pieces of a torrent of the session: its metadata is there, and the alert
about it is delivered. -/
def Session.ReportsPieces (session : Session) : Prop :=
  ∃ t ∈ session.torrents, t.info.isSome = true ∧
    .metadataReceived t.handle ∉ session.outstanding

instance (session : Session) : Decidable session.ReportsPieces :=
  inferInstanceAs (Decidable (∃ t ∈ session.torrents, _ ∧ _))

/-- The invariant of a run: while it goes on, its session is not paused, and once pieces may be
reported there are required ones. -/
structure Machine.Supplied (m : Machine) : Prop where
  running : m.streamer.live ≠ none → m.streamer.session.paused = false
  required : m.streamer.live ≠ none → m.streamer.session.ReportsPieces →
    m.streamer.requiredPieces ≠ []

theorem Machine.Supplied.buffers (hm : m.Supplied) : m.Buffers := by
  intro hlive env h piece t ht hcan
  have hknown : t.info.isSome = true ∧
      .metadataReceived h ∉ m.streamer.session.outstanding := by
    rw [Session.canDeliver, Session.canDeliver.known, ht] at hcan
    simpa using hcan
  refine buffered_of_required ht (hm.running hlive) (hm.required hlive ?_)
  refine ⟨t, Session.find?_mem ht, hknown.1, ?_⟩
  rw [Session.find?_handle ht]
  exact hknown.2

/-- From `s` to `s'` no run begins, and if one goes on the session is paused or not as before. -/
structure Streamer.GoesOn (s s' : Streamer) : Prop where
  live : s'.live = s.live ∨ s'.live = none
  paused : s'.live ≠ none → s'.session.paused = s.session.paused

/-- Besides, if pieces may be reported afterwards, they could be before. -/
structure Streamer.NothingNew (s s' : Streamer) : Prop extends s.GoesOn s' where
  reports : s'.session.ReportsPieces → s.session.ReportsPieces

namespace Streamer.GoesOn

variable {s s' s'' : Streamer}

theorem of_dead (hdead : s'.live = none) : s.GoesOn s' :=
  ⟨Or.inr hdead, fun hlive => absurd hdead hlive⟩

theorem live_of (h : s.GoesOn s') (hlive : s'.live ≠ none) : s.live ≠ none := by
  rcases h.live with hsame | hnone
  · rwa [← hsame]
  · exact absurd hnone hlive

theorem trans (h : s.GoesOn s') (h' : s'.GoesOn s'') : s.GoesOn s'' := by
  refine ⟨?_, fun hlive => ?_⟩
  · rcases h'.live with hsame | hnone
    · rw [hsame]
      exact h.live
    · exact Or.inr hnone
  · exact (h'.paused hlive).trans (h.paused (h'.live_of hlive))

end Streamer.GoesOn

theorem Streamer.NothingNew.trans {s s' s'' : Streamer} (h : s.NothingNew s')
    (h' : s'.NothingNew s'') : s.NothingNew s'' :=
  ⟨h.toGoesOn.trans h'.toGoesOn, h.reports ∘ h'.reports⟩

/-- A session that owes the same and whose torrents have the same metadata. -/
theorem Session.ReportsPieces.of_kept {session session' : Session}
    (htorrents : ∀ t' ∈ session'.torrents, ∃ t ∈ session.torrents, t.fileKey = t'.fileKey)
    (howed : ∀ h, .metadataReceived h ∈ session.outstanding →
      .metadataReceived h ∈ session'.outstanding) (hreports : session'.ReportsPieces) :
    session.ReportsPieces := by
  obtain ⟨t', ht', hinfo', hdelivered⟩ := hreports
  obtain ⟨t, ht, hkey⟩ := htorrents t' ht'
  obtain ⟨hhandle, hinfo, -⟩ : t.handle = t'.handle ∧ t.info = t'.info ∧
      t.filePriorities = t'.filePriorities := by simpa [Torrent.fileKey] using hkey
  refine ⟨t, ht, by rw [hinfo, hinfo'], fun howes => hdelivered ?_⟩
  rw [← hhandle]
  exact howed _ howes

theorem Streamer.KeepsFiles.nothingNew {s s' : Streamer} (hkeeps : s.KeepsFiles s')
    (hpaused : s'.session.paused = s.session.paused)
    (howed : s'.session.outstanding = s.session.outstanding) : s.NothingNew s' where
  live := hkeeps.live
  paused _ := hpaused
  reports := .of_kept hkeeps.torrents fun h howes => by rwa [howed]

/-- What requires the same pieces and lets no other pieces be reported keeps the invariant. -/
theorem Machine.Supplied.kept (hm : m.Supplied) (hnew : m.streamer.NothingNew m'.streamer)
    (hrequired : m'.streamer.requiredPieces = m.streamer.requiredPieces) : m'.Supplied where
  running hlive := (hnew.paused hlive).trans (hm.running (hnew.live_of hlive))
  required hlive hreports := by
    rw [hrequired]
    exact hm.required (hnew.live_of hlive) (hnew.reports hreports)

/-- So does what leaves some piece required, or ends the run. -/
theorem Machine.Supplied.goesOn (hm : m.Supplied) (hgoes : m.streamer.GoesOn m'.streamer)
    (hrequired : m'.streamer.live ≠ none → m'.streamer.requiredPieces ≠ []) : m'.Supplied where
  running hlive := (hgoes.paused hlive).trans (hm.running (hgoes.live_of hlive))
  required hlive _ := hrequired hlive

theorem supplied_of_dead (hdead : m.streamer.live = none) : m.Supplied :=
  ⟨fun hlive => absurd hdead hlive, fun hlive => absurd hdead hlive⟩

/-! ## Windows that are not empty -/

/-- A window of `k` pieces of torrent `h` from `next` on has a piece. -/
def Machine.OpensWindow (h : Nat) (next : Int) (k : Nat) (m : Machine) : Prop :=
  ∀ t ∈ m.streamer.session.find? h, k ≠ 0 ∧ next < t.numPieces

instance (h : Nat) (next : Int) (k : Nat) (m : Machine) : Decidable (m.OpensWindow h next k) :=
  inferInstanceAs (Decidable (∀ t ∈ m.streamer.session.find? h, _ ∧ _))

theorem windowFrom_ne_nil {next : Int} {k n : Nat} (hk : k ≠ 0) (hnext : next < n) :
    windowFrom next k n ≠ [] := by
  refine List.ne_nil_of_mem (a := next) (mem_windowFrom.mpr ⟨le_rfl, ?_, hnext⟩)
  omega

theorem headAndTail_ne_nil (ti : TorrentInfo) (i : Int) (fe : FileEntry) :
    headAndTail ti i fe ≠ [] := by
  refine List.append_ne_nil_of_right_ne_nil _ ?_
  exact List.ne_nil_of_mem (mem_piecesDownFrom.mpr ⟨by omega, le_rfl⟩)

theorem goesOn_prioritizeNextPieces (hx : prioritizeNextPieces env h m = .ok u m') :
    m.streamer.GoesOn m'.streamer := by
  refine ⟨Or.inl (frames_prioritizeNextPieces hx).live_eq, fun _ => ?_⟩
  obtain ⟨next, t, ps, -, -, -, -, -, hs'⟩ := prioritizeNextPieces_ok hx
  rw [hs']
  rfl

theorem required_prioritizeNextPieces (hopens : ∀ next ∈ m.nextPiece?,
    m.OpensWindow h next m.globals.minPieces.toNat) (hx : prioritizeNextPieces env h m = .ok u m') :
    m'.streamer.requiredPieces ≠ [] := by
  obtain ⟨next, t, ps, hnext, ht, -, -, -, hs'⟩ := prioritizeNextPieces_ok hx
  obtain ⟨hk, hlt⟩ := hopens next hnext t ht
  rw [hs']
  exact windowFrom_ne_nil hk hlt

/-- A metadata alert requires some pieces, or ends the run for lack of room. -/
theorem goesOn_metadataReceivedAlert (hx : metadataReceivedAlert env h m = .ok u m') :
    m.streamer.GoesOn m'.streamer ∧
      (m'.streamer.live ≠ none → m'.streamer.requiredPieces ≠ []) := by
  obtain ⟨-, -, ⟨-, m₁, -, -, hcancel⟩ | ⟨-, m₁, -, hs₁, hselect⟩⟩ := metadataReceivedAlert_ok hx
  · have hdead := live_cancel hcancel
    exact ⟨.of_dead hdead, fun hlive => absurd hdead hlive⟩
  · have hlive' : m'.streamer.live = m.streamer.live := by
      rw [(frames_selectFile hselect).live_eq, hs₁]
      rfl
    obtain ⟨t, md, i, g, es, fe, -, -, -, -, -, hs'⟩ := selectFile_ok hselect
    refine ⟨⟨Or.inl hlive', fun _ => ?_⟩, fun _ => ?_⟩
    · rw [hs', hs₁]
      rfl
    · rw [hs']
      exact List.append_ne_nil_of_right_ne_nil _ (headAndTail_ne_nil md.val i fe)

/-! ## Alerts -/

/-- The window that follows the choice of a file has a piece. -/
def Machine.ChoosesOpen (h : Nat) (m : Machine) : Prop :=
  ∀ md ∈ m.metadata? h, ∀ i ∈ m.choice? md.val, ∀ fe ∈ md.val.fileAt i,
    ∀ next ∈ (m.selecting md i fe).nextPiece?,
      (md.val.minPieces fe).toNat ≠ 0 ∧ next < md.val.numPieces

instance (h : Nat) (m : Machine) : Decidable (m.ChoosesOpen h) :=
  inferInstanceAs (Decidable (∀ md ∈ m.metadata? h, ∀ i ∈ m.choice? md.val,
    ∀ fe ∈ md.val.fileAt i, ∀ next ∈ (m.selecting md i fe).nextPiece?, _ ∧ _))

/-- The condition of a piece-finished alert that finds all required pieces: the next window has a
piece. If `MIN_PIECES` is `0`, the file is chosen first, unless the device has no room. -/
def Machine.StaysOpen (env : Env) (h : Nat) (m : Machine) : Prop :=
  m.allPresent env h = true →
    if m.globals.minPieces = 0 then env.LowSpace h ∨ m.ChoosesOpen h
    else ∀ next ∈ m.nextPiece?, m.OpensWindow h next m.globals.minPieces.toNat

instance (env : Env) (h : Nat) (m : Machine) : Decidable (m.StaysOpen env h) :=
  inferInstanceAs (Decidable (m.allPresent env h = true →
    if m.globals.minPieces = 0 then env.LowSpace h ∨ m.ChoosesOpen h
    else ∀ next ∈ m.nextPiece?, m.OpensWindow h next m.globals.minPieces.toNat))

theorem Machine.SameWindow.goesOn (hsame : m.SameWindow m') : m.streamer.GoesOn m'.streamer :=
  ⟨Or.inl hsame.live, fun _ => by rw [hsame.session]⟩

theorem Machine.SameWindow.choosesOpen (hsame : m.SameWindow m') (hm : m.ChoosesOpen h) :
    m'.ChoosesOpen h := by
  intro md hmd i hi fe hfe next hnext
  rw [hsame.metadata] at hmd
  rw [hsame.choice] at hi
  rw [hsame.selecting.nextPiece] at hnext
  exact hm md hmd i hi fe hfe next hnext

/-- The window after the file was chosen again. -/
theorem opens_afterSelect {m₁ m₂ : Machine} (hselect : selectFile env h m₁ = .ok u m₂)
    (hopen : m₁.ChoosesOpen h) :
    ∀ next ∈ m₂.nextPiece?, m₂.OpensWindow h next m₂.globals.minPieces.toNat := by
  obtain ⟨md, i, fe, hselects⟩ := selectsFile_of_selectFile hselect
  intro next hnext t ht
  rw [hselects.nextPiece] at hnext
  rw [hselects.minPieces, hselects.numPieces ht]
  exact hopen md hselects.metadata i hselects.choice fe hselects.file next hnext

theorem supplied_pieceFinishedAlert (hm : m.Supplied) (hstays : m.StaysOpen env h)
    (hx : pieceFinishedAlert env h m = .ok u m') : m'.Supplied := by
  obtain ⟨-, n, m₁, hg₁, hs₁, hcases⟩ := pieceFinishedAlert_ok hx
  have hsame₁ := sameWindow_progress hg₁ hs₁
  rcases hcases with ⟨-, hg', hs'⟩ | ⟨hall, m₂, hnext, ⟨hpos, hg₂, hs₂⟩ |
    ⟨hzero, m₃, hg₃, hs₃, hmeta⟩⟩
  · have hsame' := hsame₁.of_eq hg' hs'
    refine hm.kept ⟨hsame'.goesOn, fun hreports => ?_⟩ hsame'.requiredPieces
    rwa [hsame'.session] at hreports
  · -- the window goes on
    have hopens := hstays hall
    rw [if_neg hpos] at hopens
    have hsame₂ := hsame₁.of_eq hg₂ hs₂
    refine hm.goesOn (hsame₂.goesOn.trans (goesOn_prioritizeNextPieces hnext)) fun _ => ?_
    refine required_prioritizeNextPieces (fun next hnext' t ht => ?_) hnext
    rw [hsame₂.nextPiece] at hnext'
    rw [hsame₂.session] at ht
    rw [hsame₂.globals]
    exact hopens next hnext' t ht
  · -- the file is chosen again
    have hagain := hstays hall
    rw [if_pos hzero] at hagain
    have hsame₃ := hsame₁.of_eq hg₃ hs₃
    obtain ⟨hgoes₂, -⟩ := goesOn_metadataReceivedAlert hmeta
    have hgoes' := goesOn_prioritizeNextPieces hnext
    refine hm.goesOn (hsame₃.goesOn.trans (hgoes₂.trans hgoes')) fun hlive => ?_
    obtain ⟨-, -, ⟨-, m₄, -, -, hcancel⟩ | ⟨hroom, m₄, hg₄, hs₄, hselect⟩⟩ :=
      metadataReceivedAlert_ok hmeta
    · -- no room: the run is over
      exact absurd (live_cancel hcancel) (hgoes'.live_of hlive)
    · have hsame₄ := hsame₃.needs hg₄ hs₄
      have hopen := hsame₄.choosesOpen (hagain.resolve_left hroom)
      exact required_prioritizeNextPieces (opens_afterSelect hselect hopen) hnext

theorem nothingNew_torrentFinishedAlert (hx : torrentFinishedAlert env h m = .ok u m') :
    m.streamer.NothingNew m'.streamer := by
  refine (keepsFiles_torrentFinishedAlert hx).nothingNew ?_ ?_
  all_goals
    obtain ⟨-, m₁, hprocess, -, hs'⟩ := torrentFinishedAlert_ok hx
    have hsession := processTorrent_session hprocess
    rw [hs', ← hsession]
    rfl

/-- The delivery of any other alert than that of metadata. -/
theorem nothingNew_delivers {a : Alert} (ha : ∀ h, a ≠ .metadataReceived h) (s : Streamer) :
    s.NothingNew (s.delivers a) where
  live := Or.inl rfl
  paused _ := rfl
  reports := by
    refine .of_kept (fun t ht => ⟨t, ht, rfl⟩) fun h howes => ?_
    exact (List.mem_erase_of_ne (Ne.symm (ha h))).mpr howes

/-- The condition of an alert. -/
def AlertOpens (m : Machine) : Env × Alert → Prop
  | (env, .pieceFinished h _) => m.StaysOpen env h
  | _ => True

instance (m : Machine) : (d : Env × Alert) → Decidable (AlertOpens m d)
  | (env, .pieceFinished h _) => inferInstanceAs (Decidable (m.StaysOpen env h))
  | (_, .metadataReceived _) => .isTrue trivial
  | (_, .torrentFinished _) => .isTrue trivial
  | (_, .saveResumeData _) => .isTrue trivial

theorem supplied_dispatchAlert {a : Alert} (hm : m.Supplied)
    (hopens : m.streamer.session.canDeliver a = true → AlertOpens m (env, a))
    (hx : dispatchAlert env a m = .ok u m') : m'.Supplied := by
  rw [dispatchAlert_apply] at hx
  split at hx
  -- the alert has left the queue before it is handled
  · rename_i hcan
    have hopens : AlertOpens { m with streamer := m.streamer.delivers a } (env, a) := hopens hcan
    have hdelivered : (∀ h, a ≠ .metadataReceived h) →
        Machine.Supplied { m with streamer := m.streamer.delivers a } := fun ha =>
      hm.kept (nothingNew_delivers ha m.streamer) rfl
    cases a with
    | metadataReceived h =>
        obtain ⟨hgoes, hrequired⟩ := goesOn_metadataReceivedAlert hx
        have hdelivers : m.streamer.GoesOn (m.streamer.delivers (.metadataReceived h)) :=
          ⟨Or.inl rfl, fun _ => rfl⟩
        exact hm.goesOn (hdelivers.trans hgoes) hrequired
    | pieceFinished h piece => exact supplied_pieceFinishedAlert (hdelivered (by simp)) hopens hx
    | torrentFinished h =>
        refine (hdelivered (by simp)).kept (nothingNew_torrentFinishedAlert hx) ?_
        exact (torrentFinishedAlert_required hx).1
    | saveResumeData h =>
        obtain ⟨st, m₁, h₁, k₁⟩ := bind_eq_ok.mp hx
        obtain ⟨-, -, rfl⟩ := statusOf_eq_ok.mp h₁
        have hkeeps := keepsFiles_resumeDataReadyAlertWithData k₁
        obtain ⟨-, hs'⟩ := resumeDataReadyAlertWithData_ok k₁
        refine (hdelivered (by simp)).kept (hkeeps.nothingNew ?_ ?_) ?_
        all_goals
          rw [hs']
          rfl
  · cases hx
    exact hm

/-! ## Fast-forwards -/

theorem nothingNew_fastForwardTorrent {location length : Nat} {r : Bool}
    (hx : fastForwardTorrent env location length h m = .ok r m') :
    m.streamer.NothingNew m'.streamer := by
  have hkept : m'.streamer.session.paused = m.streamer.session.paused ∧
      m'.streamer.session.outstanding = m.streamer.session.outstanding := by
    obtain ⟨t, md, i, g, es, last, -, -, -, -, ⟨-, -, hs'⟩ | ⟨-, m₁, -, hs₁, hnext⟩⟩ :=
      fastForwardTorrent_ok hx
    · rw [hs']
      exact ⟨rfl, rfl⟩
    · obtain ⟨next, t', ps, -, -, -, -, -, hs'⟩ := prioritizeNextPieces_ok hnext
      rw [hs', hs₁]
      exact ⟨rfl, rfl⟩
  exact (keepsFiles_fastForwardTorrent hx).nothingNew hkept.1 hkept.2

theorem nothingNew_fastForwardLoop {location length : Nat} {hs : List Nat} {r : Bool}
    (hx : fastForwardLoop env location length hs m = .ok r m') :
    m.streamer.NothingNew m'.streamer := by
  induction hs generalizing m with
  | nil =>
      obtain ⟨-, rfl⟩ := pure_eq_ok.mp hx
      exact (Streamer.KeepsFiles.of_eq rfl rfl).nothingNew rfl rfl
  | cons h hs ih =>
      obtain ⟨there, m₁, hround, hrest⟩ := bind_eq_ok.mp hx
      have hnew₁ := nothingNew_fastForwardTorrent hround
      cases there with
      | true =>
          obtain ⟨-, rfl⟩ := pure_eq_ok.mp hrest
          exact hnew₁
      | false => exact hnew₁.trans (ih hrest)

/-- The condition of a fast-forward: the last window it asks for has a piece. -/
def Machine.SeeksOpen (env : Env) (location length : Nat) (m : Machine) : Prop :=
  ∀ last ∈ lastWindow env location length (m.streamer.session.torrents.map (·.handle)) m,
    m.OpensWindow last.1 last.2 m.globals.minPieces.toNat

instance (env : Env) (location length : Nat) (m : Machine) :
    Decidable (m.SeeksOpen env location length) :=
  inferInstanceAs (Decidable (∀ last ∈ lastWindow env location length
    (m.streamer.session.torrents.map (·.handle)) m,
      m.OpensWindow last.1 last.2 m.globals.minPieces.toNat))

theorem supplied_fastForward {location length : Nat} {r : Bool} (hm : m.Supplied)
    (hsound : m.streamer.Sound) (hseeks : m.SeeksOpen env location length)
    (hx : fastForwardTorrentForRange env location length m = .ok r m') : m'.Supplied := by
  have hloop := fastForwardTorrentForRange_ok hx
  have hnew := nothingNew_fastForwardLoop hloop
  obtain ⟨-, hnone, hsome⟩ := required_fastForwardLoop hsound hloop
  cases hlast : lastWindow env location length (m.streamer.session.torrents.map (·.handle)) m with
  | none => exact hm.kept hnew (hnone hlast)
  | some last =>
      obtain ⟨md, ⟨t, ht, hmd⟩, hrequired⟩ := hsome last.1 last.2 hlast
      obtain ⟨hk, hlt⟩ := hseeks last hlast t ht
      have hpieces : t.numPieces = md.val.numPieces := by
        rw [Torrent.numPieces, hmd]
        rfl
      refine hm.goesOn hnew.toGoesOn fun _ => ?_
      rw [hrequired, ← hpieces]
      exact windowFrom_ne_nil hk hlt

theorem dead_fastForward {location length : Nat} {r : Bool} (hdead : m.streamer.live = none)
    (hx : fastForwardTorrentForRange env location length m = .ok r m') :
    m'.streamer.live = none := by
  have hloop := fastForwardTorrentForRange_ok hx
  exact (frames_fastForwardLoop hloop).live_eq.trans hdead

/-! ## Moves -/

/-- The condition of a move: while the run goes on, it leaves no empty window. -/
def MoveOpens (m : Machine) : Move → Prop
  | .alert env a => m.streamer.live ≠ none → m.streamer.session.canDeliver a = true →
      AlertOpens m (env, a)
  | .fastForward env location length => m.streamer.live ≠ none → m.SeeksOpen env location length
  | .cancel _ _ => True
  | .mainQueue => True
  | .metadataArrives _ _ => True

instance (m : Machine) : (move : Move) → Decidable (MoveOpens m move)
  | .alert env a => inferInstanceAs (Decidable (m.streamer.live ≠ none →
      m.streamer.session.canDeliver a = true → AlertOpens m (env, a)))
  | .fastForward env location length =>
      inferInstanceAs (Decidable (m.streamer.live ≠ none → m.SeeksOpen env location length))
  | .cancel _ _ => .isTrue trivial
  | .mainQueue => .isTrue trivial
  | .metadataArrives _ _ => .isTrue trivial

/-- Metadata that arrives is owed an alert before its pieces are reported. -/
theorem reportsPieces_metadataArrives {session : Session} {md : Metadata}
    (hreports : (session.metadataArrives h md).ReportsPieces) : session.ReportsPieces := by
  rcases Session.metadataArrives_cases session h md with heq | ⟨t, ht, hnone, heq⟩
  · rwa [heq] at hreports
  obtain ⟨t', ht', hinfo, hdelivered⟩ := hreports
  rw [heq] at ht' hdelivered
  have hother : t'.handle ≠ h ∧ .metadataReceived t'.handle ∉ session.outstanding := by
    simpa [Session.owe, and_comm] using hdelivered
  obtain ⟨t₀, h₀, ⟨hhandle, rfl⟩ | ⟨-, rfl⟩⟩ := Session.mem_update ht'
  · exact absurd hhandle hother.1
  · exact ⟨t', h₀, hinfo, hother.2⟩

theorem nothingNew_runMainQueue (hx : runMainQueue m = .ok u m') :
    m.streamer.NothingNew m'.streamer ∧
      m'.streamer.requiredPieces = m.streamer.requiredPieces := by
  have hlive := (frames_runMainQueue hx).live_eq
  have hkept : m'.streamer.session = m.streamer.session ∧
      m'.streamer.requiredPieces = m.streamer.requiredPieces := by
    obtain ⟨-, ⟨-, hs'⟩ | ⟨b, rest, -, hs'⟩⟩ := runMainQueue_ok hx
    · rw [hs']
      exact ⟨rfl, rfl⟩
    · rw [hs']
      exact ⟨rfl, rfl⟩
  refine ⟨⟨⟨Or.inl hlive, fun _ => by rw [hkept.1]⟩, fun hreports => ?_⟩, hkept.2⟩
  rwa [hkept.1] at hreports

/-- **The step lemma.** -/
theorem supplied_move {move : Move} (hm : m.Supplied) (hsound : m.streamer.Sound)
    (hopens : MoveOpens m move) (hx : move.perform m = .ok u m') : m'.Supplied := by
  cases move with
  | alert env a =>
      -- without a live run nothing is promised
      by_cases hlive : m.streamer.live = none
      · exact supplied_of_dead (live_dispatchAlert (d := (env, a)) hlive hx)
      · exact supplied_dispatchAlert hm (hopens hlive) hx
  | cancel env deleteData => exact supplied_of_dead (live_cancel hx)
  | fastForward env location length =>
      obtain ⟨r, m₁, hloop, hrest⟩ := bind_eq_ok.mp hx
      obtain ⟨-, rfl⟩ := pure_eq_ok.mp hrest
      by_cases hlive : m.streamer.live = none
      · exact supplied_of_dead (dead_fastForward hlive hloop)
      · exact supplied_fastForward hm hsound (hopens hlive) hloop
  | mainQueue =>
      obtain ⟨hnew, hrequired⟩ := nothingNew_runMainQueue hx
      exact hm.kept hnew hrequired
  | metadataArrives h md =>
      simp only [Move.perform, modifies_eq_ok] at hx
      have hlive := (frames_metadataArrives h md m.streamer).live_eq
      rw [hx]
      refine hm.kept ⟨⟨Or.inl hlive, fun _ => ?_⟩, reportsPieces_metadataArrives⟩ rfl
      show (m.streamer.session.metadataArrives h md).paused = _
      rcases Session.metadataArrives_cases m.streamer.session h md with heq | ⟨t, -, -, heq⟩
      · rw [heq]
      · rw [heq]
        rfl

/-! ## Starts -/

/-- The condition of a start that comes to `add_torrent`. A link finds some pieces required, or
libtorrent reports the pieces of no torrent until the metadata arrives. (A torrent file has its
metadata handled at once.) -/
def Machine.StartsOpen (env : Env) (arg : Text) (m : Machine) : Prop :=
  ∀ tp ∈ env.addParams? arg none, isMagnet arg = true →
    m.streamer.requiredPieces ≠ [] ∨ (¬ m.streamer.session.ReportsPieces ∧
      (m.streamer.session.holding? tp = none → tp.info = none))

instance (env : Env) (arg : Text) (m : Machine) : Decidable (m.StartsOpen env arg) :=
  inferInstanceAs (Decidable (∀ tp ∈ env.addParams? arg none, isMagnet arg = true →
    m.streamer.requiredPieces ≠ [] ∨ (¬ m.streamer.session.ReportsPieces ∧
      (m.streamer.session.holding? tp = none → tp.info = none))))

/-- The torrent that a link adds or finds has none of its pieces reported. -/
theorem not_reportsPieces_added {tp : AddTorrentParams} {s s₁ : Streamer}
    (hadds : Adds tp s h s₁) (hquiet : ¬ s.session.ReportsPieces)
    (hnew : s.session.holding? tp = none → tp.info = none) :
    ¬ (s₁.sent env h addCommands).session.ReportsPieces := by
  intro hreports
  have hkeeps := keepsFiles_sent env h s₁ sparesFiles_addCommands
  obtain ⟨t, ht, hinfo, hdelivered⟩ : s₁.session.ReportsPieces :=
    .of_kept hkeeps.torrents (fun h' howes => howes) hreports
  have howed : s₁.session.outstanding = s.session.outstanding := by
    cases hadds with
    | found t₀ ht₀ => rfl
    | added order hnew => rfl
  rcases hadds.mem ht with hmem | ⟨hholding, rfl⟩
  · refine hquiet ⟨t, hmem, hinfo, ?_⟩
    rwa [howed] at hdelivered
  · rw [tp.torrent_info h, hnew hholding] at hinfo
    cases hinfo

theorem supplied_addAndResume {arg : Text} {failure : Option BlockId} {tp : AddTorrentParams}
    (hstarts : isMagnet arg = true → m.streamer.requiredPieces ≠ [] ∨
      (¬ m.streamer.session.ReportsPieces ∧
        (m.streamer.session.holding? tp = none → tp.info = none)))
    (hx : addAndResume env arg failure tp m = .ok u m') : m'.Supplied := by
  obtain ⟨h, s₁, m₂, m₃, hadds, -, -, hs₂, hmeta, -, hs'⟩ := addAndResume_ok hx
  have hlive := (frames_resumes m₃.streamer).live_eq
  rw [← hs'] at hlive
  refine ⟨fun _ => by rw [hs']; rfl, fun hlive' hreports => ?_⟩
  have hrequired' : m'.streamer.requiredPieces = m₃.streamer.requiredPieces := by
    rw [hs']
    rfl
  rw [hrequired']
  -- a link requires what was left over; a file is selected before the session resumes
  rcases hmeta with ⟨hlink, rfl⟩ | ⟨-, hmeta⟩
  · have hrequired : m₃.streamer.requiredPieces = m.streamer.requiredPieces := by
      rw [hs₂]
      cases hadds with
      | found t₀ ht₀ => rfl
      | added order hnew => rfl
    rcases hstarts hlink with hne | ⟨hquiet, hnew⟩
    · rw [hrequired]
      exact hne
    · rw [hs', hs₂] at hreports
      exact absurd hreports (not_reportsPieces_added hadds hquiet hnew)
  · obtain ⟨-, hrequired⟩ := goesOn_metadataReceivedAlert hmeta
    refine hrequired ?_
    rwa [← hlive]

theorem supplied_failStart {failure : Option BlockId} {error : NSError}
    (hx : failStart env failure error m = .ok u m') : m'.Supplied := by
  obtain ⟨m₁, -, -, hcancel⟩ := failStart_ok hx
  exact supplied_of_dead (live_cancel hcancel)

/-- **After a start** that meets the condition. -/
theorem supplied_start {arg : Text} {progress readyToPlay failure : Option BlockId}
    (hstarts : m.StartsOpen env arg)
    (hx : startStreamingFromFile env arg progress readyToPlay failure m = .ok u m') :
    m'.Supplied := by
  rcases startStreamingFromFileInDirectory_ok hx with ⟨-, -, error, hfail⟩ |
    ⟨tp, md5, m₁, hloads, -, error, path?, m₂, -, -, -, hfail⟩ |
    ⟨tp, md5, m₁, hloads, path, m₂, hopened, -, hs₂, hadd⟩
  · exact supplied_failStart hfail
  · exact supplied_failStart hfail
  · have hparams : env.addParams? arg none = some (finalParams env arg path tp) := by
      rw [hloads.addParams?, hopened]
      rfl
    have hsession : m₂.streamer.session = m.streamer.session := by
      rw [hs₂]
      exact hloads.session
    have hrequired : m₂.streamer.requiredPieces = m.streamer.requiredPieces := by
      rw [hs₂]
      exact hloads.requiredPieces
    refine supplied_addAndResume (fun hlink => ?_) hadd
    rw [hsession, hrequired]
    exact hstarts _ hparams hlink

/-- The condition of the call that begins a run. -/
def Machine.BeginsOpen (m : Machine) : Event → Prop
  | .start env arg _ _ _ => m.StartsOpen env arg
  | .startMulti env arg _ _ _ _ => m.StartsOpen env arg
  | _ => True

theorem supplied_isStart {e : Event} (he : e.IsStart) (hbegins : m.BeginsOpen e)
    (hx : step e m = .ok u m') : m'.Supplied := by
  cases e with
  | start env arg progress readyToPlay failure => exact supplied_start hbegins hx
  | startMulti env arg progress readyToPlay failure callback =>
      obtain ⟨m₁, -, hs₁, hstart⟩ := startMulti_ok hx
      have hbegins₁ : m₁.StartsOpen env arg := by
        rw [Machine.StartsOpen, hs₁]
        exact hbegins
      exact supplied_start hbegins₁ hstart
  | _ => exact he.elim

/-! ## Runs -/

/-- **The buffering progress is defined** in every state of every run that begins and goes on
under the condition, after any history. -/
theorem buffers_of_opens {m₀ m₁ : Machine} {e : Event} {moves : List Move} (hm₀ : Reachable m₀)
    (he : e.IsStart) (hbegins : m₀.BeginsOpen e) (hx : step e m₀ = .ok () m₁)
    (hopens : EachBefore Move.perform MoveOpens moves m₁)
    (hrun : each Move.perform moves m₁ = .ok () m) : m.Buffers := by
  have hstarted : m₁.Supplied ∧ m₁.streamer.Sound :=
    ⟨supplied_isStart he hbegins hx, sound_step hm₀.sound hx⟩
  have hsupplied : m.Supplied ∧ m.streamer.Sound :=
    run_of_eachBefore (I := fun m => m.Supplied ∧ m.streamer.Sound) (fun _ _ _ hm hopens hx =>
      ⟨supplied_move hm.1 hm.2 hopens hx, sound_move hm.2 hx⟩) hstarted hopens hrun
  exact hsupplied.1.buffers

/-- The last piece is sought and finishes: the next window is empty. -/
theorem not_buffers_lastPiece :
    ¬ ∀ (m₀ m₁ m : Machine) (e : Event) (moves : List Move), Reachable m₀ → e.IsStart →
      step e m₀ = .ok () m₁ → each Move.perform moves m₁ = .ok () m → m.Buffers := by
  intro hall
  let film := Metadata.films 1 40 []
  let e : Event := .start (.calm film fun _ => false) "a.torrent".toList none none none
  let moves : List Move := [.fastForward (.calm film fun _ => false) 39 1,
    .alert (.calm film fun _ => true) (.pieceFinished 0 39)]
  have hfinal : ((after (step e) (Machine.init 0)).bind fun m₁ =>
      (after (each Move.perform moves) m₁).map fun m => (m.streamer.live,
        (m.streamer.session.find? 0).isSome && m.streamer.session.canDeliver (.pieceFinished 0 5),
        m.streamer.requiredPieces)) = some (some 0, true, []) := by decide +kernel
  obtain ⟨m₁, hm₁, hrest⟩ := Option.bind_eq_some_iff.mp hfinal
  obtain ⟨m, hm, hmap⟩ := Option.map_eq_some_iff.mp hrest
  simp only [Prod.mk.injEq, Bool.and_eq_true] at hmap
  obtain ⟨hlive, ⟨htorrent, hcan⟩, hnil⟩ := hmap
  obtain ⟨t, ht⟩ := Option.isSome_iff_exists.mp htorrent
  have hbuffers := hall _ m₁ m e moves ⟨0, [], rfl⟩ trivial (after_eq_some.mp hm₁)
    (after_eq_some.mp hm) (by simp [hlive]) (.calm film fun _ => true) 0 5 t ht hcan
  exact hbuffers.1 hnil

/-- A link whose metadata arrives, a window that moves on, and a fast-forward that misses. -/
theorem buffers_film :
    let film := Metadata.films 1 40 []
    let e : Event := .start (.calm film fun _ => false) "magnet:".toList none none none
    let moves : List Move := [.metadataArrives 0 film,
      .alert (.calm film fun _ => false) (.metadataReceived 0),
      .alert (.calm film fun _ => true) (.pieceFinished 0 0),
      .fastForward (.calm film fun _ => false) 20 1]
    ∃ m₁ m, step e (Machine.init 0) = .ok () m₁ ∧ each Move.perform moves m₁ = .ok () m ∧
      m.streamer.live = some 0 ∧ m.streamer.requiredPieces = [20] ∧ m.Buffers := by
  intro film e moves
  have hbegins : (Machine.init 0).StartsOpen (.calm film fun _ => false) "magnet:".toList := by
    decide +kernel
  have hfinal : ((after (step e) (Machine.init 0)).bind fun m₁ =>
      (after (each Move.perform moves) m₁).map fun m =>
        (decide (EachBefore Move.perform MoveOpens moves m₁), m.streamer.live,
          m.streamer.requiredPieces)) = some (true, some 0, [20]) := by decide +kernel
  obtain ⟨m₁, hm₁, hrest⟩ := Option.bind_eq_some_iff.mp hfinal
  obtain ⟨m, hm, hmap⟩ := Option.map_eq_some_iff.mp hrest
  simp only [Prod.mk.injEq, decide_eq_true_eq] at hmap
  obtain ⟨hopens, hlive, hrequired⟩ := hmap
  have hstart : e.IsStart := trivial
  refine ⟨m₁, m, after_eq_some.mp hm₁, after_eq_some.mp hm, hlive, hrequired, ?_⟩
  exact buffers_of_opens ⟨0, [], rfl⟩ hstart hbegins (after_eq_some.mp hm₁) hopens
    (after_eq_some.mp hm)

end BtDownloader
