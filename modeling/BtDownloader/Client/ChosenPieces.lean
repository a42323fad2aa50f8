import BtDownloader.Client.Resources
import BtDownloader.Client.Slide

set_option autoImplicit false

/-! # The required pieces and the chosen file

Three loops fill `required_pieces`: the head and the ten tail pieces of a metadata alert, and
the windows of `prioritizeNextPieces`. None of them looks at where the chosen file begins or
ends.

* `real_of_eventInside`: in which runs all required pieces are pieces of the chosen file.
-/

namespace BtDownloader

open Program

variable {m m' : Machine} {env : Env} {h : Nat} {u : Unit}

/-! ## Pieces of a file -/

/-- The pieces are different pieces of the torrent that file `f` overlaps. -/
structure RealPieces (md : Metadata) (f : Nat) (ps : List Int) : Prop where
  overlaps : ∀ p ∈ ps, ∃ q : Nat, p = q ∧ q < md.val.numPieces ∧ md.val.Overlaps f q
  nodup : ps.Nodup

/-- Pieces between the first and the last piece of the file are pieces of the file. -/
theorem RealPieces.of_between {md : Metadata} {f : Nat} {ps : List Int}
    (hf : f < md.val.numFiles) (hbetween : ∀ p ∈ ps, (md.val.firstPieceOf f : Int) ≤ p ∧
      p < md.val.firstPieceOf f + md.val.piecesSpanned f) (hnodup : ps.Nodup) :
    RealPieces md f ps := by
  refine ⟨fun p hp => ?_, hnodup⟩
  obtain ⟨hfirst, hlast⟩ := hbetween p hp
  have hoverlaps : md.val.Overlaps f p.toNat := by
    rw [TorrentInfo.overlaps_iff_spanned md.property]
    omega
  exact ⟨p.toNat, by omega, TorrentInfo.overlaps_lt_numPieces md.property hf hoverlaps, hoverlaps⟩

theorem nodup_piecesFrom (first : Int) (k : Nat) : (piecesFrom first k).Nodup := by
  refine List.Nodup.map_on (fun i _ j _ hij => ?_) List.nodup_range
  omega

theorem nodup_piecesDownFrom (last : Int) (k : Nat) : (piecesDownFrom last k).Nodup := by
  refine List.Nodup.map_on (fun i _ j _ hij => ?_) List.nodup_range
  omega

/-- A window of `k` pieces from `next` on is empty, or lies inside file `f`. -/
def Inside (md : Metadata) (f : Nat) (next : Int) (k : Nat) : Prop :=
  k = 0 ∨ (md.val.numPieces : Int) ≤ next ∨
    (md.val.firstPieceOf f : Int) ≤ next ∧
      min (next + k) md.val.numPieces ≤ md.val.firstPieceOf f + md.val.piecesSpanned f

instance (md : Metadata) (f : Nat) (next : Int) (k : Nat) : Decidable (Inside md f next k) :=
  inferInstanceAs (Decidable (_ ∨ _ ∨ _ ∧ _))

theorem real_window {md : Metadata} {f : Nat} {next : Int} {k : Nat} (hf : f < md.val.numFiles)
    (hinside : Inside md f next k) : RealPieces md f (windowFrom next k md.val.numPieces) := by
  refine RealPieces.of_between hf (fun p hp => ?_) ((nodup_piecesFrom next k).filter _)
  obtain ⟨hnext, hk, hn⟩ := mem_windowFrom.mp hp
  rcases hinside with hzero | hpast | ⟨hfirst, hlast⟩
  · omega
  · omega
  · constructor
    · omega
    · omega

/-- What a metadata alert that chooses file `i` finds required leaves room for its head and its
tail: the file has ten pieces at least, and the required ones lie between the two. -/
def TakesIn (md : Metadata) (i : Int) (ps : List Int) : Prop :=
  ∀ fe ∈ md.val.fileAt i, 10 ≤ md.val.piecesSpanned i.toNat ∧ ps.Nodup ∧
    ∀ p ∈ ps, md.val.firstPieceOf i.toNat + md.val.minPieces fe ≤ p ∧
      p < md.val.firstPieceOf i.toNat + md.val.piecesSpanned i.toNat - 10

instance (md : Metadata) (i : Int) (ps : List Int) : Decidable (TakesIn md i ps) :=
  inferInstanceAs (Decidable (∀ fe ∈ md.val.fileAt i, _ ∧ _ ∧ _))

/-- The head and the ten tail pieces of a file of ten pieces or more have nothing in common. -/
theorem minPieces_add_ten_le {md : Metadata} {i : Int} {fe : FileEntry}
    (hfe : md.val.fileAt i = some fe) (hten : 10 ≤ md.val.piecesSpanned i.toNat) :
    md.val.minPieces fe + 10 ≤ md.val.piecesSpanned i.toNat := by
  have hlength := md.pieceLength_pos
  have hsize : fe.size ≤ md.val.piecesSpanned i.toNat * md.val.pieceLength := by
    rw [← TorrentInfo.fileSize_of_fileAt hfe]
    exact Extents.size_le_spanned hlength _ _
  have hdiv : 3 * fe.size / (100 * md.val.pieceLength) ≤
      3 * md.val.piecesSpanned i.toNat / 100 := by
    calc 3 * fe.size / (100 * md.val.pieceLength)
        ≤ 3 * (md.val.piecesSpanned i.toNat * md.val.pieceLength) / (100 * md.val.pieceLength) :=
          Nat.div_le_div_right (Nat.mul_le_mul_left 3 hsize)
      _ = 3 * md.val.piecesSpanned i.toNat * md.val.pieceLength / (100 * md.val.pieceLength) := by
          rw [Nat.mul_assoc]
      _ = 3 * md.val.piecesSpanned i.toNat / 100 := Nat.mul_div_mul_right _ _ hlength
  show ((3 * fe.size / (100 * md.val.pieceLength) : Nat) : Int) + 10 ≤ _
  omega

/-- **The head and the tail** are pieces of the file, other than those required before. -/
theorem real_headAndTail {md : Metadata} {i : Int} {fe : FileEntry} {ps : List Int}
    (hfe : md.val.fileAt i = some fe) (htakes : TakesIn md i ps) :
    RealPieces md i.toNat (ps ++ headAndTail md.val i fe) := by
  obtain ⟨hten, hnodup, hbetween⟩ := htakes fe hfe
  have hi := TorrentInfo.lt_numFiles_of_fileAt hfe
  have hroom := minPieces_add_ten_le hfe hten
  have hnonneg : 0 ≤ md.val.minPieces fe := Int.natCast_nonneg _
  have hsize : 0 < md.val.fileSize i.toNat := by
    refine Nat.pos_of_ne_zero fun hzero => ?_
    rw [TorrentInfo.piecesSpanned, Extents.spanned, if_pos hzero] at hten
    omega
  have hhead := @TorrentInfo.mapFile_zero md.val i.toNat 0 hi hsize
  have htail := @TorrentInfo.mapFile_last md.val i.toNat 0 hi hsize
  rw [TorrentInfo.fileSize_of_fileAt hfe] at htail
  rw [headAndTail, hhead, htail]
  refine RealPieces.of_between hi (fun p hp => ?_) ?_
  · simp only [List.mem_append, mem_piecesFrom, mem_piecesDownFrom] at hp
    rcases hp with hp | hp | hp
    · have := hbetween p hp
      omega
    · omega
    · omega
  · -- the file has ten pieces behind the head, so head and tail do not meet
    refine List.nodup_append.mpr ⟨hnodup, List.nodup_append.mpr ⟨nodup_piecesFrom _ _,
      nodup_piecesDownFrom _ _, fun p hp q hq => ?_⟩, fun p hp q hq => ?_⟩
    · rw [mem_piecesFrom] at hp
      rw [mem_piecesDownFrom] at hq
      omega
    · have := hbetween p hp
      simp only [List.mem_append, mem_piecesFrom, mem_piecesDownFrom] at hq
      rcases hq with hq | hq
      · omega
      · omega

/-! ## The chosen file of the live run -/

/-- `P` holds of the torrent of the live run, its metadata and the file that was given the top
priority there, if there is such a file. -/
def Machine.ForChosen (m : Machine) (P : Nat → Metadata → Nat → Prop) : Prop :=
  ∀ h ∈ m.streamer.live, ∀ t ∈ m.streamer.session.find? h, ∀ md ∈ t.info,
    ∀ f < t.filePriorities.length, t.Selected f → P h md f

instance (t : Torrent) (f : Nat) : Decidable (t.Selected f) :=
  inferInstanceAs (Decidable (t.filePriorities[f]? = some priorityMaximum))

instance (m : Machine) (P : Nat → Metadata → Nat → Prop) [∀ h md f, Decidable (P h md f)] :
    Decidable (m.ForChosen P) :=
  inferInstanceAs (Decidable (∀ h ∈ m.streamer.live, ∀ t ∈ m.streamer.session.find? h,
    ∀ md ∈ t.info, ∀ f < t.filePriorities.length, t.Selected f → P h md f))

/-- Every required piece is a piece of the chosen file, and none is required twice. -/
def Machine.Real (m : Machine) : Prop :=
  m.ForChosen fun _ md f => RealPieces md f m.streamer.requiredPieces

/-- Once all pieces of the chosen file are downloaded, a piece-finished alert finds all required
pieces there, unless the session is paused. -/
def Machine.FindsAll (m : Machine) : Prop :=
  m.streamer.session.paused = false → m.ForChosen fun h md f => ∀ env : Env,
    (∀ q, md.val.Overlaps f q → env.downloaded h q = true) → m.allPresent env h = true

theorem Machine.Real.findsAll (hm : m.Real) : m.FindsAll := by
  intro hpaused h hlive t ht md hmd f hlt hf env hdownloaded
  have hreal := hm h hlive t ht md hmd f hlt hf
  rw [Option.mem_def] at ht hmd
  rw [Machine.allPresent, hpaused, ht, Bool.false_or, Option.all_some, Torrent.hasAll,
    List.all_eq_true]
  intro p hp
  obtain ⟨q, rfl, hq, hoverlaps⟩ := hreal.overlaps p hp
  rw [Torrent.has, hmd, Session.find?_handle ht]
  simp [hq, hdownloaded q hoverlaps]

/-- What a torrent shows of the choice of its file. -/
def Torrent.fileKey (t : Torrent) : Nat × Option Metadata × List Nat :=
  (t.handle, t.info, t.filePriorities)

/-- From `s` to `s'` no other file is chosen in any torrent, and no run begins. -/
structure Streamer.KeepsFiles (s s' : Streamer) : Prop where
  live : s'.live = s.live ∨ s'.live = none
  torrents : ∀ t' ∈ s'.session.torrents, ∃ t ∈ s.session.torrents, t.fileKey = t'.fileKey

namespace Streamer.KeepsFiles

variable {s s' s'' : Streamer}

theorem of_eq (hlive : s'.live = s.live) (htorrents : s'.session.torrents = s.session.torrents) :
    s.KeepsFiles s' := by
  refine ⟨Or.inl hlive, fun t ht => ⟨t, ?_, rfl⟩⟩
  rwa [← htorrents]

theorem trans (h : s.KeepsFiles s') (h' : s'.KeepsFiles s'') : s.KeepsFiles s'' where
  live := by
    rcases h'.live with hlive' | hlive'
    · rw [hlive']
      exact h.live
    · exact Or.inr hlive'
  torrents t'' ht'' := by
    obtain ⟨t', ht', hkey'⟩ := h'.torrents t'' ht''
    obtain ⟨t, ht, hkey⟩ := h.torrents t' ht'
    exact ⟨t, ht, hkey.trans hkey'⟩

end Streamer.KeepsFiles

/-- A torrent that is chosen afterwards was chosen before. -/
theorem Machine.ForChosen.kept {P : Nat → Metadata → Nat → Prop} (hm : m.ForChosen P)
    (hsound : m.streamer.Sound) (hkeeps : m.streamer.KeepsFiles m'.streamer) :
    m'.ForChosen P := by
  intro h hlive t' ht' md hmd f hlt hf
  have hlive₀ : m.streamer.live = some h := by
    rcases hkeeps.live with hsame | hnone
    · rw [← hsame]
      exact hlive
    · rw [Option.mem_def, hnone] at hlive
      cases hlive
  rw [Option.mem_def] at ht' hmd
  obtain ⟨t, ht, hkey⟩ := hkeeps.torrents t' (Session.find?_mem ht')
  obtain ⟨hhandle, hinfo, hfiles⟩ : t.handle = t'.handle ∧ t.info = t'.info ∧
      t.filePriorities = t'.filePriorities := by simpa [Torrent.fileKey] using hkey
  have hfind : m.streamer.session.find? h = some t := by
    rw [← Session.find?_handle ht', ← hhandle]
    exact hsound.find?_of_mem ht
  have hf₀ : t.Selected f := by
    rw [Torrent.Selected, hfiles]
    exact hf
  exact hm h hlive₀ t hfind md (hinfo.trans hmd) f (by rwa [hfiles]) hf₀

theorem Machine.ForChosen.imp {P P' : Nat → Metadata → Nat → Prop} (hm : m.ForChosen P)
    (himp : ∀ h md f, m.streamer.live = some h → P h md f → P' h md f) : m.ForChosen P' :=
  fun h hlive t ht md hmd f hlt hf => himp h md f hlive (hm h hlive t ht md hmd f hlt hf)

theorem Machine.ForChosen.of_dead {P : Nat → Metadata → Nat → Prop}
    (hdead : m.streamer.live = none) : m.ForChosen P := by
  intro h hlive
  rw [hdead] at hlive
  cases hlive

/-! ## Commands that choose no file -/

/-- A torrent has file priorities only once it has metadata, and then one for each file. -/
def Torrent.Filed (t : Torrent) : Prop :=
  t.filePriorities = [] ∨ ∃ md, t.info = some md ∧ t.filePriorities.length = md.val.numFiles

/-- The command gives no priorities to files. -/
def TorrentCommand.SparesFiles : TorrentCommand → Prop
  | .prioritizeFiles _ => False
  | _ => True

theorem Torrent.command_filePriorities {downloaded : Nat → Bool} {t : Torrent}
    {c : TorrentCommand} (hc : c.SparesFiles) :
    (t.command downloaded c).filePriorities = t.filePriorities := by
  unfold command
  split
  all_goals first
    | exact hc.elim
    | rfl
    | (split_ifs <;> rfl)

theorem Torrent.apply_filePriorities {downloaded : Nat → Bool} {t : Torrent} {c : TorrentCommand}
    (hc : c.SparesFiles) : (t.apply downloaded c).filePriorities = t.filePriorities := by
  unfold apply
  split
  · exact (command_filePriorities hc).trans (settle_filePriorities downloaded t)
  · exact command_filePriorities hc

theorem Torrent.filePriorities_prioritizeFiles (downloaded : Nat → Bool) (t : Torrent)
    (priorities : List Nat) :
    (t.apply downloaded (.prioritizeFiles priorities)).filePriorities = priorities := by
  show ((t.settle downloaded).command downloaded (.prioritizeFiles priorities)).filePriorities = _
  unfold command
  cases (t.settle downloaded).info with
  | none => rfl
  | some md =>
      dsimp only
      split <;> rfl

theorem Torrent.fileKey_applyAll {downloaded : Nat → Bool} {t : Torrent}
    {cs : List TorrentCommand} (hcs : ∀ c ∈ cs, c.SparesFiles) :
    (t.applyAll downloaded cs).fileKey = t.fileKey := by
  induction cs generalizing t with
  | nil => rfl
  | cons c cs ih =>
      refine (ih fun c' hc' => hcs c' (List.mem_cons_of_mem _ hc')).trans ?_
      have hspares := hcs c List.mem_cons_self
      rw [Torrent.fileKey, apply_handle, apply_info, apply_filePriorities hspares]
      rfl

theorem Torrent.Filed.of_key {t t' : Torrent} (h : t.Filed) (hkey : t.fileKey = t'.fileKey) :
    t'.Filed := by
  obtain ⟨-, hinfo, hfiles⟩ : t.handle = t'.handle ∧ t.info = t'.info ∧
      t.filePriorities = t'.filePriorities := by simpa [Torrent.fileKey] using hkey
  rwa [Torrent.Filed, ← hinfo, ← hfiles]

theorem keepsFiles_sent (env : Env) (h : Nat) {cs : List TorrentCommand} (s : Streamer)
    (hcs : ∀ c ∈ cs, c.SparesFiles) : s.KeepsFiles (s.sent env h cs) := by
  refine ⟨Or.inl (Streamer.Frames.sent env h cs s).live_eq, fun t ht => ?_⟩
  obtain ⟨t₀, h₀, ⟨-, rfl⟩ | ⟨-, rfl⟩⟩ := Session.mem_update ht
  · exact ⟨t₀, h₀, (Torrent.fileKey_applyAll hcs).symm⟩
  · exact ⟨t, h₀, rfl⟩

/-! ## What the methods choose -/

theorem keepsFiles_cancel {deleteData : Bool}
    (hx : cancelStreamingAndDeleteData env deleteData m = .ok u m') :
    m.streamer.KeepsFiles m'.streamer := by
  refine ⟨Or.inr (live_cancel hx), fun t ht => ?_⟩
  cases deleteData with
  | true =>
      obtain ⟨-, es, -, hs'⟩ := cancel_deleting_ok hx
      rw [hs'] at ht
      cases ht
  | false =>
      obtain ⟨-, session, es, -, hs', -, htorrents, -⟩ := cancel_keeping_ok hx
      rw [hs'] at ht
      have ht : t ∈ session.torrents := ht
      rw [htorrents] at ht
      obtain ⟨t₀, h₀, rfl⟩ := List.mem_map.mp ht
      exact ⟨t₀, h₀, rfl⟩

theorem sparesFiles_window (w : List Int) (ps : List Nat) :
    ∀ c ∈ (.clearPieceDeadlines :: deadlineCommands w ++ [.prioritizePieces ps] :
      List TorrentCommand), c.SparesFiles := by
  intro c hc
  rw [List.cons_append, List.mem_cons, List.mem_append, List.mem_singleton] at hc
  rcases hc with rfl | hc | rfl
  · trivial
  · obtain ⟨p, -, rfl⟩ := List.mem_map.mp hc
    trivial
  · trivial

theorem keepsFiles_prioritizeNextPieces (hx : prioritizeNextPieces env h m = .ok u m') :
    m.streamer.KeepsFiles m'.streamer := by
  obtain ⟨next, t, ps, -, -, -, -, -, hs'⟩ := prioritizeNextPieces_ok hx
  have hsent := keepsFiles_sent env h m.streamer (sparesFiles_window
    (windowFrom next m.globals.minPieces.toNat t.numPieces) ps)
  rw [hs']
  exact hsent.trans (.of_eq rfl rfl)

theorem keepsFiles_fastForwardTorrent {location length : Nat} {r : Bool}
    (hx : fastForwardTorrent env location length h m = .ok r m') :
    m.streamer.KeepsFiles m'.streamer := by
  have hlive := (frames_fastForwardTorrent hx).live_eq
  obtain ⟨t, md, i, g, es, last, -, -, -, -, ⟨-, -, hs'⟩ | ⟨-, m₁, -, hs₁, hnext⟩⟩ :=
    fastForwardTorrent_ok hx
  · refine .of_eq hlive ?_
    rw [hs']
    rfl
  · refine ⟨Or.inl hlive, fun t' ht' => ?_⟩
    obtain ⟨t₁, ht₁, hkey⟩ := (keepsFiles_prioritizeNextPieces hnext).torrents t' ht'
    rw [hs₁] at ht₁
    exact ⟨t₁, ht₁, hkey⟩

theorem keepsFiles_torrentFinishedAlert (hx : torrentFinishedAlert env h m = .ok u m') :
    m.streamer.KeepsFiles m'.streamer := by
  obtain ⟨-, m₁, hprocess, -, hs'⟩ := torrentFinishedAlert_ok hx
  obtain ⟨hlive₁, htorrents₁, -⟩ := processTorrent_keeps hprocess
  refine Streamer.KeepsFiles.trans (.of_eq hlive₁ htorrents₁) ⟨?_, fun t ht => ⟨t, ?_, rfl⟩⟩
  · rw [hs', live_finish]
    split
    · exact Or.inr rfl
    · exact Or.inl rfl
  · rw [hs'] at ht
    exact (List.mem_filter.mp ht).1

theorem keepsFiles_resumeDataReadyAlertWithData
    (hx : resumeDataReadyAlertWithData h m = .ok u m') : m.streamer.KeepsFiles m'.streamer := by
  refine ⟨Or.inl (live_resumeDataReadyAlertWithData hx), fun t ht => ?_⟩
  obtain ⟨-, hs'⟩ := resumeDataReadyAlertWithData_ok hx
  rw [hs'] at ht
  cases ht

/-- The state of a torrent's metadata and file priorities after every history. -/
structure Machine.Tidy (m : Machine) : Prop where
  sound : m.streamer.Sound
  filed : ∀ t ∈ m.streamer.session.torrents, t.Filed

theorem Machine.Tidy.kept (hm : m.Tidy) (hsound : m'.streamer.Sound)
    (hkeeps : m.streamer.KeepsFiles m'.streamer) : m'.Tidy := by
  refine ⟨hsound, fun t' ht' => ?_⟩
  obtain ⟨t, ht, hkey⟩ := hkeeps.torrents t' ht'
  exact (hm.filed t ht).of_key hkey

theorem Machine.Tidy.lt_numFiles (hm : m.Tidy) {t : Torrent} {md : Metadata} {f : Nat}
    (ht : t ∈ m.streamer.session.torrents) (hmd : t.info = some md)
    (hf : f < t.filePriorities.length) : f < md.val.numFiles := by
  rcases hm.filed t ht with hnil | ⟨md', hmd', hlength⟩
  · rw [hnil] at hf
    exact absurd hf (Nat.not_lt_zero f)
  · obtain rfl := Option.some.inj (hmd'.symm.trans hmd)
    rwa [hlength] at hf

theorem length_onlyFile (n : Nat) (i : Int) : (onlyFile n i).length = n := by
  rw [onlyFile, List.length_set, List.length_replicate]

/-- Of the priorities that are given to a file alone, the top one is that of the file. -/
theorem eq_of_onlyFile {n f : Nat} {i : Int}
    (hf : (onlyFile n i)[f]? = some priorityMaximum) : f = i.toNat := by
  by_contra hne
  rw [onlyFile, List.getElem?_set_ne (Ne.symm hne)] at hf
  exact absurd (List.eq_of_mem_replicate (List.mem_of_getElem? hf)) (by decide)

theorem sparesFiles_select (k : Nat) (required : List Int) :
    ∀ c ∈ ([.clearPieceDeadlines, .prioritizePieces (List.replicate k priorityLow)] ++
      raiseCommands required : List TorrentCommand), c.SparesFiles := by
  intro c hc
  rcases List.mem_append.mp hc with hc | hc
  · rcases List.mem_pair.mp hc with rfl | rfl <;> trivial
  · obtain ⟨p, -, hc⟩ := List.mem_flatMap.mp hc
    rcases List.mem_pair.mp hc with rfl | rfl <;> trivial

theorem fileKey_select {downloaded : Nat → Bool} {t : Torrent} {md : Metadata} {k : Nat} {i : Int}
    {required : List Int} (hmd : t.info = some md) :
    (t.applyAll downloaded (selectCommands md.val.numFiles k i required)).fileKey =
      (t.handle, some md, onlyFile md.val.numFiles i) := by
  have hsplit : selectCommands md.val.numFiles k i required =
      [.prioritizeFiles (onlyFile md.val.numFiles i)] ++ ([.clearPieceDeadlines,
        .prioritizePieces (List.replicate k priorityLow)] ++ raiseCommands required) := rfl
  rw [hsplit, Torrent.applyAll_append, Torrent.fileKey_applyAll (sparesFiles_select k required)]
  rw [Torrent.applyAll_singleton, Torrent.fileKey, Torrent.apply_handle, Torrent.apply_info, hmd,
    Torrent.filePriorities_prioritizeFiles]

/-- File `i` of torrent `h` is chosen between `m` and `m'`. -/
structure SelectsFile (h : Nat) (md : Metadata) (i : Int) (fe : FileEntry) (m m' : Machine) :
    Prop where
  knows : Knows h md m
  choice : m.choice? md.val = some i
  file : md.val.fileAt i = some fe
  live : m'.streamer.live = m.streamer.live
  minPieces : m'.globals.minPieces = md.val.minPieces fe
  firstPiece : m'.streamer.firstPiece = m.streamer.firstPiece
  requiredPieces : m'.streamer.requiredPieces =
    m.streamer.requiredPieces ++ headAndTail md.val i fe
  own : ∃ t, m'.streamer.session.find? h = some t ∧
    t.fileKey = (h, some md, onlyFile md.val.numFiles i)
  others : ∀ h', h' ≠ h → m'.streamer.session.find? h' = m.streamer.session.find? h'

theorem selectsFile_of_selectFile (hx : selectFile env h m = .ok u m') :
    ∃ md i fe, SelectsFile h md i fe m m' := by
  have hlive := (frames_selectFile hx).live_eq
  obtain ⟨t, md, i, g, es, fe, ht, hmd, hselects, hfe, hg, hs'⟩ := selectFile_ok hx
  have hsession := congrArg Streamer.session hs'
  refine ⟨md, i, fe, ⟨t, ht, hmd⟩, hselects.choice, hfe, hlive, by rw [hg], by rw [hs']; rfl,
    by rw [hs'], ⟨_, find?_of_sent hsession ht, ?_⟩, fun h' hne => ?_⟩
  · rw [fileKey_select hmd, Session.find?_handle ht]
  · rw [hs']
    refine (find?_sent _ _ _ _ _).trans ?_
    rw [if_neg hne]
    rfl

theorem SelectsFile.tidy {md : Metadata} {i : Int} {fe : FileEntry}
    (hselects : SelectsFile h md i fe m m') (hm : m.Tidy) (hsound : m'.streamer.Sound) :
    m'.Tidy := by
  refine ⟨hsound, fun t ht => ?_⟩
  have hfind := hsound.find?_of_mem ht
  by_cases hh : t.handle = h
  · obtain ⟨t', ht', hkey⟩ := hselects.own
    rw [hh, ht'] at hfind
    obtain rfl := Option.some.inj hfind
    obtain ⟨-, hinfo, hfiles⟩ : t'.handle = h ∧ t'.info = some md ∧
        t'.filePriorities = onlyFile md.val.numFiles i := by simpa [Torrent.fileKey] using hkey
    exact Or.inr ⟨md, hinfo, by rw [hfiles, length_onlyFile]⟩
  · rw [hselects.others t.handle hh] at hfind
    exact hm.filed t (Session.find?_mem hfind)

/-- What holds of the file that is chosen now, and of the files chosen in other torrents, holds
of the chosen file afterwards. -/
theorem SelectsFile.forChosen {md : Metadata} {i : Int} {fe : FileEntry}
    {P : Nat → Metadata → Nat → Prop} (hselects : SelectsFile h md i fe m m')
    (hown : m.streamer.live = some h → P h md i.toNat)
    (hothers : m.ForChosen fun h' md' f => h' ≠ h → P h' md' f) : m'.ForChosen P := by
  intro h' hlive t' ht' md' hmd' f hlt hf
  rw [hselects.live] at hlive
  by_cases hh : h' = h
  · subst hh
    obtain ⟨t, ht, hkey⟩ := hselects.own
    obtain rfl := Option.some.inj (ht'.symm.trans ht)
    obtain ⟨-, hinfo, hfiles⟩ : t'.handle = h' ∧ t'.info = some md ∧
        t'.filePriorities = onlyFile md.val.numFiles i := by simpa [Torrent.fileKey] using hkey
    obtain rfl := Option.some.inj (hinfo.symm.trans hmd')
    rw [Torrent.Selected, hfiles] at hf
    rw [eq_of_onlyFile hf]
    exact hown hlive
  · rw [hselects.others h' hh] at ht'
    exact hothers h' hlive t' ht' md' hmd' f hlt hf hh

/-! ## When the pieces are those of the chosen file -/

/-- A window of `k` pieces of torrent `h` from `next` on is empty, or lies inside the chosen
file. -/
def Machine.Fits (h : Nat) (next : Int) (k : Nat) (m : Machine) : Prop :=
  ∀ t ∈ m.streamer.session.find? h, m.ForChosen fun h' md f =>
    k = 0 ∨ (t.numPieces : Int) ≤ next ∨ h' = h ∧ Inside md f next k

instance (h : Nat) (next : Int) (k : Nat) (m : Machine) : Decidable (m.Fits h next k) :=
  inferInstanceAs (Decidable (∀ t ∈ m.streamer.session.find? h, m.ForChosen fun h' md f =>
    k = 0 ∨ (t.numPieces : Int) ≤ next ∨ h' = h ∧ Inside md f next k))

theorem windowFrom_eq_nil {next : Int} {k n : Nat} (hempty : k = 0 ∨ (n : Int) ≤ next) :
    windowFrom next k n = [] := by
  rw [List.eq_nil_iff_forall_not_mem]
  intro p hp
  obtain ⟨hnext, hk, hn⟩ := mem_windowFrom.mp hp
  omega

theorem realPieces_nil (md : Metadata) (f : Nat) : RealPieces md f [] :=
  ⟨fun _ hp => absurd hp List.not_mem_nil, List.nodup_nil⟩

/-- The window is made of pieces of the chosen file. -/
theorem Machine.Fits.real {next : Int} {k : Nat} {t : Torrent} (hfits : m.Fits h next k)
    (hm : m.Tidy) (ht : m.streamer.session.find? h = some t) :
    m.ForChosen fun _ md f => RealPieces md f (windowFrom next k t.numPieces) := by
  intro h' hlive t' ht' md hmd f hlt hf
  rcases hfits t ht h' hlive t' ht' md hmd f hlt hf with hzero | hpast | ⟨rfl, hinside⟩
  · rw [windowFrom_eq_nil (Or.inl hzero)]
    exact realPieces_nil md f
  · rw [windowFrom_eq_nil (Or.inr hpast)]
    exact realPieces_nil md f
  · obtain rfl := Option.some.inj (ht'.symm.trans ht)
    rw [Option.mem_def] at hmd
    have hpieces : t'.numPieces = md.val.numPieces := by
      rw [Torrent.numPieces, hmd]
      rfl
    rw [hpieces]
    exact real_window (hm.lt_numFiles (Session.find?_mem ht) hmd hlt) hinside

/-- What every state of a run keeps: the required pieces are those of the chosen file. -/
structure Machine.Fitting (m : Machine) : Prop where
  tidy : m.Tidy
  real : m.Real

/-- What changes neither the files nor the required pieces keeps the invariant. -/
theorem Machine.Fitting.kept (hm : m.Fitting) (hsound : m'.streamer.Sound)
    (hkeeps : m.streamer.KeepsFiles m'.streamer)
    (hrequired : m'.streamer.requiredPieces = m.streamer.requiredPieces) : m'.Fitting := by
  refine ⟨hm.tidy.kept hsound hkeeps, ?_⟩
  rw [Machine.Real, hrequired]
  exact Machine.ForChosen.kept hm.real hm.tidy.sound hkeeps

/-- So does what ends the run. -/
theorem Machine.Tidy.ended (hm : m.Tidy) (hsound : m'.streamer.Sound)
    (hkeeps : m.streamer.KeepsFiles m'.streamer) (hdead : m'.streamer.live = none) :
    m'.Fitting := ⟨hm.kept hsound hkeeps, .of_dead hdead⟩

theorem fitting_prioritizeNextPieces (hm : m.Tidy)
    (hfits : ∀ next ∈ m.nextPiece?, m.Fits h next m.globals.minPieces.toNat)
    (hx : prioritizeNextPieces env h m = .ok u m') : m'.Fitting := by
  have hkeeps := keepsFiles_prioritizeNextPieces hx
  refine ⟨hm.kept (sound_prioritizeNextPieces hm.sound hx) hkeeps, ?_⟩
  obtain ⟨next, t, ps, hnext, ht, -, -, -, hs'⟩ := prioritizeNextPieces_ok hx
  have hrequired : m'.streamer.requiredPieces =
      windowFrom next m.globals.minPieces.toNat t.numPieces := by rw [hs']
  rw [Machine.Real, hrequired]
  exact ((hfits next hnext).real hm ht).kept hm.sound hkeeps

/-- The condition of the handling of metadata: the device has no room, or the alert is about the
torrent of the live run (if a file is chosen there) and what is required leaves room for the head
and the tail of the file that is chosen now. -/
def Machine.Handles (env : Env) (h : Nat) (m : Machine) : Prop :=
  env.LowSpace h ∨ (m.ForChosen (fun h' _ _ => h' = h) ∧ (m.streamer.live = some h →
    ∀ md ∈ m.metadata? h, ∀ i ∈ m.choice? md.val, TakesIn md i m.streamer.requiredPieces))

instance (env : Env) (h : Nat) (m : Machine) : Decidable (m.Handles env h) :=
  inferInstanceAs (Decidable (_ ∨ (_ ∧ (_ → ∀ md ∈ m.metadata? h, ∀ i ∈ m.choice? md.val,
    TakesIn md i m.streamer.requiredPieces))))

theorem fitting_metadataReceivedAlert (hm : m.Tidy) (hhandles : m.Handles env h)
    (hx : metadataReceivedAlert env h m = .ok u m') : m'.Fitting := by
  have hsound := sound_metadataReceivedAlert hm.sound hx
  obtain ⟨-, -, ⟨-, m₁, -, hs₁, hcancel⟩ | ⟨hroom, m₁, hg₁, hs₁, hselect⟩⟩ :=
    metadataReceivedAlert_ok hx
  -- no room: the cancel requires nothing and leaves no live run
  · have htorrents := (keepsFiles_cancel hcancel).torrents
    rw [hs₁] at htorrents
    have hdead := live_cancel hcancel
    exact hm.ended hsound ⟨Or.inr hdead, htorrents⟩ hdead
  · obtain ⟨hown, htakes⟩ := hhandles.resolve_left hroom
    obtain ⟨md, i, fe, hselects⟩ := selectsFile_of_selectFile hselect
    have hkeeps₁ : m.streamer.KeepsFiles m₁.streamer := by
      rw [hs₁]
      exact .of_eq rfl rfl
    have htidy₁ : m₁.Tidy := hm.kept (by rw [hs₁]; exact hm.sound.of_eq rfl rfl) hkeeps₁
    refine ⟨hselects.tidy htidy₁ hsound, hselects.forChosen (fun hlive => ?_) ?_⟩
    -- the live run's torrent: its head and tail lie inside the file chosen now
    · have hlive : m.streamer.live = some h := by
        rw [← hlive, hs₁]
        rfl
      have hchoice : m.choice? md.val = some i := by
        rw [← hselects.choice]
        exact (choice?_congr hg₁ (by rw [hs₁]; rfl)).symm
      have hknows : md ∈ m.metadata? h := by
        obtain ⟨t, ht, hmd⟩ := hselects.knows
        rw [hs₁] at ht
        exact Option.bind_eq_some_iff.mpr ⟨t, ht, hmd⟩
      have hrequired : m₁.streamer.requiredPieces = m.streamer.requiredPieces := by
        rw [hs₁]
        rfl
      rw [hselects.requiredPieces, hrequired]
      exact real_headAndTail hselects.file (htakes hlive md hknows i hchoice)
    · exact (hown.kept hm.sound hkeeps₁).imp fun h' _ _ _ heq hne => absurd heq hne

/-- The streamer once file `i` was chosen, as far as the next window depends on it. -/
def Machine.selecting (md : Metadata) (i : Int) (fe : FileEntry) (m : Machine) : Machine where
  globals := { m.globals with minPieces := md.val.minPieces fe }
  streamer := m.streamer.requires (m.streamer.requiredPieces ++ headAndTail md.val i fe)

/-- The window that follows the choice of a file is empty, or lies inside that file. -/
def Machine.ChoosesInside (h : Nat) (m : Machine) : Prop :=
  ∀ md ∈ m.metadata? h, ∀ i ∈ m.choice? md.val, ∀ fe ∈ md.val.fileAt i,
    ∀ next ∈ (m.selecting md i fe).nextPiece?,
      (m.streamer.live = some h → Inside md i.toNat next (md.val.minPieces fe).toNat) ∧
      m.ForChosen fun h' _ _ => h' ≠ h →
        (md.val.minPieces fe).toNat = 0 ∨ (md.val.numPieces : Int) ≤ next

instance (h : Nat) (m : Machine) : Decidable (m.ChoosesInside h) :=
  inferInstanceAs (Decidable (∀ md ∈ m.metadata? h, ∀ i ∈ m.choice? md.val,
    ∀ fe ∈ md.val.fileAt i, ∀ next ∈ (m.selecting md i fe).nextPiece?,
      (m.streamer.live = some h → Inside md i.toNat next (md.val.minPieces fe).toNat) ∧
      m.ForChosen fun h' _ _ => h' ≠ h →
        (md.val.minPieces fe).toNat = 0 ∨ (md.val.numPieces : Int) ≤ next))

/-- The condition of a piece-finished alert that finds all required pieces: the next window is
empty, or lies inside the chosen file. If `MIN_PIECES` is `0`, that file is chosen now, unless
the device has no room. -/
def Machine.StaysInside (env : Env) (h : Nat) (m : Machine) : Prop :=
  m.allPresent env h = true →
    if m.globals.minPieces = 0 then env.LowSpace h ∨ m.ChoosesInside h
    else ∀ next ∈ m.nextPiece?, m.Fits h next m.globals.minPieces.toNat

instance (env : Env) (h : Nat) (m : Machine) : Decidable (m.StaysInside env h) :=
  inferInstanceAs (Decidable (m.allPresent env h = true →
    if m.globals.minPieces = 0 then env.LowSpace h ∨ m.ChoosesInside h
    else ∀ next ∈ m.nextPiece?, m.Fits h next m.globals.minPieces.toNat))

/-- From `m` to `m'` nothing changes that the choice of a file and the next window depend on. -/
structure Machine.SameWindow (m m' : Machine) : Prop where
  globals : m'.globals = m.globals
  session : m'.streamer.session = m.streamer.session
  live : m'.streamer.live = m.streamer.live
  selectionBlock : m'.streamer.selectionBlock = m.streamer.selectionBlock
  requiredPieces : m'.streamer.requiredPieces = m.streamer.requiredPieces
  firstPiece : m'.streamer.firstPiece = m.streamer.firstPiece

theorem Machine.SameWindow.of_eq {m₁ m₂ : Machine} (hsame : m.SameWindow m₁)
    (hg : m₂.globals = m₁.globals) (hs : m₂.streamer = m₁.streamer) : m.SameWindow m₂ := by
  obtain ⟨h₁, h₂, h₃, h₄, h₅, h₆⟩ := hsame
  exact ⟨by rw [hg, h₁], by rw [hs, h₂], by rw [hs, h₃], by rw [hs, h₄], by rw [hs, h₅],
    by rw [hs, h₆]⟩

theorem Machine.SameWindow.tidy (hsame : m.SameWindow m') (hm : m.Tidy)
    (hpath : m'.streamer.savePath = m.streamer.savePath) : m'.Tidy :=
  hm.kept (hm.sound.of_eq hsame.session hpath)
    (.of_eq hsame.live (congrArg Session.torrents hsame.session))

theorem Machine.SameWindow.forChosen {P : Nat → Metadata → Nat → Prop}
    (hsame : m.SameWindow m') : m'.ForChosen P ↔ m.ForChosen P := by
  unfold Machine.ForChosen
  rw [hsame.live, hsame.session]

theorem Machine.SameWindow.nextPiece (hsame : m.SameWindow m') :
    m'.nextPiece? = m.nextPiece? := by
  unfold Machine.nextPiece?
  rw [hsame.firstPiece, hsame.requiredPieces, hsame.globals]

theorem Machine.SameWindow.metadata (hsame : m.SameWindow m') :
    m'.metadata? h = m.metadata? h := by
  rw [Machine.metadata?, hsame.session, Machine.metadata?]

theorem Machine.SameWindow.choice (hsame : m.SameWindow m') (ti : TorrentInfo) :
    m'.choice? ti = m.choice? ti := choice?_congr hsame.globals hsame.selectionBlock

theorem Machine.SameWindow.selecting {md : Metadata} {i : Int} {fe : FileEntry}
    (hsame : m.SameWindow m') : (m.selecting md i fe).SameWindow (m'.selecting md i fe) := by
  refine ⟨?_, hsame.session, hsame.live, hsame.selectionBlock, ?_, hsame.firstPiece⟩
  · rw [Machine.selecting, hsame.globals]
    rfl
  · show _ ++ _ = _ ++ _
    rw [hsame.requiredPieces]

theorem Machine.SameWindow.choosesInside (hsame : m.SameWindow m') (hm : m.ChoosesInside h) :
    m'.ChoosesInside h := by
  intro md hmd i hi fe hfe next hnext
  rw [hsame.metadata] at hmd
  rw [hsame.choice] at hi
  rw [hsame.selecting.nextPiece] at hnext
  rw [hsame.forChosen, hsame.live]
  exact hm md hmd i hi fe hfe next hnext

/-- Telling the progress changes nothing of this. -/
theorem sameWindow_progress {st : TorrentStatus} {told : PTTorrentStatus}
    (hg : m'.globals = m.globals) (hs : m'.streamer = m.streamer.progress st told) :
    m.SameWindow m' := by
  have hlive := (frames_progress st told m.streamer).live_eq
  rw [← hs] at hlive
  exact ⟨hg, by rw [hs]; rfl, hlive, by rw [hs]; rfl, by rw [hs]; rfl, by rw [hs]; rfl⟩

theorem Machine.SameWindow.needs {env : Env} {m₁ m₂ : Machine} (hsame : m.SameWindow m₁)
    (hg : m₂.globals = m₁.globals)
    (hs : m₂.streamer = m₁.streamer.needs (env.status h).totalWanted) : m.SameWindow m₂ := by
  refine ⟨by rw [hg, hsame.globals], ?_, ?_, ?_, ?_, ?_⟩ <;> rw [hs]
  · exact hsame.session
  · exact hsame.live
  · exact hsame.selectionBlock
  · exact hsame.requiredPieces
  · exact hsame.firstPiece

theorem SelectsFile.nextPiece {md : Metadata} {i : Int} {fe : FileEntry}
    (hselects : SelectsFile h md i fe m m') :
    m'.nextPiece? = (m.selecting md i fe).nextPiece? := by
  unfold Machine.nextPiece?
  rw [hselects.firstPiece, hselects.requiredPieces, hselects.minPieces]
  rfl

theorem SelectsFile.metadata {md : Metadata} {i : Int} {fe : FileEntry}
    (hselects : SelectsFile h md i fe m m') : md ∈ m.metadata? h := by
  obtain ⟨t, ht, hmd⟩ := hselects.knows
  exact Option.bind_eq_some_iff.mpr ⟨t, ht, hmd⟩

theorem SelectsFile.numPieces {md : Metadata} {i : Int} {fe : FileEntry} {t : Torrent}
    (hselects : SelectsFile h md i fe m m') (ht : m'.streamer.session.find? h = some t) :
    t.numPieces = md.val.numPieces := by
  obtain ⟨t', ht', hkey⟩ := hselects.own
  obtain rfl := Option.some.inj (ht'.symm.trans ht)
  have hinfo : t'.info = some md := congrArg (fun key => key.2.1) hkey
  rw [Torrent.numPieces, hinfo]
  rfl

/-- The window after the file was chosen again. -/
theorem fits_afterSelect {m₁ m₂ : Machine} (hm₁ : m₁.Tidy)
    (hselect : selectFile env h m₁ = .ok u m₂) (hinside : m₁.ChoosesInside h) :
    m₂.Tidy ∧ ∀ next ∈ m₂.nextPiece?, m₂.Fits h next m₂.globals.minPieces.toNat := by
  obtain ⟨md, i, fe, hselects⟩ := selectsFile_of_selectFile hselect
  refine ⟨hselects.tidy hm₁ (sound_selectFile hm₁.sound hselect), fun next hnext t ht => ?_⟩
  rw [hselects.nextPiece] at hnext
  obtain ⟨hown, hothers⟩ := hinside md hselects.metadata i hselects.choice fe hselects.file next
    hnext
  rw [hselects.minPieces, hselects.numPieces ht]
  refine hselects.forChosen (fun hlive => Or.inr (Or.inr ⟨rfl, hown hlive⟩)) ?_
  refine hothers.imp fun h' _ _ _ hempty hne => ?_
  rcases hempty hne with hzero | hpast
  · exact Or.inl hzero
  · exact Or.inr (Or.inl hpast)

theorem fitting_pieceFinishedAlert (hm : m.Fitting) (hstays : m.StaysInside env h)
    (hx : pieceFinishedAlert env h m = .ok u m') : m'.Fitting := by
  have hsound := sound_pieceFinishedAlert hm.tidy.sound hx
  obtain ⟨-, n, m₁, hg₁, hs₁, hcases⟩ := pieceFinishedAlert_ok hx
  have hsame₁ := sameWindow_progress hg₁ hs₁
  have hpath₁ : m₁.streamer.savePath = m.streamer.savePath := by
    rw [hs₁]
    rfl
  rcases hcases with ⟨-, hg', hs'⟩ | ⟨hall, m₂, hnext, ⟨hpos, hg₂, hs₂⟩ |
    ⟨hzero, m₃, hg₃, hs₃, hmeta⟩⟩
  -- a required piece is missing: only the progress is told
  · have hsame' := hsame₁.of_eq hg' hs'
    exact hm.kept hsound (.of_eq hsame'.live (congrArg Session.torrents hsame'.session))
      hsame'.requiredPieces
  · -- the window goes on
    have hfits := hstays hall
    rw [if_neg hpos] at hfits
    have hsame₂ := hsame₁.of_eq hg₂ hs₂
    have htidy₂ := hsame₂.tidy hm.tidy (by rw [hs₂, hpath₁])
    refine fitting_prioritizeNextPieces htidy₂ (fun next hnext' t ht => ?_) hnext
    rw [hsame₂.nextPiece] at hnext'
    rw [hsame₂.session] at ht
    rw [hsame₂.forChosen, hsame₂.globals]
    exact hfits next hnext' t ht
  · -- the file is chosen again
    have hagain := hstays hall
    rw [if_pos hzero] at hagain
    obtain ⟨-, -, ⟨-, m₄, -, hs₄, hcancel⟩ | ⟨hroom, m₄, hg₄, hs₄, hselect⟩⟩ :=
      metadataReceivedAlert_ok hmeta
    · -- no room: the run is cancelled before the window goes on
      have hkeeps' := keepsFiles_prioritizeNextPieces hnext
      have hdead : m'.streamer.live = none := by
        rw [(frames_prioritizeNextPieces hnext).live_eq, live_cancel hcancel]
      have htorrents := (keepsFiles_cancel hcancel).torrents
      rw [hs₄, hs₃, hs₁] at htorrents
      refine hm.tidy.ended hsound ⟨Or.inr hdead, fun t' ht' => ?_⟩ hdead
      obtain ⟨t₂, ht₂, hkey₂⟩ := hkeeps'.torrents t' ht'
      obtain ⟨t, ht, hkey⟩ := htorrents t₂ ht₂
      exact ⟨t, ht, hkey.trans hkey₂⟩
    · have hsame₄ := (hsame₁.of_eq hg₃ hs₃).needs hg₄ hs₄
      have htidy₄ := hsame₄.tidy hm.tidy (by rw [hs₄, hs₃]; exact hpath₁)
      have hinside := hsame₄.choosesInside (hagain.resolve_left hroom)
      obtain ⟨htidy₂, hfits⟩ := fits_afterSelect htidy₄ hselect hinside
      exact fitting_prioritizeNextPieces htidy₂ hfits hnext

/-! ## Fast-forwards -/

/-- The last window that a fast-forward over the torrents `hs` asks for: its torrent and its
first piece. -/
def lastWindow (env : Env) (location length : Nat) : List Nat → Machine → Option (Nat × Int)
  | [], _ => none
  | h :: hs, m =>
      match fastForwardTorrent env location length h m with
      | .ok false m' =>
          (lastWindow env location length hs m').or (some (h, startPiece env location length h m))
      | _ => none

/-- What is known of a torrent afterwards was known before. -/
theorem Knows.of_kept {md : Metadata} (hm : m.streamer.Sound)
    (hkeeps : m.streamer.KeepsFiles m'.streamer) (hknows : Knows h md m') : Knows h md m := by
  obtain ⟨t', ht', hmd⟩ := hknows
  obtain ⟨t, ht, hkey⟩ := hkeeps.torrents t' (Session.find?_mem ht')
  obtain ⟨hhandle, hinfo, -⟩ : t.handle = t'.handle ∧ t.info = t'.info ∧
      t.filePriorities = t'.filePriorities := by simpa [Torrent.fileKey] using hkey
  refine ⟨t, ?_, hinfo.trans hmd⟩
  rw [← Session.find?_handle ht', ← hhandle]
  exact hm.find?_of_mem ht

theorem round_ok {location length : Nat} {r : Bool}
    (hx : fastForwardTorrent env location length h m = .ok r m') :
    (r = true → m'.streamer.requiredPieces = m.streamer.requiredPieces) ∧
      (r = false → ∃ md, Knows h md m ∧ m'.streamer.requiredPieces =
        windowFrom (startPiece env location length h m) m.globals.minPieces.toNat
          md.val.numPieces) := by
  obtain ⟨t, md, i, g, es, last, ht, hmd, -, -, hcases⟩ := fastForwardTorrent_ok hx
  have hknows : Knows h md m := ⟨t, ht, hmd⟩
  have hsought := sought_of_round hknows hx
  refine ⟨fun htrue => ?_, fun hfalse => ⟨md, ⟨t, ht, hmd⟩, hsought.miss hfalse⟩⟩
  rcases hcases with ⟨-, -, hs'⟩ | ⟨hfalse, -⟩
  · rw [hs']
    rfl
  · rw [htrue] at hfalse
    cases hfalse

/-- **What a fast-forward leaves required**: what was, or the last window it asks for. -/
theorem required_fastForwardLoop {location length : Nat} {hs : List Nat} {r : Bool}
    (hm : m.streamer.Sound) (hx : fastForwardLoop env location length hs m = .ok r m') :
    m.streamer.KeepsFiles m'.streamer ∧
      (lastWindow env location length hs m = none →
        m'.streamer.requiredPieces = m.streamer.requiredPieces) ∧
      ∀ h next, lastWindow env location length hs m = some (h, next) → ∃ md, Knows h md m ∧
        m'.streamer.requiredPieces =
          windowFrom next m.globals.minPieces.toNat md.val.numPieces := by
  induction hs generalizing m with
  | nil =>
      obtain ⟨-, rfl⟩ := pure_eq_ok.mp hx
      exact ⟨.of_eq rfl rfl, fun _ => rfl, fun h next hlast => by cases hlast⟩
  | cons h hs ih =>
      obtain ⟨there, m₁, hround, hrest⟩ := bind_eq_ok.mp hx
      have hkeeps₁ := keepsFiles_fastForwardTorrent hround
      have hsound₁ := sound_fastForwardTorrent hm hround
      obtain ⟨hhit, hmiss⟩ := round_ok hround
      rw [lastWindow, hround]
      cases there with
      | true =>
          obtain ⟨-, rfl⟩ := pure_eq_ok.mp hrest
          exact ⟨hkeeps₁, fun _ => hhit rfl, fun h next hlast => by cases hlast⟩
      | false =>
          obtain ⟨hkeeps, hnone, hsome⟩ := ih hsound₁ hrest
          obtain ⟨md, hknows, hrequired⟩ := hmiss rfl
          refine ⟨hkeeps₁.trans hkeeps, fun hlast => ?_, fun h' next hlast => ?_⟩
          · simp at hlast
          · dsimp only at hlast
            cases hrounds : lastWindow env location length hs m₁ with
            | none =>
                -- this round asks for the last window
                rw [hrounds, Option.none_or, Option.some.injEq, Prod.mk.injEq] at hlast
                obtain ⟨rfl, rfl⟩ := hlast
                exact ⟨md, hknows, (hnone hrounds).trans hrequired⟩
            | some later =>
                rw [hrounds, Option.some_or] at hlast
                obtain ⟨md', hknows', hrequired'⟩ := hsome h' next (hrounds.trans hlast)
                rw [minPieces_round hround] at hrequired'
                exact ⟨md', hknows'.of_kept hm hkeeps₁, hrequired'⟩

/-- The condition of a fast-forward: the last window it asks for is empty, or lies inside the
chosen file. -/
def Machine.SeeksInside (env : Env) (location length : Nat) (m : Machine) : Prop :=
  ∀ last ∈ lastWindow env location length (m.streamer.session.torrents.map (·.handle)) m,
    m.Fits last.1 last.2 m.globals.minPieces.toNat

instance (env : Env) (location length : Nat) (m : Machine) :
    Decidable (m.SeeksInside env location length) :=
  inferInstanceAs (Decidable (∀ last ∈ lastWindow env location length
    (m.streamer.session.torrents.map (·.handle)) m,
      m.Fits last.1 last.2 m.globals.minPieces.toNat))

theorem fitting_fastForward {location length : Nat} {r : Bool} (hm : m.Fitting)
    (hseeks : m.SeeksInside env location length)
    (hx : fastForwardTorrentForRange env location length m = .ok r m') : m'.Fitting := by
  have hloop := fastForwardTorrentForRange_ok hx
  have hsound := sound_fastForwardLoop hm.tidy.sound hloop
  obtain ⟨hkeeps, hnone, hsome⟩ := required_fastForwardLoop hm.tidy.sound hloop
  cases hlast : lastWindow env location length (m.streamer.session.torrents.map (·.handle)) m with
  | none => exact hm.kept hsound hkeeps (hnone hlast)
  | some last =>
      obtain ⟨md, ⟨t, ht, hmd⟩, hrequired⟩ := hsome last.1 last.2 hlast
      refine ⟨hm.tidy.kept hsound hkeeps, ?_⟩
      have hpieces : t.numPieces = md.val.numPieces := by
        rw [Torrent.numPieces, hmd]
        rfl
      rw [Machine.Real, hrequired, ← hpieces]
      exact ((hseeks last hlast).real hm.tidy ht).kept hm.tidy.sound hkeeps

/-! ## Starts -/

/-- The metadata of the torrent that `add_torrent` answers with. -/
def Session.infoFor (session : Session) (tp : AddTorrentParams) : Option Metadata :=
  match session.holding? tp with
  | some t => t.info
  | none => tp.info

/-- The condition of a start that comes to `add_torrent`. A link that finds its torrent in the
session finds nothing required, or it is the torrent of the live run. A torrent file has its
metadata handled: the device has no room, or what is required leaves room for the head and the
tail of its default file. -/
def Machine.StartsInside (env : Env) (arg : Text) (m : Machine) : Prop :=
  ∀ tp ∈ env.addParams? arg none,
    (isMagnet arg = true → ∀ t ∈ m.streamer.session.holding? tp,
      m.streamer.requiredPieces = [] ∨ m.streamer.live = some t.handle) ∧
    (isMagnet arg = false → env.LowSpace (m.streamer.session.handleFor tp) ∨
      ∀ md ∈ m.streamer.session.infoFor tp,
        TakesIn md (defaultFileIndex md.val) m.streamer.requiredPieces)

instance (env : Env) (arg : Text) (m : Machine) : Decidable (m.StartsInside env arg) :=
  inferInstanceAs (Decidable (∀ tp ∈ env.addParams? arg none,
    (isMagnet arg = true → ∀ t ∈ m.streamer.session.holding? tp,
      m.streamer.requiredPieces = [] ∨ m.streamer.live = some t.handle) ∧
    (isMagnet arg = false → env.LowSpace (m.streamer.session.handleFor tp) ∨
      ∀ md ∈ m.streamer.session.infoFor tp,
        TakesIn md (defaultFileIndex md.val) m.streamer.requiredPieces)))

theorem fitting_failStart {failure : Option BlockId} {error : NSError} (hm : m.Tidy)
    (hsound : m'.streamer.Sound) (hx : failStart env failure error m = .ok u m') :
    m'.Fitting := by
  obtain ⟨m₁, -, hs₁, hcancel⟩ := failStart_ok hx
  have hdead := live_cancel hcancel
  have htorrents := (keepsFiles_cancel hcancel).torrents
  rw [hs₁] at htorrents
  exact hm.ended hsound ⟨Or.inr hdead, htorrents⟩ hdead

theorem sparesFiles_addCommands : ∀ c ∈ addCommands, c.SparesFiles := by
  intro c hc
  simp only [addCommands, List.mem_cons, List.not_mem_nil, or_false] at hc
  rcases hc with rfl | rfl | rfl <;> trivial

theorem AddTorrentParams.torrent_filePriorities (tp : AddTorrentParams) (h : Nat) :
    (tp.torrent h).filePriorities = [] := by
  unfold AddTorrentParams.torrent
  cases tp.info <;> rfl

/-- The metadata of the torrent that is added or found. -/
theorem Adds.info {tp : AddTorrentParams} {s s₁ : Streamer} (hadds : Adds tp s h s₁)
    (hs : s.Sound) (hpath : s.savePath.isSome) :
    ∃ t, s₁.session.find? h = some t ∧ t.info = s.session.infoFor tp := by
  obtain ⟨t, ht, horigin⟩ := hadds.find? hs hpath
  refine ⟨t, ht, ?_⟩
  rw [Session.infoFor]
  rcases horigin with hholding | ⟨hholding, rfl⟩
  · rw [hholding]
  · rw [hholding]
    exact tp.torrent_info h

/-- A torrent of the session after `add_torrent` was there before, or has no file priorities. -/
theorem Adds.mem {tp : AddTorrentParams} {s s₁ : Streamer} {t : Torrent} (hadds : Adds tp s h s₁)
    (ht : t ∈ s₁.session.torrents) :
    t ∈ s.session.torrents ∨ s.session.holding? tp = none ∧ t = tp.torrent h := by
  cases hadds with
  | found t₀ ht₀ => exact Or.inl ht
  | added order hnew =>
      rcases Session.mem_insert.mp ht with rfl | ht
      · exact Or.inr ⟨hnew, rfl⟩
      · exact Or.inl ht

theorem live_added {tp : AddTorrentParams} {s₁ : Streamer} (hadds : Adds tp m.streamer h s₁)
    (hs' : m'.streamer = s₁.sent env h addCommands) : m'.streamer.live = some h := by
  rw [hs', (Streamer.Frames.sent env h addCommands s₁).live_eq]
  exact hadds.handleFor.2

/-- A torrent that is found has its pieces required already, or none. -/
theorem real_found {tp : AddTorrentParams} {s₁ : Streamer} (hm : m.Fitting)
    (hadds : Adds tp m.streamer h s₁) (hs' : m'.streamer = s₁.sent env h addCommands)
    (hfound : ∀ t ∈ m.streamer.session.holding? tp,
    m.streamer.requiredPieces = [] ∨ m.streamer.live = some t.handle) : m'.Real := by
  have hrequired : m'.streamer.requiredPieces = m.streamer.requiredPieces := by
    rw [hs']
    cases hadds <;> rfl
  intro h' hlive t' ht' md hmd f hlt hf
  obtain rfl : h = h' :=
    Option.some.inj ((live_added hadds hs').symm.trans hlive)
  have hhandle := Session.find?_handle ht'
  have hmem := Session.find?_mem ht'
  rw [hs'] at hmem
  obtain ⟨t, ht, hkey⟩ := (keepsFiles_sent env h s₁ sparesFiles_addCommands).torrents t' hmem
  obtain ⟨hsame, hinfo, hfiles⟩ : t.handle = t'.handle ∧ t.info = t'.info ∧
      t.filePriorities = t'.filePriorities := by simpa [Torrent.fileKey] using hkey
  rw [← hfiles] at hlt
  rw [Torrent.Selected, ← hfiles] at hf
  rw [hrequired]
  cases hadds with
  | found t₀ ht₀ =>
      rcases hfound t₀ ht₀ with hnil | hlive₀
      · -- nothing is required when it is found
        rw [hnil]
        exact realPieces_nil md f
      · -- it was live before, and keeps what is required of it
        have hfind := hm.tidy.sound.find?_of_mem ht
        rw [hsame, hhandle] at hfind
        exact hm.real _ hlive₀ t hfind md (hinfo.trans hmd) f hlt hf
  | added order hnew =>
      rcases Session.mem_insert.mp ht with rfl | ht
      · -- a torrent that has just been added has no file priorities
        rw [tp.torrent_filePriorities] at hlt
        exact absurd hlt (Nat.not_lt_zero f)
      · have := hm.tidy.sound.handle_lt t ht
        omega

section AddTorrent

variable {tp : AddTorrentParams} {s₁ : Streamer} (hm : m.Fitting)
  (hpath : m.streamer.savePath.isSome) (hadds : Adds tp m.streamer h s₁)
  (hs' : m'.streamer = s₁.sent env h addCommands)

include hm hpath hadds hs'

theorem tidy_added : m'.Tidy := by
  refine ⟨by rw [hs']; exact hadds.sound hm.tidy.sound hpath, fun t' ht' => ?_⟩
  rw [hs'] at ht'
  obtain ⟨t, ht, hkey⟩ := (keepsFiles_sent env h s₁ sparesFiles_addCommands).torrents t' ht'
  refine Torrent.Filed.of_key ?_ hkey
  rcases hadds.mem ht with ht | ⟨-, rfl⟩
  · exact hm.tidy.filed t ht
  · exact Or.inl (tp.torrent_filePriorities h)

/-- The metadata of a torrent file is handled when its torrent is added or found. -/
theorem handles_added (hflag : m'.globals.shouldUserSelectFiles = false)
    (htakes : env.LowSpace (m.streamer.session.handleFor tp) ∨
      ∀ md ∈ m.streamer.session.infoFor tp,
        TakesIn md (defaultFileIndex md.val) m.streamer.requiredPieces) : m'.Handles env h := by
  rw [← hadds.handleFor.1] at htakes
  refine htakes.imp_right fun htakes => ⟨fun h' hlive _ _ _ _ _ _ _ => ?_, fun _ md hmd i hi => ?_⟩
  · exact Option.some.inj (hlive.symm.trans (live_added hadds hs'))
  · have hrequired : m'.streamer.requiredPieces = m.streamer.requiredPieces := by
      rw [hs']
      cases hadds <;> rfl
    have hi : i = defaultFileIndex md.val := by
      rw [Option.mem_def, Machine.choice?, hflag, if_neg (by decide)] at hi
      exact (Option.some.inj hi).symm
    obtain ⟨t, ht, hinfo⟩ := hadds.info hm.tidy.sound hpath
    rw [hrequired, hi]
    refine htakes md ?_
    obtain ⟨t', ht', hmd⟩ := Option.bind_eq_some_iff.mp hmd
    rw [hs', find?_sent, if_pos rfl, ht, Option.map_some] at ht'
    rw [← hinfo, ← Torrent.applyAll_info _ t addCommands, Option.some.inj ht']
    exact hmd

end AddTorrent

theorem fitting_addAndResume {arg : Text} {failure : Option BlockId} {tp : AddTorrentParams}
    (hm : m.Fitting) (hpath : m.streamer.savePath.isSome)
    (hflag : isMagnet arg = false → m.globals.shouldUserSelectFiles = false)
    (hmagnet : isMagnet arg = true → ∀ t ∈ m.streamer.session.holding? tp,
      m.streamer.requiredPieces = [] ∨ m.streamer.live = some t.handle)
    (hfile : isMagnet arg = false → env.LowSpace (m.streamer.session.handleFor tp) ∨
      ∀ md ∈ m.streamer.session.infoFor tp,
        TakesIn md (defaultFileIndex md.val) m.streamer.requiredPieces)
    (hx : addAndResume env arg failure tp m = .ok u m') : m'.Fitting := by
  have hsound := sound_addAndResume hm.tidy.sound hpath hx
  obtain ⟨h, s₁, m₂, m₃, hadds, -, hg₂, hs₂, hmeta, -, hs'⟩ := addAndResume_ok hx
  have htidy₂ := tidy_added hm hpath hadds hs₂
  have hfitting₃ : m₃.Fitting := by
    rcases hmeta with ⟨hlink, rfl⟩ | ⟨hlocal, hmeta⟩
    · exact ⟨htidy₂, real_found hm hadds hs₂ (hmagnet hlink)⟩
    · refine fitting_metadataReceivedAlert htidy₂ ?_ hmeta
      exact handles_added hm hpath hadds hs₂ (by rw [hg₂]; exact hflag hlocal) (hfile hlocal)
  have hresumes := frames_resumes m₃.streamer
  rw [← hs'] at hresumes
  refine hfitting₃.kept hsound (.of_eq hresumes.live_eq ?_) ?_
  · rw [hs']
    rfl
  · rw [hs']
    rfl

theorem Loads.live {arg : Text} {p : AddTorrentParams × Text} (hloads : Loads env arg m m' p) :
    m'.streamer.live = m.streamer.live := by
  cases hloads with
  | magnet tp hmagnet hparse hm => rw [hm]
  | file md i fe g es hfile hexists hparse hselects hfe hg hs =>
      rw [hs]
      exact (Streamer.Frames.log hselects.neutral m.streamer).live_eq

theorem fitting_start {arg : Text} {progress readyToPlay failure : Option BlockId}
    (hm : m.Fitting) (hstarts : m.StartsInside env arg)
    (hx : startStreamingFromFile env arg progress readyToPlay failure m = .ok u m') :
    m'.Fitting := by
  have hsound := sound_start hm.tidy.sound hx
  rcases startStreamingFromFileInDirectory_ok hx with ⟨-, -, error, hfail⟩ |
    ⟨tp, md5, m₁, hloads, -, error, path?, m₂, -, hs₂, -, hfail⟩ |
    ⟨tp, md5, m₁, hloads, path, m₂, hopened, hg₂, hs₂, hadd⟩
  · have hacquired : Machine.Tidy
        { m with streamer := m.streamer.acquire progress readyToPlay failure } :=
      hm.tidy.kept (hm.tidy.sound.of_eq rfl rfl) (.of_eq rfl rfl)
    exact fitting_failStart hacquired hsound hfail
  · -- there is no folder: the cancel leaves no live run
    obtain ⟨m₃, -, hs₃, hcancel⟩ := failStart_ok hfail
    have hdead := live_cancel hcancel
    obtain ⟨es, hs₁⟩ := hloads.frame
    have htorrents := (keepsFiles_cancel hcancel).torrents
    rw [hs₃, hs₂, hs₁] at htorrents
    exact hm.tidy.ended hsound ⟨Or.inr hdead, htorrents⟩ hdead
  -- up to add_torrent nothing that the invariant is about has changed
  · have hsession : m₂.streamer.session = m.streamer.session := by
      rw [hs₂]
      exact hloads.session
    have hrequired : m₂.streamer.requiredPieces = m.streamer.requiredPieces := by
      rw [hs₂]
      exact hloads.requiredPieces
    have hlive : m₂.streamer.live = m.streamer.live := by
      rw [hs₂]
      exact hloads.live
    have hsound₂ : m₂.streamer.Sound := hm.tidy.sound.of_session hsession (by rw [hs₂]; rfl)
    have hfitting₂ : m₂.Fitting := by
      refine hm.kept hsound₂ (.of_eq hlive ?_) hrequired
      rw [hsession]
    have hparams : env.addParams? arg none = some (finalParams env arg path tp) := by
      rw [hloads.addParams?, hopened]
      rfl
    obtain ⟨hmagnet, hfile⟩ := hstarts _ hparams
    refine fitting_addAndResume hfitting₂ (by rw [hs₂]; rfl) (fun hlocal => ?_) ?_ ?_ hadd
    · rw [hg₂]
      exact (@Loads.info _ _ env arg path md5 tp hloads hlocal).1
    · rw [hsession, hrequired, hlive]
      exact hmagnet
    · rw [hsession, hrequired]
      exact hfile

/-! ## Runs -/

/-- The condition of an alert. -/
def AlertInside (m : Machine) : Env × Alert → Prop
  | (env, .metadataReceived h) => m.Handles env h
  | (env, .pieceFinished h _) => m.StaysInside env h
  | (_, .torrentFinished _) => True
  | (_, .saveResumeData _) => True

instance (m : Machine) : (d : Env × Alert) → Decidable (AlertInside m d)
  | (env, .metadataReceived h) => inferInstanceAs (Decidable (m.Handles env h))
  | (env, .pieceFinished h _) => inferInstanceAs (Decidable (m.StaysInside env h))
  | (_, .torrentFinished _) => .isTrue trivial
  | (_, .saveResumeData _) => .isTrue trivial

theorem fitting_dispatchAlert {d : Env × Alert} (hm : m.Fitting)
    (hinside : m.streamer.session.canDeliver d.2 = true → AlertInside m d)
    (hx : dispatchAlert d.1 d.2 m = .ok u m') : m'.Fitting := by
  obtain ⟨env, a⟩ := d
  have hsound := sound_dispatchAlert hm.tidy.sound hx
  rw [dispatchAlert_apply] at hx
  split at hx
  · rename_i hcan
    have hdelivered : Machine.Fitting { m with streamer := m.streamer.delivers a } :=
      hm.kept (hm.tidy.sound.of_torrents rfl (List.Sublist.refl _) Or.inl) (.of_eq rfl rfl) rfl
    have hinside : AlertInside { m with streamer := m.streamer.delivers a } (env, a) :=
      hinside hcan
    cases a with
    | metadataReceived h => exact fitting_metadataReceivedAlert hdelivered.tidy hinside hx
    | pieceFinished h piece => exact fitting_pieceFinishedAlert hdelivered hinside hx
    | torrentFinished h =>
        refine hdelivered.kept hsound (keepsFiles_torrentFinishedAlert hx) ?_
        exact (torrentFinishedAlert_required hx).1
    | saveResumeData h =>
        obtain ⟨st, m₁, h₁, k₁⟩ := bind_eq_ok.mp hx
        obtain ⟨-, -, rfl⟩ := statusOf_eq_ok.mp h₁
        refine hdelivered.kept hsound (keepsFiles_resumeDataReadyAlertWithData k₁) ?_
        obtain ⟨-, hs'⟩ := resumeDataReadyAlertWithData_ok k₁
        rw [hs']
        rfl
  · cases hx
    exact hm

/-- The condition of a step: the pieces it asks for are those of the chosen file. -/
def EventInside (m : Machine) : Event → Prop
  | .start env arg _ _ _ => m.StartsInside env arg
  | .startMulti env arg _ _ _ _ => m.StartsInside env arg
  | .alertsLoop batch => AlertsMeet AlertInside m (.alertsLoop batch)
  | .fastForward env location length => m.SeeksInside env location length
  | .cancel _ _ => True
  | .mainQueue => True
  | .metadataArrives _ _ => True

instance (m : Machine) : (e : Event) → Decidable (EventInside m e)
  | .start env arg _ _ _ => inferInstanceAs (Decidable (m.StartsInside env arg))
  | .startMulti env arg _ _ _ _ => inferInstanceAs (Decidable (m.StartsInside env arg))
  | .alertsLoop batch => inferInstanceAs (Decidable (AlertsMeet AlertInside m (.alertsLoop batch)))
  | .fastForward env location length =>
      inferInstanceAs (Decidable (m.SeeksInside env location length))
  | .cancel _ _ => .isTrue trivial
  | .mainQueue => .isTrue trivial
  | .metadataArrives _ _ => .isTrue trivial

/-- Metadata that arrives chooses no file. -/
theorem fitting_metadataArrives {md : Metadata} (hm : m.Fitting)
    (hx : step (.metadataArrives h md) m = .ok u m') : m'.Fitting := by
  have hsound := sound_step hm.tidy.sound hx
  simp only [step, modifies_eq_ok] at hx
  have hlive : m'.streamer.live = m.streamer.live := by
    rw [hx]
    exact (frames_metadataArrives h md m.streamer).live_eq
  have hsession : m'.streamer.session = m.streamer.session.metadataArrives h md := by
    rw [hx]
    rfl
  have hrequired : m'.streamer.requiredPieces = m.streamer.requiredPieces := by
    rw [hx]
    rfl
  rcases Session.metadataArrives_cases m.streamer.session h md with heq | ⟨t, ht, hnone, heq⟩
  · refine hm.kept hsound (.of_eq hlive ?_) hrequired
    rw [hsession, heq]
  have hblank : t.filePriorities = [] := by
    rcases hm.tidy.filed t (Session.find?_mem ht) with hnil | ⟨md', hmd', -⟩
    · exact hnil
    · rw [hnone] at hmd'
      cases hmd'
  -- the other torrents are as they were, and this one has no file priorities
  have htorrents : ∀ t' ∈ m'.streamer.session.torrents,
      t' ∈ m.streamer.session.torrents ∨ t'.filePriorities = [] := by
    intro t' ht'
    rw [hsession, heq] at ht'
    obtain ⟨t₀, h₀, ⟨hhandle, rfl⟩ | ⟨-, rfl⟩⟩ := Session.mem_update ht'
    · have hfind := hm.tidy.sound.find?_of_mem h₀
      rw [hhandle] at hfind
      obtain rfl := Option.some.inj (hfind.symm.trans ht)
      exact Or.inr hblank
    · exact Or.inl h₀
  refine ⟨⟨hsound, fun t' ht' => ?_⟩, fun h' hlive' t' ht' md' hmd' f hlt hf => ?_⟩
  · rcases htorrents t' ht' with hmem | hnil
    · exact hm.tidy.filed t' hmem
    · exact Or.inl hnil
  · rw [hrequired]
    rcases htorrents t' (Session.find?_mem ht') with hmem | hnil
    · have hfind := hm.tidy.sound.find?_of_mem hmem
      rw [Session.find?_handle ht'] at hfind
      exact hm.real h' (hlive.symm.trans hlive') t' hfind md' hmd' f hlt hf
    · rw [hnil] at hlt
      exact absurd hlt (Nat.not_lt_zero f)

/-- **The step lemma.** -/
theorem fitting_step {e : Event} (hm : m.Fitting) (hinside : EventInside m e)
    (hx : step e m = .ok u m') : m'.Fitting := by
  have hsound := sound_step hm.tidy.sound hx
  cases e with
  | start env arg progress readyToPlay failure => exact fitting_start hm hinside hx
  | startMulti env arg progress readyToPlay failure callback =>
      obtain ⟨m₁, -, hs₁, hstart⟩ := startMulti_ok hx
      have hfitting₁ : m₁.Fitting :=
        hm.kept (hm.tidy.sound.of_eq (by rw [hs₁]) (by rw [hs₁]))
          (.of_eq (by rw [hs₁]; rfl) (by rw [hs₁])) (by rw [hs₁])
      -- the condition does not read what the callback sets
      have hinside₁ : m₁.StartsInside env arg := by
        rw [Machine.StartsInside, hs₁]
        exact hinside
      exact fitting_start hfitting₁ hinside₁ hstart
  | cancel env deleteData =>
      exact hm.tidy.ended hsound (keepsFiles_cancel hx) (live_cancel hx)
  | alertsLoop batch =>
      rcases alertsLoop_ok hx with ⟨hactive, hbatch⟩ | ⟨-, rfl⟩
      · refine run_of_eachBefore ?_ hm (hinside hactive) hbatch
        exact fun d m₁ m₂ hm hd hx => fitting_dispatchAlert hm hd hx
      · exact hm
  | fastForward env location length =>
      obtain ⟨r, m₁, hloop, hrest⟩ := bind_eq_ok.mp hx
      obtain ⟨-, rfl⟩ := pure_eq_ok.mp hrest
      exact fitting_fastForward hm hinside hloop
  | mainQueue =>
      refine hm.kept hsound (.of_eq (frames_runMainQueue hx).live_eq ?_) ?_
      all_goals
        obtain ⟨-, ⟨-, hs'⟩ | ⟨b, rest, -, hs'⟩⟩ := runMainQueue_ok hx
        all_goals
          rw [hs']
          try rfl
  | metadataArrives h md => exact fitting_metadataArrives hm hx

theorem fitting_init (n : Nat) : (Machine.init n).Fitting := by
  refine ⟨⟨sound_init n, fun t ht => ?_⟩, .of_dead rfl⟩
  cases ht

/-- **The required pieces are real pieces of the chosen file**, without repetition, in every
state of every run whose steps all meet the condition; and once the file is downloaded, a
piece-finished alert finds them all. -/
theorem real_of_eventInside {n : Nat} {es : List Event}
    (hinside : EachBefore step EventInside es (Machine.init n))
    (hrun : run es (Machine.init n) = .ok () m) : m.Real ∧ m.FindsAll := by
  have hfitting : m.Fitting := run_of_eachBefore (fun _ _ _ hm hinside hx =>
    fitting_step hm hinside hx) (fitting_init n) hinside hrun
  exact ⟨hfitting.real, hfitting.real.findsAll⟩

/-- A film of five pieces: the ten tail pieces are counted down to `-5`. -/
theorem not_real_fivePieces : ¬ ∀ m : Machine, Reachable m → m.Real := by
  intro hall
  let md := Metadata.films 1 5 []
  let es : List Event := [.start (Env.calm md fun _ => false) "a.torrent".toList none none none]
  have hfinal : (finalState es).map (fun m => (m.streamer.requiredPieces, m.streamer.live,
      (m.streamer.session.find? 0).map fun t => decide (t.info = some md ∧ t.Selected 0))) =
      some ([4, 3, 2, 1, 0, -1, -2, -3, -4, -5], some 0, some true) := by decide +kernel
  obtain ⟨m, hm, hmap⟩ := Option.map_eq_some_iff.mp hfinal
  simp only [Prod.mk.injEq] at hmap
  obtain ⟨hrequired, hlive, htorrent⟩ := hmap
  obtain ⟨t, ht, hchosen⟩ := Option.map_eq_some_iff.mp htorrent
  obtain ⟨hinfo, hselected⟩ := of_decide_eq_true hchosen
  have hlength : 0 < t.filePriorities.length := (List.getElem?_eq_some_iff.mp hselected).1
  have hreal := hall m (reachable_of_finalState hm) 0 hlive t ht md hinfo 0 hlength hselected
  obtain ⟨q, hq, -⟩ := hreal.overlaps (-1) (by rw [hrequired]; decide)
  omega

/-- A film of forty pieces: its head and tail, the next window, and a fast-forward that misses. -/
theorem real_fortyPieces :
    let es := startAndFinishPiece 40 ++
      [.fastForward (.calm (Metadata.films 1 40 []) fun _ => false) 20 1]
    ∃ m, run es (Machine.init 0) = .ok () m ∧ m.streamer.requiredPieces = [20] ∧
      m.Real ∧ m.FindsAll := by
  intro es
  have hfinal : (finalState es).map (·.streamer.requiredPieces) = some [20] := by decide +kernel
  obtain ⟨m, hm, hrequired⟩ := Option.map_eq_some_iff.mp hfinal
  have hrun := run_of_finalState hm
  exact ⟨m, hrun, hrequired, real_of_eventInside (by decide +kernel) hrun⟩

end BtDownloader
