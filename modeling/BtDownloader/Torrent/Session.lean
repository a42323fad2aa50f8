import BtDownloader.Torrent.FileStorage

set_option autoImplicit false

/-! # libtorrent's session

The part of libtorrent the streamer talks to: the torrents of a session with their file
and piece priorities and their piece deadlines, the commands a `torrent_handle` takes, and
the alerts the session owes. A command takes effect when it is sent.
-/

namespace BtDownloader

/-- `LIBTORRENT_PRIORITY_SKIP`, libtorrent's `dont_download`. -/
def prioritySkip : Nat := 0

/-- libtorrent's `low_priority`. -/
def priorityLow : Nat := 1

/-- libtorrent's `default_priority`, the priority of a piece nobody has asked for. -/
def priorityDefault : Nat := 4

/-- `LIBTORRENT_PRIORITY_MAXIMUM`, libtorrent's `top_priority`. -/
def priorityMaximum : Nat := 7

/-- The calls on a `torrent_handle` that change the torrent. -/
inductive TorrentCommand
  | setSequentialDownload (on : Bool)
  | setMaxConnections (n : Nat)
  | setMaxUploads (n : Nat)
  | pause (graceful : Bool)
  | saveResumeData
  | flushCache
  | prioritizeFiles (priorities : List Nat)
  | prioritizePieces (priorities : List Nat)
  | piecePriority (piece : Int) (priority : Nat)
  | setPieceDeadline (piece : Int) (milliseconds : Nat)
  | clearPieceDeadlines
deriving DecidableEq, Repr

/-- The file priority, piece priority and deadline commands. -/
def TorrentCommand.isPriority : TorrentCommand → Bool
  | .prioritizeFiles _ => true
  | .prioritizePieces _ => true
  | .piecePriority _ _ => true
  | .setPieceDeadline _ _ => true
  | .clearPieceDeadlines => true
  | _ => false

/-! ## Torrents -/

/-- A torrent of a session. `handle` is the identity of the torrent object; a torrent that
is removed and added again is another object. A magnet link has no metadata at first. -/
structure Torrent where
  handle : Nat
  infoHash : Nat
  info : Option Metadata
  savePath : Text
  paused : Bool := false
  filePriorities : List Nat := []
  piecePriorities : List Nat := []
  deadlines : List Int := []
deriving DecidableEq

/-- Every piece of the torrent is downloaded. -/
def Metadata.isComplete (downloaded : Nat → Bool) (md : Metadata) : Bool :=
  (List.range md.val.numPieces).all downloaded

namespace Torrent

/-- The torrent once its metadata is there: every piece has the default priority. -/
def withMetadata (t : Torrent) (md : Metadata) : Torrent :=
  { t with
    info := some md
    piecePriorities := List.replicate md.val.numPieces priorityDefault }

/-- The priority `update_piece_priorities` gives piece `p`: the highest priority of the
non-empty files that overlap it, `0` where there is none. Pad files count as skipped and
files without an entry as default. -/
def priorityFromFiles (ti : TorrentInfo) (priorities : List Nat) (p : Int) : Nat :=
  (List.range ti.numFiles).foldl (fun best i =>
    let range := ti.filePieceRangeInclusive i
    let pad := (ti.files[i]?).any (·.padFile)
    if ti.fileSize i ≠ 0 ∧ range.1 ≤ p ∧ p < range.2 then
      max best (if pad then prioritySkip else (priorities[i]?).getD priorityDefault)
    else best) prioritySkip

/-- `torrent::prioritize_pieces`. Deadlines of skipped pieces go when some piece starts or
stops being skipped. -/
def setPiecePriorities (t : Torrent) (priorities : List Nat) : Torrent :=
  let filterUpdated := (t.piecePriorities.zip priorities).any fun (old, new) =>
    decide (old = prioritySkip) != decide (new = prioritySkip)
  { t with
    piecePriorities := priorities ++ t.piecePriorities.drop priorities.length
    deadlines := if filterUpdated then
        t.deadlines.filter fun p => priorities[p.toNat]? ≠ some prioritySkip
      else t.deadlines }

/-- `torrent::is_seed`. -/
def isSeed (downloaded : Nat → Bool) (t : Torrent) : Bool :=
  t.info.any (·.isComplete downloaded)

/-- The priorities after the given pieces lost their deadlines. -/
def lowered (priorities : List Nat) (pieces : List Int) : List Nat :=
  pieces.foldl (fun ps p => ps.set p.toNat priorityLow) priorities

/-- The torrent as the pieces that are downloaded by now leave it. A piece that finishes
loses its deadline, and with it the top priority (`remove_time_critical_piece`). A seed has
no piece picker: `piece_priorities` answers with the default for every piece. -/
def settle (downloaded : Nat → Bool) (t : Torrent) : Torrent :=
  if t.isSeed downloaded then
    { t with
      piecePriorities := t.piecePriorities.map fun _ => priorityDefault
      deadlines := [] }
  else
    { t with
      piecePriorities :=
        lowered t.piecePriorities (t.deadlines.filter fun p => downloaded p.toNat)
      deadlines := t.deadlines.filter fun p => !downloaded p.toNat }

/-- What a command does to the torrent. Commands about pieces do nothing before the metadata
is there, nothing for pieces outside the torrent and nothing to a seed; a piece that is
downloaded gets no deadline. -/
def command (downloaded : Nat → Bool) (t : Torrent) (c : TorrentCommand) : Torrent :=
  match c, t.info with
  | .pause _, _ => { t with paused := true }
  | .prioritizeFiles priorities, none => { t with filePriorities := priorities }
  | .prioritizeFiles priorities, some md =>
      let pieces := (List.range md.val.numPieces).map fun p : Nat =>
        priorityFromFiles md.val priorities p
      if t.isSeed downloaded then { t with filePriorities := priorities }
      else setPiecePriorities { t with filePriorities := priorities } pieces
  | .prioritizePieces priorities, some _ =>
      if t.isSeed downloaded then t else setPiecePriorities t priorities
  | .piecePriority piece priority, some md =>
      if t.isSeed downloaded = false ∧ 0 ≤ piece ∧ piece < md.val.numPieces then
        if priority = prioritySkip ∧ t.piecePriorities[piece.toNat]? ≠ some prioritySkip
            ∧ piece ∈ t.deadlines then
          -- `remove_time_critical_piece` gives the piece the low priority back
          { t with
            piecePriorities := t.piecePriorities.set piece.toNat priorityLow
            deadlines := t.deadlines.erase piece }
        else { t with piecePriorities := t.piecePriorities.set piece.toNat priority }
      else t
  | .setPieceDeadline piece _, some md =>
      if 0 ≤ piece ∧ piece < md.val.numPieces ∧ downloaded piece.toNat = false then
        { t with
          piecePriorities := t.piecePriorities.set piece.toNat priorityMaximum
          deadlines := if piece ∈ t.deadlines then t.deadlines else t.deadlines ++ [piece] }
      else t
  | .clearPieceDeadlines, some _ =>
      { t with piecePriorities := lowered t.piecePriorities t.deadlines, deadlines := [] }
  | _, _ => t

/-- A command that reaches the torrent when the pieces `downloaded` are there. What finished
pieces have left matters to the commands about priorities and deadlines. -/
def apply (downloaded : Nat → Bool) (t : Torrent) (c : TorrentCommand) : Torrent :=
  if c.isPriority then (t.settle downloaded).command downloaded c else t.command downloaded c

/-- The commands of a list, in order. -/
def applyAll (downloaded : Nat → Bool) (t : Torrent) (cs : List TorrentCommand) : Torrent :=
  cs.foldl (apply downloaded) t

@[simp] theorem setPiecePriorities_handle (t : Torrent) (ps : List Nat) :
    (t.setPiecePriorities ps).handle = t.handle := rfl

@[simp] theorem setPiecePriorities_info (t : Torrent) (ps : List Nat) :
    (t.setPiecePriorities ps).info = t.info := rfl

@[simp] theorem setPiecePriorities_infoHash (t : Torrent) (ps : List Nat) :
    (t.setPiecePriorities ps).infoHash = t.infoHash := rfl

/-- Finished pieces change nothing but priorities and deadlines. -/
theorem settle_eq (downloaded : Nat → Bool) (t : Torrent) :
    ∃ ps ds, t.settle downloaded = { t with piecePriorities := ps, deadlines := ds } := by
  unfold settle
  split
  · exact ⟨_, _, rfl⟩
  · exact ⟨_, _, rfl⟩

@[simp] theorem settle_handle (downloaded : Nat → Bool) (t : Torrent) :
    (t.settle downloaded).handle = t.handle := by
  obtain ⟨ps, ds, h⟩ := settle_eq downloaded t
  rw [h]

@[simp] theorem settle_info (downloaded : Nat → Bool) (t : Torrent) :
    (t.settle downloaded).info = t.info := by
  obtain ⟨ps, ds, h⟩ := settle_eq downloaded t
  rw [h]

@[simp] theorem settle_infoHash (downloaded : Nat → Bool) (t : Torrent) :
    (t.settle downloaded).infoHash = t.infoHash := by
  obtain ⟨ps, ds, h⟩ := settle_eq downloaded t
  rw [h]

@[simp] theorem settle_filePriorities (downloaded : Nat → Bool) (t : Torrent) :
    (t.settle downloaded).filePriorities = t.filePriorities := by
  obtain ⟨ps, ds, h⟩ := settle_eq downloaded t
  rw [h]

@[simp] theorem settle_isSeed (downloaded : Nat → Bool) (t : Torrent) :
    (t.settle downloaded).isSeed downloaded = t.isSeed downloaded := by
  simp [isSeed]

/-- A command leaves the identity and the metadata of the torrent alone. -/
theorem command_identity (downloaded : Nat → Bool) (t : Torrent) (c : TorrentCommand) :
    (t.command downloaded c).handle = t.handle ∧ (t.command downloaded c).info = t.info ∧
      (t.command downloaded c).infoHash = t.infoHash := by
  unfold command
  split
  all_goals first
    | exact ⟨rfl, by simp_all, rfl⟩
    | (split <;> first
        | exact ⟨rfl, by simp_all, rfl⟩
        | (split <;> exact ⟨rfl, by simp_all, rfl⟩))

@[simp] theorem command_info (downloaded : Nat → Bool) (t : Torrent) (c : TorrentCommand) :
    (t.command downloaded c).info = t.info := (command_identity downloaded t c).2.1

theorem apply_identity (downloaded : Nat → Bool) (t : Torrent) (c : TorrentCommand) :
    (t.apply downloaded c).handle = t.handle ∧ (t.apply downloaded c).info = t.info ∧
      (t.apply downloaded c).infoHash = t.infoHash := by
  unfold apply
  split
  · simpa using command_identity downloaded (t.settle downloaded) c
  · exact command_identity downloaded t c

theorem apply_of_not_isPriority (downloaded : Nat → Bool) (t : Torrent) {c : TorrentCommand}
    (hc : c.isPriority = false) : t.apply downloaded c = t.command downloaded c := by
  rw [apply, hc, if_neg Bool.false_ne_true]

@[simp] theorem apply_handle (downloaded : Nat → Bool) (t : Torrent) (c : TorrentCommand) :
    (t.apply downloaded c).handle = t.handle := (apply_identity downloaded t c).1

@[simp] theorem apply_info (downloaded : Nat → Bool) (t : Torrent) (c : TorrentCommand) :
    (t.apply downloaded c).info = t.info := (apply_identity downloaded t c).2.1

@[simp] theorem apply_infoHash (downloaded : Nat → Bool) (t : Torrent) (c : TorrentCommand) :
    (t.apply downloaded c).infoHash = t.infoHash := (apply_identity downloaded t c).2.2

end Torrent

/-! ## Alerts and the session -/

/-- The alerts the streamer handles. -/
inductive Alert
  | metadataReceived (h : Nat)
  | pieceFinished (h : Nat) (piece : Nat)
  | torrentFinished (h : Nat)
  | saveResumeData (h : Nat)
deriving DecidableEq, Repr

/-- An order of `m_torrents`, the `unordered_map` that `get_torrents` goes through: what it
makes of the torrents when one has been put in. -/
structure MapOrder where
  arrange : List Torrent → List Torrent
  perm : ∀ ts, (arrange ts).Perm ts

/-- The torrent that was put in last comes first. -/
def MapOrder.newestFirst : MapOrder := ⟨id, fun _ => .refl _⟩

/-- `libtorrent::session`, its torrents in the order of `get_torrents`. `nextHandle` is the
supply of torrent identities, `outstanding` the alerts the session owes: the metadata alert of
a torrent whose metadata has arrived and the resume data that was asked for. -/
structure Session where
  nextHandle : Nat
  torrents : List Torrent := []
  paused : Bool := false
  outstanding : List Alert := []
deriving DecidableEq

namespace Session

def find? (s : Session) (h : Nat) : Option Torrent := s.torrents.find? (·.handle = h)

/-- Change the torrent with handle `h`. -/
def update (s : Session) (h : Nat) (f : Torrent → Torrent) : Session :=
  { s with torrents := s.torrents.map fun t => if t.handle = h then f t else t }

/-- `session::remove_torrent`. -/
def removeTorrent (s : Session) (h : Nat) : Session :=
  { s with torrents := s.torrents.filter (·.handle ≠ h) }

/-- The torrents and the identities after a torrent was added. -/
def insert (order : MapOrder) (s : Session) (t : Torrent) : Session :=
  { s with torrents := order.arrange (t :: s.torrents), nextHandle := s.nextHandle + 1 }

/-- An alert the session now owes. -/
def owe (s : Session) (a : Alert) : Session := { s with outstanding := s.outstanding ++ [a] }

/-- The metadata of the torrent with handle `h` is known. -/
def hasMetadata (s : Session) (h : Nat) : Bool := (s.find? h).any (·.info.isSome)

/-- `torrent::save_resume_data`: the alert it leads to. Without metadata the save fails, and
the alert about that is one the streamer has no use for. -/
def oweResumeData (s : Session) (h : Nat) : Session :=
  if s.hasMetadata h then s.owe (.saveResumeData h) else s

/-- The alert is delivered. -/
def deliver (s : Session) (a : Alert) : Session :=
  { s with outstanding := s.outstanding.erase a }

/-- The metadata of a magnet link arrives; libtorrent posts an alert about it. -/
def metadataArrives (s : Session) (h : Nat) (md : Metadata) : Session :=
  match s.find? h with
  | some { info := none, .. } =>
      (s.update h (·.withMetadata md)).owe (.metadataReceived h)
  | _ => s

/-- libtorrent delivers an alert it owes once. Pieces are known only after the metadata,
whose alert is posted first, so no alert about a torrent's pieces comes before it. -/
def canDeliver (s : Session) : Alert → Bool
  | .metadataReceived h => .metadataReceived h ∈ s.outstanding
  | .saveResumeData h => .saveResumeData h ∈ s.outstanding
  | .pieceFinished h _ => known s h
  | .torrentFinished h => known s h
where
  known (s : Session) (h : Nat) : Bool :=
    (s.find? h).all (·.info.isSome) && decide (.metadataReceived h ∉ s.outstanding)

theorem oweResumeData_cases (s : Session) (h : Nat) :
    s.oweResumeData h = s ∨ s.oweResumeData h = s.owe (.saveResumeData h) := by
  unfold oweResumeData
  split
  · exact Or.inr rfl
  · exact Or.inl rfl

theorem oweResumeData_outstanding (s : Session) (h : Nat) :
    (s.oweResumeData h).outstanding =
      s.outstanding ++ if s.hasMetadata h then [.saveResumeData h] else [] := by
  unfold oweResumeData
  split
  · rfl
  · rw [List.append_nil]

/-- A change of the torrents that keeps what each of them is keeps what is known of them. -/
theorem hasMetadata_map {s s' : Session} {f : Torrent → Torrent}
    (hs : s'.torrents = s.torrents.map f) (hhandle : ∀ t, (f t).handle = t.handle)
    (hinfo : ∀ t, (f t).info = t.info) (h : Nat) : s'.hasMetadata h = s.hasMetadata h := by
  have hfind : s'.find? h = (s.find? h).map f := by
    unfold find?
    rw [hs, List.find?_map]
    simp only [Function.comp_def, hhandle]
  unfold hasMetadata
  rw [hfind, Option.any_map]
  simp only [hinfo]

@[simp] theorem oweResumeData_torrents (s : Session) (h : Nat) :
    (s.oweResumeData h).torrents = s.torrents := by
  rcases s.oweResumeData_cases h with hs | hs
  · rw [hs]
  · rw [hs]
    rfl

theorem metadataArrives_cases (s : Session) (h : Nat) (md : Metadata) :
    s.metadataArrives h md = s ∨
      ∃ t, s.find? h = some t ∧ t.info = none ∧ s.metadataArrives h md =
        (s.update h (·.withMetadata md)).owe (.metadataReceived h) := by
  unfold metadataArrives
  cases hfind : s.find? h with
  | none => exact Or.inl rfl
  | some t =>
      cases hinfo : t.info with
      | none =>
          refine Or.inr ⟨t, rfl, hinfo, ?_⟩
          obtain ⟨handle, infoHash, info, savePath, paused, files, pieces, deadlines⟩ := t
          cases hinfo
          rfl
      | some md' =>
          refine Or.inl ?_
          obtain ⟨handle, infoHash, info, savePath, paused, files, pieces, deadlines⟩ := t
          cases hinfo
          rfl

@[simp] theorem update_nextHandle (s : Session) (h : Nat) (f : Torrent → Torrent) :
    (s.update h f).nextHandle = s.nextHandle := rfl

@[simp] theorem update_paused (s : Session) (h : Nat) (f : Torrent → Torrent) :
    (s.update h f).paused = s.paused := rfl

@[simp] theorem update_outstanding (s : Session) (h : Nat) (f : Torrent → Torrent) :
    (s.update h f).outstanding = s.outstanding := rfl

theorem find?_handle {s : Session} {h : Nat} {t : Torrent} (hf : s.find? h = some t) :
    t.handle = h := by
  simpa using List.find?_some hf

theorem find?_mem {s : Session} {h : Nat} {t : Torrent} (hf : s.find? h = some t) :
    t ∈ s.torrents := List.mem_of_find?_eq_some hf

/-- The first torrent of a session is alone in every order. -/
theorem insert_of_nil {s : Session} (order : MapOrder) (t : Torrent) (hnil : s.torrents = []) :
    (s.insert order t).torrents = [t] := by
  have hperm := order.perm (t :: s.torrents)
  rw [hnil] at hperm
  unfold insert
  rw [hnil]
  exact List.perm_singleton.mp hperm

theorem mem_insert {order : MapOrder} {s : Session} {t t' : Torrent} :
    t' ∈ (s.insert order t).torrents ↔ t' = t ∨ t' ∈ s.torrents :=
  (order.perm _).mem_iff.trans List.mem_cons

theorem find?_update (s : Session) (h h' : Nat) (f : Torrent → Torrent)
    (hf : ∀ t, (f t).handle = t.handle) :
    (s.update h f).find? h' = if h' = h then (s.find? h).map f else s.find? h' := by
  unfold find? update
  dsimp only
  induction s.torrents with
  | nil => split <;> rfl
  | cons t ts ih =>
      rw [List.map_cons, List.find?_cons, List.find?_cons, List.find?_cons]
      by_cases ht : t.handle = h
      · subst ht
        by_cases hh : h' = t.handle
        · subst hh
          simp [hf]
        · rw [if_neg hh] at ih ⊢
          have hne : ¬ t.handle = h' := fun he => hh he.symm
          simp [hf, hne, ih]
      · by_cases hh : h' = h
        · subst hh
          rw [if_pos rfl] at ih ⊢
          simp [ht, ih]
        · rw [if_neg hh] at ih ⊢
          simp only [if_neg ht, ih]

theorem mem_update {s : Session} {h : Nat} {f : Torrent → Torrent} {t : Torrent}
    (ht : t ∈ (s.update h f).torrents) :
    ∃ t₀ ∈ s.torrents, (t₀.handle = h ∧ t = f t₀) ∨ (t₀.handle ≠ h ∧ t = t₀) := by
  obtain ⟨t₀, h₀, rfl⟩ := List.mem_map.mp ht
  by_cases hh : t₀.handle = h
  · exact ⟨t₀, h₀, Or.inl ⟨hh, if_pos hh⟩⟩
  · exact ⟨t₀, h₀, Or.inr ⟨hh, if_neg hh⟩⟩

/-- Two changes to one torrent are one change. -/
theorem update_update (s : Session) (h : Nat) (f g : Torrent → Torrent)
    (hf : ∀ t, (f t).handle = t.handle) :
    (s.update h f).update h g = s.update h (fun t => g (f t)) := by
  unfold update
  simp only [List.map_map, Session.mk.injEq, and_true, true_and]
  refine List.map_congr_left fun t _ => ?_
  by_cases ht : t.handle = h
  · simp [ht, hf]
  · simp [ht]

end Session

end BtDownloader
