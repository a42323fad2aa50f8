import BtDownloader.Client.Timers

set_option autoImplicit false

/-! # What earlier runs leave over

A streamer that has been used keeps a folder, a status, a finished file name and the like.
`Alike` relates such a streamer to another one that differs from it in these fields alone. No
method of a run tells the two apart: it sets each of these fields before it looks at it.

The fields that a run does look at first (`MIN_PIECES`, the chosen file, the flag of the
multi-file start, `required_pieces`, `firstPiece`, `streaming` and the torrents of the session)
are equal in alike streamers.
-/

namespace BtDownloader

open Program

/-! ## Alike streamers -/

/-- The sessions are equal but for being paused, and equal in that too where `paused` holds. -/
structure Session.Alike (paused : Prop) (s t : Session) : Prop where
  torrents : s.torrents = t.torrents
  nextHandle : s.nextHandle = t.nextHandle
  outstanding : s.outstanding = t.outstanding
  paused : paused → s.paused = t.paused

/-- The streamers differ in leftovers alone, and `s` has had the effects `before` first. The
save paths are equal where `path` holds, the selection blocks where `selects` does. -/
structure Streamer.Alike (before : List Effect) (paused path selects : Prop) (s t : Streamer) :
    Prop where
  session : s.session.Alike paused t.session
  savePath : path → s.savePath = t.savePath
  selectionBlock : selects → s.selectionBlock = t.selectionBlock
  requiredPieces : s.requiredPieces = t.requiredPieces
  firstPiece : s.firstPiece = t.firstPiece
  alertsLoopActive : s.alertsLoopActive = t.alertsLoopActive
  streaming : s.streaming = t.streaming
  status : s.streaming = true → s.status = t.status
  progressBlock : s.progressBlock = t.progressBlock
  readyToPlayBlock : s.readyToPlayBlock = t.readyToPlayBlock
  failureBlock : s.failureBlock = t.failureBlock
  mainQueue : s.mainQueue = t.mainQueue
  torrentStatus : .progress ∈ s.mainQueue → s.torrentStatus = t.torrentStatus
  effects : s.effects = before ++ t.effects

/-- The machines differ in leftovers alone. -/
structure Alike (before : List Effect) (paused path : Prop) (m n : Machine) : Prop where
  globals : m.globals = n.globals
  streamer : m.streamer.Alike before paused path (m.globals.shouldUserSelectFiles = true)
    n.streamer

/-- The two machines have required, chosen and done the same. -/
structure SameSoFar (before : List Effect) (m n : Machine) : Prop where
  requiredPieces : m.streamer.requiredPieces = n.streamer.requiredPieces
  selectedFileIndex : m.globals.selectedFileIndex = n.globals.selectedFileIndex
  effects : m.streamer.effects = before ++ n.streamer.effects

namespace Session.Alike

variable {paused : Prop} {s t : Session}

theorem find?_eq (h : s.Alike paused t) (handle : Nat) : s.find? handle = t.find? handle := by
  rw [Session.find?, h.torrents]
  rfl

theorem update (h : s.Alike paused t) (handle : Nat) (f : Torrent → Torrent) :
    (s.update handle f).Alike paused (t.update handle f) :=
  { h with torrents := congrArg (List.map _) h.torrents }

theorem removeTorrent (h : s.Alike paused t) (handle : Nat) :
    (s.removeTorrent handle).Alike paused (t.removeTorrent handle) :=
  { h with torrents := congrArg (List.filter _) h.torrents }

theorem insert (h : s.Alike paused t) (order : MapOrder) (torrent : Torrent) :
    (s.insert order torrent).Alike paused (t.insert order torrent) :=
  { h with
    torrents := congrArg (fun ts => order.arrange (torrent :: ts)) h.torrents
    nextHandle := congrArg (· + 1) h.nextHandle }

theorem owe (h : s.Alike paused t) (a : Alert) : (s.owe a).Alike paused (t.owe a) :=
  { h with outstanding := congrArg (· ++ [a]) h.outstanding }

theorem hasMetadata_eq (h : s.Alike paused t) (handle : Nat) :
    s.hasMetadata handle = t.hasMetadata handle := by
  rw [Session.hasMetadata, h.find?_eq]
  rfl

theorem oweResumeData (h : s.Alike paused t) (handle : Nat) :
    (s.oweResumeData handle).Alike paused (t.oweResumeData handle) := by
  unfold Session.oweResumeData
  rw [h.hasMetadata_eq]
  split
  · exact h.owe _
  · exact h

theorem deliver (h : s.Alike paused t) (a : Alert) : (s.deliver a).Alike paused (t.deliver a) :=
  { h with outstanding := congrArg (·.erase a) h.outstanding }

/-- Sessions that are paused, or resumed, are equal in that. -/
theorem setPaused (h : s.Alike paused t) (b : Bool) :
    ({ s with paused := b } : Session).Alike True { t with paused := b } :=
  ⟨h.torrents, h.nextHandle, h.outstanding, fun _ => rfl⟩

theorem mono {paused' : Prop} (h : s.Alike paused t) (himp : paused' → paused) :
    s.Alike paused' t :=
  { h with paused := fun hp => h.paused (himp hp) }

theorem canDeliver_eq (h : s.Alike paused t) (a : Alert) : s.canDeliver a = t.canDeliver a := by
  cases a <;> simp only [canDeliver, canDeliver.known, h.find?_eq, h.outstanding]

theorem metadataArrives (h : s.Alike paused t) (handle : Nat) (md : Metadata) :
    (s.metadataArrives handle md).Alike paused (t.metadataArrives handle md) := by
  unfold Session.metadataArrives
  rw [h.find?_eq]
  split
  · exact (h.update handle _).owe _
  · exact h

end Session.Alike

namespace Streamer.Alike

variable {before : List Effect} {paused path selects : Prop} {s t : Streamer}

theorem log (h : s.Alike before paused path selects t) (es : List Effect) :
    (s.log es).Alike before paused path selects (t.log es) := by
  have heffects : s.effects ++ es = before ++ (t.effects ++ es) := by
    rw [h.effects, List.append_assoc]
  exact { h with effects := heffects }

theorem mapSession {f : Session → Session} (h : s.Alike before paused path selects t)
    (hf : (f s.session).Alike paused (f t.session)) :
    (s.mapSession f).Alike before paused path selects (t.mapSession f) :=
  { h with session := hf }

theorem dispatch (h : s.Alike before paused path selects t) (b : MainBlock)
    (hb : b = .progress → s.torrentStatus = t.torrentStatus) :
    (s.dispatch b).Alike before paused path selects (t.dispatch b) := by
  have hstatus : .progress ∈ s.mainQueue ++ [b] → s.torrentStatus = t.torrentStatus := by
    intro hmem
    rcases List.mem_append.mp hmem with hmem | hmem
    · exact h.torrentStatus hmem
    · exact hb (List.mem_singleton.mp hmem).symm
  exact { h with
    mainQueue := congrArg (· ++ [b]) h.mainQueue
    torrentStatus := hstatus
    effects := (h.log [.dispatched b]).effects }

theorem reset (h : s.Alike before paused path selects t) :
    s.reset.Alike before paused path selects t.reset :=
  { session := h.session
    savePath := h.savePath
    selectionBlock := fun _ => rfl
    requiredPieces := rfl
    firstPiece := rfl
    alertsLoopActive := h.alertsLoopActive
    streaming := rfl
    status := fun _ => rfl
    progressBlock := rfl
    readyToPlayBlock := rfl
    failureBlock := rfl
    mainQueue := h.mainQueue
    torrentStatus := fun _ => rfl
    effects := h.effects }

end Streamer.Alike

theorem Alike.sameSoFar {before : List Effect} {paused path : Prop} {m n : Machine}
    (h : Alike before paused path m n) : SameSoFar before m n :=
  ⟨h.streamer.requiredPieces, by rw [h.globals], h.streamer.effects⟩

theorem Alike.mono {before : List Effect} {paused path path' : Prop} {m n : Machine}
    (h : Alike before paused path m n) (himp : path' → path) : Alike before paused path' m n :=
  ⟨h.globals, { h.streamer with savePath := fun hpath => h.streamer.savePath (himp hpath) }⟩

/-! ## Primitive steps -/

variable {α : Type} {before : List Effect} {paused path : Prop} {R R' : Machine → Machine → Prop}

theorem respects_gets {f : Streamer → α} (hf : ∀ m n, R m n → f m.streamer = f n.streamer) :
    Respects (SameSoFar before) R (gets f) fun a m n => R m n ∧ a = f m.streamer := by
  intro m n hR
  exact Or.inl ⟨f m.streamer, m, f n.streamer, n, rfl, rfl, hf m n hR, hR, rfl⟩

theorem respects_modifies {f : Streamer → Streamer}
    (hf : ∀ m n, R m n →
      R' { m with streamer := f m.streamer } { n with streamer := f n.streamer }) :
    Respects (SameSoFar before) R (modifies f) fun _ => R' := by
  intro m n hR
  exact Or.inl ⟨(), _, (), _, rfl, rfl, rfl, hf m n hR⟩

theorem respects_orFault (hR : ∀ m n, R m n → SameSoFar before m n) (fault : Fault)
    (o : Option α) : Respects (SameSoFar before) R (orFault fault o) fun _ => R := by
  cases o with
  | none => exact Respects.throw fault hR
  | some a => exact Respects.pure fun _ _ h => h

theorem respects_torrentOf (h : Nat) (hR : ∀ m n, R m n → SameSoFar before m n)
    (htorrents : ∀ m n, R m n → m.streamer.session.torrents = n.streamer.session.torrents) :
    Respects (SameSoFar before) R (torrentOf h) fun _ => R := by
  refine Respects.bind (Q := fun _ => R) ?_ fun o => respects_orFault hR _ o
  refine (respects_gets fun m n hmn => ?_).weaken (fun _ _ h => h) fun _ _ _ h => h.1
  rw [Session.find?, htorrents m n hmn]
  rfl

theorem respects_statusOf (env : Env) (h : Nat) (hR : ∀ m n, R m n → SameSoFar before m n)
    (htorrents : ∀ m n, R m n → m.streamer.session.torrents = n.streamer.session.torrents) :
    Respects (SameSoFar before) R (statusOf env h) fun _ => R :=
  Respects.bind (respects_torrentOf h hR htorrents) fun _ => Respects.pure fun _ _ h => h

/-- `x` does the same on alike machines, and leaves them alike. -/
abbrev Ignores (before : List Effect) (paused path : Prop) (x : Handler α) : Prop :=
  Respects (SameSoFar before) (Alike before paused path) x fun _ => Alike before paused path

namespace Ignores

theorem composes : Composes fun {α} (x : Handler α) => Ignores before paused path x where
  pure _ := Respects.pure fun _ _ h => h
  bind := Respects.bind

theorem pure (a : α) : Ignores before paused path (pure a : Handler α) := composes.pure a

theorem bind {β : Type} {x : Handler α} {f : α → Handler β} (hx : Ignores before paused path x)
    (hf : ∀ a, Ignores before paused path (f a)) : Ignores before paused path (x >>= f) :=
  composes.bind hx hf

theorem ite {c : Prop} [Decidable c] {x y : Handler α} (hx : Ignores before paused path x)
    (hy : Ignores before paused path y) : Ignores before paused path (if c then x else y) :=
  Respects.ite (fun _ => hx) fun _ => hy

theorem whenever (c : Prop) [Decidable c] {x : Handler Unit} (hx : Ignores before paused path x) :
    Ignores before paused path (whenever c x) :=
  ite hx (pure ())

theorem gets {f : Streamer → α} (hf : ∀ m n, Alike before paused path m n →
    f m.streamer = f n.streamer) : Ignores before paused path (gets f) :=
  (respects_gets hf).weaken (fun _ _ h => h) fun _ _ _ h => h.1

theorem modifies {f : Streamer → Streamer} (hf : ∀ {selects : Prop} {s t : Streamer},
    s.Alike before paused path selects t → (f s).Alike before paused path selects (f t)) :
    Ignores before paused path (modifies f) :=
  respects_modifies fun _ _ h => ⟨h.globals, hf h.streamer⟩

theorem orFault (fault : Fault) (o : Option α) : Ignores before paused path (orFault fault o) :=
  respects_orFault (fun _ _ h => h.sameSoFar) fault o

theorem emit (e : Effect) : Ignores before paused path (emit e) := modifies fun h => h.log [e]

theorem dispatchMain {b : MainBlock} (hb : b ≠ .progress) :
    Ignores before paused path (dispatchMain b) :=
  modifies fun h => h.dispatch b fun heq => absurd heq hb

theorem getMinPieces : Ignores before paused path getMinPieces := by
  intro m n h
  exact Or.inl ⟨_, _, _, _, rfl, rfl, by rw [h.globals], h.globals, h.streamer⟩

theorem getSelectedFileIndex : Ignores before paused path getSelectedFileIndex := by
  intro m n h
  exact Or.inl ⟨_, _, _, _, rfl, rfl, by rw [h.globals], h.globals, h.streamer⟩

theorem setMinPieces (k : Int) : Ignores before paused path (setMinPieces k) := by
  intro m n h
  refine Or.inl ⟨_, _, _, _, rfl, rfl, rfl, ?_, h.streamer⟩
  simp only [h.globals]

theorem setSelectedFileIndex (i : Int) : Ignores before paused path (setSelectedFileIndex i) := by
  intro m n h
  refine Or.inl ⟨_, _, _, _, rfl, rfl, rfl, ?_, h.streamer⟩
  simp only [h.globals]

/-! ## Calls on a torrent handle -/

theorem torrentOf (h : Nat) : Ignores before paused path (torrentOf h) :=
  respects_torrentOf h (fun _ _ hmn => hmn.sameSoFar) fun _ _ hmn => hmn.streamer.session.torrents

theorem statusOf (env : Env) (h : Nat) : Ignores before paused path (statusOf env h) :=
  bind (torrentOf h) fun _ => pure _

theorem send (env : Env) (h : Nat) (c : TorrentCommand) :
    Ignores before paused path (send env h c) :=
  bind (torrentOf h) fun _ => modifies fun hst =>
    (hst.mapSession (hst.session.update h _)).log [.command h c]

theorem torrentFile (h : Nat) : Ignores before paused path (torrentFile h) :=
  bind (torrentOf h) fun _ => pure _

theorem havePiece (env : Env) (h : Nat) (piece : Int) :
    Ignores before paused path (havePiece env h piece) := by
  refine bind (torrentOf h) fun t => ?_
  cases t.info with
  | none => exact pure _
  | some md => exact pure _

theorem piecePriorities (h : Nat) : Ignores before paused path (piecePriorities h) :=
  bind (torrentOf h) fun _ => pure _

theorem filePriorities (h : Nat) : Ignores before paused path (filePriorities h) := by
  refine bind (torrentOf h) fun t => ?_
  cases t.info with
  | none => exact pure _
  | some md => exact pure _

theorem mapFile (md : Metadata) (fileIndex offset size : Int) :
    Ignores before paused path (mapFile md fileIndex offset size) :=
  ite (pure _) (Respects.throw _ fun _ _ h => h.sameSoFar)

theorem callFailure (failure : Option BlockId) (error : NSError) :
    Ignores before paused path (callFailure failure error) := by
  cases failure with
  | none => exact pure _
  | some block => exact emit _

/-! ## Choosing a file -/

/-- The selection block is looked at only after a multi-file start, which has set it. -/
theorem indexOfLargestFileInTorrentWithTorrentInfo (ti? : Option TorrentInfo) :
    Ignores before paused path (indexOfLargestFileInTorrentWithTorrentInfo ti?) := by
  have hflag : Respects (SameSoFar before) (Alike before paused path) getShouldUserSelectFiles
      fun b m n => Alike before paused path m n ∧
        (b = true → m.streamer.selectionBlock = n.streamer.selectionBlock) := by
    intro m n h
    refine Or.inl ⟨_, _, _, _, rfl, rfl, by rw [h.globals], ⟨h.globals, h.streamer⟩, ?_⟩
    exact h.streamer.selectionBlock
  have hset : Respects (SameSoFar before) (fun m n => Alike before paused path m n ∧
        m.streamer.selectionBlock = n.streamer.selectionBlock) (setShouldUserSelectFiles false)
      fun _ m n => Alike before paused path m n ∧
        m.streamer.selectionBlock = n.streamer.selectionBlock := by
    intro m n h
    refine Or.inl ⟨_, _, _, _, rfl, rfl, rfl, ⟨?_, ?_⟩, h.2⟩
    · simp only [h.1.globals]
    · exact { h.1.streamer with selectionBlock := fun _ => h.2 }
  refine Respects.bind hflag fun b => Respects.ite (fun hb => ?_) fun _ => ?_
  · -- after a multi-file start the two blocks are the same one
    refine Respects.bind (hset.weaken (fun _ _ h => ⟨h.1, h.2 hb⟩) fun _ _ _ h => h) fun _ => ?_
    refine Respects.bind (Q := fun _ m n => Alike before paused path m n ∧
      m.streamer.selectionBlock = n.streamer.selectionBlock) ?_ fun selected => ?_
    · intro m n h
      refine Or.inl ⟨_, _, _, _, rfl, rfl, ?_, ⟨h.1.globals, h.1.streamer⟩, h.2⟩
      rw [h.1.globals]
    refine Respects.ite (fun _ => Respects.pure fun _ _ h => h.1) fun _ => ?_
    refine Respects.bind (respects_orFault (fun _ _ h => h.1.sameSoFar) _ _) fun ti => ?_
    refine Respects.bind ((respects_gets fun _ _ h => h.2).weaken (fun _ _ h => h)
      fun _ _ _ h => h.1.1) fun block? => ?_
    refine bind (orFault _ _) fun block => bind (emit _) fun _ => ?_
    exact bind (setSelectedFileIndex _) fun _ => pure _
  · -- otherwise no block is looked at
    refine Respects.weaken ?_ (fun _ _ h => h.1) fun _ _ _ h => h
    refine bind (orFault _ _) fun ti => ite ?_ (pure _)
    exact bind (setSelectedFileIndex _) fun _ => pure _

theorem indexOfLargestFileInTorrent (h : Nat) :
    Ignores before paused path (indexOfLargestFileInTorrent h) :=
  bind (torrentFile h) fun _ => indexOfLargestFileInTorrentWithTorrentInfo _

theorem selectedFileIndexOrLargest (h : Nat) :
    Ignores before paused path (selectedFileIndexOrLargest h) :=
  bind getSelectedFileIndex fun _ => ite (pure _) (indexOfLargestFileInTorrent h)

/-! ## Cancelling -/

theorem each {β : Type} {f : β → Handler Unit} (h : ∀ b, Ignores before paused path (f b))
    (l : List β) : Ignores before paused path (each f l) :=
  respects_each fun b _ => h b

theorem removeTorrent (h : Nat) : Ignores before paused path (removeTorrent h) :=
  modifies fun hst => (hst.mapSession (hst.session.removeTorrent h)).log [.removed h]

theorem cancelTorrent (env : Env) (deleteData : Bool) (h : Nat) :
    Ignores before paused path (cancelTorrent env deleteData h) := by
  refine bind (send _ _ _) fun _ => bind (whenever _ ?_) fun _ => ?_
  · exact bind (send _ _ _) fun _ => modifies fun hst => hst.mapSession (hst.session.oweResumeData h)
  · refine bind (send _ _ _) fun _ => bind (modifies fun hst => ?_) fun _ => ?_
    · exact hst.mapSession ((hst.session.setPaused true).mono fun _ => trivial)
    · exact whenever _ (removeTorrent h)

theorem cancelStreaming (env : Env) :
    Ignores before paused path (cancelStreamingAndDeleteData env false) := by
  refine bind (gets fun m n h => ?_) fun ths => ?_
  · rw [h.streamer.session.torrents]
  refine bind (each (cancelTorrent env false) ths) fun _ => ?_
  refine bind (modifies fun h => h.reset) fun _ => bind (setSelectedFileIndex _) fun _ => ?_
  refine bind (emit _) fun _ => bind (dispatchMain nofun) fun _ => ?_
  exact pure _

/-! ## The window -/

theorem nextRequiredPiece : Ignores before paused path nextRequiredPiece := by
  refine bind (gets fun _ _ h => h.streamer.firstPiece) fun firstPiece => ite (pure _) ?_
  refine bind (gets fun _ _ h => h.streamer.requiredPieces) fun required => ite ?_ (pure _)
  exact bind getMinPieces fun _ => bind (orFault _ _) fun _ => pure _

theorem prioritizeLoop (env : Env) (h : Nat) (ti? : Option Metadata) (k : Nat) :
    ∀ (i : Int) (priorities : List Nat),
      Ignores before paused path (prioritizeLoop env h ti? k i priorities) := by
  induction k with
  | zero => exact fun _ _ => pure _
  | succ k ih =>
      intro i priorities
      refine bind (orFault _ _) fun md => ite ?_ (ih _ _)
      refine bind (orFault _ _) fun _ => bind (send _ _ _) fun _ => ?_
      refine bind (modifies fun hst => ?_) fun _ => ih _ _
      exact { hst with requiredPieces := congrArg (· ++ [i]) hst.requiredPieces }

theorem prioritizeNextPieces (env : Env) (h : Nat) :
    Ignores before paused path (prioritizeNextPieces env h) := by
  refine bind nextRequiredPiece fun next => bind (modifies fun hst => ?_) fun _ => ?_
  · exact { hst with requiredPieces := rfl, firstPiece := rfl }
  refine bind (piecePriorities h) fun _ => bind (torrentFile h) fun _ => ?_
  refine bind (send _ _ _) fun _ => bind getMinPieces fun _ => ?_
  exact bind (prioritizeLoop _ _ _ _ _ _) fun _ => send _ _ _

/-! ## Alerts -/

theorem selectFile (env : Env) (h : Nat) : Ignores before paused path (selectFile env h) := by
  refine bind (indexOfLargestFileInTorrent h) fun _ => bind (filePriorities h) fun _ => ?_
  refine bind (orFault _ _) fun _ => bind (send _ _ _) fun _ => bind (torrentFile h) fun _ => ?_
  refine bind (orFault _ _) fun _ => bind (orFault _ _) fun _ => ?_
  refine bind (setMinPieces _) fun _ => bind getMinPieces fun _ => ?_
  refine bind (mapFile _ _ _ _) fun _ => bind (mapFile _ _ _ _) fun _ => ?_
  refine bind (modifies fun hst => ?_) fun _ => ?_
  · exact { hst with requiredPieces := by rw [hst.requiredPieces] }
  refine bind (send _ _ _) fun _ => bind (piecePriorities h) fun _ => ?_
  refine bind (send _ _ _) fun _ => bind (gets fun _ _ hmn => hmn.streamer.requiredPieces) ?_
  intro required
  refine bind (each (fun _ => bind (send _ _ _) fun _ => send _ _ _) required) fun _ => ?_
  exact bind (statusOf env h) fun _ => modifies fun hst => { hst with status := fun _ => rfl }

/-- The space the torrent needs is set before it is compared with the space there is. -/
theorem metadataReceivedAlert (env : Env) (h : Nat) :
    Ignores before paused True (metadataReceivedAlert env h) := by
  refine bind (statusOf env h) fun status => ?_
  refine Respects.bind (Q := fun _ m n => Alike before paused True m n ∧
    m.streamer.requiredSpace = n.streamer.requiredSpace) ?_ fun _ => ?_
  · exact respects_modifies fun _ _ hmn => ⟨⟨hmn.globals, { hmn.streamer with }⟩, rfl⟩
  refine Respects.bind ((respects_gets fun _ _ hmn => hmn.1.streamer.savePath trivial).weaken
    (fun _ _ hmn => hmn) fun _ _ _ hmn => hmn.1) fun path? => ?_
  refine Respects.bind (respects_orFault (fun _ _ hmn => hmn.1.sameSoFar) _ _) fun _ => ?_
  refine Respects.bind ((respects_gets fun _ _ hmn => hmn.2).weaken (fun _ _ hmn => hmn)
    fun _ _ _ hmn => hmn.1.1) fun space => ite ?_ (selectFile env h)
  refine bind (gets fun _ _ hmn => hmn.streamer.failureBlock) fun failure => ?_
  exact bind (callFailure _ _) fun _ => cancelStreaming env

theorem countRequired (env : Env) (h : Nat) (pieces : List Int) :
    ∀ (k : Nat) (all : Bool), Ignores before True path (countRequired env h pieces k all) := by
  induction pieces with
  | nil => exact fun _ _ => pure _
  | cons piece pieces ih =>
      intro k all
      refine bind (gets fun _ _ hmn => hmn.streamer.session.paused trivial) fun _ => ?_
      refine ite (pure _) (bind (havePiece env h piece) fun _ => ?_)
      exact ite (ih _ _) (ih _ _)

/-- A status that was just set is told alike. -/
theorem tellStatus (status : PTTorrentStatus) (downloaded : Int) (isFinished : Bool) :
    Ignores before paused path (do
      BtDownloader.modifies fun s => { s with
        torrentStatus := status
        totalDownloaded := downloaded
        isFinished := isFinished }
      BtDownloader.dispatchMain .progress) := by
  refine Respects.bind (Q := fun _ m n => Alike before paused path m n ∧
    m.streamer.torrentStatus = n.streamer.torrentStatus) ?_ fun _ => ?_
  · refine respects_modifies fun _ _ hmn => ⟨⟨hmn.globals, ?_⟩, rfl⟩
    exact { hmn.streamer with torrentStatus := fun _ => rfl }
  · exact respects_modifies fun _ _ hmn => ⟨hmn.1.globals, hmn.1.streamer.dispatch _ fun _ => hmn.2⟩

theorem tellProgress (env : Env) (h : Nat) : Ignores before True path (tellProgress env h) := by
  refine bind (statusOf env h) fun status => bind (modifies fun hst => ?_) fun _ => ?_
  · exact { hst with status := fun _ => rfl }
  refine bind (gets fun _ _ hmn => hmn.streamer.requiredPieces) fun required => ?_
  refine bind (countRequired env h required 0 true) fun r => ?_
  obtain ⟨downloaded, all⟩ := r
  dsimp only
  rw [← bind_assoc]
  exact bind (tellStatus _ _ _) fun _ => pure _

theorem pieceFinishedAlert (env : Env) (h : Nat) :
    Ignores before True True (pieceFinishedAlert env h) := by
  rw [pieceFinishedAlert_eq]
  refine bind (tellProgress env h) fun all => ite ?_ (pure _)
  refine bind getMinPieces fun _ => bind (whenever _ (metadataReceivedAlert env h)) fun _ => ?_
  exact prioritizeNextPieces env h

/-- The path of the finished file is told alike once the file's name is set. -/
theorem startWebServerAndPlay :
    Respects (SameSoFar before)
      (fun m n => Alike before paused True m n ∧ m.streamer.fileName = n.streamer.fileName)
      startWebServerAndPlay fun _ => Alike before paused True := by
  refine Respects.bind (Q := fun _ m n => Alike before paused True m n ∧
    m.streamer.fileName = n.streamer.fileName) ?_ fun _ => ?_
  · refine respects_modifies fun _ _ h => ⟨⟨h.1.globals, ?_⟩, h.2⟩
    exact { h.1.streamer with alertsLoopActive := rfl }
  refine Respects.bind (Q := fun _ m n => Alike before paused True m n ∧
    m.streamer.fileName = n.streamer.fileName) ?_ fun _ => ?_
  · exact respects_modifies fun _ _ h => ⟨⟨h.1.globals, { h.1.streamer with }⟩, h.2⟩
  refine Respects.bind ((respects_gets fun _ _ h => h.1.streamer.savePath trivial).weaken
    (fun _ _ h => h) fun _ _ _ h => h.1) fun savePath => ?_
  refine Respects.bind ((respects_gets fun _ _ h => h.2).weaken (fun _ _ h => h)
    fun _ _ _ h => h.1.1) fun fileName => ?_
  exact dispatchMain nofun

/-- The pass that sets `streaming` sets the status, the file's name and the path with it. -/
theorem processTorrent (env : Env) (h : Nat) :
    Ignores before paused True (processTorrent env h) := by
  refine bind (gets fun _ _ hmn => hmn.streamer.streaming) fun streaming => ite (pure _) ?_
  -- between the first step and the third, the status may be a leftover
  refine Respects.bind (Q := fun _ m n => m.globals = n.globals ∧ ∃ s t : Streamer,
    s.Alike before paused True (m.globals.shouldUserSelectFiles = true) t ∧
    m.streamer = { s with streaming := true } ∧ n.streamer = { t with streaming := true })
    (respects_modifies fun m n hmn =>
      ⟨hmn.globals, m.streamer, n.streamer, hmn.streamer, rfl, rfl⟩) fun _ => ?_
  refine Respects.bind (respects_statusOf env h ?_ ?_) fun status => ?_
  · rintro m n ⟨hg, s, t, hst, hm, hn⟩
    refine ⟨?_, by rw [hg], ?_⟩
    · rw [hm, hn]
      exact hst.requiredPieces
    · rw [hm, hn]
      exact hst.effects
  · rintro m n ⟨hg, s, t, hst, hm, hn⟩
    rw [hm, hn]
    exact hst.session.torrents
  refine Respects.bind (Q := fun _ => Alike before paused True) ?_ fun _ => ?_
  · refine respects_modifies ?_
    rintro m n ⟨hg, s, t, hst, hm, hn⟩
    rw [hm, hn]
    exact ⟨hg, { hst with streaming := rfl, status := fun _ => rfl }⟩
  refine bind (torrentFile h) fun _ => bind (selectedFileIndexOrLargest h) fun _ => ?_
  refine bind (orFault _ _) fun md => bind (orFault _ _) fun fe => ?_
  refine Respects.bind (Q := fun _ m n => Alike before paused True m n ∧
    m.streamer.fileName = n.streamer.fileName) ?_ fun _ => ?_
  · exact respects_modifies fun _ _ hmn => ⟨⟨hmn.globals, { hmn.streamer with }⟩, rfl⟩
  refine Respects.bind ((respects_gets fun _ _ hmn => hmn.1.streamer.readyToPlayBlock).weaken
    (fun _ _ hmn => hmn) fun _ _ _ hmn => hmn.1) fun block => ?_
  exact Respects.ite (fun _ => startWebServerAndPlay) fun _ => Respects.pure fun _ _ hmn => hmn.1

theorem torrentFinishedAlert (env : Env) (h : Nat) :
    Ignores before paused True (torrentFinishedAlert env h) := by
  have hstreaming : Triple (fun _ => True) (BtDownloader.processTorrent env h)
      fun _ m => m.streamer.streaming = true := by
    intro m _ u m' hx
    rcases processTorrent_ok hx with ⟨hm, rfl⟩ | ⟨-, t, md, fe, i, es, -, -, -, -, hs⟩
    · exact hm
    · rw [hs]
      split <;> rfl
  refine Respects.bind ((processTorrent env h).and_triple hstreaming fun _ _ _ =>
    ⟨trivial, trivial⟩) fun _ => ?_
  refine Respects.bind ((respects_gets fun _ _ hmn => hmn.1.streamer.status hmn.2.1).weaken
    (fun _ _ hmn => hmn) fun _ _ _ hmn => hmn.1.1) fun status => ?_
  rw [← bind_assoc]
  refine bind (tellStatus _ _ _) fun _ => bind (dispatchMain nofun) fun _ => ?_
  refine bind (send _ _ _) fun _ => bind (removeTorrent h) fun _ => ?_
  exact emit _

theorem resumeDataReadyAlertWithData (h : Nat) :
    Ignores before paused path (resumeDataReadyAlertWithData h) := by
  refine bind (modifies fun hst => ?_) fun _ => ?_
  · exact { hst with savePath := fun _ => rfl, alertsLoopActive := rfl }
  refine bind (gets fun _ _ hmn => ?_) fun ths => ?_
  · rw [hmn.streamer.session.torrents]
  exact bind (each removeTorrent ths) fun _ => emit _

/-- **Alerts are handled alike.** -/
theorem dispatchAlert (env : Env) (a : Alert) : Ignores before True True (dispatchAlert env a) := by
  refine bind (gets fun _ _ hmn => hmn.streamer.session.canDeliver_eq a) fun _ => ite ?_ (pure _)
  refine bind (modifies fun hst => hst.mapSession (hst.session.deliver a)) fun _ => ?_
  cases a with
  | metadataReceived h => exact metadataReceivedAlert env h
  | pieceFinished h piece => exact pieceFinishedAlert env h
  | torrentFinished h => exact torrentFinishedAlert env h
  | saveResumeData h => exact bind (statusOf env h) fun _ => resumeDataReadyAlertWithData h

/-! ## Starting -/

theorem loadParams (env : Env) (arg : Text) : Ignores before paused path (loadParams env arg) := by
  refine ite ?_ (ite ?_ (pure _))
  · cases env.parseMagnetUri arg with
    | ok tp => exact pure _
    | error message => exact Respects.throw _ fun _ _ h => h.sameSoFar
  · refine bind (indexOfLargestFileInTorrentWithTorrentInfo _) fun _ => ?_
    refine bind (orFault _ _) fun _ => ?_
    refine bind (whenever _ (Respects.throw _ fun _ _ h => h.sameSoFar)) fun _ => ?_
    refine bind (setMinPieces _) fun _ => ?_
    cases env.torrentFile arg with
    | ok ti => exact pure _
    | error message => exact pure _

/-- A folder that is opened is the save path from then on. -/
theorem openSavePath (env : Env) (md5 : Text) (directoryName : Option Text) :
    Respects (SameSoFar before) (Alike before paused False)
      (openSavePath env md5 directoryName)
      fun r => Alike before paused (∃ p, r = .ok p) := by
  unfold BtDownloader.openSavePath
  cases env.downloadDirectory with
  | none =>
      refine Respects.pure fun _ _ h => ⟨h.globals, ?_⟩
      exact { h.streamer with savePath := nofun }
  | some basePath =>
      refine Respects.bind (Q := fun _ => Alike before paused True) ?_ fun _ => ?_
      · refine respects_modifies fun _ _ h => ⟨h.globals, ?_⟩
        exact { h.streamer with savePath := fun _ => rfl }
      have hpure : ∀ r : Except NSError Text, Respects (SameSoFar before)
          (Alike before paused True) (Pure.pure r : Handler _)
          fun r => Alike before paused (∃ p, r = .ok p) := fun r =>
        Respects.pure fun _ _ h =>
          ⟨h.globals, { h.streamer with savePath := fun _ => h.streamer.savePath trivial }⟩
      refine Respects.ite (fun _ => hpure _) fun _ => ?_
      split
      · exact hpure _
      · exact hpure _

theorem addTorrent (env : Env) (tp : AddTorrentParams) :
    Ignores before paused path (addTorrent env tp) := by
  unfold BtDownloader.addTorrent
  cases env.refusal tp with
  | some message => exact pure _
  | none =>
      refine Related.bind (Q := fun s t m n => s.torrents = t.torrents ∧
        Alike before paused path m n) ?_ fun s t => ?_
      · intro m n h
        exact Or.inl ⟨_, _, _, _, rfl, rfl, h.streamer.session.torrents, h⟩
      rintro m n ⟨htorrents, h⟩
      rw [htorrents]
      cases t.torrents.find? (·.infoHash = tp.hash) with
      | some torrent => exact bind (emit _) (fun _ => pure _) m n h
      | none =>
          have hadd : ∀ k, Ignores before paused path (BtDownloader.modifies fun s =>
              (s.mapSession (·.insert env.order (tp.torrent k))).log [.added k]) := fun k =>
            modifies fun hst => (hst.mapSession (hst.session.insert env.order _)).log [.added k]
          exact bind (gets fun _ _ hmn => hmn.streamer.session.nextHandle)
            (fun k => bind (hadd k) fun _ => pure _) m n h

theorem failStart (env : Env) (failure : Option BlockId) (error : NSError) :
    Ignores before paused path (failStart env failure error) :=
  bind (callFailure _ _) fun _ => cancelStreaming env

/-- The step at the end of a start that resumes the session leaves alike sessions equal in
that, too. -/
theorem resumes :
    Respects (SameSoFar before) (Alike before paused True)
      (do BtDownloader.whenever (← BtDownloader.gets (·.session.paused))
            (BtDownloader.modifies (·.mapSession fun session => { session with paused := false })))
      fun _ => Alike before True True := by
  have hrun : ∀ m : Machine,
      (do BtDownloader.whenever (← BtDownloader.gets (·.session.paused))
            (BtDownloader.modifies (·.mapSession fun session =>
              { session with paused := false }))) m =
        (.ok () { m with streamer := m.streamer.resumes } : EStateM.Result Fault Machine Unit) := by
    rintro ⟨g, ⟨⟨k, ts, p, os⟩⟩, acc⟩
    cases p <;> rfl
  intro m n h
  refine Or.inl ⟨_, _, _, _, hrun m, hrun n, rfl, h.globals, ?_⟩
  exact { h.streamer with session := h.streamer.session.setPaused false }

/-- A session is resumed at the end of a start, whatever paused it. -/
theorem addAndResume (env : Env) (arg : Text) (failure : Option BlockId)
    (tp : AddTorrentParams) :
    Respects (SameSoFar before) (Alike before paused True) (addAndResume env arg failure tp)
      fun _ => Alike before True True := by
  refine Respects.bind (addTorrent env tp) fun th => ?_
  cases th with
  | error message =>
      exact Respects.bind (Q := fun _ _ _ => False)
        (Respects.throw _ fun _ _ h => h.sameSoFar) fun _ _ _ h => h.elim
  | ok h' =>
      refine Respects.bind (orFault _ _) fun h => Respects.bind (send _ _ _) fun _ => ?_
      refine Respects.bind (send _ _ _) fun _ => Respects.bind (send _ _ _) fun _ => ?_
      refine Respects.bind (whenever _ (metadataReceivedAlert env h)) fun _ => ?_
      rw [← bind_assoc]
      exact Respects.bind resumes fun _ => dispatchMain nofun

/-- **Blocks of the main queue run alike.** -/
theorem runMainQueue : Ignores before paused path runMainQueue := by
  refine Respects.bind (respects_gets fun _ _ h => h.streamer.mainQueue) fun queue => ?_
  cases queue with
  | nil => exact Respects.pure fun _ _ h => h.1
  | cons b rest =>
      -- a queued progress block reads the status, so the two must agree on it
      refine Respects.bind (Q := fun _ m n => Alike before paused path m n ∧
        (b = .progress → m.streamer.torrentStatus = n.streamer.torrentStatus)) ?_ fun _ => ?_
      · refine respects_modifies fun m n h => ⟨⟨h.1.globals, ?_⟩, fun hb => ?_⟩
        · refine { h.1.streamer with mainQueue := rfl, torrentStatus := fun hmem => ?_ }
          exact h.1.streamer.torrentStatus (h.2 ▸ List.mem_cons_of_mem b hmem)
        · exact h.1.streamer.torrentStatus (h.2 ▸ hb ▸ List.mem_cons_self)
      cases b with
      | progress =>
          refine Respects.bind ((respects_gets fun _ _ h => h.1.streamer.progressBlock).weaken
            (fun _ _ h => h) fun _ _ _ h => h.1) fun block? => ?_
          cases block? with
          | none => exact Respects.pure fun _ _ h => h.1
          | some block =>
              exact Respects.bind ((respects_gets fun _ _ h => h.2 rfl).weaken (fun _ _ h => h)
                fun _ _ _ h => h.1.1) fun _ => emit _
      | readyToPlay filePath =>
          refine Respects.bind ((respects_gets fun _ _ h => h.1.streamer.readyToPlayBlock).weaken
            (fun _ _ h => h) fun _ _ _ h => h.1.1) fun block? => ?_
          cases block? with
          | none => exact pure _
          | some block => exact emit _
      | networkActivityIndicator visible => exact Respects.pure fun _ _ h => h.1

theorem metadataArrives (h : Nat) (md : Metadata) :
    Ignores before paused path (step (.metadataArrives h md)) :=
  modifies fun hst => hst.mapSession (hst.session.metadataArrives h md)

end Ignores

/-! ## Streamers without torrents -/

/-- The streamer has no torrent, and none has finished. -/
structure Streamer.Gone (s : Streamer) : Prop where
  torrents : s.session.torrents = []
  streaming : s.streaming = false

/-- The machines differ in leftovers alone, and hold no torrent. -/
structure AlikeGone (before : List Effect) (path : Prop) (m n : Machine) : Prop where
  alike : Alike before False path m n
  left : m.streamer.Gone
  right : n.streamer.Gone

/-- A call on a handle stops both runs where there are no torrents. -/
theorem respects_statusOf_gone (env : Env) (h : Nat)
    (hR : ∀ m n, R m n → SameSoFar before m n)
    (hnil : ∀ m n, R m n → m.streamer.session.torrents = [] ∧ n.streamer.session.torrents = []) :
    Respects (SameSoFar before) R (statusOf env h) fun _ _ _ => False := by
  refine Respects.bind (Q := fun _ _ _ => False) ?_ fun _ _ _ hfalse => hfalse.elim
  refine Respects.bind (respects_gets fun m n hmn => ?_) fun o => ?_
  · rw [find?_eq_none (hnil m n hmn).1, find?_eq_none (hnil m n hmn).2]
  cases o with
  | none => exact Respects.throw _ fun m n hmn => hR m n hmn.1
  | some t =>
      rintro m n ⟨hmn, hfind⟩
      rw [find?_eq_none (hnil m n hmn).1] at hfind
      cases hfind

theorem AlikeGone.sameSoFar {m n : Machine} (h : AlikeGone before path m n) :
    SameSoFar before m n :=
  h.alike.sameSoFar

/-- Every alert stops both runs where there are no torrents. -/
theorem respects_dispatchAlert_gone (env : Env) (a : Alert) :
    Respects (SameSoFar before) (AlikeGone before path) (dispatchAlert env a)
      fun _ => AlikeGone before path := by
  -- without torrents every alert that is handled ends in a fault on both sides
  have hstatus : ∀ h, Respects (SameSoFar before) (AlikeGone before path) (statusOf env h)
      fun _ _ _ => False := fun h =>
    respects_statusOf_gone env h (fun _ _ hmn => hmn.sameSoFar) fun _ _ hmn =>
      ⟨hmn.left.torrents, hmn.right.torrents⟩
  refine Respects.bind ((respects_gets fun _ _ hmn =>
    hmn.alike.streamer.session.canDeliver_eq a).weaken (fun _ _ hmn => hmn)
      fun _ _ _ hmn => hmn.1) fun _ => ?_
  refine Respects.ite (fun _ => ?_) fun _ => Respects.pure fun _ _ hmn => hmn
  refine Respects.bind (Q := fun _ => AlikeGone before path) ?_ fun _ => ?_
  · refine respects_modifies fun m n hmn => ⟨⟨hmn.alike.globals, ?_⟩, ?_, ?_⟩
    · exact hmn.alike.streamer.mapSession (f := (·.deliver a))
        (hmn.alike.streamer.session.deliver a)
    · exact ⟨hmn.left.torrents, hmn.left.streaming⟩
    · exact ⟨hmn.right.torrents, hmn.right.streaming⟩
  cases a with
  | metadataReceived h => exact Respects.bind (hstatus h) fun _ _ _ hfalse => hfalse.elim
  | pieceFinished h piece => exact Respects.bind (hstatus h) fun _ _ _ hfalse => hfalse.elim
  | saveResumeData h => exact Respects.bind (hstatus h) fun _ _ _ hfalse => hfalse.elim
  | torrentFinished h =>
      refine Respects.bind (Q := fun _ _ _ => False) ?_ fun _ _ _ hfalse => hfalse.elim
      refine Respects.bind (respects_gets fun _ _ hmn => hmn.alike.streamer.streaming) fun b => ?_
      refine Respects.ite (fun hb m n hmn => ?_) fun _ => ?_
      · rw [hmn.1.left.streaming] at hmn
        exact absurd (hmn.2.symm.trans hb) Bool.false_ne_true
      refine Respects.bind (Q := fun _ m n => SameSoFar before m n ∧
        m.streamer.session.torrents = [] ∧ n.streamer.session.torrents = []) ?_ fun _ => ?_
      · refine respects_modifies fun m n hmn => ⟨?_, hmn.1.left.torrents, hmn.1.right.torrents⟩
        exact { hmn.1.sameSoFar with }
      refine Respects.bind (respects_statusOf_gone env h (fun _ _ hmn => hmn.1) fun _ _ hmn =>
        hmn.2) fun _ _ _ hfalse => hfalse.elim

/-! ## Runs -/

/-- Two runs after a start: alike, or both without a torrent. -/
def AlikeRuns (before : List Effect) (m n : Machine) : Prop :=
  Alike before True True m n ∨ AlikeGone before False m n

theorem AlikeRuns.sameSoFar {m n : Machine} (h : AlikeRuns before m n) : SameSoFar before m n :=
  h.elim Alike.sameSoFar AlikeGone.sameSoFar

theorem gone_runMainQueue : Keeps (fun m : Machine => m.streamer.Gone) runMainQueue := by
  intro m hm u m' hx
  obtain ⟨-, ⟨-, hs⟩ | ⟨b, rest, -, hs⟩⟩ := runMainQueue_ok hx
  · rw [hs]
    exact hm
  · rw [hs]
    exact ⟨hm.torrents, hm.streaming⟩

theorem gone_metadataArrives (h : Nat) (md : Metadata) :
    Keeps (fun m : Machine => m.streamer.Gone) (step (.metadataArrives h md)) := by
  intro m hm u m' hx
  have hsame : m.streamer.session.metadataArrives h md = m.streamer.session := by
    unfold Session.metadataArrives
    rw [find?_eq_none hm.torrents]
  cases hx
  refine ⟨?_, hm.streaming⟩
  show (m.streamer.session.metadataArrives h md).torrents = []
  rw [hsame]
  exact hm.torrents

/-- A handler that keeps alike machines alike, and adds no torrent, keeps them so without
torrents too. -/
theorem respects_gone {path' : α → Prop} {x : Handler α}
    (hx : Respects (SameSoFar before) (Alike before False path) x
      fun a => Alike before False (path' a))
    (hgone : Keeps (fun m : Machine => m.streamer.Gone) x) :
    Respects (SameSoFar before) (AlikeGone before path) x fun a => AlikeGone before (path' a) :=
  ((hx.weaken (fun _ _ h => h.alike) fun _ _ _ h => h).and_triple hgone fun _ _ h =>
    ⟨h.left, h.right⟩).weaken (fun _ _ h => h) fun _ _ _ h => ⟨h.1, h.2.1, h.2.2⟩

/-- **What is delivered to two runs leaves them alike.** -/
theorem respects_delivery {e : Event} (he : e.IsDelivery) :
    Respects (SameSoFar before) (AlikeRuns before) (step e) fun _ => AlikeRuns before := by
  have hruns : ∀ {x : Handler Unit}, Ignores before True True x →
      Respects (SameSoFar before) (AlikeGone before False) x (fun _ => AlikeGone before False) →
      Respects (SameSoFar before) (AlikeRuns before) x fun _ => AlikeRuns before := by
    intro x hx hgone
    exact (hx.or hgone).weaken (fun _ _ h => h) fun _ _ _ h => h
  cases e with
  | alertsLoop batch =>
      refine hruns ?_ ?_
      · refine Ignores.bind (.gets fun _ _ h => h.streamer.alertsLoopActive) fun _ => ?_
        exact Ignores.ite (Ignores.each (fun d => Ignores.dispatchAlert d.1 d.2) batch) (.pure _)
      · refine Respects.bind ((respects_gets fun _ _ h => h.alike.streamer.alertsLoopActive).weaken
          (fun _ _ h => h) fun _ _ _ h => h.1) fun _ => ?_
        refine Respects.ite (fun _ => ?_) fun _ => Respects.pure fun _ _ h => h
        exact respects_each fun d _ => respects_dispatchAlert_gone d.1 d.2
  | mainQueue =>
      exact hruns Ignores.runMainQueue (respects_gone Ignores.runMainQueue gone_runMainQueue)
  | metadataArrives h md =>
      exact hruns (Ignores.metadataArrives h md)
        (respects_gone (Ignores.metadataArrives h md) (gone_metadataArrives h md))
  | _ => exact he.elim

/-! ## Starts -/

theorem gone_failStart (env : Env) (failure : Option BlockId) (error : NSError) :
    Keeps (fun m : Machine => m.streamer.Gone) (failStart env failure error) := by
  intro m hm u m' hx
  obtain ⟨m₁, -, hs₁, hcancel⟩ := failStart_ok hx
  obtain ⟨-, session, es, -, hs, -, htorrents, -⟩ := cancel_keeping_ok hcancel
  rw [hs]
  refine ⟨?_, rfl⟩
  show session.torrents = []
  rw [htorrents, hs₁]
  exact List.map_eq_nil_iff.mpr hm.torrents

theorem gone_loadParams (env : Env) (arg : Text) :
    Keeps (fun m : Machine => m.streamer.Gone) (loadParams env arg) := by
  intro m hm r m' hx
  rcases loadParams_ok hx with ⟨p, -, hloads⟩ | ⟨-, -, -, rfl⟩
  · cases hloads with
    | magnet tp hmagnet hparse hm' =>
        rw [hm']
        exact hm
    | file md i fe g es hfile hexists hparse hselects hfe hg hs =>
        rw [hs]
        exact ⟨hm.torrents, hm.streaming⟩
  · exact hm

theorem gone_openSavePath (env : Env) (md5 : Text) (directoryName : Option Text) :
    Keeps (fun m : Machine => m.streamer.Gone) (openSavePath env md5 directoryName) := by
  intro m hm r m' hx
  obtain ⟨-, -, path?, hs, -⟩ := openSavePath_ok hx
  rw [hs]
  exact ⟨hm.torrents, hm.streaming⟩

/-- **A start from streamers without torrents** runs alike: it sets the blocks, the folder and
whether the session is paused. -/
theorem respects_start (env : Env) (arg : Text) (directoryName : Option Text)
    (progress readyToPlay failure : Option BlockId)
    (hacquire : ∀ m n, R m n → AlikeGone before False
      { m with streamer := m.streamer.acquire progress readyToPlay failure }
      { n with streamer := n.streamer.acquire progress readyToPlay failure }) :
    Respects (SameSoFar before) R
      (startStreamingFromFileInDirectory env arg directoryName progress readyToPlay failure)
      fun _ => AlikeRuns before := by
  -- until a torrent is added both sides have none, also where the start fails
  have hfail : ∀ error, Respects (SameSoFar before) (AlikeGone before False)
      (failStart env failure error) fun _ => AlikeRuns before := fun error =>
    (respects_gone (Ignores.failStart env failure error)
      (gone_failStart env failure error)).weaken (fun _ _ h => h) fun _ _ _ h => Or.inr h
  refine Respects.bind (respects_modifies hacquire) fun _ => ?_
  refine Respects.bind (respects_gone (Ignores.loadParams env arg) (gone_loadParams env arg))
    fun r => ?_
  cases r with
  | error error => exact hfail error
  | ok p =>
      obtain ⟨tp, md5⟩ := p
      refine Respects.bind (respects_gone (Ignores.openSavePath env md5 directoryName)
        (gone_openSavePath env md5 directoryName)) fun r => ?_
      cases r with
      | error error =>
          exact (hfail error).weaken (fun m n h => ⟨h.alike.mono False.elim, h.left, h.right⟩)
            fun _ _ _ h => h
      | ok path =>
          exact (Ignores.addAndResume env arg failure (finalParams env arg path tp)).weaken
            (fun m n h => h.alike.mono fun _ => ⟨path, rfl⟩) fun _ _ _ h => Or.inl h

end BtDownloader
