import BtDownloader.Client.Streamer

set_option autoImplicit false

/-! # What every method is made of

A property of handlers that the primitive steps have and that sequencing keeps is a property
of every method. The fault `requiredPieces` is left out of the primitive steps: the methods
that read an element of `required_pieces` have the property when `nextRequiredPiece` has it.
-/

namespace BtDownloader

open Program

/-! ## The methods that move the window, cut where they read `required_pieces` -/

/-- `prioritizeNextPieces` from where it has read where to continue. -/
def prioritizeFrom (env : Env) (h : Nat) (next : Int) : Handler Unit := do
  modifies fun s => { s with firstPiece := -1, requiredPieces := [] }
  let priorities ← piecePriorities h
  let ti ← torrentFile h
  send env h .clearPieceDeadlines
  let minPieces ← getMinPieces
  let priorities ← prioritizeLoop env h ti minPieces.toNat next
    (priorities.map fun _ => priorityLow)
  send env h (.prioritizePieces priorities)

theorem prioritizeNextPieces_eq (env : Env) (h : Nat) :
    prioritizeNextPieces env h = nextRequiredPiece >>= prioritizeFrom env h := rfl

/-- `pieceFinishedAlert` up to the question whether all required pieces are there. -/
def tellProgress (env : Env) (h : Nat) : Handler Bool := do
  let status ← statusOf env h
  modifies fun s => { s with status := status }
  let required ← gets (·.requiredPieces)
  let (downloaded, all) ← countRequired env h required 0 true
  modifies fun s => { s with
    torrentStatus := {
      bufferingProgress := bufferingProgress required.length downloaded
      totalProgress := status.progress
      downloadSpeed := status.downloadRate
      uploadSpeed := status.uploadRate
      seeds := status.numSeeds
      peers := status.numPeers
      totalWanted := status.totalWanted
      totalWantedDone := status.totalWantedDone }
    totalDownloaded := status.totalWantedDone
    isFinished := status.isFinished }
  dispatchMain .progress
  pure all

/-- The rest of `pieceFinishedAlert`. -/
def moveOn (env : Env) (h : Nat) (all : Bool) : Handler Unit := do
  if all then
    let minPieces ← getMinPieces
    whenever (minPieces = 0) (metadataReceivedAlert env h)
    prioritizeNextPieces env h

theorem pieceFinishedAlert_eq (env : Env) (h : Nat) :
    pieceFinishedAlert env h = tellProgress env h >>= moveOn env h := by
  simp only [tellProgress, bind_assoc, pure_bind]
  rfl

/-- A round of `fastForwardTorrentForRange` up to the question whether the range is there. -/
def seek (env : Env) (location length h : Nat) : Handler Bool := do
  let md ← orFault .nullTorrentFile (← torrentFile h)
  let totalTorrentPieces : Int := md.val.numPieces
  let fileIndex ← selectedFileIndexOrLargest h
  emit (.mappedRange h fileIndex)
  let startPiece := (← mapFile md fileIndex location length).piece
  let finalPiece := startPiece + (← getMinPieces) - 1
  let finalPiece := if totalTorrentPieces < finalPiece then totalTorrentPieces - 1
    else finalPiece
  modifies fun s => { s with firstPiece := startPiece, endPiece := finalPiece }
  haveThrough env h finalPiece (finalPiece - startPiece + 1).toNat startPiece

/-- The rest of the round. -/
def moveThere (env : Env) (h : Nat) (there : Bool) : Handler Bool := do
  if there then pure true
  else
    modifies fun s => { s with requiredPieces := [] }
    prioritizeNextPieces env h
    pure false

theorem fastForwardTorrent_eq (env : Env) (location length h : Nat) :
    fastForwardTorrent env location length h = seek env location length h >>= moveThere env h := by
  simp only [seek, bind_assoc]
  rfl

/-! ## Properties that every method has -/

/-- A property of handlers that the primitive steps have and that sequencing keeps. -/
structure Compositional (C : ∀ {α : Type}, Handler α → Prop) : Prop where
  composes : Composes C
  throw : ∀ {α : Type} {fault : Fault}, fault ≠ .requiredPieces → C (throw fault : Handler α)
  gets : ∀ {α : Type} (f : Streamer → α), C (gets f)
  modifies : ∀ f : Streamer → Streamer, C (modifies f)
  getMinPieces : C getMinPieces
  getSelectedFileIndex : C getSelectedFileIndex
  getShouldUserSelectFiles : C getShouldUserSelectFiles
  setMinPieces : ∀ n, C (setMinPieces n)
  setSelectedFileIndex : ∀ i, C (setSelectedFileIndex i)
  setShouldUserSelectFiles : ∀ b, C (setShouldUserSelectFiles b)

namespace Compositional

variable {C : ∀ {α : Type}, Handler α → Prop} (hC : Compositional C)

include hC

theorem pure {α : Type} (a : α) : C (pure a : Handler α) := hC.composes.pure a

theorem bind {α β : Type} {x : Handler α} {f : α → Handler β} (hx : C x) (hf : ∀ a, C (f a)) :
    C (x >>= f) := hC.composes.bind hx hf

theorem orFault {α : Type} {fault : Fault} (h : fault ≠ .requiredPieces) (o : Option α) :
    C (orFault fault o) := by
  cases o with
  | none => exact hC.throw h
  | some a => exact hC.pure a

theorem whenever (c : Prop) [Decidable c] {x : Handler Unit} (hx : C x) :
    C (whenever c x) :=
  Composes.ite hx (hC.pure ())

theorem emit (e : Effect) : C (emit e) := hC.modifies _

theorem dispatchMain (b : MainBlock) : C (dispatchMain b) :=
  hC.modifies _

theorem torrentOf (h : Nat) : C (torrentOf h) :=
  hC.bind (hC.gets _) fun _ => hC.orFault (by decide) _

theorem send (env : Env) (h : Nat) (c : TorrentCommand) :
    C (send env h c) :=
  hC.bind (hC.torrentOf h) fun _ => hC.modifies _

theorem statusOf (env : Env) (h : Nat) : C (statusOf env h) :=
  hC.bind (hC.torrentOf h) fun _ => hC.pure _

theorem torrentFile (h : Nat) : C (torrentFile h) :=
  hC.bind (hC.torrentOf h) fun _ => hC.pure _

theorem havePiece (env : Env) (h : Nat) (piece : Int) :
    C (havePiece env h piece) := by
  refine hC.bind (hC.torrentOf h) fun t => ?_
  cases t.info with
  | none => exact hC.pure _
  | some md => exact hC.pure _

theorem piecePriorities (h : Nat) : C (piecePriorities h) :=
  hC.bind (hC.torrentOf h) fun _ => hC.pure _

theorem filePriorities (h : Nat) : C (filePriorities h) := by
  refine hC.bind (hC.torrentOf h) fun t => ?_
  cases t.info with
  | none => exact hC.pure _
  | some md => exact hC.pure _

theorem callFailure (failure : Option BlockId) (error : NSError) :
    C (callFailure failure error) := by
  cases failure with
  | none => exact hC.pure _
  | some block => exact hC.emit _

theorem indexOfLargestFileInTorrentWithTorrentInfo (ti? : Option TorrentInfo) :
    C (indexOfLargestFileInTorrentWithTorrentInfo ti?) := by
  refine hC.bind hC.getShouldUserSelectFiles fun b => Composes.ite ?_ ?_
  · refine hC.bind (hC.setShouldUserSelectFiles _) fun _ => ?_
    refine hC.bind hC.getSelectedFileIndex fun selected => Composes.ite (hC.pure _) ?_
    refine hC.bind (hC.orFault (by decide) _) fun ti => hC.bind (hC.gets _) fun block? => ?_
    refine hC.bind (hC.orFault (by decide) _) fun block => hC.bind (hC.emit _) fun _ => ?_
    exact hC.bind (hC.setSelectedFileIndex _) fun _ => hC.pure _
  · refine hC.bind (hC.orFault (by decide) _) fun ti => Composes.ite ?_ (hC.pure _)
    exact hC.bind (hC.setSelectedFileIndex _) fun _ => hC.pure _

theorem indexOfLargestFileInTorrent (h : Nat) :
    C (indexOfLargestFileInTorrent h) :=
  hC.bind (hC.torrentFile h) fun _ => hC.indexOfLargestFileInTorrentWithTorrentInfo _

theorem selectedFileIndexOrLargest (h : Nat) :
    C (selectedFileIndexOrLargest h) :=
  hC.bind hC.getSelectedFileIndex fun _ =>
    Composes.ite (hC.pure _) (hC.indexOfLargestFileInTorrent h)

theorem mapFile (md : Metadata) (fileIndex offset size : Int) :
    C (mapFile md fileIndex offset size) :=
  Composes.ite (hC.pure _) (hC.throw (by decide))

theorem cancelTorrent (env : Env) (deleteData : Bool) (h : Nat) :
    C (cancelTorrent env deleteData h) := by
  refine hC.bind (hC.send _ _ _) fun _ => hC.bind (hC.whenever _ ?_) fun _ => ?_
  · exact hC.bind (hC.send _ _ _) fun _ => hC.modifies _
  · refine hC.bind (hC.send _ _ _) fun _ => hC.bind (hC.modifies _) fun _ => ?_
    exact hC.whenever _ (hC.modifies _)

theorem cancelStreamingAndDeleteData (env : Env) (deleteData : Bool) :
    C (cancelStreamingAndDeleteData env deleteData) := by
  refine hC.bind (hC.gets _) fun ths => ?_
  refine hC.bind (hC.composes.each (hC.cancelTorrent env deleteData)) fun _ => ?_
  refine hC.bind (hC.modifies _) fun _ => ?_
  refine hC.bind (hC.setSelectedFileIndex _) fun _ => hC.bind (hC.emit _) fun _ => ?_
  refine hC.bind (hC.dispatchMain _) fun _ => hC.whenever _ ?_
  refine hC.bind (hC.modifies _) fun _ => hC.bind (hC.modifies _) fun _ => ?_
  exact hC.bind (hC.modifies _) fun _ => hC.modifies _

theorem prioritizeLoop (env : Env) (h : Nat) (ti? : Option Metadata) (k : Nat) :
    ∀ (i : Int) (priorities : List Nat),
      C (prioritizeLoop env h ti? k i priorities) := by
  induction k with
  | zero => exact fun _ _ => hC.pure _
  | succ k ih =>
      intro i priorities
      refine hC.bind (hC.orFault (by decide) _) fun md => Composes.ite ?_ (ih _ _)
      refine hC.bind (hC.orFault (by decide) _) fun _ => hC.bind (hC.send _ _ _) fun _ => ?_
      exact hC.bind (hC.modifies _) fun _ => ih _ _

/-- `prioritizeNextPieces` from where it has read where to continue. -/
theorem prioritizeFrom (env : Env) (h : Nat) (next : Int) : C (prioritizeFrom env h next) := by
  refine hC.bind (hC.modifies _) fun _ => ?_
  refine hC.bind (hC.piecePriorities h) fun _ => ?_
  refine hC.bind (hC.torrentFile h) fun _ => hC.bind (hC.send _ _ _) fun _ => ?_
  refine hC.bind hC.getMinPieces fun _ => ?_
  exact hC.bind (hC.prioritizeLoop _ _ _ _ _ _) fun _ => hC.send _ _ _

theorem selectFile (env : Env) (h : Nat) : C (selectFile env h) := by
  refine hC.bind (hC.indexOfLargestFileInTorrent h) fun _ => ?_
  refine hC.bind (hC.filePriorities h) fun _ => hC.bind (hC.orFault (by decide) _) fun _ => ?_
  refine hC.bind (hC.send _ _ _) fun _ => hC.bind (hC.torrentFile h) fun _ => ?_
  refine hC.bind (hC.orFault (by decide) _) fun _ => hC.bind (hC.orFault (by decide) _) fun _ => ?_
  refine hC.bind (hC.setMinPieces _) fun _ => hC.bind hC.getMinPieces fun _ => ?_
  refine hC.bind (hC.mapFile _ _ _ _) fun _ => ?_
  refine hC.bind (hC.mapFile _ _ _ _) fun _ => hC.bind (hC.modifies _) fun _ => ?_
  refine hC.bind (hC.send _ _ _) fun _ => hC.bind (hC.piecePriorities h) fun _ => ?_
  refine hC.bind (hC.send _ _ _) fun _ => hC.bind (hC.gets _) fun _ => ?_
  refine hC.bind (hC.composes.each fun _ => ?_) fun _ => ?_
  · exact hC.bind (hC.send _ _ _) fun _ => hC.send _ _ _
  · exact hC.bind (hC.statusOf env h) fun _ => hC.modifies _

theorem metadataReceivedAlert (env : Env) (h : Nat) :
    C (metadataReceivedAlert env h) := by
  refine hC.bind (hC.statusOf env h) fun _ => hC.bind (hC.modifies _) fun _ => ?_
  refine hC.bind (hC.gets _) fun _ => hC.bind (hC.orFault (by decide) _) fun _ => ?_
  refine hC.bind (hC.gets _) fun _ => Composes.ite ?_ (hC.selectFile env h)
  refine hC.bind (hC.gets _) fun _ => hC.bind (hC.callFailure _ _) fun _ => ?_
  exact hC.cancelStreamingAndDeleteData env false

theorem countRequired (env : Env) (h : Nat) (pieces : List Int) :
    ∀ (n : Nat) (all : Bool), C (countRequired env h pieces n all) := by
  induction pieces with
  | nil => exact fun _ _ => hC.pure _
  | cons piece pieces ih =>
      intro n all
      refine hC.bind (hC.gets _) fun _ => Composes.ite (hC.pure _) ?_
      exact hC.bind (hC.havePiece env h piece) fun _ => Composes.ite (ih _ _) (ih _ _)

theorem tellProgress (env : Env) (h : Nat) : C (tellProgress env h) := by
  refine hC.bind (hC.statusOf env h) fun _ => hC.bind (hC.modifies _) fun _ => ?_
  refine hC.bind (hC.gets _) fun required => ?_
  refine hC.bind (hC.countRequired env h required 0 true) fun r => ?_
  exact hC.bind (hC.modifies _) fun _ => hC.bind (hC.dispatchMain _) fun _ => hC.pure _

theorem processTorrent (env : Env) (h : Nat) :
    C (processTorrent env h) := by
  refine hC.bind (hC.gets _) fun _ => Composes.ite (hC.pure _) ?_
  refine hC.bind (hC.modifies _) fun _ => hC.bind (hC.statusOf env h) fun _ => ?_
  refine hC.bind (hC.modifies _) fun _ => hC.bind (hC.torrentFile h) fun _ => ?_
  refine hC.bind (hC.selectedFileIndexOrLargest h) fun _ => ?_
  refine hC.bind (hC.orFault (by decide) _) fun _ => hC.bind (hC.orFault (by decide) _) fun _ => ?_
  refine hC.bind (hC.modifies _) fun _ => hC.bind (hC.gets _) fun _ => ?_
  refine hC.whenever _ (hC.bind (hC.modifies _) fun _ => ?_)
  refine hC.bind (hC.modifies _) fun _ => hC.bind (hC.gets _) fun _ => ?_
  exact hC.bind (hC.gets _) fun _ => hC.dispatchMain _

theorem torrentFinishedAlert (env : Env) (h : Nat) :
    C (torrentFinishedAlert env h) := by
  refine hC.bind (hC.processTorrent env h) fun _ => hC.bind (hC.gets _) fun _ => ?_
  refine hC.bind (hC.modifies _) fun _ => hC.bind (hC.dispatchMain _) fun _ => ?_
  refine hC.bind (hC.dispatchMain _) fun _ => hC.bind (hC.send _ _ _) fun _ => ?_
  exact hC.bind (hC.modifies _) fun _ => hC.emit _

theorem resumeDataReadyAlertWithData (h : Nat) :
    C (resumeDataReadyAlertWithData h) := by
  refine hC.bind (hC.modifies _) fun _ => hC.bind (hC.gets _) fun _ => ?_
  exact hC.bind (hC.composes.each fun _ => hC.modifies _) fun _ => hC.emit _

theorem dispatchAlert (env : Env) (a : Alert)
    (hpiece : ∀ h p, a = .pieceFinished h p → C (pieceFinishedAlert env h)) :
    C (dispatchAlert env a) := by
  refine hC.bind (hC.gets _) fun _ => Composes.ite ?_ (hC.pure _)
  refine hC.bind (hC.modifies _) fun _ => ?_
  cases a with
  | metadataReceived h => exact hC.metadataReceivedAlert env h
  | pieceFinished h p => exact hpiece h p rfl
  | torrentFinished h => exact hC.torrentFinishedAlert env h
  | saveResumeData h =>
      exact hC.bind (hC.statusOf env h) fun _ => hC.resumeDataReadyAlertWithData h

theorem loadParams (env : Env) (arg : Text) : C (loadParams env arg) := by
  refine Composes.ite ?_ (Composes.ite ?_ (hC.pure _))
  · cases env.parseMagnetUri arg with
    | ok tp => exact hC.pure _
    | error message => exact hC.throw (fun h => nomatch h)
  · refine hC.bind (hC.indexOfLargestFileInTorrentWithTorrentInfo _) fun _ => ?_
    refine hC.bind (hC.orFault (by decide) _) fun _ => ?_
    refine hC.bind (hC.whenever _ (hC.throw (by decide))) fun _ => ?_
    refine hC.bind (hC.setMinPieces _) fun _ => ?_
    cases env.torrentFile arg with
    | ok ti => exact hC.pure _
    | error message => exact hC.pure _

theorem openSavePath (env : Env) (md5 : Text) (directoryName : Option Text) :
    C (openSavePath env md5 directoryName) := by
  unfold BtDownloader.openSavePath
  cases env.downloadDirectory with
  | none => exact hC.pure _
  | some basePath =>
      refine hC.bind (hC.modifies _) fun _ => Composes.ite (hC.pure _) ?_
      split
      · exact hC.pure _
      · exact hC.pure _

theorem addTorrent (env : Env) (tp : AddTorrentParams) :
    C (addTorrent env tp) := by
  unfold BtDownloader.addTorrent
  cases env.refusal tp with
  | some message => exact hC.pure _
  | none =>
      refine hC.bind (hC.gets _) fun session => ?_
      split
      · exact hC.bind (hC.emit _) fun _ => hC.pure _
      · refine hC.bind (hC.gets _) fun _ => ?_
        exact hC.bind (hC.modifies _) fun _ => hC.pure _

theorem failStart (env : Env) (failure : Option BlockId) (error : NSError) :
    C (failStart env failure error) :=
  hC.bind (hC.callFailure _ _) fun _ => hC.cancelStreamingAndDeleteData env false

theorem addAndResume (env : Env) (arg : Text) (failure : Option BlockId)
    (tp : AddTorrentParams) : C (addAndResume env arg failure tp) := by
  refine hC.bind (hC.addTorrent env tp) fun th => hC.bind (hC.orFault (by decide) _) fun h => ?_
  refine hC.bind (hC.send _ _ _) fun _ => hC.bind (hC.send _ _ _) fun _ => ?_
  refine hC.bind (hC.send _ _ _) fun _ => ?_
  cases th with
  | error message => exact hC.failStart _ _ _
  | ok h' =>
      refine hC.bind (hC.whenever _ (hC.metadataReceivedAlert env h)) fun _ => ?_
      refine hC.bind (hC.gets _) fun _ => ?_
      exact hC.bind (hC.whenever _ (hC.modifies _)) fun _ => hC.dispatchMain _

theorem startStreamingFromFileInDirectory (env : Env) (arg : Text)
    (directoryName : Option Text) (progress readyToPlay failure : Option BlockId) :
    C
      (startStreamingFromFileInDirectory env arg directoryName progress readyToPlay failure) := by
  refine hC.bind (hC.modifies _) fun _ => hC.bind (hC.loadParams env arg) fun r => ?_
  cases r with
  | error error => exact hC.failStart _ _ _
  | ok tp =>
      refine hC.bind (hC.openSavePath env tp.2 directoryName) fun r => ?_
      cases r with
      | error error => exact hC.failStart _ _ _
      | ok path => exact hC.addAndResume _ _ _ _

theorem startStreamingFromMultiTorrentFile (env : Env) (arg : Text)
    (progress readyToPlay failure : Option BlockId) (callback : SelectionBlock) :
    C (startStreamingFromMultiTorrentFile env arg progress readyToPlay failure callback) := by
  refine hC.bind (hC.setShouldUserSelectFiles _) fun _ => ?_
  refine hC.bind (hC.modifies _) fun _ => ?_
  exact hC.startStreamingFromFileInDirectory _ _ _ _ _ _

theorem haveThrough (env : Env) (h : Nat) (finalPiece : Int) (k : Nat) :
    ∀ j : Int, C (haveThrough env h finalPiece k j) := by
  induction k with
  | zero => exact fun _ => hC.pure _
  | succ k ih =>
      intro j
      refine hC.bind (hC.havePiece env h j) fun _ => Composes.ite ?_ (hC.pure _)
      exact Composes.ite (hC.pure _) (ih _)

theorem seek (env : Env) (location length h : Nat) : C (seek env location length h) := by
  refine hC.bind (hC.torrentFile h) fun _ => hC.bind (hC.orFault (by decide) _) fun _ => ?_
  refine hC.bind (hC.selectedFileIndexOrLargest h) fun _ => ?_
  refine hC.bind (hC.emit _) fun _ => hC.bind (hC.mapFile _ _ _ _) fun _ => ?_
  refine hC.bind hC.getMinPieces fun _ => hC.bind (hC.modifies _) fun _ => ?_
  exact hC.haveThrough _ _ _ _ _

theorem runMainQueue : C runMainQueue := by
  refine hC.bind (hC.gets _) fun queue => ?_
  cases queue with
  | nil => exact hC.pure _
  | cons b rest =>
      refine hC.bind (hC.modifies _) fun _ => ?_
      cases b with
      | progress =>
          refine hC.bind (hC.gets _) fun block => ?_
          cases block with
          | none => exact hC.pure _
          | some block => exact hC.bind (hC.gets _) fun _ => hC.emit _
      | readyToPlay filePath =>
          refine hC.bind (hC.gets _) fun block => ?_
          cases block with
          | none => exact hC.pure _
          | some block => exact hC.emit _
      | networkActivityIndicator visible => exact hC.pure _

theorem fastForwardTorrentForRange (env : Env) (location length : Nat)
    (hround : ∀ h, C (fastForwardTorrent env location length h)) :
    C (fastForwardTorrentForRange env location length) := by
  refine hC.bind (hC.gets _) fun ths => ?_
  induction ths with
  | nil => exact hC.pure _
  | cons h ths ih =>
      refine hC.bind (hround h) fun _ => ?_
      exact Composes.ite (hC.pure _) ih

/-! ### The methods that read an element of `required_pieces` -/

section NextRequiredPiece

variable (hnext : C nextRequiredPiece)

include hnext

theorem prioritizeNextPieces (env : Env) (h : Nat) : C (prioritizeNextPieces env h) := by
  rw [prioritizeNextPieces_eq]
  exact hC.bind hnext fun _ => hC.prioritizeFrom env h _

theorem pieceFinishedAlert (env : Env) (h : Nat) : C (pieceFinishedAlert env h) := by
  rw [pieceFinishedAlert_eq]
  refine hC.bind (hC.tellProgress env h) fun all => Composes.ite ?_ (hC.pure _)
  refine hC.bind hC.getMinPieces fun _ => ?_
  refine hC.bind (hC.whenever _ (hC.metadataReceivedAlert env h)) fun _ => ?_
  exact hC.prioritizeNextPieces hnext env h

theorem fastForwardTorrent (env : Env) (location length h : Nat) :
    C (fastForwardTorrent env location length h) := by
  rw [fastForwardTorrent_eq]
  refine hC.bind (hC.seek env location length h) fun there => Composes.ite (hC.pure _) ?_
  refine hC.bind (hC.modifies _) fun _ => ?_
  exact hC.bind (hC.prioritizeNextPieces hnext env h) fun _ => hC.pure _

/-- **Every step of a streamer has the property.** -/
theorem step (e : Event) : C (step e) := by
  cases e with
  | start env arg progress readyToPlay failure =>
      exact hC.startStreamingFromFileInDirectory _ _ _ _ _ _
  | startMulti env arg progress readyToPlay failure callback =>
      exact hC.startStreamingFromMultiTorrentFile _ _ _ _ _ _
  | cancel env deleteData => exact hC.cancelStreamingAndDeleteData env deleteData
  | alertsLoop batch =>
      refine hC.bind (hC.gets _) fun _ => Composes.ite ?_ (hC.pure _)
      exact hC.composes.each fun d => hC.dispatchAlert d.1 d.2 fun h _ _ =>
        hC.pieceFinishedAlert hnext d.1 h
  | fastForward env location length =>
      refine hC.bind (hC.fastForwardTorrentForRange env location length fun h => ?_) fun _ =>
        hC.pure _
      exact hC.fastForwardTorrent hnext env location length h
  | mainQueue => exact hC.runMainQueue
  | metadataArrives h md => exact hC.modifies fun s => s.mapSession (·.metadataArrives h md)

end NextRequiredPiece

end Compositional

end BtDownloader
