import BtDownloader.Client.State

set_option autoImplicit false

/-! # The methods of `PTTorrentStreamer`

One definition for each method of `PTTorrentStreamer.mm`, under the method's name and with
its steps in the source's order. `startStreamingFromFile` is cut at its three blocks: where
the link or the file is read (`loadParams`), where the download folder is made
(`openSavePath`), and the rest.
-/

namespace BtDownloader

open Program

/-- `ALERTS_LOOP_WAIT_MILLIS` has no effect on the state; `PIECE_DEADLINE_MILLIS` does. -/
def pieceDeadlineMillis : Nat := 100

/-- `[string hasPrefix:…]`. -/
def hasPrefix (p s : Text) : Bool := p.isPrefixOf s

def isMagnet (arg : Text) : Bool := hasPrefix "magnet".toList arg

/-- `[path stringByAppendingPathComponent:…]`. -/
def appendPathComponent (path component : Text) : Text := path ++ "/".toList ++ component

/-- `file_storage::file_name`: the path after its last slash. -/
def lastPathComponent (path : Text) : Text := (path.reverse.takeWhile (· ≠ '/')).reverse

/-- `v[i] = x`, where the index exists. -/
def setAt (v : List Nat) (i : Int) (x : Nat) : Option (List Nat) :=
  if 0 ≤ i ∧ i < v.length then some (v.set i.toNat x) else none

/-- `v[i]`, where the index exists. -/
def elementAt (v : List Int) (i : Int) : Option Int :=
  if 0 ≤ i then v[i.toNat]? else none

/-- The streamer with one more block on the main queue. -/
def Streamer.dispatch (b : MainBlock) (s : Streamer) : Streamer :=
  { s with mainQueue := s.mainQueue ++ [b], effects := s.effects ++ [.dispatched b] }

/-- `dispatch_async(dispatch_get_main_queue(), …)`. -/
def dispatchMain (b : MainBlock) : Handler Unit := modifies (·.dispatch b)

/-- `if (failure) failure(error);`. -/
def callFailure (failure : Option BlockId) (error : NSError) : Handler Unit :=
  match failure with
  | some block => emit (.calledFailure block error)
  | none => pure ()

/-! ## Choosing a file -/

/-- The loop of `indexOfLargestFileInTorrentWithTorrentInfo`. -/
def largestLoop : List FileEntry → Int → Int → Int → Int
  | [], _, _, largestFileIndex => largestFileIndex
  | fe :: files, i, largestSize, largestFileIndex =>
      if largestSize < fe.size then largestLoop files (i + 1) fe.size i
      else largestLoop files (i + 1) largestSize largestFileIndex

def largestFileIndex (ti : TorrentInfo) : Int := largestLoop ti.files 0 (-1) (-1)

/-- The names the user selects from. -/
def TorrentInfo.fileNames (ti : TorrentInfo) : List Text :=
  ti.files.map fun fe => lastPathComponent fe.path

/-- `indexOfLargestFileInTorrentWithTorrentInfo`. -/
def indexOfLargestFileInTorrentWithTorrentInfo (ti? : Option TorrentInfo) : Handler Int := do
  if ← getShouldUserSelectFiles then
    setShouldUserSelectFiles false
    let selected ← getSelectedFileIndex
    if selected ≠ -1 then pure selected
    else
      let ti ← orFault .nullTorrentFile ti?
      let block ← orFault .nilSelectionBlock (← gets (·.selectionBlock))
      emit (.calledSelection block.block ti.fileNames)
      setSelectedFileIndex (block.answer ti.fileNames)
      pure (block.answer ti.fileNames)
  else
    let ti ← orFault .nullTorrentFile ti?
    if 1 < ti.numFiles then
      setSelectedFileIndex (largestFileIndex ti)
      pure (largestFileIndex ti)
    else pure 0

/-- `indexOfLargestFileInTorrent`. -/
def indexOfLargestFileInTorrent (h : Nat) : Handler Int := do
  let ti ← torrentFile h
  indexOfLargestFileInTorrentWithTorrentInfo (ti.map (·.val))

/-- `selectedFileIndex != -1 ? selectedFileIndex : [self indexOfLargestFileInTorrent:th]`. -/
def selectedFileIndexOrLargest (h : Nat) : Handler Int := do
  let selected ← getSelectedFileIndex
  if selected ≠ -1 then pure selected else indexOfLargestFileInTorrent h

/-- `map_file`; a negative file index reads outside the file table. -/
def mapFile (md : Metadata) (fileIndex : Int) (offset size : Int) : Handler PeerRequest :=
  if 0 ≤ fileIndex then pure (md.val.mapFile fileIndex.toNat offset size)
  else throw .fileAt

/-! ## Cancelling -/

/-- `_session->remove_torrent(th)`. -/
def removeTorrent (h : Nat) : Handler Unit :=
  modifies fun s => (s.mapSession (·.removeTorrent h)).log [.removed h]

/-- The body of the loop of `cancelStreamingAndDeleteData` over the session's torrents. -/
def cancelTorrent (env : Env) (deleteData : Bool) (h : Nat) : Handler Unit := do
  send env h (.pause false)
  whenever (!deleteData && env.needSaveResumeData h) do
    send env h .saveResumeData
    modifies (·.mapSession (·.oweResumeData h))
  send env h .flushCache
  modifies (·.mapSession fun session => { session with paused := true })
  whenever deleteData (removeTorrent h)

/-- The instance variables that every cancel resets. -/
def Streamer.reset (s : Streamer) : Streamer :=
  { s with
    requiredPieces := []
    status := {}
    progressBlock := none
    readyToPlayBlock := none
    failureBlock := none
    selectionBlock := none
    fileName := none
    requiredSpace := 0
    totalDownloaded := 0
    firstPiece := -1
    endPiece := 0
    streaming := false
    torrentStatus := {}
    isFinished := false }

/-- `[self.preventSleepTimer invalidate]`. -/
def Streamer.invalidateTimer (s : Streamer) : Streamer :=
  { s with scheduledTimers := s.scheduledTimers.filter fun t => s.preventSleepTimer ≠ some t }

/-- `setupSession`. -/
def Streamer.setupSession (s : Streamer) : Streamer :=
  { s with
    session := { nextHandle := s.session.nextHandle }
    firstPiece := -1
    endPiece := 0
    status := {} }

/-- `cancelStreamingAndDeleteData`. -/
def cancelStreamingAndDeleteData (env : Env) (deleteData : Bool) : Handler Unit := do
  let ths ← gets (·.session.torrents.map (·.handle))
  each (cancelTorrent env deleteData) ths
  modifies Streamer.reset
  setSelectedFileIndex (-1)
  emit .cancelled
  dispatchMain (.networkActivityIndicator false)
  whenever deleteData do
    modifies fun s => { s with audioPlaying := false, alertsLoopActive := false }
    modifies Streamer.invalidateTimer
    modifies fun s => { s with savePath := none }
    modifies Streamer.setupSession

/-! ## The window of required pieces -/

/-- The loop of `prioritizeNextPieces`: `k` rounds from piece `i` on. -/
def prioritizeLoop (env : Env) (h : Nat) (ti? : Option Metadata) :
    Nat → Int → List Nat → Handler (List Nat)
  | 0, _, priorities => pure priorities
  | k + 1, i, priorities => do
      let md ← orFault .nullTorrentFile ti?
      if i < md.val.numPieces then
        let priorities ← orFault .piecePriorities (setAt priorities i priorityMaximum)
        send env h (.setPieceDeadline i pieceDeadlineMillis)
        modifies fun s => { s with requiredPieces := s.requiredPieces ++ [i] }
        prioritizeLoop env h ti? k (i + 1) priorities
      else prioritizeLoop env h ti? k (i + 1) priorities

/-- Where `prioritizeNextPieces` continues: at `firstPiece` after a fast-forward, else
after element `MIN_PIECES - 1` of `required_pieces`, else at piece `0`. -/
def nextRequiredPiece : Handler Int := do
  let firstPiece ← gets (·.firstPiece)
  if firstPiece ≠ -1 then pure firstPiece
  else
    let required ← gets (·.requiredPieces)
    if 0 < required.length then
      let minPieces ← getMinPieces
      let piece ← orFault .requiredPieces (elementAt required (minPieces - 1))
      pure (piece + 1)
    else pure 0

/-- `prioritizeNextPieces`. -/
def prioritizeNextPieces (env : Env) (h : Nat) : Handler Unit := do
  let next ← nextRequiredPiece
  modifies fun s => { s with firstPiece := -1, requiredPieces := [] }
  let priorities ← piecePriorities h
  let ti ← torrentFile h
  send env h .clearPieceDeadlines
  let minPieces ← getMinPieces
  let priorities ← prioritizeLoop env h ti minPieces.toNat next
    (priorities.map fun _ => priorityLow)
  send env h (.prioritizePieces priorities)

/-! ## Alerts -/

/-- The last loop of `metadataReceivedAlert`. -/
def raisePiece (env : Env) (h : Nat) (piece : Int) : Handler Unit := do
  send env h (.piecePriority piece priorityMaximum)
  send env h (.setPieceDeadline piece pieceDeadlineMillis)

/-- The `n` pieces from `first` upwards, as the head loop appends them. -/
def piecesFrom (first : Int) (n : Nat) : List Int :=
  (List.range n).map fun i : Nat => first + i

/-- The `n` pieces from `last` downwards, as the tail loop appends them. -/
def piecesDownFrom (last : Int) (n : Nat) : List Int :=
  (List.range n).map fun i : Nat => last - i

/-- `metadataReceivedAlert` from the choice of the file on. -/
def selectFile (env : Env) (h : Nat) : Handler Unit := do
  let fileIndex ← indexOfLargestFileInTorrent h
  let priorities := (← filePriorities h).map fun _ => prioritySkip
  let priorities ← orFault .filePriorities (setAt priorities fileIndex priorityMaximum)
  send env h (.prioritizeFiles priorities)
  let md ← orFault .nullTorrentFile (← torrentFile h)
  let fe ← orFault .fileAt (md.val.fileAt fileIndex)
  setMinPieces (md.val.minPieces fe)
  let minPieces ← getMinPieces
  let firstPiece := (← mapFile md fileIndex 0 0).piece
  let lastPiece := (← mapFile md fileIndex (fe.size - 1) 0).piece
  modifies fun s => { s with
    requiredPieces := s.requiredPieces ++ piecesFrom firstPiece minPieces.toNat
      ++ piecesDownFrom lastPiece 10 }
  send env h .clearPieceDeadlines
  let priorities ← piecePriorities h
  send env h (.prioritizePieces (priorities.map fun _ => priorityLow))
  each (raisePiece env h) (← gets (·.requiredPieces))
  let status ← statusOf env h
  modifies fun s => { s with status := status }

/-- `metadataReceivedAlert`. -/
def metadataReceivedAlert (env : Env) (h : Nat) : Handler Unit := do
  let status ← statusOf env h
  modifies fun s => { s with requiredSpace := status.totalWanted }
  let _ ← orFault .nilSavePath (← gets (·.savePath))
  let requiredSpace ← gets (·.requiredSpace)
  if env.availableSpace < requiredSpace then
    callFailure (← gets (·.failureBlock))
      ⟨-4, "手机缺乏足够的空间下载文件，请预留至少 ".toList
        ++ env.byteCountString requiredSpace ++ " 并重试。".toList⟩
    cancelStreamingAndDeleteData env false
  else selectFile env h

/-- The loop of `pieceFinishedAlert`: how many required pieces are downloaded, and whether
none was found missing. It stops at once when the session is paused. -/
def countRequired (env : Env) (h : Nat) : List Int → Nat → Bool → Handler (Nat × Bool)
  | [], downloaded, all => pure (downloaded, all)
  | piece :: pieces, downloaded, all => do
      if ← gets (·.session.paused) then pure (downloaded, all)
      else if ← havePiece env h piece then countRequired env h pieces (downloaded + 1) all
      else countRequired env h pieces downloaded false

/-- `1.0 - (requiredPieces - requiredPiecesDownloaded) / (float)requiredPieces`. -/
def bufferingProgress (requiredPieces downloaded : Nat) : Option ℚ :=
  if requiredPieces = 0 then none
  else some (1 - ((requiredPieces : ℚ) - downloaded) / requiredPieces)

/-- `pieceFinishedAlert`. -/
def pieceFinishedAlert (env : Env) (h : Nat) : Handler Unit := do
  let status ← statusOf env h
  modifies fun s => { s with status := status }
  let required ← gets (·.requiredPieces)
  let (downloaded, all) ← countRequired env h required 0 true
  modifies fun s => { s with
    torrentStatus := {
      bufferingProgress := bufferingProgress required.length downloaded
      totalProgress := status.progress
      downloadSpeed := status.downloadRate
      uploadSpeed := status.uploadRate
      seeds := status.numSeeds
      peers := status.numPeers
      totalWanted := status.totalWanted
      totalWantedDone := status.totalWantedDone }
    totalDownloaded := status.totalWantedDone
    isFinished := status.isFinished }
  dispatchMain .progress
  if all then
    let minPieces ← getMinPieces
    whenever (minPieces = 0) (metadataReceivedAlert env h)
    prioritizeNextPieces env h

/-- `startWebServerAndPlay`. -/
def startWebServerAndPlay : Handler Unit := do
  modifies fun s => { s with alertsLoopActive := false }
  modifies Streamer.invalidateTimer
  let savePath ← gets (·.savePath)
  let fileName ← gets (·.fileName)
  dispatchMain (.readyToPlay
    (savePath.map fun path => appendPathComponent path (fileName.getD [])))

/-- `processTorrent`. -/
def processTorrent (env : Env) (h : Nat) : Handler Unit := do
  if ← gets (·.streaming) then pure ()
  else
    modifies fun s => { s with streaming := true }
    let status ← statusOf env h
    modifies fun s => { s with status := status }
    let ti ← torrentFile h
    let fileIndex ← selectedFileIndexOrLargest h
    let md ← orFault .nullTorrentFile ti
    let fe ← orFault .fileAt (md.val.fileAt fileIndex)
    modifies fun s => { s with fileName := some fe.path }
    whenever (← gets (·.readyToPlayBlock)).isSome startWebServerAndPlay

/-- `torrentFinishedAlert`. -/
def torrentFinishedAlert (env : Env) (h : Nat) : Handler Unit := do
  processTorrent env h
  let status ← gets (·.status)
  modifies fun s => { s with
    torrentStatus := {
      bufferingProgress := some 1
      totalProgress := 1
      downloadSpeed := status.downloadRate
      uploadSpeed := status.uploadRate
      seeds := status.numSeeds
      peers := status.numPeers }
    totalDownloaded := status.totalWantedDone
    isFinished := status.isFinished }
  dispatchMain .progress
  dispatchMain (.networkActivityIndicator false)
  send env h (.pause true)
  removeTorrent h
  emit (.finished h)

/-- `resumeDataReadyAlertWithData`. The bytes of the file are left open: the data that is written
has no copy of the string it is made from, and the string is gone when it is written. -/
def resumeDataReadyAlertWithData (h : Nat) : Handler Unit := do
  modifies fun s => { s with
    audioPlaying := false
    alertsLoopActive := false
    savePath := none }
  let ths ← gets (·.session.torrents.map (·.handle))
  each removeTorrent ths
  emit (.wroteResumeData h)

/-- What `alertsLoop` does with one alert of its batch, when libtorrent owes it. -/
def dispatchAlert (env : Env) (a : Alert) : Handler Unit := do
  if ← gets (·.session.canDeliver a) then
    modifies (·.mapSession (·.deliver a))
    match a with
    | .metadataReceived h => metadataReceivedAlert env h
    | .pieceFinished h _ => pieceFinishedAlert env h
    | .torrentFinished h => torrentFinishedAlert env h
    | .saveResumeData h => do
        let _ ← statusOf env h
        resumeDataReadyAlertWithData h

/-- `alertsLoop` with the batch of alerts it pops. -/
def alertsLoop (batch : List (Env × Alert)) : Handler Unit := do
  if ← gets (·.alertsLoopActive) then
    each (fun (env, a) => dispatchAlert env a) batch

/-! ## Starting -/

/-- `if (failure) failure(error); return [self cancelStreamingAndDeleteData:NO];`. -/
def failStart (env : Env) (failure : Option BlockId) (error : NSError) : Handler Unit := do
  callFailure failure error
  cancelStreamingAndDeleteData env false

/-- The part of `startStreamingFromFile` that reads the magnet link or the torrent file:
the parameters for `add_torrent` and the MD5 string, or an error. -/
def loadParams (env : Env) (arg : Text) : Handler (Except NSError (AddTorrentParams × Text)) := do
  if isMagnet arg then
    match env.parseMagnetUri arg with
    | .ok tp => pure (.ok (tp, env.md5 arg))
    | .error message => throw (.parseMagnetUri message)
  else if env.fileExists arg then
    let ti := match env.torrentFile arg with
      | .ok ti => ti
      | .error _ => TorrentInfo.invalid
    let fileIndex ← indexOfLargestFileInTorrentWithTorrentInfo (some ti)
    let fe ← orFault .fileAt (ti.fileAt fileIndex)
    whenever (ti.pieceLength = 0) (throw .divisionByZero)
    setMinPieces (ti.minPieces fe)
    match env.torrentFile arg with
    | .ok ti => pure (.ok ({ infoHash := ti.infoHash, ti := some ti }, env.fileMD5 arg))
    | .error message => pure (.error ⟨-1, message⟩)
  else pure (.error ⟨-2, "文件不存在于".toList ++ arg⟩)

/-- The part of `startStreamingFromFile` that makes the download folder. -/
def openSavePath (env : Env) (md5 : Text) (directoryName : Option Text) :
    Handler (Except NSError Text) := do
  match env.downloadDirectory with
  | none => pure (.error ⟨-412, "无法创建下载目录".toList⟩)
  | some basePath =>
      let path := appendPathComponent basePath (directoryName.getD (md5.take 16))
      modifies fun s => { s with savePath := some path }
      if env.fileExists path then pure (.ok path)
      else match env.createDirectory path with
        | some error => pure (.error error)
        | none => pure (.ok path)

/-- A magnet link whose folder exists takes its parameters from the resume data there. -/
def resumeParams (env : Env) (arg path : Text) (tp : AddTorrentParams) : AddTorrentParams :=
  if env.fileExists path && isMagnet arg then
    match env.resumeData (path ++ "/resumeData.fastresume".toList) with
    | some bytes => (env.readResumeData bytes).1
    | none => tp
  else tp

/-- The parameters as they are passed to `add_torrent`. -/
def finalParams (env : Env) (arg path : Text) (tp : AddTorrentParams) : AddTorrentParams :=
  { resumeParams env arg path tp with savePath := path, storageModeAllocate := true }

def AddTorrentParams.hash (tp : AddTorrentParams) : Nat :=
  match tp.ti with
  | some ti => ti.infoHash
  | none => tp.infoHash

/-- The metadata among the parameters. -/
def AddTorrentParams.info (tp : AddTorrentParams) : Option Metadata :=
  tp.ti.bind fun ti => if h : ti.Valid then some ⟨ti, h⟩ else none

/-- The torrent `add_torrent` makes for its parameters. -/
def AddTorrentParams.torrent (tp : AddTorrentParams) (h : Nat) : Torrent :=
  let t : Torrent := { handle := h, infoHash := tp.hash, info := none, savePath := tp.savePath }
  match tp.info with
  | some md => t.withMetadata md
  | none => t

/-- The error `add_torrent` sets, if any: that of a `torrent_info` without a piece length or
without files, any other, or that of an info-hash of zeros. -/
def Env.refusal (env : Env) (tp : AddTorrentParams) : Option Text :=
  if tp.ti.any (·.pieceLength = 0) then some "torrent has no metadata".toList
  else if tp.ti.any (·.files = []) then some "no files in torrent".toList
  else (env.addTorrentError tp).or
    (if tp.hash = 0 then some "missing info-hash from URI".toList else none)

/-- `session::add_torrent`: the handle, or the error it sets. A torrent the session already
holds is found again and not added. -/
def addTorrent (env : Env) (tp : AddTorrentParams) : Handler (Except Text Nat) := do
  match env.refusal tp with
  | some message => pure (.error message)
  | none =>
      match (← gets (·.session)).torrents.find? (·.infoHash = tp.hash) with
      | some t => do
          emit (.found t.handle)
          pure (.ok t.handle)
      | none => do
          let h ← gets (·.session.nextHandle)
          modifies fun s =>
            (s.mapSession (·.insert env.order (tp.torrent h))).log [.added h]
          pure (.ok h)

/-- `startStreamingFromFile:directoryName:` from the call of `add_torrent` on. -/
def addAndResume (env : Env) (arg : Text) (failure : Option BlockId) (tp : AddTorrentParams) :
    Handler Unit := do
  let th ← addTorrent env tp
  -- a call on the handle of a refused torrent throws, before the error is looked at
  let h ← orFault .invalidHandle th.toOption
  send env h (.setSequentialDownload true)
  send env h (.setMaxConnections 60)
  send env h (.setMaxUploads 10)
  match th with
  | .error message => failStart env failure ⟨-1, message⟩
  | .ok _ =>
      whenever (!isMagnet arg) (metadataReceivedAlert env h)
      whenever (← gets (·.session.paused))
        (modifies (·.mapSession fun session => { session with paused := false }))
      dispatchMain (.networkActivityIndicator true)

/-- What `startStreamingFromFile` does before it reads its argument. -/
def Streamer.acquire (s : Streamer) (progress readyToPlay failure : Option BlockId) : Streamer :=
  { s with
    progressBlock := progress
    readyToPlayBlock := readyToPlay
    failureBlock := failure
    alertsLoopActive := true
    audioPlaying := true
    preventSleepTimer := some s.nextTimer
    scheduledTimers := s.scheduledTimers ++ [s.nextTimer]
    nextTimer := s.nextTimer + 1 }

/-- `startStreamingFromFile:directoryName:progress:readyToPlay:failure:`. -/
def startStreamingFromFileInDirectory (env : Env) (arg : Text) (directoryName : Option Text)
    (progress readyToPlay failure : Option BlockId) : Handler Unit := do
  modifies (·.acquire progress readyToPlay failure)
  match ← loadParams env arg with
  | .error error => failStart env failure error
  | .ok (tp, md5) =>
      match ← openSavePath env md5 directoryName with
      | .error error => failStart env failure error
      | .ok path => addAndResume env arg failure (finalParams env arg path tp)

/-- `startStreamingFromFile:progress:readyToPlay:failure:`. -/
def startStreamingFromFile (env : Env) (arg : Text)
    (progress readyToPlay failure : Option BlockId) : Handler Unit :=
  startStreamingFromFileInDirectory env arg none progress readyToPlay failure

/-- `startStreamingFromMultiTorrentFile`. -/
def startStreamingFromMultiTorrentFile (env : Env) (arg : Text)
    (progress readyToPlay failure : Option BlockId) (callback : SelectionBlock) :
    Handler Unit := do
  setShouldUserSelectFiles true
  modifies fun s => { s with selectionBlock := some callback }
  startStreamingFromFileInDirectory env arg none progress readyToPlay failure

/-! ## Fast forward -/

/-- The inner loop of `fastForwardTorrentForRange`: `k` rounds from piece `j` on. It
answers `YES` only in the round of `finalPiece`. -/
def haveThrough (env : Env) (h : Nat) (finalPiece : Int) : Nat → Int → Handler Bool
  | 0, _ => pure false
  | k + 1, j => do
      if ← havePiece env h j then
        if j = finalPiece then pure true else haveThrough env h finalPiece k (j + 1)
      else pure false

/-- One round of `fastForwardTorrentForRange`: whether it answers `YES` for a torrent. -/
def fastForwardTorrent (env : Env) (location length : Nat) (h : Nat) : Handler Bool := do
  let md ← orFault .nullTorrentFile (← torrentFile h)
  let totalTorrentPieces : Int := md.val.numPieces
  let fileIndex ← selectedFileIndexOrLargest h
  emit (.mappedRange h fileIndex)
  let startPiece := (← mapFile md fileIndex location length).piece
  let finalPiece := startPiece + (← getMinPieces) - 1
  let finalPiece := if totalTorrentPieces < finalPiece then totalTorrentPieces - 1
    else finalPiece
  modifies fun s => { s with firstPiece := startPiece, endPiece := finalPiece }
  if ← haveThrough env h finalPiece (finalPiece - startPiece + 1).toNat startPiece then
    pure true
  else
    modifies fun s => { s with requiredPieces := [] }
    prioritizeNextPieces env h
    pure false

def fastForwardLoop (env : Env) (location length : Nat) : List Nat → Handler Bool
  | [] => pure false
  | h :: hs => do
      if ← fastForwardTorrent env location length h then pure true
      else fastForwardLoop env location length hs

/-- `fastForwardTorrentForRange`. -/
def fastForwardTorrentForRange (env : Env) (location length : Nat) : Handler Bool := do
  fastForwardLoop env location length (← gets (·.session.torrents.map (·.handle)))

/-! ## Events -/

/-- Run the block at the head of the main queue. -/
def runMainQueue : Handler Unit := do
  match ← gets (·.mainQueue) with
  | [] => pure ()
  | b :: rest => do
      modifies fun s => { s with mainQueue := rest }
      match b with
      | .progress => do
          match ← gets (·.progressBlock) with
          | some block => emit (.calledProgress block (← gets (·.torrentStatus)))
          | none => pure ()
      | .readyToPlay filePath => do
          match ← gets (·.readyToPlayBlock) with
          | some block => emit (.calledReadyToPlay block filePath)
          | none => pure ()
      | .networkActivityIndicator _ => pure ()

/-- What can happen to a streamer: a call of one of its methods, a pass of its alerts loop,
a block of the main queue, or the arrival of the metadata of a magnet link. -/
inductive Event
  | start (env : Env) (arg : Text) (progress readyToPlay failure : Option BlockId)
  | startMulti (env : Env) (arg : Text) (progress readyToPlay failure : Option BlockId)
      (callback : SelectionBlock)
  | cancel (env : Env) (deleteData : Bool)
  | alertsLoop (batch : List (Env × Alert))
  | fastForward (env : Env) (location length : Nat)
  | mainQueue
  | metadataArrives (h : Nat) (md : Metadata)

/-- The step of a streamer. -/
def step : Event → Handler Unit
  | .start env arg progress readyToPlay failure =>
      startStreamingFromFile env arg progress readyToPlay failure
  | .startMulti env arg progress readyToPlay failure callback =>
      startStreamingFromMultiTorrentFile env arg progress readyToPlay failure callback
  | .cancel env deleteData => cancelStreamingAndDeleteData env deleteData
  | .alertsLoop batch => BtDownloader.alertsLoop batch
  | .fastForward env location length => do
      let _ ← fastForwardTorrentForRange env location length
  | .mainQueue => runMainQueue
  | .metadataArrives h md =>
      modifies (·.mapSession (·.metadataArrives h md))

/-- A run of a streamer. -/
def run (es : List Event) : Handler Unit := each step es

end BtDownloader
