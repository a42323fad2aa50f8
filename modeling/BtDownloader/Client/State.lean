import BtDownloader.Torrent.Session
import BtDownloader.Lib.Shared

set_option autoImplicit false

/-! # The state of a streamer

The instance variables of `PTTorrentStreamer`, the three file-level variables of
`PTTorrentStreamer.mm` that all streamers share, and the programs its methods are made of.

A method is a `Handler`: it runs in a `Machine` (one streamer and the shared variables),
with the answers of the disk, of libtorrent's queries and of the user given by an `Env`.
What a method does to the outside is appended to `effects`. `accesses` records, in order,
the reads and writes of the shared variables; no method looks at it.
-/

namespace BtDownloader

/-! ## Data -/

/-- The fields of `libtorrent::torrent_status` the streamer uses. -/
structure TorrentStatus where
  progress : ℚ := 0
  downloadRate : Int := 0
  uploadRate : Int := 0
  numSeeds : Int := 0
  numPeers : Int := 0
  totalWanted : Int := 0
  totalWantedDone : Int := 0
  isFinished : Bool := false
deriving DecidableEq

/-- `PTTorrentStatus`. A quotient of two floats is read as an exact rational; `none` stands
for `0 / 0`. -/
structure PTTorrentStatus where
  bufferingProgress : Option ℚ := some 0
  totalProgress : ℚ := 0
  downloadSpeed : Int := 0
  uploadSpeed : Int := 0
  seeds : Int := 0
  peers : Int := 0
  totalWanted : Int := 0
  totalWantedDone : Int := 0
deriving DecidableEq

/-- `NSError`: the code and the localized description. The domain is always
`com.popcorntimetv.popcorntorrent.error`, except for errors of the file manager. -/
structure NSError where
  code : Int
  description : Text
deriving DecidableEq, Repr

/-- What a block captures: the row's model and the cell it was started from. -/
structure BlockId where
  model : Nat
  cell : Nat
deriving DecidableEq, Repr

/-- The block with which the user selects a file (`PTTorrentStreamerSelection`). -/
structure SelectionBlock where
  block : BlockId
  answer : List Text → Int

/-- `add_torrent_params`. `ti` may be set to a `torrent_info` that no metadata is in. -/
structure AddTorrentParams where
  infoHash : Nat := 0
  ti : Option TorrentInfo := none
  savePath : Text := []
  storageModeAllocate : Bool := false

/-- The blocks a streamer puts on the main queue. -/
inductive MainBlock
  | progress
  | readyToPlay (filePath : Option Text)
  | networkActivityIndicator (visible : Bool)
deriving DecidableEq, Repr

/-- What a streamer does to the outside. -/
inductive Effect
  | command (h : Nat) (c : TorrentCommand)
  | added (h : Nat)
  | found (h : Nat)
  | removed (h : Nat)
  | cancelled
  | finished (h : Nat)
  | mappedRange (h : Nat) (fileIndex : Int)
  | dispatched (b : MainBlock)
  | wroteResumeData (h : Nat)
  | calledProgress (b : BlockId) (status : PTTorrentStatus)
  | calledReadyToPlay (b : BlockId) (filePath : Option Text)
  | calledFailure (b : BlockId) (error : NSError)
  | calledSelection (b : BlockId) (names : List Text)
deriving DecidableEq

/-- How a method can stop without returning. -/
inductive Fault
  | parseMagnetUri (message : Text)
  | invalidHandle
  | fileAt
  | divisionByZero
  | filePriorities
  | piecePriorities
  | requiredPieces
  | nullTorrentFile
  | nilSavePath
  | nilSelectionBlock
deriving DecidableEq, Repr

/-! ## The shared variables -/

/-- The file-level variables. -/
structure Globals where
  minPieces : Int := 0
  selectedFileIndex : Int := -1
  shouldUserSelectFiles : Bool := false
deriving DecidableEq, Repr

inductive GlobalVar
  | minPieces
  | selectedFileIndex
  | shouldUserSelectFiles
deriving DecidableEq, Repr

/-! ## The streamer -/

/-- `PTTorrentStreamer`. -/
structure Streamer where
  session : Session
  torrentStatus : PTTorrentStatus := {}
  fileName : Option Text := none
  requiredSpace : Int := 0
  totalDownloaded : Int := 0
  savePath : Option Text := none
  requiredPieces : List Int := []
  firstPiece : Int := -1
  endPiece : Int := 0
  audioPlaying : Bool := false
  preventSleepTimer : Option Nat := none
  scheduledTimers : List Nat := []
  nextTimer : Nat := 0
  alertsLoopActive : Bool := false
  streaming : Bool := false
  status : TorrentStatus := {}
  isFinished : Bool := false
  progressBlock : Option BlockId := none
  readyToPlayBlock : Option BlockId := none
  failureBlock : Option BlockId := none
  selectionBlock : Option SelectionBlock := none
  mainQueue : List MainBlock := []
  effects : List Effect := []

/-- One streamer and the variables it shares with the others. -/
structure Machine where
  globals : Globals := {}
  streamer : Streamer
  accesses : List (Shared.Access GlobalVar) := []

/-- A newly initialised streamer; `n` is the first torrent identity its session hands out. -/
def Streamer.init (n : Nat) : Streamer := { session := { nextHandle := n } }

def Machine.init (n : Nat) : Machine := { streamer := Streamer.init n }

/-- The answers a method gets from the disk, from libtorrent and from the system.
`torrentFile` is the constructor of `torrent_info`: a file that holds a `magnet-uri` and no
`info` is read without an error, and has no files and no piece length. `order` is where
`add_torrent` puts a torrent. -/
structure Env where
  fileExists : Text → Bool
  torrentFile : Text → Except Text TorrentInfo
  fileMD5 : Text → Text
  md5 : Text → Text
  downloadDirectory : Option Text
  createDirectory : Text → Option NSError
  resumeData : Text → Option (List UInt8)
  availableSpace : Int
  byteCountString : Int → Text
  parseMagnetUri : Text → Except Text AddTorrentParams
  readResumeData : List UInt8 → AddTorrentParams × Option Text
  addTorrentError : AddTorrentParams → Option Text
  order : MapOrder
  status : Nat → TorrentStatus
  downloaded : Nat → Nat → Bool
  needSaveResumeData : Nat → Bool

/-- A torrent of the files `0.mp4`, `1.mp4` and so on, of the given sizes, in pieces of one
byte. -/
def Metadata.films (infoHash size : Nat) (sizes : List Nat) : Metadata :=
  ⟨{ infoHash := infoHash
     files := (size :: sizes).zipIdx.map fun (size, i) =>
       { path := i.repr.toList ++ ".mp4".toList, size := size }
     pieceLength := 1 }, by simp [TorrentInfo.Valid]⟩

/-- Answers with which nothing goes wrong: every file exists and holds the torrent `md`,
nothing has to be stored for it yet, and `downloaded` are the pieces it has. Torrents are
gone through from the newest to the oldest. -/
def Env.calm (md : Metadata) (downloaded : Nat → Bool) : Env where
  fileExists _ := true
  torrentFile _ := .ok md.val
  fileMD5 _ := "0123456789abcdef".toList
  md5 _ := "0123456789abcdef".toList
  downloadDirectory := some "files".toList
  createDirectory _ := none
  resumeData _ := none
  availableSpace := 0
  byteCountString _ := []
  parseMagnetUri _ := .ok { infoHash := md.val.infoHash }
  readResumeData _ := ({}, none)
  addTorrentError _ := none
  order := .newestFirst
  status _ := {}
  downloaded _ := downloaded
  needSaveResumeData _ := true

/-- A method: it returns with a value, or stops with a fault. -/
abbrev Handler := EStateM Fault Machine

/-! ## Primitive steps -/

/-- Read something of the streamer. -/
def gets {α : Type} (f : Streamer → α) : Handler α := fun m => .ok (f m.streamer) m

/-- Change the streamer. -/
def modifies (f : Streamer → Streamer) : Handler Unit := fun m =>
  .ok () { m with streamer := f m.streamer }

/-- Append to the record of effects. -/
def Streamer.log (s : Streamer) (es : List Effect) : Streamer :=
  { s with effects := s.effects ++ es }

def Streamer.mapSession (s : Streamer) (f : Session → Session) : Streamer :=
  { s with session := f s.session }

def emit (e : Effect) : Handler Unit := modifies (·.log [e])

/-- `if (c) x;`. -/
def whenever (c : Prop) [Decidable c] (x : Handler Unit) : Handler Unit :=
  if c then x else pure ()

def getMinPieces : Handler Int := fun m =>
  .ok m.globals.minPieces { m with accesses := m.accesses ++ [.read .minPieces] }

def getSelectedFileIndex : Handler Int := fun m =>
  .ok m.globals.selectedFileIndex
    { m with accesses := m.accesses ++ [.read .selectedFileIndex] }

def getShouldUserSelectFiles : Handler Bool := fun m =>
  .ok m.globals.shouldUserSelectFiles
    { m with accesses := m.accesses ++ [.read .shouldUserSelectFiles] }

def setMinPieces (n : Int) : Handler Unit := fun m =>
  .ok () { m with
    globals := { m.globals with minPieces := n }
    accesses := m.accesses ++ [.write .minPieces] }

def setSelectedFileIndex (i : Int) : Handler Unit := fun m =>
  .ok () { m with
    globals := { m.globals with selectedFileIndex := i }
    accesses := m.accesses ++ [.write .selectedFileIndex] }

def setShouldUserSelectFiles (b : Bool) : Handler Unit := fun m =>
  .ok () { m with
    globals := { m.globals with shouldUserSelectFiles := b }
    accesses := m.accesses ++ [.write .shouldUserSelectFiles] }

/-- The value an optional holds; `fault` where it holds none. -/
def orFault {α : Type} (fault : Fault) : Option α → Handler α
  | some a => pure a
  | none => throw fault

/-! ## Calls on a torrent handle

Every call on the handle of a torrent that is not in the session throws. -/

/-- The torrent behind a handle. -/
def torrentOf (h : Nat) : Handler Torrent := do
  orFault .invalidHandle (← gets (·.session.find? h))

/-- Send a command to a torrent. -/
def send (env : Env) (h : Nat) (c : TorrentCommand) : Handler Unit := do
  let _ ← torrentOf h
  modifies fun s =>
    (s.mapSession (·.update h (·.apply (env.downloaded h) c))).log [.command h c]

/-- `torrent_handle::status`. -/
def statusOf (env : Env) (h : Nat) : Handler TorrentStatus := do
  let _ ← torrentOf h
  pure (env.status h)

/-- `torrent_handle::torrent_file`: null before the metadata is there. -/
def torrentFile (h : Nat) : Handler (Option Metadata) := do
  pure (← torrentOf h).info

/-- `torrent_handle::have_piece`: false for a piece outside the torrent. -/
def havePiece (env : Env) (h : Nat) (piece : Int) : Handler Bool := do
  match (← torrentOf h).info with
  | none => pure false
  | some md => pure (decide (0 ≤ piece ∧ piece < md.val.numPieces)
      && env.downloaded h piece.toNat)

/-- `torrent_handle::piece_priorities`: as the commands so far have left them. Pieces that have
finished since are not lowered here, which the streamer does not see: it only counts them. -/
def piecePriorities (h : Nat) : Handler (List Nat) := do
  pure (← torrentOf h).piecePriorities

/-- `torrent_handle::file_priorities`: one entry for each file once the files are known. -/
def filePriorities (h : Nat) : Handler (List Nat) := do
  let t ← torrentOf h
  match t.info with
  | none => pure t.filePriorities
  | some md => pure ((List.range md.val.numFiles).map fun i =>
      (t.filePriorities[i]?).getD priorityDefault)

end BtDownloader
