import BtDownloader.Torrent.BdecodeNode
import BtDownloader.Lib.Bits

set_option autoImplicit false

/-! # Resume data

`write_resume_data` makes an `entry` of the parameters of a torrent, `read_resume_data` makes
parameters of a decoded tree. The fields of `add_torrent_params` that neither of them uses are
left out. What is not read here is a parameter: the SHA-1 hash, and whether
`parse_info_section` accepts an info section.
-/

namespace BtDownloader

open Bencoding

/-- `torrent_flags_t`. -/
inductive TorrentFlag
  | seedMode
  | uploadMode
  | shareMode
  | applyIpFilter
  | paused
  | autoManaged
  | duplicateIsError
  | updateSubscribe
  | superSeeding
  | sequentialDownload
  | stopWhenReady
  | overrideTrackers
  | overrideWebSeeds
  | needSaveResume
  | pinned
  | overrideResumeData
  | mergeResumeTrackers
  | useResumeSavePath
  | mergeResumeHttpSeeds
  | disableDht
  | disableLsd
  | disablePex
deriving DecidableEq, Repr

abbrev TorrentFlags := TorrentFlag → Bool

/-- `torrent_flags::default_flags`. -/
def defaultFlags : TorrentFlags
  | .updateSubscribe | .autoManaged | .paused | .applyIpFilter | .needSaveResume => true
  | .pinned | .mergeResumeHttpSeeds | .mergeResumeTrackers => true
  | _ => false

/-- `tcp::endpoint`. -/
inductive Endpoint
  | v4 (a b c d : UInt8) (port : UInt16)
  | v6 (address : { bytes : Bytes // bytes.length = 16 }) (port : UInt16)
deriving DecidableEq

/-- `torrent_info`, as far as resume data knows it: the info section, and what is beside it. An
object is `valid` when `parse_info_section` has accepted the section. -/
structure StoredInfo where
  metadata : Bytes
  valid : Bool := true
  comment : Bytes := []
  creationDate : Int := 0
  creator : Bytes := []
deriving DecidableEq

/-- `add_torrent_params`. Hashes are 20 bytes. -/
structure ResumeParams where
  ti : Option StoredInfo := none
  trackers : List Bytes := []
  trackerTiers : List Int := []
  name : Bytes := []
  savePath : Bytes := []
  storageModeAllocate : Bool := false
  filePriorities : List UInt8 := []
  flags : TorrentFlags := defaultFlags
  infoHash : Bytes := List.replicate 20 0
  maxUploads : Int := -1
  maxConnections : Int := -1
  uploadLimit : Int := -1
  downloadLimit : Int := -1
  totalUploaded : Int := 0
  totalDownloaded : Int := 0
  activeTime : Int := 0
  finishedTime : Int := 0
  seedingTime : Int := 0
  addedTime : Int := 0
  completedTime : Int := 0
  lastSeenComplete : Int := 0
  numComplete : Int := -1
  numIncomplete : Int := -1
  numDownloaded : Int := -1
  httpSeeds : List Bytes := []
  urlSeeds : List Bytes := []
  peers : List Endpoint := []
  bannedPeers : List Endpoint := []
  unfinishedPieces : List (Int × List Bool) := []
  havePieces : List Bool := []
  verifiedPieces : List Bool := []
  piecePriorities : List UInt8 := []
  merkleTree : List Bytes := []
  renamedFiles : List (Int × Bytes) := []
  lastDownload : Int := 0
  lastUpload : Int := 0
  url : Bytes := []
  uuid : Bytes := []

/-! ## Endpoints -/

def writePort (port : UInt16) : Bytes :=
  [UInt8.ofNat (port.toNat / 256), UInt8.ofNat (port.toNat % 256)]

def readPort (hi lo : UInt8) : UInt16 := UInt16.ofNat (hi.toNat * 256 + lo.toNat)

/-- `write_endpoint`. -/
def writeEndpoint : Endpoint → Bytes
  | .v4 a b c d port => [a, b, c, d] ++ writePort port
  | .v6 address port => address.val ++ writePort port

def Endpoint.isV6 : Endpoint → Bool
  | .v4 .. => false
  | .v6 .. => true

/-- `read_v4_endpoint`; nothing where the bytes end too early. -/
def readV4Endpoint : Bytes → Option Endpoint
  | a :: b :: c :: d :: hi :: lo :: _ => some (.v4 a b c d (readPort hi lo))
  | _ => none

/-- `read_v6_endpoint`. -/
def readV6Endpoint (ptr : Bytes) : Option Endpoint :=
  match ptr.drop 16 with
  | hi :: lo :: _ =>
      if hlength : (ptr.take 16).length = 16 then some (.v6 ⟨ptr.take 16, hlength⟩ (readPort hi lo))
      else none
  | _ => none

/-- `for (int i = first; i < length; i += size)`, an endpoint read at `ptr` in every round. -/
def endpointLoop (size : Nat) (read : Bytes → Option Endpoint) (length : Nat) :
    Nat → Nat → Bytes → Option (List Endpoint)
  | 0, _, _ => some []
  | rounds + 1, i, ptr =>
      if i < length then do
        let p ← read ptr
        let ps ← endpointLoop size read length rounds (i + size) (ptr.drop size)
        some (p :: ps)
      else some []

/-! ## `write_resume_data` -/

def boolEntry (b : Bool) : Entry := .integer (if b then 1 else 0)

def stringList (ss : List Bytes) : Entry := .list (ss.map .string)

/-- `aux::clamp(std::size_t(tier), 0, 1024)`: a negative tier is a very large one. -/
def clampTier (tier : Int) : Nat := if tier < 0 then 1024 else min tier.toNat 1024

/-- `entry::list()`, of an entry that is a list or not defined yet. -/
def Entry.asList : Entry → List Entry
  | .list es => es
  | _ => []

/-- `tr_list[tier].list().emplace_back(tr)`, behind `tr_list.resize(tier + 1)` if it is shorter. -/
def addTracker (tier : Nat) (tr : Bytes) (trList : List Entry) : List Entry :=
  (trList ++ List.replicate (tier + 1 - trList.length) Entry.undefined).modify tier
    fun e => .list (e.asList ++ [.string tr])

/-- The loop over the trackers; one without a tier goes into the last tier there was. -/
def writeTrackers : List Bytes → List Int → Nat → List Entry → List Entry
  | [], _, _, trList => trList
  | tr :: trs, tier :: tiers, _, trList =>
      writeTrackers trs tiers (clampTier tier) (addTracker (clampTier tier) tr trList)
  | tr :: trs, [], tier, trList => writeTrackers trs [] tier (addTracker tier tr trList)

/-- The bytes of `pieces`: bit `0` for a piece there is, bit `1` for a verified one. -/
def piecesString (p : ResumeParams) : Bytes :=
  (List.range (max p.havePieces.length p.verifiedPieces.length)).map fun i =>
    UInt8.ofNat ((p.havePieces.getD i false).toNat + 2 * (p.verifiedPieces.getD i false).toNat)

/-- `fl[idx] = name`, behind `fl.resize(idx + 1)` if it is shorter. -/
def renameFile (fl : List Entry) (file : Int × Bytes) : List Entry :=
  let idx := file.1.toNat
  (fl ++ List.replicate (idx + 1 - fl.length) Entry.undefined).set idx (.string file.2)

def unfinishedPiece (piece : Int × List Bool) : Entry :=
  .dictionary (OrderedMap.ofList
    [(ascii "piece", .integer piece.1), (ascii "bitmask", .string (Bits.pack piece.2))])

/-- An entry that is set only under a condition. -/
def entryIf (condition : Bool) (e : Entry) : Option Entry := if condition then some e else none

/-- The entries of the dictionary, in the order in which they are set. -/
def resumeFields (p : ResumeParams) : List (Bytes × Option Entry) :=
  [ (ascii "file-format", some (.string (ascii "libtorrent resume file"))),
    (ascii "file-version", some (.integer 1)),
    (ascii "libtorrent-version", some (.string (ascii "1.2.3.0"))),
    (ascii "allocation", some (.string (ascii (if p.storageModeAllocate then "allocate" else "sparse")))),
    (ascii "total_uploaded", some (.integer p.totalUploaded)),
    (ascii "total_downloaded", some (.integer p.totalDownloaded)),
    (ascii "active_time", some (.integer p.activeTime)),
    (ascii "finished_time", some (.integer p.finishedTime)),
    (ascii "seeding_time", some (.integer p.seedingTime)),
    (ascii "last_seen_complete", some (.integer p.lastSeenComplete)),
    (ascii "last_download", some (.integer p.lastDownload)),
    (ascii "last_upload", some (.integer p.lastUpload)),
    (ascii "num_complete", some (.integer p.numComplete)),
    (ascii "num_incomplete", some (.integer p.numIncomplete)),
    (ascii "num_downloaded", some (.integer p.numDownloaded)),
    (ascii "sequential_download", some (boolEntry (p.flags .sequentialDownload))),
    (ascii "seed_mode", some (boolEntry (p.flags .seedMode))),
    (ascii "super_seeding", some (boolEntry (p.flags .superSeeding))),
    (ascii "added_time", some (.integer p.addedTime)),
    (ascii "completed_time", some (.integer p.completedTime)),
    (ascii "save_path", some (.string p.savePath)),
    (ascii "url", entryIf (p.url ≠ []) (.string p.url)),
    (ascii "uuid", entryIf (p.uuid ≠ []) (.string p.uuid)),
    (ascii "info-hash", some (.string p.infoHash)),
    (ascii "info", p.ti.map fun ti => .preformatted ti.metadata),
    (ascii "comment", p.ti.bind fun ti => entryIf (ti.comment ≠ []) (.string ti.comment)),
    (ascii "creation date", p.ti.bind fun ti =>
      entryIf (ti.creationDate ≠ 0) (.integer ti.creationDate)),
    (ascii "created by", p.ti.bind fun ti => entryIf (ti.creator ≠ []) (.string ti.creator)),
    (ascii "merkle tree", entryIf (p.merkleTree ≠ []) (.string p.merkleTree.flatten)),
    (ascii "unfinished", entryIf (p.unfinishedPieces ≠ [])
      (.list (p.unfinishedPieces.map unfinishedPiece))),
    (ascii "trackers", some (.list (if p.trackers = [] then []
      else writeTrackers p.trackers p.trackerTiers 0 [.list []]))),
    (ascii "url-list", some (stringList p.urlSeeds)),
    (ascii "httpseeds", some (stringList p.httpSeeds)),
    (ascii "pieces", some (.string (piecesString p))),
    (ascii "mapped_files", entryIf (p.renamedFiles ≠ [])
      (.list (p.renamedFiles.foldl renameFile []))),
    (ascii "peers", entryIf (p.peers ≠ [])
      (.string (p.peers.flatMap fun e => if e.isV6 then [] else writeEndpoint e))),
    (ascii "peers6", entryIf (p.peers ≠ [])
      (.string (p.peers.flatMap fun e => if e.isV6 then writeEndpoint e else []))),
    (ascii "banned_peers", entryIf (p.bannedPeers ≠ [])
      (.string (p.bannedPeers.flatMap fun e => if e.isV6 then [] else writeEndpoint e))),
    (ascii "banned_peers6", entryIf (p.bannedPeers ≠ [])
      (.string (p.bannedPeers.flatMap fun e => if e.isV6 then writeEndpoint e else []))),
    (ascii "upload_rate_limit", some (.integer p.uploadLimit)),
    (ascii "download_rate_limit", some (.integer p.downloadLimit)),
    (ascii "max_connections", some (.integer p.maxConnections)),
    (ascii "max_uploads", some (.integer p.uploadLimit)),
    (ascii "paused", some (boolEntry (p.flags .paused))),
    (ascii "auto_managed", some (boolEntry (p.flags .autoManaged))),
    (ascii "file_priority", entryIf (p.filePriorities ≠ [])
      (.list (p.filePriorities.map fun prio => .integer prio.toNat))),
    (ascii "piece_priority", entryIf (p.piecePriorities ≠ [])
      (.string p.piecePriorities)) ]

/-- The entries that are set. -/
def setFields (fields : List (Bytes × Option Entry)) : List (Bytes × Entry) :=
  fields.filterMap fun field => field.2.map (field.1, ·)

/-- `write_resume_data`. -/
def writeResumeData (p : ResumeParams) : Entry :=
  .dictionary (OrderedMap.ofList (setFields (resumeFields p)))

/-- `write_resume_data_buf`. -/
def writeResumeDataBuf (p : ResumeParams) : Bytes := bencode (writeResumeData p)

/-! ## `read_resume_data` -/

/-- The errors of `read_resume_data`, with those of the functions it calls. -/
inductive ResumeError
  | notADictionary
  | invalidFileTag
  | missingInfoHash
  | infoSection (message : Bytes)
  | bdecode (error : BdecodeError)
deriving DecidableEq

/-- A 64-bit integer as an `int`. -/
def toInt32 (v : Int) : Int := v.bmod (2 ^ 32)

/-- A 64-bit integer as a `std::uint8_t`. -/
def toUInt8 (v : Int) : UInt8 := UInt8.ofNat (v % 256).toNat

/-- `aux::clamp(priority, dont_download, top_priority)`. -/
def clampPriority (priority : UInt8) : UInt8 := min priority 7

/-- `apply_flag`. -/
def applyFlag (rd : BdecodeNode) (name : Bytes) (flag : TorrentFlag) (flags : TorrentFlags) :
    Option TorrentFlags := do
  let value ← rd.dictFindIntValue name
  some (Function.update flags flag (value ≠ 0))

section

-- `hasher` and `torrent_info::parse_info_section`, with its error
variable (sha1 : Bytes → Bytes) (parseInfoSection : Bytes → Option Bytes)

/-- The part of `read_resume_data` about the info section. It is used only if its hash is the
info-hash, and an error does not end the function. -/
def readInfo (rd : BdecodeNode) (ret : ResumeParams) : Option (ResumeParams × Option ResumeError) := do
  match ← rd.dictFindDict (ascii "info") with
  | none => some (ret, none)
  | some info =>
      let section_ ← info.dataSection
      if sha1 section_ = ret.infoHash then
        match parseInfoSection section_ with
        | some message =>
            some ({ ret with ti := some { metadata := section_, valid := false } },
              some (.infoSection message))
        | none =>
            let creationDate ← rd.dictFindIntValue (ascii "creation date")
            let creator ← rd.dictFindStringValue (ascii "created by")
            let comment ← rd.dictFindStringValue (ascii "comment")
            let ti : StoredInfo := { metadata := section_, creationDate, creator, comment }
            some ({ ret with ti := some ti }, none)
      else some (ret, none)

/-- Totals, times, the scrape data and the limits. -/
def readNumbers (rd : BdecodeNode) (ret : ResumeParams) : Option ResumeParams := do
  let totalUploaded ← rd.dictFindIntValue (ascii "total_uploaded")
  let totalDownloaded ← rd.dictFindIntValue (ascii "total_downloaded")
  let activeTime ← rd.dictFindIntValue (ascii "active_time")
  let finishedTime ← rd.dictFindIntValue (ascii "finished_time")
  let seedingTime ← rd.dictFindIntValue (ascii "seeding_time")
  let lastSeenComplete ← rd.dictFindIntValue (ascii "last_seen_complete")
  let lastDownload ← rd.dictFindIntValue (ascii "last_download")
  let lastUpload ← rd.dictFindIntValue (ascii "last_upload")
  let numComplete ← rd.dictFindIntValue (ascii "num_complete") (-1)
  let numIncomplete ← rd.dictFindIntValue (ascii "num_incomplete") (-1)
  let numDownloaded ← rd.dictFindIntValue (ascii "num_downloaded") (-1)
  let maxUploads ← rd.dictFindIntValue (ascii "max_uploads") (-1)
  let maxConnections ← rd.dictFindIntValue (ascii "max_connections") (-1)
  let uploadLimit ← rd.dictFindIntValue (ascii "upload_rate_limit") (-1)
  let downloadLimit ← rd.dictFindIntValue (ascii "download_rate_limit") (-1)
  some { ret with
    totalUploaded := totalUploaded
    totalDownloaded := totalDownloaded
    activeTime := toInt32 activeTime
    finishedTime := toInt32 finishedTime
    seedingTime := toInt32 seedingTime
    lastSeenComplete := lastSeenComplete
    lastDownload := lastDownload
    lastUpload := lastUpload
    numComplete := toInt32 numComplete
    numIncomplete := toInt32 numIncomplete
    numDownloaded := toInt32 numDownloaded
    maxUploads := toInt32 maxUploads
    maxConnections := toInt32 maxConnections
    uploadLimit := toInt32 uploadLimit
    downloadLimit := toInt32 downloadLimit }

/-- The flags. -/
def readFlags (rd : BdecodeNode) (ret : ResumeParams) : Option ResumeParams := do
  let flags ← applyFlag rd (ascii "seed_mode") .seedMode ret.flags
  let flags ← applyFlag rd (ascii "super_seeding") .superSeeding flags
  let flags ← applyFlag rd (ascii "auto_managed") .autoManaged flags
  let flags ← applyFlag rd (ascii "sequential_download") .sequentialDownload flags
  let flags ← applyFlag rd (ascii "paused") .paused flags
  some { ret with flags := flags }

/-- A file that was renamed, unless the name is empty. -/
def readFilename (i : Nat) (item : BdecodeNode) (renamed : List (Int × Bytes)) :
    Option (List (Int × Bytes)) := do
  let newFilename ← item.stringValueOrEmpty
  if newFilename = [] then some renamed
  else some (OrderedMap.insert (i : Int) newFilename renamed)

/-- The paths and the remaining times. -/
def readPaths (rd : BdecodeNode) (ret : ResumeParams) : Option ResumeParams := do
  let savePath ← rd.dictFindStringValue (ascii "save_path")
  let url ← rd.dictFindStringValue (ascii "url")
  let uuid ← rd.dictFindStringValue (ascii "uuid")
  let renamedFiles ← match ← rd.dictFindList (ascii "mapped_files") with
    | none => some ret.renamedFiles
    | some files => files.eachItem readFilename ret.renamedFiles
  let addedTime ← rd.dictFindIntValue (ascii "added_time")
  let completedTime ← rd.dictFindIntValue (ascii "completed_time")
  some { ret with
    savePath := savePath
    url := url
    uuid := uuid
    renamedFiles := renamedFiles
    addedTime := addedTime
    completedTime := completedTime }

/-- A file priority; one that is `dont_download` ends the seed mode. -/
def readFilePriority (item : BdecodeNode) (ret : ResumeParams) : Option ResumeParams := do
  let value ← item.intValueOr 4
  let prio := clampPriority (toUInt8 value)
  some { ret with
    filePriorities := ret.filePriorities ++ [prio]
    flags := if prio = 0 then Function.update ret.flags .seedMode false else ret.flags }

def readFilePriorities (rd : BdecodeNode) (ret : ResumeParams) : Option ResumeParams := do
  match ← rd.dictFindList (ascii "file_priority") with
  | none => some ret
  | some filePriority =>
      filePriority.eachItem (fun _ item ret => readFilePriority item ret)
        { ret with filePriorities := [] }

def readTracker (tier : Nat) (item : BdecodeNode) (ret : ResumeParams) : Option ResumeParams := do
  let tr ← item.stringValueOrEmpty
  some { ret with
    trackers := ret.trackers ++ [tr]
    trackerTiers := ret.trackerTiers ++ [(tier : Int)] }

/-- The trackers of one tier. What is not a list does not count as a tier. -/
def readTierList (tierList : BdecodeNode) (ret : ResumeParams × Nat) : Option (ResumeParams × Nat) :=
  if tierList.type ≠ some .list then some ret
  else do
    let params ← tierList.eachItem (fun _ item params => readTracker ret.2 item params) ret.1
    some (params, ret.2 + 1)

def readTrackers (rd : BdecodeNode) (ret : ResumeParams) : Option ResumeParams := do
  match ← rd.dictFindList (ascii "trackers") with
  | none => some ret
  | some trackers => do
      let (ret, _) ← trackers.eachItem (fun _ tierList ret => readTierList tierList ret)
        ({ ret with flags := Function.update ret.flags .overrideTrackers true }, 0)
      some ret

/-- A web seed, unless it is empty. -/
def readSeed (item : BdecodeNode) (seeds : List Bytes) : Option (List Bytes) := do
  let url ← item.stringValueOrEmpty
  if url = [] then some seeds else some (seeds ++ [url])

def readSeeds (list : BdecodeNode) (seeds : List Bytes) : Option (List Bytes) :=
  list.eachItem (fun _ item seeds => readSeed item seeds) seeds

def readWebSeeds (rd : BdecodeNode) (ret : ResumeParams) : Option ResumeParams := do
  let urlList ← rd.dictFindList (ascii "url-list")
  let httpseeds ← rd.dictFindList (ascii "httpseeds")
  let flags := if urlList.isSome || httpseeds.isSome
    then Function.update ret.flags .overrideWebSeeds true else ret.flags
  let urlSeeds ← match urlList with
    | none => some ret.urlSeeds
    | some list => readSeeds list ret.urlSeeds
  let httpSeeds ← match httpseeds with
    | none => some ret.httpSeeds
    | some list => readSeeds list ret.httpSeeds
  some { ret with flags := flags, urlSeeds := urlSeeds, httpSeeds := httpSeeds }

/-- The Merkle tree, cut into hashes. -/
def readMerkleTree (rd : BdecodeNode) (ret : ResumeParams) : Option ResumeParams := do
  match ← rd.dictFindString (ascii "merkle tree") with
  | none => some ret
  | some mt => do
      let s ← mt.stringValue
      if 20 ≤ s.length then
        some { ret with
          merkleTree := (List.range (s.length / 20)).map fun k => (s.drop (20 * k)).take 20 }
      else some ret

/-- The bits of the pieces. -/
def readHavePieces (rd : BdecodeNode) (ret : ResumeParams) : Option ResumeParams := do
  match ← rd.dictFindString (ascii "pieces") with
  | none => some ret
  | some pieces => do
      let s ← pieces.stringValue
      some { ret with
        havePieces := s.map fun c => c.toNat.testBit 0
        verifiedPieces := s.map fun c => c.toNat.testBit 1 }

def readPiecePriorities (rd : BdecodeNode) (ret : ResumeParams) : Option ResumeParams := do
  match ← rd.dictFindString (ascii "piece_priority") with
  | none => some ret
  | some prios => do
      let s ← prios.stringValue
      some { ret with piecePriorities := s.map clampPriority }

/-- Endpoints of `size` bytes, by a loop from `first` on. -/
def readEndpoints (rd : BdecodeNode) (key : Bytes) (size first : Nat)
    (read : Bytes → Option Endpoint) (peers : List Endpoint) : Option (List Endpoint) := do
  match ← rd.dictFindString key with
  | none => some peers
  | some entry => do
      let s ← entry.stringValue
      let ps ← endpointLoop size read s.length s.length first s
      some (peers ++ ps)

/-- Peers. The loop over `banned_peers` starts one byte later than the others. -/
def readPeers (rd : BdecodeNode) (ret : ResumeParams) : Option ResumeParams := do
  let peers ← readEndpoints rd (ascii "peers") 6 5 readV4Endpoint ret.peers
  let peers ← readEndpoints rd (ascii "peers6") 18 17 readV6Endpoint peers
  let bannedPeers ← readEndpoints rd (ascii "banned_peers") 6 6 readV4Endpoint ret.bannedPeers
  let bannedPeers ← readEndpoints rd (ascii "banned_peers6") 18 17 readV6Endpoint bannedPeers
  some { ret with peers := peers, bannedPeers := bannedPeers }

/-- An unfinished piece, with a bit for each block. -/
def readUnfinishedPiece (e : BdecodeNode) (pieces : List (Int × List Bool)) :
    Option (List (Int × List Bool)) :=
  if e.type ≠ some .dict then some pieces
  else do
    let piece ← e.dictFindIntValue (ascii "piece") (-1)
    if toInt32 piece < 0 then some pieces
    else match ← e.dictFindString (ascii "bitmask") with
      | none => some pieces
      | some bitmask => do
          let s ← bitmask.stringValue
          if s.length = 0 then some pieces
          else some (OrderedMap.insert (toInt32 piece) (Bits.unpack s) pieces)

def readUnfinished (rd : BdecodeNode) (ret : ResumeParams) : Option ResumeParams := do
  match ← rd.dictFindList (ascii "unfinished") with
  | none => some ret
  | some unfinished => do
      let pieces ← unfinished.eachItem (fun _ e pieces => readUnfinishedPiece e pieces)
        ret.unfinishedPieces
      some { ret with unfinishedPieces := pieces }

/-- What is read once the info-hash is known. -/
def readFields (rd : BdecodeNode) (ret : ResumeParams) : Option ResumeParams := do
  let ret ← readNumbers rd ret
  let ret ← readFlags rd ret
  let ret ← readPaths rd ret
  let ret ← readFilePriorities rd ret
  let ret ← readTrackers rd ret
  let ret ← readWebSeeds rd ret
  let ret ← readMerkleTree rd ret
  let ret ← readHavePieces rd ret
  let ret ← readPiecePriorities rd ret
  let ret ← readPeers rd ret
  let ret ← readUnfinished rd ret
  some { ret with flags := Function.update ret.flags .needSaveResume false }

/-- `read_resume_data` of a decoded tree. -/
def readResumeNode (rd : BdecodeNode) : Option (ResumeParams × Option ResumeError) := do
  if rd.type ≠ some .dict then some ({}, some .notADictionary)
  else
    let storageModeAllocate ← match ← rd.dictFindString (ascii "allocation") with
      | none => some false
      | some alloc => do
          let mode ← alloc.stringValue
          some (decide (mode = ascii "allocate" ∨ mode = ascii "full"))
    let ret : ResumeParams := { storageModeAllocate := storageModeAllocate }
    let fileFormat ← rd.dictFindStringValue (ascii "file-format")
    if fileFormat ≠ ascii "libtorrent resume file" then some (ret, some .invalidFileTag)
    else
      let infoHash ← rd.dictFindStringValue (ascii "info-hash")
      if infoHash.length ≠ 20 then some (ret, some .missingInfoHash)
      else
        let name ← rd.dictFindStringValue (ascii "name")
        let (ret, ec) ← readInfo sha1 parseInfoSection rd { ret with name := name, infoHash := infoHash }
        let ret ← readFields rd ret
        some (ret, ec)

/-- `read_resume_data` of the bytes of a file, with the default limits of `bdecode`. -/
def readResumeData (buffer : Bytes) : Option (ResumeParams × Option ResumeError) :=
  match bdecode buffer 100 2000000 with
  | (_, some (e, _)) => some ({}, some (.bdecode e))
  | (root, none) => readResumeNode sha1 parseInfoSection (root.node buffer)

end

end BtDownloader
