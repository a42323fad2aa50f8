import BtDownloader.Lib.Extents

set_option autoImplicit false

/-! # `torrent_info` and its file storage

The files of a torrent lie one after the other on the torrent's bytes, and the bytes are cut
into pieces of `pieceLength` bytes. `mapFile` is `file_storage::map_file`, with the
division of C++ that rounds towards zero; the pieces a file overlaps are the blocks its
extent overlaps (`Lib/Extents.lean`).
-/

namespace BtDownloader

/-- Text of the program: strings, paths and messages. -/
abbrev Text := List Char

/-- One file of a torrent (`file_entry`). -/
structure FileEntry where
  path : Text
  size : Nat
  padFile : Bool := false
deriving DecidableEq, Repr

/-- `torrent_info`: the files, the piece length and the info-hash. -/
structure TorrentInfo where
  infoHash : Nat
  files : List FileEntry
  pieceLength : Nat
deriving DecidableEq, Repr

namespace TorrentInfo

/-- The object a `torrent_info` constructor leaves behind when it reports an error: no
files, piece length `0`. -/
def invalid : TorrentInfo := { infoHash := 0, files := [], pieceLength := 0 }

def sizes (ti : TorrentInfo) : List Nat := ti.files.map (·.size)

def numFiles (ti : TorrentInfo) : Nat := ti.files.length

def totalSize (ti : TorrentInfo) : Nat := ti.sizes.sum

def fileOffset (ti : TorrentInfo) (i : Nat) : Nat := Extents.offset ti.sizes i

/-- `set_num_pieces`: the total size over the piece length, rounded up. -/
def numPieces (ti : TorrentInfo) : Nat := Extents.blocks ti.pieceLength ti.totalSize

/-- `file_at`: nothing outside `[0, num_files)`. -/
def fileAt (ti : TorrentInfo) (i : Int) : Option FileEntry :=
  if 0 ≤ i then ti.files[i.toNat]? else none

def fileSize (ti : TorrentInfo) (i : Nat) : Nat := (ti.sizes[i]?).getD 0

end TorrentInfo

/-- `peer_request`. -/
structure PeerRequest where
  piece : Int
  start : Int
  length : Int
deriving DecidableEq, Repr

namespace TorrentInfo

/-- `file_storage::map_file`. An offset past the last byte maps to one past the last
piece; the quotient rounds towards zero, also for the offset `-1`. -/
def mapFile (ti : TorrentInfo) (fileIndex : Nat) (fileOffset : Int) (size : Int) : PeerRequest :=
  if ti.numFiles ≤ fileIndex then ⟨ti.numPieces, 0, 0⟩
  else
    let offset := fileOffset + ti.fileOffset fileIndex
    if (ti.totalSize : Int) ≤ offset then ⟨ti.numPieces, 0, 0⟩
    else ⟨offset.tdiv ti.pieceLength, offset.tmod ti.pieceLength,
      if (ti.totalSize : Int) < offset + size then ti.totalSize - offset else size⟩

/-- `file_piece_range_inclusive`: the pieces `[start, end)` that overlap file `i`. -/
def filePieceRangeInclusive (ti : TorrentInfo) (i : Nat) : Int × Int :=
  let range := ti.mapFile i 0 1
  (range.piece,
    (range.piece * ti.pieceLength + range.start + ti.fileSize i - 1).tdiv ti.pieceLength + 1)

/-- What `MIN_PIECES` is set to for a file: 3% of its size over the piece length,
truncated. -/
def minPieces (ti : TorrentInfo) (fe : FileEntry) : Int :=
  (3 * fe.size / (100 * ti.pieceLength) : Nat)

/-- File `i` and piece `p` share a byte. -/
def Overlaps (ti : TorrentInfo) (i p : Nat) : Prop :=
  Extents.Overlaps ti.pieceLength (ti.fileOffset i) (ti.fileSize i) p

/-- The number of pieces file `i` overlaps. -/
def piecesSpanned (ti : TorrentInfo) (i : Nat) : Nat :=
  Extents.spanned ti.pieceLength (ti.fileOffset i) (ti.fileSize i)

/-- The first piece of file `i`. -/
def firstPieceOf (ti : TorrentInfo) (i : Nat) : Nat := ti.fileOffset i / ti.pieceLength

/-- What `add_torrent` asks of a `torrent_info`: a file (`num_files`) and a piece length
(`is_valid`). -/
def Valid (ti : TorrentInfo) : Prop := ti.files ≠ [] ∧ 0 < ti.pieceLength

instance (ti : TorrentInfo) : Decidable ti.Valid := inferInstanceAs (Decidable (_ ∧ _))

end TorrentInfo

/-- The metadata of a torrent: a `torrent_info` with which it can be added. -/
abbrev Metadata := { ti : TorrentInfo // ti.Valid }

namespace Metadata

theorem pieceLength_pos (md : Metadata) : 0 < md.val.pieceLength := md.property.2

theorem numFiles_pos (md : Metadata) : 0 < md.val.numFiles :=
  List.length_pos_iff.mpr md.property.1

instance (md : Metadata) (i p : Nat) : Decidable (md.val.Overlaps i p) :=
  decidable_of_iff _ (Extents.overlaps_iff md.pieceLength_pos _ _ _).symm

end Metadata

/-! ## Files and their pieces -/

namespace TorrentInfo

@[simp] theorem sizes_length (ti : TorrentInfo) : ti.sizes.length = ti.numFiles :=
  List.length_map _

theorem fileAt_eq_some {ti : TorrentInfo} {i : Int} {fe : FileEntry} :
    ti.fileAt i = some fe ↔ 0 ≤ i ∧ ti.files[i.toNat]? = some fe := by
  unfold fileAt
  split <;> simp_all

/-- `file_at` answers exactly for the indices in `[0, num_files)`. -/
theorem fileAt_isSome_iff {ti : TorrentInfo} {i : Int} :
    (ti.fileAt i).isSome ↔ 0 ≤ i ∧ i < ti.numFiles := by
  unfold fileAt numFiles
  split
  · simp only [isSome_getElem?]
    omega
  · simp only [Option.isSome_none, Bool.false_eq_true, false_iff]
    omega

theorem fileSize_of_fileAt {ti : TorrentInfo} {i : Int} {fe : FileEntry}
    (h : ti.fileAt i = some fe) : ti.fileSize i.toNat = fe.size := by
  obtain ⟨-, h⟩ := fileAt_eq_some.mp h
  simp [fileSize, sizes, h]

theorem files_ne_nil_of_fileAt {ti : TorrentInfo} {i : Int} {fe : FileEntry}
    (h : ti.fileAt i = some fe) : ti.files ≠ [] := by
  intro hnil
  obtain ⟨-, h⟩ := fileAt_eq_some.mp h
  rw [hnil] at h
  cases h

theorem lt_numFiles_of_fileAt {ti : TorrentInfo} {i : Int} {fe : FileEntry}
    (h : ti.fileAt i = some fe) : i.toNat < ti.numFiles := by
  obtain ⟨-, h⟩ := fileAt_eq_some.mp h
  exact (List.getElem?_eq_some_iff.mp h).1

/-- A file ends inside the torrent. -/
theorem fileOffset_add_fileSize_le {ti : TorrentInfo} {i : Nat} (h : i < ti.numFiles) :
    ti.fileOffset i + ti.fileSize i ≤ ti.totalSize := by
  have hi : i < ti.sizes.length := by rw [sizes_length]; exact h
  rw [fileSize, List.getElem?_eq_getElem hi]
  exact Extents.offset_add_size_le hi

theorem overlaps_lt_numPieces {ti : TorrentInfo} (hv : ti.Valid) {i p : Nat}
    (hi : i < ti.numFiles) (h : ti.Overlaps i p) : p < ti.numPieces :=
  Extents.overlaps_lt_blocks hv.2 (fileOffset_add_fileSize_le hi) h

/-- The pieces of a file are the `piecesSpanned` pieces from its first piece on. -/
theorem overlaps_iff_spanned {ti : TorrentInfo} (hv : ti.Valid) (i p : Nat) :
    ti.Overlaps i p ↔
      ti.firstPieceOf i ≤ p ∧ p < ti.firstPieceOf i + ti.piecesSpanned i :=
  Extents.overlaps_iff_spanned hv.2 _ _ _

theorem first_add_spanned_le {ti : TorrentInfo} (hv : ti.Valid) {i : Nat}
    (hi : i < ti.numFiles) : ti.firstPieceOf i + ti.piecesSpanned i ≤ ti.numPieces :=
  Extents.first_add_spanned_le hv.2 (fileOffset_add_fileSize_le hi)

/-! ## `mapFile` at the two ends of a file -/

theorem mapFile_of_lt {ti : TorrentInfo} {i : Nat} {o size : Int} (hi : i < ti.numFiles)
    (h : o + ti.fileOffset i < ti.totalSize) :
    (ti.mapFile i o size).piece = (o + ti.fileOffset i).tdiv ti.pieceLength := by
  simp only [mapFile, if_neg (Nat.not_le.mpr hi), if_neg (Int.not_le.mpr h)]

/-- The first byte of a non-empty file lies in its first piece. -/
theorem mapFile_zero {ti : TorrentInfo} {i : Nat} {size : Int} (hi : i < ti.numFiles)
    (hs : 0 < ti.fileSize i) : (ti.mapFile i 0 size).piece = ti.firstPieceOf i := by
  have hend := fileOffset_add_fileSize_le hi
  rw [mapFile_of_lt hi (by omega), Int.zero_add]
  rfl

/-- The last byte of a non-empty file lies in its last piece. -/
theorem mapFile_last {ti : TorrentInfo} {i : Nat} {size : Int}
    (hi : i < ti.numFiles) (hs : 0 < ti.fileSize i) :
    (ti.mapFile i (ti.fileSize i - 1) size).piece
      = ti.firstPieceOf i + ti.piecesSpanned i - 1 := by
  have hend := fileOffset_add_fileSize_le hi
  have hspan : ti.fileOffset i / ti.pieceLength +
      Extents.spanned ti.pieceLength (ti.fileOffset i) (ti.fileSize i) =
      (ti.fileOffset i + ti.fileSize i - 1) / ti.pieceLength + 1 := Extents.spanned_of_pos hs
  rw [mapFile_of_lt hi (by omega)]
  have hcast : (ti.fileSize i : Int) - 1 + ti.fileOffset i
      = ((ti.fileOffset i + ti.fileSize i - 1 : Nat) : Int) := by omega
  rw [hcast, firstPieceOf, piecesSpanned, ← Int.natCast_add, hspan]
  show ((_ / _ : Nat) : Int) = _
  push_cast
  omega

/-- `mapFile` names a piece of the torrent, or one past the last. -/
theorem mapFile_piece_bounds {ti : TorrentInfo} (hv : ti.Valid) (i : Nat) {o size : Int}
    (ho : 0 ≤ o) : 0 ≤ (ti.mapFile i o size).piece ∧
      (ti.mapFile i o size).piece ≤ ti.numPieces := by
  unfold mapFile
  split
  · exact ⟨Int.natCast_nonneg _, Int.le_refl _⟩
  · dsimp only
    split
    · exact ⟨Int.natCast_nonneg _, Int.le_refl _⟩
    · rename_i hlt
      obtain ⟨n, hn⟩ := Int.eq_ofNat_of_zero_le
        (show (0 : Int) ≤ o + ti.fileOffset i by omega)
      rw [hn]
      show (0 : Int) ≤ ((n / ti.pieceLength : Nat) : Int) ∧ _
      refine ⟨Int.natCast_nonneg _, Int.ofNat_le.mpr ?_⟩
      exact Nat.le_of_lt (Extents.div_lt_blocks hv.2 (by omega))

end TorrentInfo

end BtDownloader
