import BtDownloader.Torrent.ResumeRoundtrip

set_option autoImplicit false

/-! # Resume files

* `readResumeData_writeResumeDataBuf`: the bytes that are written for parameters are read back as
  `restored`.
-/

namespace BtDownloader

open Bencoding

/-! ## Entries that can be written -/

section

variable (format : Bytes → Item)

mutual

/-- A valid entry, but for the lengths of its strings. -/
def Entry.Writable : Entry → Prop
  | .integer v => -10 ^ 18 < v ∧ v < 2 ^ 63
  | .string _ => True
  | .list es => ListWritable es
  | .dictionary d => OrderedMap.Sorted d ∧ DictWritable d
  | .preformatted text => (format text).WellFormed ∧ (format text).render = text
  | .undefined => True
termination_by structural e => e

def ListWritable : List Entry → Prop
  | [] => True
  | e :: es => e.Writable ∧ ListWritable es
termination_by structural es => es

def DictWritable : List (Bytes × Entry) → Prop
  | [] => True
  | kv :: d => PairWritable kv ∧ DictWritable d
termination_by structural d => d

def PairWritable : Bytes × Entry → Prop
  | (_, e) => e.Writable
termination_by structural kv => kv

end

end

section

variable {format : Bytes → Item}

theorem listWritable_iff {es : List Entry} :
    ListWritable format es ↔ ∀ e ∈ es, e.Writable format := by
  induction es with
  | nil => simp [ListWritable]
  | cons e es ih => simp [ListWritable, ih]

theorem dictWritable_iff {d : List (Bytes × Entry)} :
    DictWritable format d ↔ ∀ kv ∈ d, kv.2.Writable format := by
  induction d with
  | nil => simp [DictWritable]
  | cons kv d ih =>
      obtain ⟨key, e⟩ := kv
      simp [DictWritable, PairWritable, ih]

theorem length_lt_writeString (s : Bytes) : s.length < (writeString s).length := by
  rw [writeString, List.length_append, List.length_cons]
  omega

mutual

/-- In a text that is not too long no string is too long. -/
theorem valid_of_writable (e : Entry) (h : e.Writable format) (hlength : (bencode e).length < 10 ^ 8) :
    e.Valid format := by
  cases e with
  | undefined => trivial
  | integer v => exact h
  | string s =>
      have := length_lt_writeString s
      rw [bencode] at hlength
      exact Nat.lt_trans this hlength
  | list es =>
      simp only [bencode, List.length_append, List.length_cons, List.length_nil] at hlength
      exact listValid_of_writable es h (by omega)
  | dictionary d =>
      simp only [bencode, List.length_append, List.length_cons, List.length_nil] at hlength
      exact ⟨h.1, dictValid_of_writable d h.2 (by omega)⟩
  | preformatted text => exact h

theorem listValid_of_writable (es : List Entry) (h : ListWritable format es)
    (hlength : (bencodeList es).length < 10 ^ 8) : ListValid format es := by
  cases es with
  | nil => trivial
  | cons e es =>
      rw [bencodeList, List.length_append] at hlength
      exact ⟨valid_of_writable e h.1 (by omega), listValid_of_writable es h.2 (by omega)⟩

theorem dictValid_of_writable (d : List (Bytes × Entry)) (h : DictWritable format d)
    (hlength : (bencodeDict d).length < 10 ^ 8) : DictValid format d := by
  cases d with
  | nil => trivial
  | cons kv d =>
      rw [bencodeDict, List.length_append] at hlength
      exact ⟨pairValid_of_writable kv h.1 (by omega), dictValid_of_writable d h.2 (by omega)⟩

theorem pairValid_of_writable (kv : Bytes × Entry) (h : PairWritable format kv)
    (hlength : (bencodePair kv).length < 10 ^ 8) : PairValid format kv := by
  obtain ⟨key, e⟩ := kv
  have := length_lt_writeString key
  rw [bencodePair, List.length_append] at hlength
  exact ⟨by omega, valid_of_writable e h (by omega)⟩

end

end

/-! ## Writing resume data -/

section

variable {sha1 : Bytes → Bytes} {parseInfoSection : Bytes → Option Bytes} {info : Item}
  {p : ResumeParams}

/-- A field, if it is set, can be written. -/
def FieldWritable (info : Item) (field : Option Entry) : Prop :=
  ∀ e ∈ field, Entry.Writable (fun _ => info) e

theorem FieldWritable.string (s : Bytes) : FieldWritable info (some (.string s)) := by
  rintro _ ⟨⟩
  trivial

theorem FieldWritable.flag (b : Bool) : FieldWritable info (some (boolEntry b)) := by
  rintro _ ⟨⟩
  cases b with
  | false => exact ⟨by decide, by decide⟩
  | true => exact ⟨by decide, by decide⟩

theorem FieldWritable.integer {v : Int} (hmin : -10 ^ 18 < v) (hmax : v < 2 ^ 63) :
    FieldWritable info (some (.integer v)) := by
  rintro _ ⟨⟩
  exact ⟨hmin, hmax⟩

theorem FieldWritable.entryIf {condition : Bool} {e : Entry} (h : FieldWritable info (some e)) :
    FieldWritable info (entryIf condition e) := by
  cases condition with
  | false => rintro _ ⟨⟩
  | true => exact h

theorem FieldWritable.list {es : List Entry} (h : ∀ e ∈ es, e.Writable fun _ => info) :
    FieldWritable info (some (.list es)) := by
  rintro _ ⟨⟩
  exact listWritable_iff.mpr h

theorem FieldWritable.strings (ss : List Bytes) : FieldWritable info (some (stringList ss)) := by
  refine FieldWritable.list fun e he => ?_
  obtain ⟨s, -, rfl⟩ := List.mem_map.mp he
  trivial

theorem writable_unfinishedPiece {piece : Int × List Bool} (hmin : -2 ^ 31 ≤ piece.1)
    (hmax : piece.1 < 2 ^ 31) : (unfinishedPiece piece).Writable fun _ => info := by
  refine ⟨OrderedMap.sorted_ofList _, dictWritable_iff.mpr fun kv hkv => ?_⟩
  rcases List.mem_cons.mp (OrderedMap.mem_of_mem_ofList hkv) with rfl | hkv
  · exact ⟨by omega, by omega⟩
  · obtain rfl := List.mem_singleton.mp hkv
    trivial

theorem writable_trackers (p : ResumeParams) : FieldWritable info (some (.list
    (if p.trackers = [] then [] else writeTrackers p.trackers p.trackerTiers 0 [.list []]))) := by
  refine FieldWritable.list fun e he => ?_
  rcases trackerEntries p e he with rfl | ⟨trs, rfl⟩
  · trivial
  · exact FieldWritable.strings trs _ rfl

theorem writable_writeResumeData (hp : p.Storable sha1 parseInfoSection info) :
    (writeResumeData p).Writable fun _ => info := by
  refine ⟨OrderedMap.sorted_ofList _, dictWritable_iff.mpr fun kv hkv => ?_⟩
  obtain ⟨⟨key, field⟩, hfield, hset⟩ := List.mem_filterMap.mp (OrderedMap.mem_of_mem_ofList hkv)
  obtain ⟨e, hfield', rfl⟩ := Option.map_eq_some_iff.mp hset
  -- every field that can be written is one that bdecode reads back
  suffices hall : ∀ f ∈ resumeFields p, FieldWritable info f.2 from hall _ hfield e hfield'
  have h64 : ∀ v ∈ p.int64s, FieldWritable info (some (.integer v)) := fun v hv =>
    FieldWritable.integer (hp.int64 v hv).1 (hp.int64 v hv).2
  have h32 : ∀ v ∈ p.int32s, FieldWritable info (some (.integer v)) := fun v hv => by
    obtain ⟨hmin, hmax⟩ := hp.int32 v hv
    exact FieldWritable.integer (by omega) (by omega)
  simp only [ResumeParams.int64s, ResumeParams.int32s, List.forall_mem_cons] at h64 h32
  obtain ⟨h₁, h₂, h₃, h₄, h₅, h₆, h₇, -⟩ := h64
  obtain ⟨g₁, g₂, g₃, g₄, g₅, g₆, g₇, g₈, g₉, -⟩ := h32
  simp only [resumeFields, List.forall_mem_cons]
  refine ⟨.string _, .integer (by omega) (by omega), .string _, .string _, h₁, h₂, g₁, g₂, g₃, h₃,
    h₄, h₅, g₄, g₅, g₆, .flag _, .flag _, .flag _, h₆, h₇, .string _, (FieldWritable.string _).entryIf,
    (FieldWritable.string _).entryIf, .string _, ?_, ?_, ?_, ?_, (FieldWritable.string _).entryIf, ?_,
    writable_trackers p, .strings _, .strings _, .string _, ?_, (FieldWritable.string _).entryIf,
    (FieldWritable.string _).entryIf, (FieldWritable.string _).entryIf,
    (FieldWritable.string _).entryIf, g₇, g₈, g₉, g₇, .flag _, .flag _, ?_,
    (FieldWritable.string _).entryIf, by simp⟩
  -- the info section, then the comment, the date and the creator that go with it
  · intro e he
    obtain ⟨ti, hti, rfl⟩ := Option.map_eq_some_iff.mp he
    obtain ⟨-, -, -, hrender, hwf, -⟩ := hp.metadata ti hti
    exact ⟨hwf, hrender⟩
  · intro e he
    obtain ⟨ti, hti, he⟩ := Option.bind_eq_some_iff.mp he
    exact (FieldWritable.string _).entryIf e he
  · intro e he
    obtain ⟨ti, hti, he⟩ := Option.bind_eq_some_iff.mp he
    obtain ⟨hmin, hmax⟩ := hp.creationDate ti hti
    exact (FieldWritable.integer hmin hmax).entryIf e he
  · intro e he
    obtain ⟨ti, hti, he⟩ := Option.bind_eq_some_iff.mp he
    exact (FieldWritable.string _).entryIf e he
  -- the unfinished pieces, the names of the files, the priorities of the pieces
  · refine FieldWritable.entryIf (FieldWritable.list fun e he => ?_)
    obtain ⟨piece, hpiece, rfl⟩ := List.mem_map.mp he
    exact writable_unfinishedPiece (hp.pieces piece hpiece).1 (hp.pieces piece hpiece).2
  · refine FieldWritable.entryIf (FieldWritable.list fun e he => ?_)
    rcases fileEntries hp.renamed hp.files e he with rfl | ⟨name, rfl⟩
    · trivial
    · trivial
  · refine FieldWritable.entryIf (FieldWritable.list fun e he => ?_)
    obtain ⟨prio, -, rfl⟩ := List.mem_map.mp he
    have hlt : prio.toNat < 2 ^ 8 := prio.toNat_lt
    exact ⟨by omega, by omega⟩

/-- **What resume data keeps.** The bytes that are written for parameters are read back as
`restored`, if they are within the limits of `bdecode`. -/
theorem readResumeData_writeResumeDataBuf (hp : p.Storable sha1 parseInfoSection info)
    (hlength : (writeResumeDataBuf p).length < 10 ^ 8)
    (hdepth : ((writeResumeData p).item fun _ => info).nesting < 100)
    (hcount : ((writeResumeData p).item fun _ => info).count ≤ 2000000) :
    readResumeData sha1 parseInfoSection (writeResumeDataBuf p) = some (restored p, none) := by
  have hvalid := valid_of_writable _ (writable_writeResumeData hp) hlength
  have htext : writeResumeDataBuf p = ((writeResumeData p).item fun _ => info).render ++ [] := by
    rw [writeResumeDataBuf, bencode_eq_render _ hvalid, List.append_nil]
  have hwf := wellFormed_item _ hvalid
  rw [htext] at hlength
  rw [readResumeData, htext, bdecode_render (by unfold maxOffset; omega) hwf hdepth hcount]
  exact readResumeNode_eq ⟨0, at_rootOf hwf⟩ hp

end

/-! ## A resume file -/

/-- The info section of a torrent with one file. -/
def sampleInfo : Entry := .dictionary
  [ (ascii "length", .integer 1), (ascii "name", .string (ascii "a.mp4")),
    (ascii "piece length", .integer 16384),
    (ascii "pieces", .string (List.replicate 20 (byte '7'))) ]

/-- Its SHA-1 hash. -/
def sampleHash : Bytes :=
  [15, 46, 250, 104, 252, 7, 252, 31, 65, 129, 43, 41, 152, 140, 51, 159, 205, 10, 221, 193]

def sampleItem : Item := sampleInfo.item fun _ => .integer []

def sampleParams : ResumeParams where
  ti := some { metadata := bencode sampleInfo }
  trackers := [ascii "http://a/announce", ascii "http://b/announce"]
  trackerTiers := [3, 0]
  savePath := ascii "files"
  infoHash := sampleHash
  uploadLimit := 7
  bannedPeers := [.v4 10 0 0 1 6881, .v4 10 0 0 2 6881]
  havePieces := [true]
  unfinishedPieces := [(0, [true, false, true])]

theorem valid_sampleInfo : sampleInfo.Valid fun _ => .integer [] := by
  refine ⟨?_, ?_⟩
  · unfold OrderedMap.Sorted
    decide
  · simp only [DictValid, PairValid, Entry.Valid, and_true]
    decide

theorem storable_sampleParams :
    sampleParams.Storable (fun _ => sampleHash) (fun _ => none) sampleItem where
  int64 := by decide
  int32 := by decide
  infoHash := rfl
  unfinished := by unfold OrderedMap.Sorted; decide
  pieces := by decide
  renamed := List.Pairwise.nil
  files := by decide
  merkle := by decide
  metadata := by
    rintro _ ⟨⟩
    exact ⟨rfl, rfl, rfl, (bencode_eq_render _ valid_sampleInfo).symm,
      wellFormed_item _ valid_sampleInfo, rfl⟩
  creationDate := by
    rintro _ ⟨⟩
    decide

end BtDownloader
