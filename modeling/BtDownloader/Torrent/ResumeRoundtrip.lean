import BtDownloader.Torrent.BencodeRoundtrip
import BtDownloader.Torrent.ResumeFields

set_option autoImplicit false

/-! # What resume data keeps

`readResumeNode_eq`: the parameters that are read back are `restored`, which says of each field
what becomes of it. Most of them come back as they were; the name does not, the
limit of uploads becomes the upload rate limit, trackers are sorted by their tiers, peers by
the version of their addresses, and the last banned peer with an IPv4 address is lost.
-/

namespace BtDownloader

open Bencoding

section

variable {format : Bytes → Item} {n : BdecodeNode} {d : List (Bytes × Entry)} {key : Bytes}

/-- The node stands for an entry that was written. -/
def BdecodeNode.Holds (format : Bytes → Item) (n : BdecodeNode) (e : Entry) : Prop :=
  ∃ offset, n.At (e.item format) offset

theorem keyed_dictItems (d : List (Bytes × Entry)) :
    keyed (dictItems format d) = d.map fun kv => (kv.1, kv.2.item format) := by
  induction d with
  | nil => rfl
  | cons kv d ih =>
      obtain ⟨key, e⟩ := kv
      rw [dictItems, List.map_cons, ← ih]
      rfl

theorem listItems_eq (es : List Entry) : listItems format es = es.map (·.item format) := by
  induction es with
  | nil => rfl
  | cons e es ih => rw [listItems, ih, List.map_cons]

theorem find?_keyed (d : List (Bytes × Entry)) (key : Bytes) :
    OrderedMap.find? key (keyed (dictItems format d))
      = (OrderedMap.find? key d).map (·.item format) := by
  rw [keyed_dictItems]
  induction d with
  | nil => rfl
  | cons kv d ih =>
      obtain ⟨k, e⟩ := kv
      rw [List.map_cons, OrderedMap.find?, OrderedMap.find?]
      split
      · rfl
      · exact ih

namespace BdecodeNode

/-! ## Lookups in a written dictionary -/

theorem Holds.dictFindType_some {e : Entry} (h : n.Holds format (.dictionary d))
    (type : TokenType) (hfind : OrderedMap.find? key d = some e)
    (htype : itemType (e.item format) = type) :
    ∃ m, n.dictFindType type key = some (some m) ∧ m.Holds format e := by
  obtain ⟨offset, hat⟩ := h
  obtain ⟨found, hfound, hfinds⟩ := dictFindType_eq hat type key
  rw [find?_keyed, hfind, Option.map_some, Option.filter_some, htype, decide_eq_true rfl,
    if_pos rfl] at hfinds
  cases hfinds with
  | some hm => exact ⟨_, hfound, hm⟩

theorem Holds.dictFindType_none (h : n.Holds format (.dictionary d)) (type : TokenType)
    (hfind : OrderedMap.find? key d = none) : n.dictFindType type key = some none := by
  obtain ⟨offset, hat⟩ := h
  obtain ⟨found, hfound, hfinds⟩ := dictFindType_eq hat type key
  rw [find?_keyed, hfind] at hfinds
  cases hfinds with
  | none => exact hfound

theorem Holds.stringValue {s : Bytes} (h : n.Holds format (.string s)) :
    n.stringValue = some s := by
  obtain ⟨offset, hat⟩ := h
  exact hat.stringValue

theorem Holds.intValue {v : Int} (h : n.Holds format (.integer v)) (hmin : -10 ^ 18 < v)
    (hmax : v < 2 ^ 63) : n.intValue = some v := by
  obtain ⟨offset, hat⟩ := h
  have hvalue := At.intValue hat
  rw [writeInteger_eq hmin hmax, integerValue_integerText (by omega) hmax] at hvalue
  exact hvalue

theorem Holds.dictFindStringValue {s : Bytes} (h : n.Holds format (.dictionary d))
    (hfind : OrderedMap.find? key d = some (.string s)) (default : Bytes) :
    n.dictFindStringValue key default = some s := by
  obtain ⟨m, hfound, hm⟩ := h.dictFindType_some .string hfind rfl
  rw [BdecodeNode.dictFindStringValue, dictFindString, hfound]
  exact hm.stringValue

theorem Holds.dictFindStringValue_none (h : n.Holds format (.dictionary d))
    (hfind : OrderedMap.find? key d = none) (default : Bytes) :
    n.dictFindStringValue key default = some default := by
  rw [BdecodeNode.dictFindStringValue, dictFindString, h.dictFindType_none .string hfind]
  rfl

theorem Holds.dictFindIntValue {v : Int} (h : n.Holds format (.dictionary d))
    (hfind : OrderedMap.find? key d = some (.integer v)) (hmin : -10 ^ 18 < v)
    (hmax : v < 2 ^ 63) (default : Int) : n.dictFindIntValue key default = some v := by
  obtain ⟨m, hfound, hm⟩ := h.dictFindType_some .integer hfind rfl
  rw [BdecodeNode.dictFindIntValue, dictFindInt, hfound]
  exact hm.intValue hmin hmax

/-- A loop over a list that was written. -/
theorem Holds.eachItem {α : Type} {es : List Entry} {f : Nat → BdecodeNode → α → Option α}
    (h : n.Holds format (.list es)) (g : Nat → Entry → α → α)
    (hf : ∀ k e, es[k]? = some e → ∀ m acc, BdecodeNode.Holds format m e →
      f k m acc = some (g k e acc)) (init : α) :
    n.eachItem f init = some (es.zipIdx.foldl (fun acc ek => g ek.2 ek.1 acc) init) := by
  obtain ⟨offset, hat⟩ := h
  rw [Entry.item, listItems_eq] at hat
  rw [@eachItem_eq n _ offset _ f
    (fun k _ acc => match es[k]? with | some e => g k e acc | none => acc) hat]
  · rw [List.zipIdx_map, List.foldl_map]
    refine congrArg some (List.foldl_ext _ _ init fun acc ek hmem => ?_)
    obtain ⟨e, k⟩ := ek
    have he : es[k]? = some e := by simpa using List.mem_zipIdx_iff_getElem?.mp hmem
    dsimp only [Prod.map_apply, id_eq]
    rw [he]
  · intro k i hi m offset' acc hm
    rw [List.getElem?_map] at hi
    cases he : es[k]? with
    | none =>
        rw [he] at hi
        cases hi
    | some e =>
        rw [he] at hi
        obtain rfl := Option.some.inj hi
        exact hf k e he m acc ⟨offset', hm⟩

/-- A loop over a list that was written of the values `xs`, without the indices. -/
theorem Holds.eachEntry {α β : Type} {xs : List β} {encode : β → Entry}
    {f : Nat → BdecodeNode → α → Option α} (h : n.Holds format (.list (xs.map encode)))
    (g : β → α → α)
    (hf : ∀ x ∈ xs, ∀ k m acc, BdecodeNode.Holds format m (encode x) → f k m acc = some (g x acc))
    (init : α) : n.eachItem f init = some (xs.foldl (fun acc x => g x acc) init) := by
  rw [h.eachItem fun k _ acc => match xs[k]? with | some x => g x acc | none => acc]
  -- the entries from index k on belong to the values from index k on
  · have hzip : ∀ (ys : List β) (k : Nat) (init : α), (∀ j, ys[j]? = xs[k + j]?) →
        ((ys.map encode).zipIdx k).foldl (fun acc ek =>
          match xs[ek.2]? with | some x => g x acc | none => acc) init
          = ys.foldl (fun acc x => g x acc) init := by
      intro ys
      induction ys with
      | nil => exact fun _ _ _ => rfl
      | cons y ys ih =>
          intro k init hxs
          have hy : xs[k]? = some y := (hxs 0).symm
          rw [List.map_cons, List.zipIdx_cons, List.foldl_cons, List.foldl_cons, hy]
          refine ih (k + 1) _ fun j => ?_
          rw [Nat.add_assoc, Nat.add_comm 1 j, ← hxs (j + 1)]
          rfl
    exact congrArg some (hzip xs 0 init fun j => by rw [Nat.zero_add])
  · intro k e he m acc hm
    rw [List.getElem?_map, Option.map_eq_some_iff] at he
    obtain ⟨x, hx, rfl⟩ := he
    rw [hx]
    exact hf x (List.mem_of_getElem? hx) k m acc hm

theorem Holds.stringValueOrEmpty {s : Bytes} (h : n.Holds format (.string s)) :
    n.stringValueOrEmpty = some s := by
  obtain ⟨offset, hat⟩ := id h
  have htype : n.type = some .string := hat.type
  rw [BdecodeNode.stringValueOrEmpty, if_pos htype, h.stringValue]

/-- An entry that was not set is an empty string. -/
theorem Holds.stringValueOrEmpty_undefined (h : n.Holds format .undefined) :
    n.stringValueOrEmpty = some [] := by
  obtain ⟨offset, hat⟩ := h
  have htype : n.type = some .string := hat.type
  rw [BdecodeNode.stringValueOrEmpty, if_pos htype]
  exact hat.stringValue

end BdecodeNode

end

/-! ## The entries of resume data -/

theorem setFields_sublist (fields : List (Bytes × Option Entry)) :
    List.Sublist ((setFields fields).map Prod.fst) (fields.map Prod.fst) := by
  induction fields with
  | nil => exact List.Sublist.refl _
  | cons field fields ih =>
      obtain ⟨k, e⟩ := field
      cases e with
      | none => exact ih.cons _
      | some e => exact ih.cons_cons _

theorem find?_setFields {fields : List (Bytes × Option Entry)} {key : Bytes} {e : Option Entry}
    {i : Nat} (hnodup : (fields.map Prod.fst).Nodup) (hfield : fields[i]? = some (key, e)) :
    OrderedMap.find? key (OrderedMap.ofList (setFields fields)) = e := by
  have hmem : (key, e) ∈ fields := List.mem_of_getElem? hfield
  cases e with
  | some e =>
      refine OrderedMap.find?_ofList (hnodup.sublist (setFields_sublist fields)) ?_
      exact List.mem_filterMap.mpr ⟨(key, some e), hmem, rfl⟩
  | none =>
      refine OrderedMap.find?_ofList_eq_none fun hkey => ?_
      obtain ⟨⟨k, e⟩, hset, rfl⟩ := List.mem_map.mp hkey
      obtain ⟨⟨k', e'⟩, hfield', hsome⟩ := List.mem_filterMap.mp hset
      obtain ⟨e'', rfl, heq⟩ := Option.map_eq_some_iff.mp hsome
      obtain ⟨rfl, rfl⟩ := Prod.mk.inj heq
      -- a key has one entry only
      have := List.inj_on_of_nodup_map hnodup hfield' hmem rfl
      cases this

theorem nodup_resumeKeys (p : ResumeParams) : ((resumeFields p).map Prod.fst).Nodup := by
  simp only [resumeFields, List.map_cons, List.map_nil]
  decide +kernel

/-- The name is not written. -/
theorem find?_name (p : ResumeParams) :
    OrderedMap.find? (ascii "name") (OrderedMap.ofList (setFields (resumeFields p))) = none := by
  refine OrderedMap.find?_ofList_eq_none fun hkey => ?_
  have hmem := (setFields_sublist (resumeFields p)).subset hkey
  simp only [resumeFields, List.map_cons, List.map_nil] at hmem
  revert hmem
  decide +kernel

/-- What is stored under a key. -/
theorem find?_resumeFields {p : ResumeParams} {e : Option Entry} (key : Bytes) (i : Nat)
    (h : (resumeFields p)[i]? = some (key, e)) :
    OrderedMap.find? key (OrderedMap.ofList (setFields (resumeFields p))) = e :=
  find?_setFields (nodup_resumeKeys p) h

/-! ## What is restored -/

def ResumeParams.int64s (p : ResumeParams) : List Int :=
  [p.totalUploaded, p.totalDownloaded, p.lastSeenComplete, p.lastDownload, p.lastUpload,
    p.addedTime, p.completedTime]

def ResumeParams.int32s (p : ResumeParams) : List Int :=
  [p.activeTime, p.finishedTime, p.seedingTime, p.numComplete, p.numIncomplete, p.numDownloaded,
    p.uploadLimit, p.downloadLimit, p.maxConnections]

/-- Parameters as the types of their fields admit them, with integers that can be written. The info
section, if there is one, is the text of the item `info`, has the info-hash and can be parsed. -/
structure ResumeParams.Storable (sha1 : Bytes → Bytes) (parseInfoSection : Bytes → Option Bytes)
    (info : Item) (p : ResumeParams) : Prop where
  int64 : ∀ v ∈ p.int64s, -10 ^ 18 < v ∧ v < 2 ^ 63
  int32 : ∀ v ∈ p.int32s, -2 ^ 31 ≤ v ∧ v < 2 ^ 31
  infoHash : p.infoHash.length = 20
  unfinished : OrderedMap.Sorted p.unfinishedPieces
  pieces : ∀ piece ∈ p.unfinishedPieces, -2 ^ 31 ≤ piece.1 ∧ piece.1 < 2 ^ 31
  renamed : OrderedMap.Sorted p.renamedFiles
  files : ∀ file ∈ p.renamedFiles, 0 ≤ file.1
  merkle : ∀ hash ∈ p.merkleTree, hash.length = 20
  metadata : ∀ ti ∈ p.ti, ti.valid = true ∧ sha1 ti.metadata = p.infoHash ∧
    parseInfoSection ti.metadata = none ∧ info.render = ti.metadata ∧ info.WellFormed ∧
    itemType info = .dict
  creationDate : ∀ ti ∈ p.ti, -10 ^ 18 < ti.creationDate ∧ ti.creationDate < 2 ^ 63

/-- The flags that are read back. A file that is not wanted ends the seed mode. -/
def restoredFlags (p : ResumeParams) : TorrentFlags
  | .seedMode => p.flags .seedMode && p.filePriorities.all (· ≠ 0)
  | .superSeeding => p.flags .superSeeding
  | .autoManaged => p.flags .autoManaged
  | .sequentialDownload => p.flags .sequentialDownload
  | .paused => p.flags .paused
  | .overrideTrackers => true
  | .overrideWebSeeds => true
  | .needSaveResume => false
  | flag => defaultFlags flag

def ofVersion (isV6 : Bool) (es : List Endpoint) : List Endpoint := es.filter (·.isV6 = isV6)

/-- **What resume data keeps.** -/
def restored (p : ResumeParams) : ResumeParams :=
  { p with
    name := []
    maxUploads := p.uploadLimit
    flags := restoredFlags p
    trackers := (restoredTrackers p).map Prod.fst
    trackerTiers := (restoredTrackers p).map Prod.snd
    urlSeeds := p.urlSeeds.filter (· ≠ [])
    httpSeeds := p.httpSeeds.filter (· ≠ [])
    filePriorities := p.filePriorities.map clampPriority
    piecePriorities := p.piecePriorities.map clampPriority
    havePieces := extendBits p.havePieces (max p.havePieces.length p.verifiedPieces.length)
    verifiedPieces := extendBits p.verifiedPieces (max p.havePieces.length p.verifiedPieces.length)
    renamedFiles := restoredFiles p
    unfinishedPieces := restoredPieces p
    peers := ofVersion false p.peers ++ ofVersion true p.peers
    bannedPeers := (ofVersion false p.bannedPeers).dropLast ++ ofVersion true p.bannedPeers }

theorem toInt32_eq {v : Int} (hmin : -2 ^ 31 ≤ v) (hmax : v < 2 ^ 31) : toInt32 v = v := by
  unfold toInt32
  rw [Int.bmod_eq_of_le (by omega) (by omega)]

section

variable {sha1 : Bytes → Bytes} {parseInfoSection : Bytes → Option Bytes} {info : Item}
  {p : ResumeParams} {n : BdecodeNode}

theorem readNumbers_eq (h : n.Holds (fun _ => info) (writeResumeData p))
    (hp : p.Storable sha1 parseInfoSection info) (ret : ResumeParams) :
    readNumbers n ret = some { ret with
      totalUploaded := p.totalUploaded
      totalDownloaded := p.totalDownloaded
      activeTime := p.activeTime
      finishedTime := p.finishedTime
      seedingTime := p.seedingTime
      lastSeenComplete := p.lastSeenComplete
      lastDownload := p.lastDownload
      lastUpload := p.lastUpload
      numComplete := p.numComplete
      numIncomplete := p.numIncomplete
      numDownloaded := p.numDownloaded
      maxUploads := p.uploadLimit
      maxConnections := p.maxConnections
      uploadLimit := p.uploadLimit
      downloadLimit := p.downloadLimit } := by
  -- a field is found at its index among those that are written
  have h64 : ∀ (i : Nat) key v default, v ∈ p.int64s →
      (resumeFields p)[i]? = some (key, some (.integer v)) →
      n.dictFindIntValue key default = some v := by
    intro i key v default hv hi
    obtain ⟨hmin, hmax⟩ := hp.int64 v hv
    exact h.dictFindIntValue (find?_resumeFields _ i hi) hmin hmax default
  have h32 : ∀ (i : Nat) key v default, v ∈ p.int32s →
      (resumeFields p)[i]? = some (key, some (.integer v)) →
      n.dictFindIntValue key default = some v ∧ toInt32 v = v := by
    intro i key v default hv hi
    obtain ⟨hmin, hmax⟩ := hp.int32 v hv
    exact ⟨h.dictFindIntValue (find?_resumeFields _ i hi) (by omega) (by omega) default,
      toInt32_eq hmin hmax⟩
  have h₁ := h64 4 (ascii "total_uploaded") _ 0 (by simp [ResumeParams.int64s]) rfl
  have h₂ := h64 5 (ascii "total_downloaded") _ 0 (by simp [ResumeParams.int64s]) rfl
  have h₃ := h32 6 (ascii "active_time") _ 0 (by simp [ResumeParams.int32s]) rfl
  have h₄ := h32 7 (ascii "finished_time") _ 0 (by simp [ResumeParams.int32s]) rfl
  have h₅ := h32 8 (ascii "seeding_time") _ 0 (by simp [ResumeParams.int32s]) rfl
  have h₆ := h64 9 (ascii "last_seen_complete") _ 0 (by simp [ResumeParams.int64s]) rfl
  have h₇ := h64 10 (ascii "last_download") _ 0 (by simp [ResumeParams.int64s]) rfl
  have h₈ := h64 11 (ascii "last_upload") _ 0 (by simp [ResumeParams.int64s]) rfl
  have h₉ := h32 12 (ascii "num_complete") _ (-1) (by simp [ResumeParams.int32s]) rfl
  have h₁₀ := h32 13 (ascii "num_incomplete") _ (-1) (by simp [ResumeParams.int32s]) rfl
  have h₁₁ := h32 14 (ascii "num_downloaded") _ (-1) (by simp [ResumeParams.int32s]) rfl
  have h₁₂ := h32 42 (ascii "max_uploads") _ (-1) (by simp [ResumeParams.int32s]) rfl
  have h₁₃ := h32 41 (ascii "max_connections") _ (-1) (by simp [ResumeParams.int32s]) rfl
  have h₁₄ := h32 39 (ascii "upload_rate_limit") _ (-1) (by simp [ResumeParams.int32s]) rfl
  have h₁₅ := h32 40 (ascii "download_rate_limit") _ (-1) (by simp [ResumeParams.int32s]) rfl
  simp only [readNumbers, Option.bind_eq_bind, Option.bind_some, h₁, h₂, h₃, h₄, h₅, h₆, h₇, h₈, h₉,
    h₁₀, h₁₁, h₁₂, h₁₃, h₁₄, h₁₅]

theorem applyFlag_eq (h : n.Holds (fun _ => info) (writeResumeData p)) (key : Bytes)
    (flag : TorrentFlag) (i : Nat) (hi : (resumeFields p)[i]? = some (key, some (boolEntry (p.flags flag))))
    (flags : TorrentFlags) :
    applyFlag n key flag flags = some (Function.update flags flag (p.flags flag)) := by
  rw [applyFlag]
  cases hflag : p.flags flag with
  | false =>
      rw [hflag] at hi
      rw [h.dictFindIntValue (find?_resumeFields _ i hi) (by omega) (by omega)]
      rfl
  | true =>
      rw [hflag] at hi
      rw [h.dictFindIntValue (find?_resumeFields _ i hi) (by omega) (by omega)]
      rfl

theorem readFlags_eq (h : n.Holds (fun _ => info) (writeResumeData p)) (ret : ResumeParams) :
    readFlags n ret = some { ret with
      flags := fun flag => if flag ∈ [.seedMode, .superSeeding, .autoManaged, .sequentialDownload,
        .paused] then p.flags flag else ret.flags flag } := by
  have h₁ := applyFlag_eq h (ascii "seed_mode") .seedMode 16 rfl
  have h₂ := applyFlag_eq h (ascii "super_seeding") .superSeeding 17 rfl
  have h₃ := applyFlag_eq h (ascii "auto_managed") .autoManaged 44 rfl
  have h₄ := applyFlag_eq h (ascii "sequential_download") .sequentialDownload 15 rfl
  have h₅ := applyFlag_eq h (ascii "paused") .paused 43 rfl
  simp only [readFlags, Option.bind_eq_bind, Option.bind_some, h₁, h₂, h₃, h₄, h₅]
  refine congrArg some (congrArg (fun flags => { ret with flags := flags }) (funext fun flag => ?_))
  cases flag <;> rfl

/-- The web seeds that are not empty. -/
theorem readSeeds_eq {m : BdecodeNode} {urls : List Bytes}
    (h : m.Holds (fun _ => info) (stringList urls)) (seeds : List Bytes) :
    readSeeds m seeds = some (seeds ++ urls.filter (· ≠ [])) := by
  rw [readSeeds, h.eachEntry fun url seeds => if url = [] then seeds else seeds ++ [url]]
  · refine congrArg some ?_
    clear h
    induction urls generalizing seeds with
    | nil => simp
    | cons url urls ih =>
        rw [List.foldl_cons, ih]
        by_cases hurl : url = []
        · simp [hurl]
        · simp [hurl]
  · intro url _ k m' acc hm'
    rw [readSeed, hm'.stringValueOrEmpty]
    dsimp only [Option.bind_eq_bind, Option.bind_some]
    split <;> rfl

theorem readWebSeeds_eq (h : n.Holds (fun _ => info) (writeResumeData p)) (ret : ResumeParams)
    (hurl : ret.urlSeeds = []) (hhttp : ret.httpSeeds = []) :
    readWebSeeds n ret = some { ret with
      flags := Function.update ret.flags .overrideWebSeeds true
      urlSeeds := p.urlSeeds.filter (· ≠ [])
      httpSeeds := p.httpSeeds.filter (· ≠ []) } := by
  obtain ⟨m₁, hfind₁, hm₁⟩ := h.dictFindType_some .list
    (find?_resumeFields (ascii "url-list") 31 rfl) rfl
  obtain ⟨m₂, hfind₂, hm₂⟩ := h.dictFindType_some .list
    (find?_resumeFields (ascii "httpseeds") 32 rfl) rfl
  have hread₁ := readSeeds_eq hm₁ []
  have hread₂ := readSeeds_eq hm₂ []
  rw [List.nil_append] at hread₁ hread₂
  simp only [readWebSeeds, BdecodeNode.dictFindList, Option.bind_eq_bind, Option.bind_some, hfind₁,
    hfind₂, hread₁, hread₂, hurl, hhttp, Option.isSome_some, Bool.or_self, if_true]

/-- **An entry that is written under a condition** is found under the same condition. -/
theorem dictFindType_entryIf (h : n.Holds (fun _ => info) (writeResumeData p)) (key : Bytes)
    (type : TokenType) (i : Nat) {e : Entry} {condition : Bool}
    (hi : (resumeFields p)[i]? = some (key, entryIf condition e))
    (htype : itemType (e.item fun _ => info) = type) :
    ∃ found, n.dictFindType type key = some found ∧
      (condition = false → found = none) ∧
      (condition = true → ∃ m, found = some m ∧ m.Holds (fun _ => info) e) := by
  cases condition with
  | false => exact ⟨none, h.dictFindType_none type (find?_resumeFields _ i hi), fun _ => rfl, by simp⟩
  | true =>
      obtain ⟨m, hfind, hm⟩ := h.dictFindType_some type (find?_resumeFields _ i hi) htype
      exact ⟨some m, hfind, by simp, fun _ => ⟨m, rfl, hm⟩⟩

/-- A string that is written unless it is empty. -/
theorem dictFindStringValue_entryIf (h : n.Holds (fun _ => info) (writeResumeData p)) (key s : Bytes)
    (i : Nat) (hi : (resumeFields p)[i]? = some (key, entryIf (s ≠ []) (.string s))) :
    n.dictFindStringValue key = some s := by
  obtain ⟨found, hfind, hnone, hsome⟩ := dictFindType_entryIf h key .string i hi rfl
  rw [BdecodeNode.dictFindStringValue, BdecodeNode.dictFindString, hfind]
  by_cases hs : s = []
  · rw [hnone (by simpa using hs), hs]
    rfl
  · obtain ⟨m, rfl, hm⟩ := hsome (by simpa using hs)
    exact hm.stringValue

theorem fileEntries {files : List (Int × Bytes)} (hsorted : OrderedMap.Sorted files)
    (hpos : ∀ f ∈ files, 0 ≤ f.1) : ∀ e ∈ files.foldl renameFile [],
      e = .undefined ∨ ∃ name, e = .string name := by
  obtain ⟨length, -, hfold⟩ := foldl_renameFile hsorted hpos
  rw [hfold]
  intro e he
  obtain ⟨k, -, rfl⟩ := List.mem_map.mp he
  unfold fileEntry
  split
  · exact Or.inr ⟨_, rfl⟩
  · exact Or.inl rfl

/-- The files of a list that was written. -/
theorem eachItem_readFilename {m : BdecodeNode} (hp : p.Storable sha1 parseInfoSection info)
    (h : m.Holds (fun _ => info) (.list (p.renamedFiles.foldl renameFile []))) :
    m.eachItem readFilename [] = some (restoredFiles p) := by
  rw [h.eachItem readFile, foldl_readFile hp.renamed hp.files]
  intro k e he m' acc hm'
  rcases fileEntries hp.renamed hp.files e (List.mem_of_getElem? he) with rfl | ⟨name, rfl⟩
  · rw [readFilename, hm'.stringValueOrEmpty_undefined]
    rfl
  · rw [readFilename, hm'.stringValueOrEmpty]
    dsimp only [Option.bind_eq_bind, Option.bind_some, readFile]
    split <;> rfl

theorem readPaths_eq (h : n.Holds (fun _ => info) (writeResumeData p))
    (hp : p.Storable sha1 parseInfoSection info) (ret : ResumeParams) (hret : ret.renamedFiles = []) :
    readPaths n ret = some { ret with
      savePath := p.savePath
      url := p.url
      uuid := p.uuid
      renamedFiles := restoredFiles p
      addedTime := p.addedTime
      completedTime := p.completedTime } := by
  have hadded := hp.int64 p.addedTime (by simp [ResumeParams.int64s])
  have hcompleted := hp.int64 p.completedTime (by simp [ResumeParams.int64s])
  have h₁ := h.dictFindStringValue (find?_resumeFields (ascii "save_path") 20 rfl) []
  have h₂ := dictFindStringValue_entryIf h (ascii "url") p.url 21 rfl
  have h₃ := dictFindStringValue_entryIf h (ascii "uuid") p.uuid 22 rfl
  have h₄ := h.dictFindIntValue (find?_resumeFields (ascii "added_time") 18 rfl) hadded.1
    hadded.2 0
  have h₅ := h.dictFindIntValue (find?_resumeFields (ascii "completed_time") 19 rfl)
    hcompleted.1 hcompleted.2 0
  obtain ⟨found, hfind, hnone, hsome⟩ := dictFindType_entryIf h (ascii "mapped_files") .list 34 rfl rfl
  by_cases hfiles : p.renamedFiles = []
  · simp only [readPaths, BdecodeNode.dictFindList, Option.bind_eq_bind, Option.bind_some, h₁, h₂, h₃,
      h₄, h₅, hfind, hnone (by simpa using hfiles), hret, restoredFiles, hfiles, List.filter_nil]
  · obtain ⟨m, rfl, hm⟩ := hsome (by simpa using hfiles)
    simp only [readPaths, BdecodeNode.dictFindList, Option.bind_eq_bind, Option.bind_some, h₁, h₂, h₃,
      h₄, h₅, hfind, hret, eachItem_readFilename hp hm]

theorem toUInt8_toNat (c : UInt8) : toUInt8 (c.toNat : Int) = c := by
  have hlt : c.toNat < 2 ^ 8 := c.toNat_lt
  apply UInt8.toNat_inj.mp
  rw [toUInt8, UInt8.toNat_ofNat']
  omega

theorem clampPriority_eq_zero {c : UInt8} : clampPriority c = 0 ↔ c = 0 := by
  constructor
  · intro h
    rcases min_choice c 7 with hmin | hmin
    · exact hmin ▸ h
    · rw [clampPriority, hmin] at h
      exact absurd h (by decide)
  · rintro rfl
    decide

/-- Parameters with one more file priority. -/
def ResumeParams.addPriority (ret : ResumeParams) (prio : UInt8) : ResumeParams :=
  { ret with
    filePriorities := ret.filePriorities ++ [clampPriority prio]
    flags := if prio = 0 then Function.update ret.flags .seedMode false else ret.flags }

theorem foldl_addPriority (prios : List UInt8) (ret : ResumeParams) :
    prios.foldl ResumeParams.addPriority ret =
      { ret with
        filePriorities := ret.filePriorities ++ prios.map clampPriority
        flags := if prios.all (· ≠ 0) then ret.flags
          else Function.update ret.flags .seedMode false } := by
  induction prios generalizing ret with
  | nil => simp
  | cons prio prios ih =>
      rw [List.foldl_cons, ih]
      simp only [ResumeParams.addPriority, List.map_cons, List.append_assoc, List.cons_append,
        List.nil_append, List.all_cons]
      by_cases hprio : prio = 0
      · by_cases hall : prios.all (· ≠ 0) = true <;> simp [hprio, Function.update_idem]
      · simp [hprio]

theorem readFilePriorities_eq (h : n.Holds (fun _ => info) (writeResumeData p)) (ret : ResumeParams)
    (hret : ret.filePriorities = []) :
    readFilePriorities n ret = some { ret with
      filePriorities := p.filePriorities.map clampPriority
      flags := if p.filePriorities.all (· ≠ 0) then ret.flags
        else Function.update ret.flags .seedMode false } := by
  obtain ⟨found, hfind, hnone, hsome⟩ := dictFindType_entryIf h (ascii "file_priority") .list 45 rfl rfl
  rw [readFilePriorities, BdecodeNode.dictFindList, hfind]
  by_cases hprios : p.filePriorities = []
  · simp only [Option.bind_eq_bind, Option.bind_some, hnone (by simpa using hprios), hprios,
      List.map_nil, List.all_nil, if_true]
    rw [← hret]
  · obtain ⟨m, rfl, hm⟩ := hsome (by simpa using hprios)
    simp only [Option.bind_eq_bind, Option.bind_some]
    rw [hm.eachEntry fun prio ret => ret.addPriority prio]
    · rw [foldl_addPriority]
      rfl
    · intro prio _ k m' acc hm'
      have hlt : prio.toNat < 2 ^ 8 := prio.toNat_lt
      obtain ⟨offset, hat⟩ := id hm'
      have htype : m'.type = some .integer := hat.type
      rw [readFilePriority, BdecodeNode.intValueOr, if_pos htype, hm'.intValue (by omega) (by omega)]
      simp only [Option.bind_eq_bind, Option.bind_some, ResumeParams.addPriority, toUInt8_toNat,
        clampPriority_eq_zero]

/-! ## Trackers -/

theorem tierEntry_eq (trs : List (Bytes × Nat)) (tier : Nat) :
    tierEntry trs tier = .undefined ∨ tierEntry trs tier = stringList (inTier trs tier) := by
  unfold tierEntry
  split
  · exact Or.inr rfl
  · exact Or.inl rfl

/-- The entries that are written for the tiers. -/
theorem trackerEntries (p : ResumeParams) :
    ∀ e ∈ (if p.trackers = [] then [] else writeTrackers p.trackers p.trackerTiers 0 [.list []]),
      e = .undefined ∨ ∃ trs, e = stringList trs := by
  split
  · simp
  · have hroomy : Roomy [] 1 := ⟨by omega, by omega, by simp⟩
    obtain ⟨length, -, hwrite⟩ := writeTrackers_tierEntries p.trackers p.trackerTiers hroomy
      (Nat.zero_le 1024)
    rw [show [Entry.list []] = tierEntries [] 1 from rfl, hwrite]
    intro e he
    obtain ⟨tier, -, rfl⟩ := List.mem_map.mp he
    rcases tierEntry_eq _ tier with hentry | hentry
    · exact Or.inl hentry
    · exact Or.inr ⟨_, hentry⟩

/-- Parameters with more trackers. -/
def ResumeParams.addTrackers (ret : ResumeParams) (trs : List (Bytes × Int)) : ResumeParams :=
  { ret with
    trackers := ret.trackers ++ trs.map Prod.fst
    trackerTiers := ret.trackerTiers ++ trs.map Prod.snd }

theorem ResumeParams.addTrackers_nil (ret : ResumeParams) : ret.addTrackers [] = ret := by
  simp [addTrackers]

theorem ResumeParams.addTrackers_append (ret : ResumeParams) (trs trs' : List (Bytes × Int)) :
    ret.addTrackers (trs ++ trs') = (ret.addTrackers trs).addTrackers trs' := by
  simp [addTrackers]

/-- The trackers of one tier. -/
theorem eachItem_readTracker {m : BdecodeNode} {trs : List Bytes} {tier : Nat}
    (h : m.Holds (fun _ => info) (stringList trs)) (ret : ResumeParams) :
    m.eachItem (fun _ item ret => readTracker tier item ret) ret
      = some (ret.addTrackers (trs.map fun tr => (tr, (tier : Int)))) := by
  rw [h.eachEntry fun tr ret => ret.addTrackers [(tr, (tier : Int))]]
  · refine congrArg some ?_
    clear h
    induction trs generalizing ret with
    | nil => simp [ResumeParams.addTrackers]
    | cons tr trs ih =>
        rw [List.foldl_cons, ih, ← ResumeParams.addTrackers_append]
        rfl
  · intro tr _ k m' acc hm'
    rw [readTracker, hm'.stringValueOrEmpty]
    rfl

/-- A step of the loop over the tiers. -/
def addTier (e : Entry) (ret : ResumeParams × Nat) : ResumeParams × Nat :=
  (ret.1.addTrackers (readTier e ([], ret.2)).1, (readTier e ([], ret.2)).2)

theorem readTierList_eq {m : BdecodeNode} {e : Entry} (h : m.Holds (fun _ => info) e)
    (he : e = .undefined ∨ ∃ trs, e = stringList trs) (ret : ResumeParams × Nat) :
    readTierList m ret = some (addTier e ret) := by
  obtain ⟨offset, hat⟩ := id h
  rw [readTierList]
  rcases he with rfl | ⟨trs, rfl⟩
  · have htype : m.type ≠ some .list := by
      rw [hat.type]
      simp [Entry.item, itemType]
    rw [if_pos htype]
    exact congrArg some (Prod.ext ret.1.addTrackers_nil.symm rfl)
  · have htype : ¬ m.type ≠ some .list := not_not.mpr hat.type
    rw [if_neg htype, eachItem_readTracker h, addTier, stringList, readTier, filterMap_asTracker]
    rfl

theorem foldl_addTier (es : List Entry) (ret : ResumeParams) (read : List (Bytes × Int)) (tier : Nat) :
    (es.foldl (fun ret e => addTier e ret) (ret.addTrackers read, tier)).1
      = ret.addTrackers (es.foldl (fun read e => readTier e read) (read, tier)).1 := by
  induction es generalizing read tier with
  | nil => rfl
  | cons e es ih =>
      have hstep : readTier e (read, tier)
          = (read ++ (readTier e ([], tier)).1, (readTier e ([], tier)).2) := by
        cases e <;> simp [readTier]
      rw [List.foldl_cons, List.foldl_cons, hstep, addTier, ← ResumeParams.addTrackers_append, ih]

theorem readTrackers_eq (h : n.Holds (fun _ => info) (writeResumeData p)) (ret : ResumeParams) :
    readTrackers n ret = some
      ({ ret with flags := Function.update ret.flags .overrideTrackers true }.addTrackers
        (restoredTrackers p)) := by
  obtain ⟨m, hfind, hm⟩ := h.dictFindType_some .list
    (find?_resumeFields (ascii "trackers") 30 rfl) rfl
  have hfold := foldl_addTier
    (if p.trackers = [] then [] else writeTrackers p.trackers p.trackerTiers 0 [.list []])
    { ret with flags := Function.update ret.flags .overrideTrackers true } [] 0
  rw [ResumeParams.addTrackers_nil, foldl_readTier_writeTrackers] at hfold
  rw [readTrackers, BdecodeNode.dictFindList, hfind]
  simp only [Option.bind_eq_bind, Option.bind_some]
  rw [← List.map_id (if p.trackers = [] then [] else
    writeTrackers p.trackers p.trackerTiers 0 [.list []])] at hm
  rw [hm.eachEntry addTier fun e he k m' acc hm' => readTierList_eq hm' (trackerEntries p e he) acc]
  exact congrArg some hfold

/-! ## Pieces -/

theorem readMerkleTree_eq (h : n.Holds (fun _ => info) (writeResumeData p))
    (hp : p.Storable sha1 parseInfoSection info) (ret : ResumeParams) (hret : ret.merkleTree = []) :
    readMerkleTree n ret = some { ret with merkleTree := p.merkleTree } := by
  obtain ⟨found, hfind, hnone, hsome⟩ := dictFindType_entryIf h (ascii "merkle tree") .string 28 rfl rfl
  rw [readMerkleTree, BdecodeNode.dictFindString, hfind]
  by_cases hnil : p.merkleTree = []
  · rw [hnone (by simpa using hnil), hnil, ← hret]
    rfl
  · obtain ⟨m, rfl, hm⟩ := hsome (by simpa using hnil)
    obtain ⟨hlength, hmap⟩ := map_drop_flatten hp.merkle
    have hpos := List.length_pos_iff.mpr hnil
    simp only [Option.bind_eq_bind, Option.bind_some, hm.stringValue]
    rw [if_pos (by omega), hlength, Nat.mul_div_cancel_left _ (by omega), hmap]

theorem readHavePieces_eq (h : n.Holds (fun _ => info) (writeResumeData p)) (ret : ResumeParams) :
    readHavePieces n ret = some { ret with
      havePieces := extendBits p.havePieces (max p.havePieces.length p.verifiedPieces.length)
      verifiedPieces :=
        extendBits p.verifiedPieces (max p.havePieces.length p.verifiedPieces.length) } := by
  obtain ⟨m, hfind, hm⟩ := h.dictFindType_some .string
    (find?_resumeFields (ascii "pieces") 33 rfl) rfl
  obtain ⟨hhave, hverified⟩ := map_piecesString p
  rw [readHavePieces, BdecodeNode.dictFindString, hfind]
  simp only [Option.bind_eq_bind, Option.bind_some, hm.stringValue, hhave, hverified]

theorem readPiecePriorities_eq (h : n.Holds (fun _ => info) (writeResumeData p)) (ret : ResumeParams)
    (hret : ret.piecePriorities = []) :
    readPiecePriorities n ret
      = some { ret with piecePriorities := p.piecePriorities.map clampPriority } := by
  obtain ⟨found, hfind, hnone, hsome⟩ := dictFindType_entryIf h (ascii "piece_priority") .string 46 rfl rfl
  rw [readPiecePriorities, BdecodeNode.dictFindString, hfind]
  by_cases hnil : p.piecePriorities = []
  · rw [hnone (by simpa using hnil), hnil, List.map_nil, ← hret]
    rfl
  · obtain ⟨m, rfl, hm⟩ := hsome (by simpa using hnil)
    simp only [Option.bind_eq_bind, Option.bind_some, hm.stringValue]

/-- An unfinished piece that was written. -/
theorem readUnfinishedPiece_eq {m : BdecodeNode} {piece : Int × List Bool}
    (h : m.Holds (fun _ => info) (unfinishedPiece piece)) (hmin : -2 ^ 31 ≤ piece.1)
    (hmax : piece.1 < 2 ^ 31) (pieces : List (Int × List Bool)) :
    readUnfinishedPiece m pieces = some (readPiece piece pieces) := by
  obtain ⟨offset, hat⟩ := id h
  have htype : ¬ m.type ≠ some .dict := not_not.mpr hat.type
  have hfields : OrderedMap.find? (ascii "piece") (OrderedMap.ofList
        [(ascii "piece", Entry.integer piece.1), (ascii "bitmask", .string (Bits.pack piece.2))])
          = some (.integer piece.1) ∧
      OrderedMap.find? (ascii "bitmask") (OrderedMap.ofList
        [(ascii "piece", Entry.integer piece.1), (ascii "bitmask", .string (Bits.pack piece.2))])
          = some (.string (Bits.pack piece.2)) :=
    ⟨OrderedMap.find?_ofList (by simp only [List.map_cons, List.map_nil]; decide) (by simp),
      OrderedMap.find?_ofList (by simp only [List.map_cons, List.map_nil]; decide) (by simp)⟩
  obtain ⟨b, hfind, hb⟩ := h.dictFindType_some .string hfields.2 rfl
  rw [readUnfinishedPiece, if_neg htype, h.dictFindIntValue hfields.1 (by omega) (by omega),
    BdecodeNode.dictFindString, hfind]
  simp only [Option.bind_eq_bind, Option.bind_some, toInt32_eq hmin hmax, hb.stringValue, readPiece]
  by_cases hneg : piece.1 < 0
  · rw [if_pos hneg, if_pos hneg]
  · rw [if_neg hneg, if_neg hneg, Bits.length_pack]
    by_cases hnil : piece.2 = []
    · rw [if_pos hnil, if_pos (by rw [hnil]; rfl)]
    · have hpos := List.length_pos_iff.mpr hnil
      rw [if_neg hnil, if_neg (by omega), Bits.unpack_pack, paddedBits]

theorem readUnfinished_eq (h : n.Holds (fun _ => info) (writeResumeData p))
    (hp : p.Storable sha1 parseInfoSection info) (ret : ResumeParams)
    (hret : ret.unfinishedPieces = []) :
    readUnfinished n ret = some { ret with unfinishedPieces := restoredPieces p } := by
  obtain ⟨found, hfind, hnone, hsome⟩ := dictFindType_entryIf h (ascii "unfinished") .list 29 rfl rfl
  rw [readUnfinished, BdecodeNode.dictFindList, hfind]
  by_cases hnil : p.unfinishedPieces = []
  · rw [hnone (by simpa using hnil), restoredPieces, hnil, List.filter_nil, List.map_nil, ← hret]
    rfl
  · obtain ⟨m, rfl, hm⟩ := hsome (by simpa using hnil)
    simp only [Option.bind_eq_bind, Option.bind_some]
    rw [hm.eachEntry readPiece fun piece hpiece k m' acc hm' => readUnfinishedPiece_eq hm'
      (hp.pieces piece hpiece).1 (hp.pieces piece hpiece).2 acc, hret,
      foldl_readPiece hp.unfinished]
    rfl

/-! ## Peers -/

theorem flatMap_ofVersion (isV6 : Bool) (es : List Endpoint) :
    (ofVersion isV6 es).flatMap writeEndpoint
      = es.flatMap fun e => if e.isV6 = isV6 then writeEndpoint e else [] := by
  induction es with
  | nil => rfl
  | cons e es ih =>
      unfold ofVersion at ih ⊢
      by_cases hv : e.isV6 = isV6
      · rw [List.filter_cons_of_pos (by simpa using hv), List.flatMap_cons, List.flatMap_cons, ih,
          if_pos hv]
      · rw [List.filter_cons_of_neg (by simpa using hv), List.flatMap_cons, ih, if_neg hv]
        rfl

theorem isV6_of_mem_ofVersion {isV6 : Bool} {es : List Endpoint} {e : Endpoint}
    (h : e ∈ ofVersion isV6 es) : e.isV6 = isV6 := by
  simpa using (List.mem_filter.mp h).2

/-- The endpoints of one version, from the string that was written for them. -/
theorem readEndpoints_eq (h : n.Holds (fun _ => info) (writeResumeData p)) (key : Bytes) (i : Nat)
    (isV6 : Bool) {es : List Endpoint} {size late : Nat} {read : Bytes → Option Endpoint}
    (hi : (resumeFields p)[i]? = some (key, entryIf (es ≠ [])
      (.string (es.flatMap fun e => if e.isV6 = isV6 then writeEndpoint e else []))))
    (hread : Reads isV6 size read) (hsize : 0 < size) (hlate : late ≤ 1) (peers : List Endpoint) :
    readEndpoints n key size (size - 1 + late) read peers
      = some (peers ++ if late = 0 then ofVersion isV6 es else (ofVersion isV6 es).dropLast) := by
  obtain ⟨found, hfind, hnone, hsome⟩ := dictFindType_entryIf h key .string i hi rfl
  rw [readEndpoints, BdecodeNode.dictFindString, hfind]
  by_cases hnil : es = []
  · rw [hnone (by simpa using hnil), hnil]
    simp [ofVersion]
  · obtain ⟨m, rfl, hm⟩ := hsome (by simpa using hnil)
    rw [← flatMap_ofVersion] at hm
    have hes : ∀ e ∈ ofVersion isV6 es, e.isV6 = isV6 := fun e he => isV6_of_mem_ofVersion he
    have hlength := length_flatMap_writeEndpoint hread hes
    have hle : (ofVersion isV6 es).length ≤ size * (ofVersion isV6 es).length :=
      Nat.le_mul_of_pos_left _ hsize
    simp only [Option.bind_eq_bind, Option.bind_some, hm.stringValue]
    rw [endpointLoop_eq hread hsize hes hlate (by rw [hlength]; omega) (by rw [hlength]; omega)]
    rfl

theorem readPeers_eq (h : n.Holds (fun _ => info) (writeResumeData p)) (ret : ResumeParams)
    (hpeers : ret.peers = []) (hbanned : ret.bannedPeers = []) :
    readPeers n ret = some { ret with
      peers := ofVersion false p.peers ++ ofVersion true p.peers
      bannedPeers := (ofVersion false p.bannedPeers).dropLast ++ ofVersion true p.bannedPeers } := by
  have h4 : ∀ es : List Endpoint, (es.flatMap fun e => if e.isV6 then [] else writeEndpoint e)
      = es.flatMap fun e => if e.isV6 = false then writeEndpoint e else [] := by
    intro es
    refine congrArg (es.flatMap ·) (funext fun e => ?_)
    cases e <;> rfl
  have h₁ := readEndpoints_eq h (ascii "peers") 35 false (by rw [← h4]; rfl) reads_v4
    (by omega) (Nat.zero_le 1) []
  have h₂ := readEndpoints_eq h (ascii "peers6") 36 true rfl reads_v6
    (by omega) (Nat.zero_le 1) (ofVersion false p.peers)
  have h₃ := readEndpoints_eq h (ascii "banned_peers") 37 false (by rw [← h4]; rfl) reads_v4
    (by omega) (Nat.le_refl 1) []
  have h₄ := readEndpoints_eq h (ascii "banned_peers6") 38 true rfl reads_v6
    (by omega) (Nat.zero_le 1) (ofVersion false p.bannedPeers).dropLast
  simp only [Nat.reduceSub, Nat.add_zero, Nat.reduceAdd, if_true, Nat.one_ne_zero, if_false,
    List.nil_append] at h₁ h₂ h₃ h₄
  simp only [readPeers, Option.bind_eq_bind, Option.bind_some, hpeers, hbanned, h₁, h₂, h₃, h₄]

/-! ## The whole -/

theorem readInfo_eq (h : n.Holds (fun _ => info) (writeResumeData p))
    (hp : p.Storable sha1 parseInfoSection info) (ret : ResumeParams)
    (hhash : ret.infoHash = p.infoHash) (hret : ret.ti = none) :
    readInfo sha1 parseInfoSection n ret = some ({ ret with ti := p.ti }, none) := by
  cases hti : p.ti with
  | none =>
      have hnone : OrderedMap.find? (ascii "info")
          (OrderedMap.ofList (setFields (resumeFields p))) = none :=
        find?_resumeFields _ 24 (by rw [resumeFields, hti]; rfl)
      rw [readInfo, BdecodeNode.dictFindDict, h.dictFindType_none .dict hnone, ← hret]
      rfl
  | some ti =>
      obtain ⟨hvalid, hsha1, hparse, hrender, -, htype⟩ := hp.metadata ti hti
      obtain ⟨hmin, hmax⟩ := hp.creationDate ti hti
      have hinfo : OrderedMap.find? (ascii "info")
          (OrderedMap.ofList (setFields (resumeFields p))) = some (.preformatted ti.metadata) :=
        find?_resumeFields _ 24 (by rw [resumeFields, hti]; rfl)
      obtain ⟨m, hfind, offset, hat⟩ := h.dictFindType_some .dict hinfo htype
      have hsection : m.dataSection = some ti.metadata := by
        rw [hat.dataSection]
        exact congrArg some hrender
      have hcomment := dictFindStringValue_entryIf h (ascii "comment") ti.comment 25
        (by rw [resumeFields, hti]; rfl)
      have hcreator := dictFindStringValue_entryIf h (ascii "created by") ti.creator 27
        (by rw [resumeFields, hti]; rfl)
      -- a date of 0 is not written, and 0 is what a missing one is read as
      have hdate : n.dictFindIntValue (ascii "creation date") = some ti.creationDate := by
        have hfield : (resumeFields p)[26]? = some (ascii "creation date",
            entryIf (ti.creationDate ≠ 0) (.integer ti.creationDate)) := by
          rw [resumeFields, hti]
          rfl
        obtain ⟨found, hfound, hnone, hsome⟩ := dictFindType_entryIf h _ .integer 26 hfield rfl
        rw [BdecodeNode.dictFindIntValue, BdecodeNode.dictFindInt, hfound]
        by_cases hzero : ti.creationDate = 0
        · rw [hnone (by simpa using hzero), hzero]
          rfl
        · obtain ⟨m', rfl, hm'⟩ := hsome (by simpa using hzero)
          exact hm'.intValue hmin hmax
      simp only [readInfo, BdecodeNode.dictFindDict, Option.bind_eq_bind, Option.bind_some, hfind,
        hsection, hsha1, hhash, if_true, hparse, hdate, hcreator, hcomment, hvalid.symm]

theorem readFields_eq (h : n.Holds (fun _ => info) (writeResumeData p))
    (hp : p.Storable sha1 parseInfoSection info) (ti : Option StoredInfo) (infoHash : Bytes)
    (allocate : Bool) :
    readFields n { ti := ti, infoHash := infoHash, storageModeAllocate := allocate }
      = some { restored p with ti := ti, infoHash := infoHash, storageModeAllocate := allocate } := by
  rw [readFields, readNumbers_eq h hp]
  simp only [Option.bind_eq_bind, Option.bind_some]
  rw [readFlags_eq h]
  simp only [Option.bind_some]
  rw [readPaths_eq h hp _ rfl]
  simp only [Option.bind_some]
  rw [readFilePriorities_eq h _ rfl]
  simp only [Option.bind_some]
  rw [readTrackers_eq h]
  simp only [Option.bind_some]
  rw [readWebSeeds_eq h _ rfl rfl]
  simp only [Option.bind_some]
  rw [readMerkleTree_eq h hp _ rfl]
  simp only [Option.bind_some]
  rw [readHavePieces_eq h]
  simp only [Option.bind_some]
  rw [readPiecePriorities_eq h _ rfl]
  simp only [Option.bind_some]
  rw [readPeers_eq h _ rfl rfl]
  simp only [Option.bind_some]
  rw [readUnfinished_eq h hp _ rfl]
  simp only [Option.bind_some, ResumeParams.addTrackers, List.nil_append, restored]
  -- what is left are the flags, which the readers change one after the other
  refine congrArg some ?_
  congr 1
  funext flag
  cases flag <;> simp only [restoredFlags] <;>
    cases p.filePriorities.all (fun prio => decide (prio ≠ 0)) <;>
    simp [Function.update, defaultFlags]

/-- **A decoded tree of resume data gives the parameters back**, as far as they are restored. -/
theorem readResumeNode_eq (h : n.Holds (fun _ => info) (writeResumeData p))
    (hp : p.Storable sha1 parseInfoSection info) :
    readResumeNode sha1 parseInfoSection n = some (restored p, none) := by
  obtain ⟨offset, hat⟩ := id h
  have htype : ¬ n.type ≠ some .dict := not_not.mpr hat.type
  obtain ⟨m, hfind, hm⟩ := h.dictFindType_some .string
    (find?_resumeFields (ascii "allocation") 3 rfl) rfl
  have hformat := h.dictFindStringValue (find?_resumeFields (ascii "file-format") 0 rfl) []
  have hhash := h.dictFindStringValue (find?_resumeFields (ascii "info-hash") 23 rfl) []
  have hname := h.dictFindStringValue_none (find?_name p) []
  have hmode : decide ((ascii (if p.storageModeAllocate then "allocate" else "sparse"))
      = ascii "allocate" ∨ (ascii (if p.storageModeAllocate then "allocate" else "sparse"))
      = ascii "full") = p.storageModeAllocate := by
    cases p.storageModeAllocate <;> decide
  rw [readResumeNode, if_neg htype, BdecodeNode.dictFindString, hfind]
  simp only [Option.bind_eq_bind, Option.bind_some, hm.stringValue, hmode, hformat, hhash, hname,
    hp.infoHash, ne_eq, not_true_eq_false, if_false]
  rw [readInfo_eq h hp { storageModeAllocate := p.storageModeAllocate, infoHash := p.infoHash } rfl rfl]
  simp only [Option.bind_some]
  rw [readFields_eq h hp]
  rfl

end

end BtDownloader
