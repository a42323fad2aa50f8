import BtDownloader.Torrent.ResumeData

set_option autoImplicit false

/-! # The fields of resume data

What is written of a field and read again, for the fields that are lists: trackers, renamed files,
unfinished pieces, endpoints, the bits of the pieces and the Merkle tree. The loops of
`read_resume_data` are folds over the entries here.
-/

namespace BtDownloader

open Bencoding

/-! ## Trackers -/

/-- The trackers with the tiers they are put into. -/
def assignTiers : List Bytes → List Int → Nat → List (Bytes × Nat)
  | [], _, _ => []
  | tr :: trs, tier :: tiers, _ => (tr, clampTier tier) :: assignTiers trs tiers (clampTier tier)
  | tr :: trs, [], tier => (tr, tier) :: assignTiers trs [] tier

/-- The trackers of one tier. -/
def inTier (trs : List (Bytes × Nat)) (tier : Nat) : List Bytes :=
  (trs.filter (·.2 = tier)).map Prod.fst

/-- A tier is written as a list if it has a tracker, or is the first one. -/
def usedTier (trs : List (Bytes × Nat)) (tier : Nat) : Bool := tier = 0 || inTier trs tier ≠ []

/-- What is read for some tiers: only lists count, and the first one has the number `k`. -/
def renumbered (trs : List (Bytes × Nat)) (tiers : List Nat) (k : Nat) : List (Bytes × Int) :=
  ((tiers.filter (usedTier trs)).zipIdx k).flatMap fun tier =>
    (inTier trs tier.1).map fun tr => (tr, (tier.2 : Int))

/-- The trackers with their tiers as they are read back: sorted by tier, and the tiers numbered
without gaps. -/
def restoredTrackers (p : ResumeParams) : List (Bytes × Int) :=
  if p.trackers = [] then []
  else renumbered (assignTiers p.trackers p.trackerTiers 0) (List.range 1025) 0

def tierEntry (trs : List (Bytes × Nat)) (tier : Nat) : Entry :=
  if usedTier trs tier then stringList (inTier trs tier) else .undefined

/-- The list that is written for the first tiers. -/
def tierEntries (trs : List (Bytes × Nat)) (length : Nat) : List Entry :=
  (List.range length).map (tierEntry trs)

theorem inTier_append (trs : List (Bytes × Nat)) (tr : Bytes) (tier tier' : Nat) :
    inTier (trs ++ [(tr, tier)]) tier'
      = if tier' = tier then inTier trs tier' ++ [tr] else inTier trs tier' := by
  unfold inTier
  rw [List.filter_append, List.map_append]
  by_cases h : tier' = tier
  · subst h
    rw [if_pos rfl, List.filter_cons_of_pos (by simp)]
    rfl
  · rw [if_neg h, List.filter_cons_of_neg (by simpa using Ne.symm h)]
    exact List.append_nil _

theorem inTier_eq_nil {trs : List (Bytes × Nat)} {tier : Nat} (h : ∀ tr ∈ trs, tr.2 ≠ tier) :
    inTier trs tier = [] := by
  rw [inTier, List.map_eq_nil_iff, List.filter_eq_nil_iff]
  intro tr htr
  simpa using h tr htr

theorem tierEntry_append (trs : List (Bytes × Nat)) (tr : Bytes) (tier tier' : Nat) :
    tierEntry (trs ++ [(tr, tier)]) tier' =
      if tier' = tier then .list ((tierEntry trs tier').asList ++ [.string tr])
      else tierEntry trs tier' := by
  unfold tierEntry usedTier
  rw [inTier_append]
  by_cases h : tier' = tier
  · subst h
    rw [if_pos rfl, if_pos rfl, if_pos (by simp)]
    by_cases hnil : inTier trs tier' = []
    · rw [hnil]
      by_cases hzero : tier' = 0 <;> simp [hzero, stringList, Entry.asList]
    · rw [if_pos (by simp [hnil])]
      simp [stringList, Entry.asList]
  · rw [if_neg h, if_neg h]

/-- A list of this length has a place for every tier. -/
structure Roomy (trs : List (Bytes × Nat)) (length : Nat) : Prop where
  pos : 0 < length
  le : length ≤ 1025
  lt : ∀ tr ∈ trs, tr.2 < length

theorem Roomy.append {trs : List (Bytes × Nat)} {length : Nat} (h : Roomy trs length) (tr : Bytes)
    {tier : Nat} (htier : tier ≤ 1024) :
    Roomy (trs ++ [(tr, tier)]) (length + (tier + 1 - length)) where
  pos := by have := h.pos; omega
  le := by have := h.le; omega
  lt := by
    intro x hx
    rcases List.mem_append.mp hx with hx | hx
    · have := h.lt x hx
      omega
    · obtain rfl := List.mem_singleton.mp hx
      dsimp only
      omega

theorem tierEntry_undefined {trs : List (Bytes × Nat)} {length tier : Nat} (h : Roomy trs length)
    (htier : length ≤ tier) : tierEntry trs tier = .undefined := by
  have hpos := h.pos
  have hnil : inTier trs tier = [] := inTier_eq_nil fun tr htr => by
    have := h.lt tr htr
    omega
  rw [tierEntry, usedTier, hnil, if_neg]
  simp only [ne_eq, not_true_eq_false, decide_false, Bool.or_false, decide_eq_true_eq]
  omega

/-- Entries that are added for tiers without a tracker are not defined. -/
theorem tierEntries_resize {trs : List (Bytes × Nat)} {length : Nat} (h : Roomy trs length)
    (more : Nat) :
    tierEntries trs length ++ List.replicate more Entry.undefined
      = tierEntries trs (length + more) := by
  rw [tierEntries, tierEntries, List.range_add, List.map_append, List.map_map]
  refine congrArg _ (List.ext_getElem (by simp) fun k h₁ h₂ => ?_)
  rw [List.getElem_replicate, List.getElem_map, List.getElem_range]
  exact (tierEntry_undefined h (Nat.le_add_right _ _)).symm

/-- A step of the loop over the trackers. -/
theorem addTracker_tierEntries {trs : List (Bytes × Nat)} {length : Nat} (h : Roomy trs length)
    (tr : Bytes) (tier : Nat) :
    addTracker tier tr (tierEntries trs length)
      = tierEntries (trs ++ [(tr, tier)]) (length + (tier + 1 - length)) := by
  have hlength : (tierEntries trs length).length = length := by simp [tierEntries]
  rw [addTracker, hlength, tierEntries_resize h]
  refine List.ext_getElem (by simp [tierEntries]) fun k h₁ h₂ => ?_
  rw [List.getElem_modify]
  simp only [tierEntries, List.getElem_map, List.getElem_range, tierEntry_append]
  by_cases hk : tier = k
  · rw [if_pos hk, if_pos hk.symm]
  · rw [if_neg hk, if_neg (Ne.symm hk)]

theorem clampTier_le (tier : Int) : clampTier tier ≤ 1024 := by
  unfold clampTier
  split <;> omega

/-- **The trackers are written tier by tier.** -/
theorem writeTrackers_tierEntries (trs : List Bytes) (tiers : List Int) {tier length : Nat}
    {done : List (Bytes × Nat)} (h : Roomy done length) (htier : tier ≤ 1024) :
    ∃ length', Roomy (done ++ assignTiers trs tiers tier) length' ∧
      writeTrackers trs tiers tier (tierEntries done length)
        = tierEntries (done ++ assignTiers trs tiers tier) length' := by
  induction trs, tiers, tier using assignTiers.induct generalizing done length with
  | case1 tiers tier => exact ⟨length, by simpa [assignTiers] using h,
      by simp [assignTiers, writeTrackers]⟩
  | case2 tr trs tier' tiers tier ih =>
      have hle := clampTier_le tier'
      rw [writeTrackers, addTracker_tierEntries h, assignTiers, List.append_cons]
      exact ih (h.append tr hle) hle
  | case3 tr trs tier ih =>
      rw [writeTrackers, addTracker_tierEntries h, assignTiers, List.append_cons]
      exact ih (h.append tr htier) htier

/-- What an entry of a tier is read as. -/
def asTracker (tier : Nat) : Entry → Option (Bytes × Int)
  | .string tr => some (tr, tier)
  | _ => none

theorem filterMap_asTracker (tier : Nat) (trs : List Bytes) :
    (trs.map Entry.string).filterMap (asTracker tier) = trs.map fun tr => (tr, (tier : Int)) := by
  rw [List.filterMap_map, show asTracker tier ∘ Entry.string = some ∘ fun tr => (tr, (tier : Int))
    from rfl, List.filterMap_eq_map]

/-- A step of the loop that reads the tiers. -/
def readTier (e : Entry) (read : List (Bytes × Int) × Nat) : List (Bytes × Int) × Nat :=
  match e with
  | .list es => (read.1 ++ es.filterMap (asTracker read.2), read.2 + 1)
  | _ => read

theorem readTier_tierEntry (trs : List (Bytes × Nat)) (tier : Nat)
    (read : List (Bytes × Int) × Nat) :
    readTier (tierEntry trs tier) read =
      if usedTier trs tier then
        (read.1 ++ (inTier trs tier).map fun tr => (tr, (read.2 : Int)), read.2 + 1)
      else read := by
  unfold tierEntry
  split
  · rw [stringList, readTier, filterMap_asTracker]
  · rfl

theorem foldl_readTier (trs : List (Bytes × Nat)) (tiers : List Nat) (read : List (Bytes × Int))
    (k : Nat) :
    ((tiers.map (tierEntry trs)).foldl (fun read e => readTier e read) (read, k)).1
      = read ++ renumbered trs tiers k := by
  induction tiers generalizing read k with
  | nil => simp [renumbered]
  | cons tier tiers ih =>
      rw [List.map_cons, List.foldl_cons, readTier_tierEntry]
      by_cases hused : usedTier trs tier = true
      · rw [if_pos hused, ih, renumbered, renumbered, List.filter_cons_of_pos hused,
          List.zipIdx_cons, List.flatMap_cons, List.append_assoc]
      · rw [if_neg hused, ih, renumbered, renumbered, List.filter_cons_of_neg hused]

/-- **The trackers that are read back.** -/
theorem foldl_readTier_writeTrackers (p : ResumeParams) :
    ((if p.trackers = [] then []
      else writeTrackers p.trackers p.trackerTiers 0 [.list []]).foldl
        (fun read e => readTier e read) ([], 0)).1 = restoredTrackers p := by
  unfold restoredTrackers
  split
  · rfl
  · have hroomy : Roomy [] 1 := ⟨by omega, by omega, by simp⟩
    obtain ⟨length, hlength, hwrite⟩ := writeTrackers_tierEntries p.trackers p.trackerTiers hroomy
      (Nat.zero_le 1024)
    rw [List.nil_append] at hlength hwrite
    rw [show [Entry.list []] = tierEntries [] 1 from rfl, hwrite, tierEntries, foldl_readTier,
      List.nil_append]
    -- the tiers behind the list have no tracker
    have hrange : List.range 1025 = List.range length ++ (List.range (1025 - length)).map (length + ·) := by
      rw [← List.range_add, Nat.add_sub_cancel' hlength.le]
    have hunused : ((List.range (1025 - length)).map (length + ·)).filter
        (usedTier (assignTiers p.trackers p.trackerTiers 0)) = [] := by
      rw [List.filter_eq_nil_iff]
      intro tier htier hused
      obtain ⟨j, -, rfl⟩ := List.mem_map.mp htier
      have := tierEntry_undefined hlength (Nat.le_add_right length j)
      rw [tierEntry, if_pos hused] at this
      cases this
    rw [renumbered, renumbered, hrange, List.filter_append, hunused, List.append_nil]

/-! ## Maps: renamed files and unfinished pieces -/

/-- The bits as they are read back, in whole bytes. -/
def paddedBits (bits : List Bool) : List Bool :=
  bits ++ List.replicate (8 * ((bits.length + 7) / 8) - bits.length) false

def restoredPieces (p : ResumeParams) : List (Int × List Bool) :=
  (p.unfinishedPieces.filter fun piece => decide (0 ≤ piece.1 ∧ piece.2 ≠ [])).map
    fun piece => (piece.1, paddedBits piece.2)

def restoredFiles (p : ResumeParams) : List (Int × Bytes) :=
  p.renamedFiles.filter fun file => decide (file.2 ≠ [])

/-- The entry of a file in a list that has one for each file. -/
def fileEntry (files : List (Int × Bytes)) (idx : Nat) : Entry :=
  match OrderedMap.find? (idx : Int) files with
  | some name => .string name
  | none => .undefined

theorem renameFile_map {files : List (Int × Bytes)} {length : Nat} {file : Int × Bytes}
    (hpos : 0 ≤ file.1) (hnew : file.1 ∉ files.map Prod.fst)
    (hlength : ∀ f ∈ files, f.1 < length) :
    renameFile ((List.range length).map (fileEntry files)) file
      = (List.range (length + (file.1.toNat + 1 - length))).map (fileEntry (files ++ [file])) := by
  refine List.ext_getElem (by simp [renameFile]) fun k h₁ h₂ => ?_
  have hcast : ((file.1.toNat : Nat) : Int) = file.1 := Int.toNat_of_nonneg hpos
  simp only [renameFile, List.getElem_set, List.getElem_map, List.getElem_range, fileEntry,
    OrderedMap.find?_append]
  -- the entry of the file itself, one that was there, or one that fills the gap
  by_cases hk : file.1.toNat = k
  · have hnone : OrderedMap.find? (k : Int) files = none := by
      refine OrderedMap.find?_eq_none fun key hkey => ?_
      rintro rfl
      rw [← hk, hcast] at hkey
      exact hnew hkey
    rw [if_pos hk, hnone, Option.none_or]
    simp only [OrderedMap.find?]
    rw [if_pos (by omega)]
  · have hsame : OrderedMap.find? (k : Int) [file] = none := by
      simp only [OrderedMap.find?]
      rw [if_neg (by omega)]
    rw [if_neg hk, hsame, Option.or_none]
    by_cases hlt : k < length
    · rw [List.getElem_append_left (by simpa using hlt)]
      simp [fileEntry]
    · rw [List.getElem_append_right (by simpa using hlt), List.getElem_replicate]
      have hnone : OrderedMap.find? (k : Int) files = none := by
        refine OrderedMap.find?_eq_none fun key hkey => ?_
        obtain ⟨f, hf, rfl⟩ := List.mem_map.mp hkey
        have := hlength f hf
        omega
      rw [hnone]

/-- **The renamed files are written at their indices.** -/
theorem foldl_renameFile {files : List (Int × Bytes)} (hsorted : OrderedMap.Sorted files)
    (hpos : ∀ f ∈ files, 0 ≤ f.1) :
    ∃ length : Nat, (∀ f ∈ files, f.1 < length) ∧
      files.foldl renameFile [] = (List.range length).map (fileEntry files) := by
  induction files using List.reverseRecOn with
  | nil => exact ⟨0, by simp, rfl⟩
  | append_singleton files file ih =>
      unfold OrderedMap.Sorted at hsorted
      rw [List.map_append, List.pairwise_append] at hsorted
      obtain ⟨hinit, -, hlt⟩ := hsorted
      obtain ⟨length, hlength, hfold⟩ := ih hinit fun f hf => hpos f (by simp [hf])
      refine ⟨length + (file.1.toNat + 1 - length), fun f hf => ?_, ?_⟩
      · rcases List.mem_append.mp hf with hf | hf
        · have := hlength f hf
          omega
        · obtain rfl := List.mem_singleton.mp hf
          omega
      · rw [List.foldl_append, List.foldl_cons, List.foldl_nil, hfold]
        refine renameFile_map (hpos file (by simp)) (fun hmem => ?_) hlength
        exact absurd (hlt file.1 hmem file.1 (by simp)) (by omega)

/-- A step of the loop that reads the renamed files. -/
def readFile (idx : Nat) (e : Entry) (files : List (Int × Bytes)) : List (Int × Bytes) :=
  match e with
  | .string name => if name = [] then files else OrderedMap.insert (idx : Int) name files
  | _ => files

theorem find?_readFile {files read : List (Int × Bytes)} (idx : Nat) (key : Int) :
    OrderedMap.find? key (readFile idx (fileEntry files idx) read) =
      if key = idx then
        ((OrderedMap.find? key files).filter fun name => decide (name ≠ [])).or
          (OrderedMap.find? key read)
      else OrderedMap.find? key read := by
  unfold readFile fileEntry
  by_cases hkey : key = idx
  · subst hkey
    rw [if_pos rfl]
    cases OrderedMap.find? (idx : Int) files with
    | none => simp
    | some name =>
        by_cases hname : name = []
        · subst hname
          simp [Option.filter_some]
        · simp [hname, Option.filter_some, OrderedMap.find?_insert]
  · rw [if_neg hkey]
    cases OrderedMap.find? (idx : Int) files with
    | none => rfl
    | some name =>
        dsimp only
        split
        · rfl
        · rw [OrderedMap.find?_insert, if_neg hkey]

theorem sorted_readFile {read : List (Int × Bytes)} (h : OrderedMap.Sorted read) (idx : Nat)
    (e : Entry) : OrderedMap.Sorted (readFile idx e read) := by
  unfold readFile
  split
  · split
    · exact h
    · exact OrderedMap.sorted_insert h
  · exact h

/-- **The renamed files that are read back.** -/
theorem foldl_readFile {p : ResumeParams} (hsorted : OrderedMap.Sorted p.renamedFiles)
    (hpos : ∀ f ∈ p.renamedFiles, 0 ≤ f.1) :
    (p.renamedFiles.foldl renameFile []).zipIdx.foldl (fun read e => readFile e.2 e.1 read) []
      = restoredFiles p := by
  obtain ⟨length, hlength, hfold⟩ := foldl_renameFile hsorted hpos
  rw [hfold]
  -- after the first `m` indices: in order, and the files below `m`
  have hread : ∀ m read, OrderedMap.Sorted read → ∀ k,
      OrderedMap.Sorted ((((List.range' k m).map (fileEntry p.renamedFiles)).zipIdx k).foldl
        (fun read e => readFile e.2 e.1 read) read) ∧
      ∀ key, OrderedMap.find? key ((((List.range' k m).map (fileEntry p.renamedFiles)).zipIdx k).foldl
        (fun read e => readFile e.2 e.1 read) read) =
        if (k : Int) ≤ key ∧ key < k + m then
          ((OrderedMap.find? key p.renamedFiles).filter fun name => decide (name ≠ [])).or
            (OrderedMap.find? key read)
        else OrderedMap.find? key read := by
    intro m
    induction m with
    | zero =>
        intro read hs k
        refine ⟨hs, fun key => ?_⟩
        rw [if_neg (by omega)]
        rfl
    | succ m ih =>
        intro read hs k
        rw [List.range'_succ, List.map_cons, List.zipIdx_cons, List.foldl_cons]
        obtain ⟨hs', hfind⟩ := ih _ (sorted_readFile hs k (fileEntry p.renamedFiles k)) (k + 1)
        refine ⟨hs', fun key => ?_⟩
        rw [hfind, find?_readFile]
        by_cases hkey : key = k
        · subst hkey
          rw [if_neg (by omega), if_pos rfl, if_pos (by omega)]
        · rw [if_neg hkey]
          by_cases hrange : (k : Int) ≤ key ∧ key < k + (m + 1 : Nat)
          · rw [if_pos hrange, if_pos (by omega)]
          · rw [if_neg hrange, if_neg (by omega)]
  obtain ⟨hs, hfind⟩ := hread length [] (by simp [OrderedMap.Sorted]) 0
  rw [List.range_eq_range']
  refine OrderedMap.ext_find? hs (OrderedMap.sorted_filter hsorted _) fun key => ?_
  rw [hfind key, restoredFiles,
    OrderedMap.find?_filter hsorted fun name : Bytes => decide (name ≠ [])]
  by_cases hkey : ((0 : Nat) : Int) ≤ key ∧ key < ((0 : Nat) : Int) + length
  · rw [if_pos hkey]
    simp [OrderedMap.find?]
  · have hnone : OrderedMap.find? key p.renamedFiles = none := by
      refine OrderedMap.find?_eq_none fun key' hkey' => ?_
      obtain ⟨f, hf, rfl⟩ := List.mem_map.mp hkey'
      have := hlength f hf
      have := hpos f hf
      omega
    rw [if_neg hkey, hnone]
    rfl

theorem sorted_restoredPieces {p : ResumeParams} (h : OrderedMap.Sorted p.unfinishedPieces) :
    OrderedMap.Sorted (restoredPieces p) := by
  have hfilter := OrderedMap.sorted_filter h fun piece : Int × List Bool =>
    decide (0 ≤ piece.1 ∧ piece.2 ≠ [])
  unfold OrderedMap.Sorted restoredPieces at *
  rwa [List.map_map]

/-- A step of the loop that reads the unfinished pieces: from an entry that was written for
`piece`. -/
def readPiece (piece : Int × List Bool) (pieces : List (Int × List Bool)) : List (Int × List Bool) :=
  if piece.1 < 0 then pieces
  else if piece.2 = [] then pieces
  else OrderedMap.insert piece.1 (paddedBits piece.2) pieces

/-- **The unfinished pieces that are read back.** -/
theorem foldl_readPiece {p : ResumeParams} (hsorted : OrderedMap.Sorted p.unfinishedPieces) :
    p.unfinishedPieces.foldl (fun pieces piece => readPiece piece pieces) [] = restoredPieces p := by
  rw [← OrderedMap.ofList_eq _ (sorted_restoredPieces hsorted), OrderedMap.ofList, restoredPieces,
    List.foldl_map, List.foldl_filter]
  refine List.foldl_ext _ _ _ fun pieces piece _ => ?_
  unfold readPiece
  by_cases hneg : piece.1 < 0
  · rw [if_pos hneg, if_neg]
    simp only [decide_eq_true_eq]
    omega
  · by_cases hnil : piece.2 = []
    · rw [if_neg hneg, if_pos hnil, if_neg]
      simp [hnil]
    · rw [if_neg hneg, if_neg hnil, if_pos]
      simp only [decide_eq_true_eq]
      exact ⟨by omega, hnil⟩

/-! ## Endpoints -/

theorem readPort_writePort (port : UInt16) :
    readPort (UInt8.ofNat (port.toNat / 256)) (UInt8.ofNat (port.toNat % 256)) = port := by
  have hlt : port.toNat < 2 ^ 16 := port.toNat_lt
  apply UInt16.toNat_inj.mp
  rw [readPort, UInt16.toNat_ofNat', UInt8.toNat_ofNat', UInt8.toNat_ofNat']
  omega

/-- An endpoint of one version has a fixed size, and is read back. -/
def Reads (isV6 : Bool) (size : Nat) (read : Bytes → Option Endpoint) : Prop :=
  ∀ e : Endpoint, e.isV6 = isV6 → (writeEndpoint e).length = size ∧
    ∀ rest, read (writeEndpoint e ++ rest) = some e

theorem reads_v4 : Reads false 6 readV4Endpoint := by
  intro e he
  cases e with
  | v6 address port => cases he
  | v4 a b c d port =>
      refine ⟨rfl, fun rest => ?_⟩
      show some (Endpoint.v4 a b c d (readPort _ _)) = _
      rw [readPort_writePort]

theorem readV6Endpoint_append {bytes : Bytes} (hlength : bytes.length = 16) (hi lo : UInt8)
    (rest : Bytes) :
    readV6Endpoint (bytes ++ hi :: lo :: rest) = some (.v6 ⟨bytes, hlength⟩ (readPort hi lo)) := by
  have htake : (bytes ++ hi :: lo :: rest).take 16 = bytes := List.take_left' hlength
  have hdrop : (bytes ++ hi :: lo :: rest).drop 16 = hi :: lo :: rest := List.drop_left' hlength
  unfold readV6Endpoint
  simp only [hdrop, htake, hlength, dite_true]

theorem reads_v6 : Reads true 18 readV6Endpoint := by
  intro e he
  cases e with
  | v4 a b c d port => cases he
  | v6 address port =>
      obtain ⟨bytes, hlength⟩ := address
      refine ⟨by simp [writeEndpoint, writePort, hlength], fun rest => ?_⟩
      rw [writeEndpoint, List.append_assoc]
      exact (readV6Endpoint_append hlength _ _ rest).trans (by rw [readPort_writePort])

variable {isV6 : Bool} {size : Nat} {read : Bytes → Option Endpoint}

theorem length_flatMap_writeEndpoint (hread : Reads isV6 size read) {es : List Endpoint}
    (hes : ∀ e ∈ es, e.isV6 = isV6) : (es.flatMap writeEndpoint).length = size * es.length := by
  induction es with
  | nil => rfl
  | cons e es ih =>
      rw [List.flatMap_cons, List.length_append, (hread e (hes e (by simp))).1,
        ih fun e' he' => hes e' (by simp [he']), List.length_cons, Nat.mul_succ]
      omega

/-- **The loop over endpoints.** `late` is how many bytes later than at the last byte of an endpoint it
looks for the next one. -/
theorem endpointLoop_eq (hread : Reads isV6 size read) (hsize : 0 < size) {es : List Endpoint}
    (hes : ∀ e ∈ es, e.isV6 = isV6) {length rounds i late : Nat} (hlate : late ≤ 1)
    (hi : i + size * es.length + 1 = length + size + late) (hrounds : es.length ≤ rounds) :
    endpointLoop size read length rounds i (es.flatMap writeEndpoint)
      = some (if late = 0 then es else es.dropLast) := by
  induction es generalizing rounds i with
  | nil =>
      rw [List.length_nil, Nat.mul_zero] at hi
      cases rounds with
      | zero => simp [endpointLoop]
      | succ rounds =>
          rw [endpointLoop, if_neg (by omega)]
          simp
  | cons e es ih =>
      rw [List.length_cons] at hi hrounds
      obtain ⟨rounds, rfl⟩ : ∃ r, rounds = r + 1 := ⟨rounds - 1, by omega⟩
      obtain ⟨hlength, hreadE⟩ := hread e (hes e (by simp))
      have hmul : size * (es.length + 1) = size * es.length + size := Nat.mul_succ _ _
      have htail := ih (fun e' he' => hes e' (by simp [he']))
        (show (i + size) + size * es.length + 1 = length + size + late by omega)
        (show es.length ≤ rounds by omega)
      rw [endpointLoop, List.flatMap_cons]
      by_cases hlast : late = 1 ∧ es = []
      · -- the last endpoint is missed
        obtain ⟨rfl, rfl⟩ := hlast
        rw [List.length_nil] at hi
        rw [if_neg (by omega)]
        simp
      -- another endpoint is read: the list goes on behind it
      · have hlt : i < length := by
          by_cases hlate0 : late = 0
          · omega
          · have hpos : 0 < es.length := List.length_pos_iff.mpr fun hnil => hlast ⟨by omega, hnil⟩
            have : size ≤ size * es.length := Nat.le_mul_of_pos_right _ hpos
            omega
        rw [if_pos hlt, hreadE]
        dsimp only [Option.bind_eq_bind, Option.bind_some]
        rw [List.drop_left' hlength, htail]
        by_cases hlate0 : late = 0
        · simp [hlate0]
        · have hne : es ≠ [] := fun hnil => hlast ⟨by omega, hnil⟩
          simp [hlate0, List.dropLast_cons_of_ne_nil hne]

/-! ## Pieces -/

theorem testBit_pieces (have_ verified : Bool) :
    (UInt8.ofNat (have_.toNat + 2 * verified.toNat)).toNat.testBit 0 = have_ ∧
      (UInt8.ofNat (have_.toNat + 2 * verified.toNat)).toNat.testBit 1 = verified := by
  revert have_ verified
  decide

/-- Bits for all pieces, of which the first are given. -/
def extendBits (bits : List Bool) (length : Nat) : List Bool :=
  (List.range length).map fun i => bits.getD i false

/-- **The bits of the pieces that are read back.** -/
theorem map_piecesString (p : ResumeParams) :
    (piecesString p).map (fun c => c.toNat.testBit 0)
        = extendBits p.havePieces (max p.havePieces.length p.verifiedPieces.length) ∧
      (piecesString p).map (fun c => c.toNat.testBit 1)
        = extendBits p.verifiedPieces (max p.havePieces.length p.verifiedPieces.length) := by
  unfold piecesString extendBits
  rw [List.map_map, List.map_map]
  exact ⟨List.map_congr_left fun i _ => (testBit_pieces _ _).1,
    List.map_congr_left fun i _ => (testBit_pieces _ _).2⟩

/-- **The Merkle tree is cut into its hashes again.** -/
theorem map_drop_flatten {hashes : List Bytes} (h : ∀ hash ∈ hashes, hash.length = 20) :
    hashes.flatten.length = 20 * hashes.length ∧
      (List.range hashes.length).map (fun k => (hashes.flatten.drop (20 * k)).take 20) = hashes := by
  induction hashes with
  | nil => exact ⟨rfl, rfl⟩
  | cons hash hashes ih =>
      have hhash := h hash (by simp)
      obtain ⟨hlength, hmap⟩ := ih fun hash' hmem => h hash' (by simp [hmem])
      refine ⟨by rw [List.flatten_cons, List.length_append, hlength, hhash, List.length_cons]; omega, ?_⟩
      rw [List.length_cons, List.range_succ_eq_map, List.map_cons, List.map_map]
      refine congrArg₂ _ (by simp [List.flatten_cons, List.take_left' hhash]) ?_
      refine Eq.trans (List.map_congr_left fun k _ => ?_) hmap
      simp only [Function.comp_apply, List.flatten_cons]
      rw [Nat.mul_succ, Nat.add_comm, ← List.drop_drop, List.drop_left' hhash]

end BtDownloader
