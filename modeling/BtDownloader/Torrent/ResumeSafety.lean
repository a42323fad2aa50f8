import BtDownloader.Torrent.ResumeRoundtrip

set_option autoImplicit false

/-! # Resume data from anywhere

The bytes that `read_resume_data` is given need not come from `write_resume_data`.
`readResumeData_spec`: whatever they are, it stays within the tokens and the buffer, and what it
returns is well formed.
-/

namespace BtDownloader

open Bencoding

/-! ## Lookups in any dictionary -/

theorem integerValue_bounds {text : Bytes} :
    -2 ^ 63 < integerValue text ∧ integerValue text < 2 ^ 63 := by
  rw [integerValue]
  generalize (if text.head? = some (byte '-') then text.tail else text) = digits
  unfold maxInt64
  by_cases hlarge : 2 ^ 63 - 1 < decimalValue digits
  · rw [if_pos hlarge]
    exact ⟨by norm_num, by norm_num⟩
  · rw [if_neg hlarge]
    split
    · exact ⟨by omega, by omega⟩
    · exact ⟨by omega, by omega⟩

theorem exists_sequence {i : Item} {dict : Bool} (h : itemType i = containerType dict) :
    ∃ is, i = .sequence dict is := by
  cases i with
  | integer text => cases dict <;> cases h
  | string length content => cases dict <;> cases h
  | sequence dict' is => cases dict <;> cases dict' <;> first | exact ⟨is, rfl⟩ | cases h

namespace BdecodeNode

variable {n : BdecodeNode} {is : List Item} {offset : Nat}

/-- What is found has the type that was asked for. -/
theorem dictFindType_spec (h : n.At (.sequence true is) offset) (type : TokenType) (key : Bytes) :
    ∃ found, n.dictFindType type key = some found ∧
      ∀ m ∈ found, ∃ i offset, BdecodeNode.At m i offset ∧ itemType i = type := by
  obtain ⟨found, hfound, hfinds⟩ := dictFindType_eq h type key
  refine ⟨found, hfound, fun m hm => ?_⟩
  obtain rfl := hm
  unfold Finds at hfinds
  cases hvalue : (OrderedMap.find? key (keyed is)).filter (itemType · = type) with
  | none =>
      rw [hvalue] at hfinds
      cases hfinds
  | some i =>
      rw [hvalue] at hfinds
      cases hfinds with
      | some hat =>
          obtain ⟨offset', hat⟩ := hat
          have := (Option.filter_eq_some_iff.mp hvalue).2
          exact ⟨i, offset', hat, by simpa using this⟩

theorem dictFindString_spec (h : n.At (.sequence true is) offset) (key : Bytes) :
    ∃ found, n.dictFindString key = some found ∧ ∀ m ∈ found, ∃ s, m.stringValue = some s := by
  obtain ⟨found, hfound, hm⟩ := dictFindType_spec h .string key
  refine ⟨found, hfound, fun m hmem => ?_⟩
  obtain ⟨i, offset', hat, htype⟩ := hm m hmem
  cases i with
  | integer text => cases htype
  | string length content => exact ⟨content, hat.stringValue⟩
  | sequence dict is => cases dict <;> cases htype

theorem dictFindInt_spec (h : n.At (.sequence true is) offset) (key : Bytes) :
    ∃ found, n.dictFindInt key = some found ∧
      ∀ m ∈ found, ∃ v, m.intValue = some v ∧ -2 ^ 63 < v ∧ v < 2 ^ 63 := by
  obtain ⟨found, hfound, hm⟩ := dictFindType_spec h .integer key
  refine ⟨found, hfound, fun m hmem => ?_⟩
  obtain ⟨i, offset', hat, htype⟩ := hm m hmem
  cases i with
  | integer text => exact ⟨_, hat.intValue, integerValue_bounds⟩
  | string length content => cases htype
  | sequence dict is => cases dict <;> cases htype

theorem dictFindList_spec (h : n.At (.sequence true is) offset) (key : Bytes) :
    ∃ found, n.dictFindList key = some found ∧
      ∀ m ∈ found, ∃ js offset, BdecodeNode.At m (.sequence false js) offset := by
  obtain ⟨found, hfound, hm⟩ := dictFindType_spec h .list key
  refine ⟨found, hfound, fun m hmem => ?_⟩
  obtain ⟨i, offset', hat, htype⟩ := hm m hmem
  obtain ⟨js, rfl⟩ := @exists_sequence i false htype
  exact ⟨js, offset', hat⟩

theorem dictFindDict_spec (h : n.At (.sequence true is) offset) (key : Bytes) :
    ∃ found, n.dictFindDict key = some found ∧ ∀ m ∈ found, ∃ s, m.dataSection = some s := by
  obtain ⟨found, hfound, hm⟩ := dictFindType_spec h .dict key
  refine ⟨found, hfound, fun m hmem => ?_⟩
  obtain ⟨i, offset', hat, -⟩ := hm m hmem
  exact ⟨_, hat.dataSection⟩

theorem dictFindStringValue_spec (h : n.At (.sequence true is) offset) (key default : Bytes) :
    ∃ s, n.dictFindStringValue key default = some s := by
  obtain ⟨found, hfound, hm⟩ := dictFindString_spec h key
  rw [dictFindStringValue, hfound]
  cases found with
  | none => exact ⟨default, rfl⟩
  | some m => exact hm m rfl

theorem dictFindIntValue_spec (h : n.At (.sequence true is) offset) (key : Bytes) {default : Int}
    (hmin : -2 ^ 63 < default) (hmax : default < 2 ^ 63) :
    ∃ v, n.dictFindIntValue key default = some v ∧ -2 ^ 63 < v ∧ v < 2 ^ 63 := by
  obtain ⟨found, hfound, hm⟩ := dictFindInt_spec h key
  rw [dictFindIntValue, hfound]
  cases found with
  | none => exact ⟨default, rfl, hmin, hmax⟩
  | some m => exact hm m rfl

theorem stringValueOrEmpty_spec {i : Item} (h : n.At i offset) :
    ∃ s, n.stringValueOrEmpty = some s := by
  rw [stringValueOrEmpty, h.type]
  cases i with
  | integer text => exact ⟨[], rfl⟩
  | string length content => exact ⟨content, h.stringValue⟩
  | sequence dict is => cases dict <;> exact ⟨[], rfl⟩

theorem intValueOr_spec {i : Item} (h : n.At i offset) (default : Int) :
    ∃ v, n.intValueOr default = some v := by
  rw [intValueOr, h.type]
  cases i with
  | integer text => exact ⟨_, h.intValue⟩
  | string length content => exact ⟨default, rfl⟩
  | sequence dict is => cases dict <;> exact ⟨default, rfl⟩

end BdecodeNode

/-! ## Well-formed parameters -/

/-- Parameters as `read_resume_data` returns them, once it knows the info-hash and the info
section: numbers within their types, priorities that exist, a tier for each tracker, hashes of 20
bytes. -/
structure ResumeParams.Sane (infoHash : Bytes) (ti : Option StoredInfo) (ret : ResumeParams) :
    Prop where
  infoHash : ret.infoHash = infoHash
  ti : ret.ti = ti
  int64 : ∀ v ∈ ret.int64s, -2 ^ 63 < v ∧ v < 2 ^ 63
  int32 : ∀ v ∈ ret.maxUploads :: ret.int32s, -2 ^ 31 ≤ v ∧ v < 2 ^ 31
  filePriorities : ∀ prio ∈ ret.filePriorities, prio ≤ 7
  piecePriorities : ∀ prio ∈ ret.piecePriorities, prio ≤ 7
  trackers : ret.trackerTiers.length = ret.trackers.length
  tiers : ∀ tier ∈ ret.trackerTiers, 0 ≤ tier
  seeds : ∀ url ∈ ret.urlSeeds ++ ret.httpSeeds, url ≠ []
  merkle : ∀ hash ∈ ret.merkleTree, hash.length = 20
  pieces : ret.havePieces.length = ret.verifiedPieces.length
  renamed : OrderedMap.Sorted ret.renamedFiles
  files : ∀ file ∈ ret.renamedFiles, 0 ≤ file.1 ∧ file.2 ≠ []
  unfinished : OrderedMap.Sorted ret.unfinishedPieces
  bitmasks : ∀ piece ∈ ret.unfinishedPieces, 0 ≤ piece.1 ∧ piece.1 < 2 ^ 31 ∧ piece.2 ≠ []

theorem ResumeParams.sane_init (storageModeAllocate : Bool) (name infoHash : Bytes)
    (ti : Option StoredInfo) :
    ({ storageModeAllocate, name, infoHash, ti } : ResumeParams).Sane infoHash ti where
  infoHash := rfl
  ti := rfl
  int64 := by simp [ResumeParams.int64s]
  int32 := by simp [ResumeParams.int32s]
  filePriorities := by simp
  piecePriorities := by simp
  trackers := rfl
  tiers := by simp
  seeds := by simp
  merkle := by simp
  pieces := rfl
  renamed := List.Pairwise.nil
  files := by simp
  unfinished := List.Pairwise.nil
  bitmasks := by simp

/-- A reader that does not fail and keeps parameters well formed. -/
def ReadsSanely (read : ResumeParams → Option ResumeParams) : Prop :=
  ∀ infoHash ti ret, ret.Sane infoHash ti → ∃ ret', read ret = some ret' ∧ ret'.Sane infoHash ti

theorem ReadsSanely.bind {f g : ResumeParams → Option ResumeParams} (hf : ReadsSanely f)
    (hg : ReadsSanely g) : ReadsSanely fun ret => f ret >>= g := by
  intro infoHash ti ret hret
  obtain ⟨ret', hread, hret'⟩ := hf infoHash ti ret hret
  obtain ⟨ret'', hread', hret''⟩ := hg infoHash ti ret' hret'
  exact ⟨ret'', by simp only [Option.bind_eq_bind, hread, Option.bind_some, hread'], hret''⟩

theorem toInt32_bounds (v : Int) : -2 ^ 31 ≤ toInt32 v ∧ toInt32 v < 2 ^ 31 := by
  unfold toInt32
  have := @Int.le_bmod v (2 ^ 32) (by norm_num)
  have := @Int.bmod_lt v (2 ^ 32) (by norm_num)
  omega

theorem clampPriority_le (c : UInt8) : clampPriority c ≤ 7 := by
  unfold clampPriority
  exact min_le_right _ _

section

variable {rd : BdecodeNode} {is : List Item} {offset : Nat}

/-! ## Numbers and flags -/

theorem readNumbers_sane (h : rd.At (.sequence true is) offset) : ReadsSanely (readNumbers rd) := by
  intro infoHash ti ret hret
  have hfind : ∀ key default, -2 ^ 63 < default → default < 2 ^ 63 → ∃ v,
      rd.dictFindIntValue key default = some v ∧ -2 ^ 63 < v ∧ v < 2 ^ 63 := fun key default =>
    BdecodeNode.dictFindIntValue_spec h key
  -- every number is there or has its default, and its digits fit 64 bits
  have hzero := fun key => hfind key 0 (by norm_num) (by norm_num)
  have hminus := fun key => hfind key (-1) (by norm_num) (by norm_num)
  obtain ⟨totalUploaded, h₁, g₁⟩ := hzero (ascii "total_uploaded")
  obtain ⟨totalDownloaded, h₂, g₂⟩ := hzero (ascii "total_downloaded")
  obtain ⟨activeTime, h₃, -⟩ := hzero (ascii "active_time")
  obtain ⟨finishedTime, h₄, -⟩ := hzero (ascii "finished_time")
  obtain ⟨seedingTime, h₅, -⟩ := hzero (ascii "seeding_time")
  obtain ⟨lastSeenComplete, h₆, g₆⟩ := hzero (ascii "last_seen_complete")
  obtain ⟨lastDownload, h₇, g₇⟩ := hzero (ascii "last_download")
  obtain ⟨lastUpload, h₈, g₈⟩ := hzero (ascii "last_upload")
  obtain ⟨numComplete, h₉, -⟩ := hminus (ascii "num_complete")
  obtain ⟨numIncomplete, h₁₀, -⟩ := hminus (ascii "num_incomplete")
  obtain ⟨numDownloaded, h₁₁, -⟩ := hminus (ascii "num_downloaded")
  obtain ⟨maxUploads, h₁₂, -⟩ := hminus (ascii "max_uploads")
  obtain ⟨maxConnections, h₁₃, -⟩ := hminus (ascii "max_connections")
  obtain ⟨uploadLimit, h₁₄, -⟩ := hminus (ascii "upload_rate_limit")
  obtain ⟨downloadLimit, h₁₅, -⟩ := hminus (ascii "download_rate_limit")
  refine ⟨{ ret with
    totalUploaded := totalUploaded
    totalDownloaded := totalDownloaded
    activeTime := toInt32 activeTime
    finishedTime := toInt32 finishedTime
    seedingTime := toInt32 seedingTime
    lastSeenComplete := lastSeenComplete
    lastDownload := lastDownload
    lastUpload := lastUpload
    numComplete := toInt32 numComplete
    numIncomplete := toInt32 numIncomplete
    numDownloaded := toInt32 numDownloaded
    maxUploads := toInt32 maxUploads
    maxConnections := toInt32 maxConnections
    uploadLimit := toInt32 uploadLimit
    downloadLimit := toInt32 downloadLimit }, ?_, { hret with int64 := ?_, int32 := ?_ }⟩
  · rw [readNumbers, h₁, h₂, h₃, h₄, h₅, h₆, h₇, h₈, h₉, h₁₀, h₁₁, h₁₂, h₁₃, h₁₄, h₁₅]
    rfl
  -- the two times that are read elsewhere are as they were
  · have hold := hret.int64
    simp only [ResumeParams.int64s, List.forall_mem_cons] at hold ⊢
    obtain ⟨-, -, -, -, -, hadded, hcompleted, -⟩ := hold
    exact ⟨g₁, g₂, g₆, g₇, g₈, hadded, hcompleted, by simp⟩
  · simp only [ResumeParams.int32s, List.forall_mem_cons]
    exact ⟨toInt32_bounds _, toInt32_bounds _, toInt32_bounds _, toInt32_bounds _, toInt32_bounds _,
      toInt32_bounds _, toInt32_bounds _, toInt32_bounds _, toInt32_bounds _, toInt32_bounds _,
      by simp⟩

theorem applyFlag_isSome (h : rd.At (.sequence true is) offset) (name : Bytes) (flag : TorrentFlag)
    (flags : TorrentFlags) : ∃ flags', applyFlag rd name flag flags = some flags' := by
  obtain ⟨v, hv, -⟩ := @BdecodeNode.dictFindIntValue_spec rd is offset h name 0 (by norm_num)
    (by norm_num)
  exact ⟨_, by rw [applyFlag, hv]; rfl⟩

theorem readFlags_sane (h : rd.At (.sequence true is) offset) : ReadsSanely (readFlags rd) := by
  intro infoHash ti ret hret
  obtain ⟨flags₁, h₁⟩ := applyFlag_isSome h (ascii "seed_mode") .seedMode ret.flags
  obtain ⟨flags₂, h₂⟩ := applyFlag_isSome h (ascii "super_seeding") .superSeeding flags₁
  obtain ⟨flags₃, h₃⟩ := applyFlag_isSome h (ascii "auto_managed") .autoManaged flags₂
  obtain ⟨flags₄, h₄⟩ := applyFlag_isSome h (ascii "sequential_download") .sequentialDownload flags₃
  obtain ⟨flags₅, h₅⟩ := applyFlag_isSome h (ascii "paused") .paused flags₄
  refine ⟨{ ret with flags := flags₅ }, ?_, { hret with }⟩
  simp only [readFlags, Option.bind_eq_bind, h₁, h₂, h₃, h₄, h₅, Option.bind_some]

/-! ## Lists -/

/-- A loop over a list that may be missing. -/
theorem findList_spec {α : Type} (h : rd.At (.sequence true is) offset) (key : Bytes)
    {f : Nat → BdecodeNode → α → Option α} {P : α → Prop}
    (hf : ∀ k i m offset acc, BdecodeNode.At m i offset → P acc →
      ∃ acc', f k m acc = some acc' ∧ P acc') :
    ∃ found, rd.dictFindList key = some found ∧
      ∀ m ∈ found, ∀ acc, P acc → ∃ acc', m.eachItem f acc = some acc' ∧ P acc' := by
  obtain ⟨found, hfound, hm⟩ := BdecodeNode.dictFindList_spec h key
  refine ⟨found, hfound, fun m hmem acc hacc => ?_⟩
  obtain ⟨js, offset', hat⟩ := hm m hmem
  exact @BdecodeNode.eachItem_spec m js offset' α f (fun _ => P) hat
    (fun k i _ m offset acc hm hP => hf k i m offset acc hm hP) acc hacc

theorem readFilename_spec {m : BdecodeNode} {i : Item} (h : m.At i offset) (k : Nat)
    {renamed : List (Int × Bytes)}
    (hrenamed : OrderedMap.Sorted renamed ∧ ∀ file ∈ renamed, 0 ≤ file.1 ∧ file.2 ≠ []) :
    ∃ renamed', readFilename k m renamed = some renamed' ∧
      OrderedMap.Sorted renamed' ∧ ∀ file ∈ renamed', 0 ≤ file.1 ∧ file.2 ≠ [] := by
  obtain ⟨s, hs⟩ := BdecodeNode.stringValueOrEmpty_spec h
  rw [readFilename, hs]
  dsimp only [Option.bind_eq_bind, Option.bind_some]
  split
  · exact ⟨renamed, rfl, hrenamed⟩
  · rename_i hne
    refine ⟨_, rfl, OrderedMap.sorted_insert hrenamed.1, fun file hfile => ?_⟩
    rcases OrderedMap.mem_insert hfile with rfl | hold
    · exact ⟨Int.natCast_nonneg k, hne⟩
    · exact hrenamed.2 file hold

theorem readPaths_sane (h : rd.At (.sequence true is) offset) : ReadsSanely (readPaths rd) := by
  intro infoHash ti ret hret
  obtain ⟨savePath, h₁⟩ := BdecodeNode.dictFindStringValue_spec h (ascii "save_path") []
  obtain ⟨url, h₂⟩ := BdecodeNode.dictFindStringValue_spec h (ascii "url") []
  obtain ⟨uuid, h₃⟩ := BdecodeNode.dictFindStringValue_spec h (ascii "uuid") []
  obtain ⟨found, h₄, hfound⟩ := findList_spec h (ascii "mapped_files") fun k i m offset acc hm hP =>
    readFilename_spec hm k hP
  obtain ⟨addedTime, h₅, g₅⟩ := @BdecodeNode.dictFindIntValue_spec rd is offset h
    (ascii "added_time") 0 (by norm_num) (by norm_num)
  obtain ⟨completedTime, h₆, g₆⟩ := @BdecodeNode.dictFindIntValue_spec rd is offset h
    (ascii "completed_time") 0 (by norm_num) (by norm_num)
  -- the names of the files are kept in order, whether the list is there or not
  have hrenamed : ∃ renamed,
      found.elim (some ret.renamedFiles) (·.eachItem readFilename ret.renamedFiles) = some renamed ∧
        OrderedMap.Sorted renamed ∧ ∀ file ∈ renamed, 0 ≤ file.1 ∧ file.2 ≠ [] := by
    cases found with
    | none => exact ⟨_, rfl, hret.renamed, hret.files⟩
    | some m => exact hfound m rfl _ ⟨hret.renamed, hret.files⟩
  obtain ⟨renamed, hread, hsorted, hfiles⟩ := hrenamed
  refine ⟨{ ret with
    savePath := savePath
    url := url
    uuid := uuid
    renamedFiles := renamed
    addedTime := addedTime
    completedTime := completedTime }, ?_, { hret with
      int64 := ?_
      renamed := hsorted
      files := hfiles }⟩
  · rw [readPaths, h₁, h₂, h₃, h₄, h₅, h₆]
    cases found with
    | none =>
        obtain rfl := Option.some.inj hread
        rfl
    | some files =>
        dsimp only [Option.elim_some] at hread
        simp only [Option.bind_eq_bind, Option.bind_some, hread]
  · have hold := hret.int64
    simp only [ResumeParams.int64s, List.forall_mem_cons] at hold ⊢
    obtain ⟨k₁, k₂, k₃, k₄, k₅, -⟩ := hold
    exact ⟨k₁, k₂, k₃, k₄, k₅, g₅, g₆, by simp⟩

/-- A reader that is a loop over a list, if there is one. -/
theorem sane_of_eachItem (h : rd.At (.sequence true is) offset) (key : Bytes)
    {f : Nat → BdecodeNode → ResumeParams → Option ResumeParams}
    {read : ResumeParams → Option ResumeParams} {start : ResumeParams → ResumeParams}
    (hf : ∀ k i m offset, BdecodeNode.At m i offset → ReadsSanely (f k m))
    (hstart : ∀ infoHash ti ret, ret.Sane infoHash ti → (start ret).Sane infoHash ti)
    (hread : ∀ ret, read ret = do
      match ← rd.dictFindList key with
      | none => some ret
      | some list => list.eachItem f (start ret)) : ReadsSanely read := by
  intro infoHash ti ret hret
  obtain ⟨found, hfound, hloop⟩ := @findList_spec rd is offset ResumeParams h key f
    (ResumeParams.Sane infoHash ti) fun k i m offset acc hm hP => hf k i m offset hm infoHash ti acc hP
  rw [hread, hfound]
  cases found with
  | none => exact ⟨ret, rfl, hret⟩
  | some list => exact hloop list rfl _ (hstart infoHash ti ret hret)

theorem readFilePriority_sane {m : BdecodeNode} {i : Item} (h : m.At i offset) :
    ReadsSanely (readFilePriority m) := by
  intro infoHash ti ret hret
  obtain ⟨v, hv⟩ := BdecodeNode.intValueOr_spec h 4
  rw [readFilePriority, hv]
  refine ⟨_, rfl, { hret with filePriorities := fun prio hprio => ?_ }⟩
  rcases List.mem_append.mp hprio with hold | hnew
  · exact hret.filePriorities prio hold
  · obtain rfl := List.mem_singleton.mp hnew
    exact clampPriority_le _

theorem readFilePriorities_sane (h : rd.At (.sequence true is) offset) :
    ReadsSanely (readFilePriorities rd) :=
  @sane_of_eachItem rd is offset h (ascii "file_priority") _ _
    (fun ret => { ret with filePriorities := [] }) (fun _ _ _ _ hm => readFilePriority_sane hm)
    (fun _ _ _ hret => { hret with filePriorities := by simp }) fun _ => rfl

/-! ## Trackers and web seeds -/

theorem readTracker_sane {m : BdecodeNode} {i : Item} (h : m.At i offset) (tier : Nat) :
    ReadsSanely (readTracker tier m) := by
  intro infoHash ti ret hret
  obtain ⟨s, hs⟩ := BdecodeNode.stringValueOrEmpty_spec h
  rw [readTracker, hs]
  refine ⟨_, rfl, { hret with trackers := ?_, tiers := fun t ht => ?_ }⟩
  · simp [hret.trackers]
  · rcases List.mem_append.mp ht with hold | hnew
    · exact hret.tiers t hold
    · obtain rfl := List.mem_singleton.mp hnew
      exact Int.natCast_nonneg tier

theorem readTierList_spec {m : BdecodeNode} {i : Item} (h : m.At i offset) {infoHash : Bytes}
    {ti : Option StoredInfo} {ret : ResumeParams × Nat} (hret : ret.1.Sane infoHash ti) :
    ∃ ret', readTierList m ret = some ret' ∧ ret'.1.Sane infoHash ti := by
  unfold readTierList
  by_cases htype : m.type = some .list
  · rw [if_neg (by simpa using htype)]
    rw [h.type, Option.some.injEq] at htype
    obtain ⟨js, rfl⟩ := @exists_sequence i false htype
    obtain ⟨params, hparams, hsane⟩ := @BdecodeNode.eachItem_spec m js offset _
      (fun _ item params => readTracker ret.2 item params)
      (fun _ => ResumeParams.Sane infoHash ti) h
      (fun _ _ _ _ _ acc hm hP => readTracker_sane hm ret.2 infoHash ti acc hP) ret.1 hret
    exact ⟨(params, ret.2 + 1), by rw [hparams]; rfl, hsane⟩
  · rw [if_pos htype]
    exact ⟨ret, rfl, hret⟩

theorem readTrackers_sane (h : rd.At (.sequence true is) offset) : ReadsSanely (readTrackers rd) := by
  intro infoHash ti ret hret
  obtain ⟨found, hfound, hloop⟩ := @findList_spec rd is offset (ResumeParams × Nat) h
    (ascii "trackers") (fun _ tierList ret => readTierList tierList ret)
    (fun ret => ret.1.Sane infoHash ti) fun _ _ _ _ _ hm hP => readTierList_spec hm hP
  rw [readTrackers, hfound]
  cases found with
  | none => exact ⟨ret, rfl, hret⟩
  | some trackers =>
      obtain ⟨ret', hread, hret'⟩ := hloop trackers rfl
        ({ ret with flags := Function.update ret.flags .overrideTrackers true }, 0) { hret with }
      exact ⟨ret'.1, by simp only [Option.bind_eq_bind, Option.bind_some, hread], hret'⟩

theorem readSeeds_spec (h : rd.At (.sequence true is) offset) (key : Bytes) :
    ∃ found, rd.dictFindList key = some found ∧ ∀ m ∈ found, ∀ seeds : List Bytes,
      (∀ url ∈ seeds, url ≠ []) → ∃ seeds', readSeeds m seeds = some seeds' ∧ ∀ url ∈ seeds', url ≠ [] := by
  refine findList_spec h key fun _ i m offset' seeds hm hseeds => ?_
  obtain ⟨s, hs⟩ := BdecodeNode.stringValueOrEmpty_spec hm
  rw [readSeed, hs]
  dsimp only [Option.bind_eq_bind, Option.bind_some]
  split
  · exact ⟨seeds, rfl, hseeds⟩
  · rename_i hne
    refine ⟨_, rfl, fun url hurl => ?_⟩
    rcases List.mem_append.mp hurl with hold | hnew
    · exact hseeds url hold
    · exact List.mem_singleton.mp hnew ▸ hne

theorem readWebSeeds_sane (h : rd.At (.sequence true is) offset) : ReadsSanely (readWebSeeds rd) := by
  intro infoHash ti ret hret
  obtain ⟨urlList, h₁, hurl⟩ := readSeeds_spec h (ascii "url-list")
  obtain ⟨httpseeds, h₂, hhttp⟩ := readSeeds_spec h (ascii "httpseeds")
  have hold : (∀ url ∈ ret.urlSeeds, url ≠ []) ∧ ∀ url ∈ ret.httpSeeds, url ≠ [] :=
    List.forall_mem_append.mp hret.seeds
  -- either list may be missing, and an empty URL in it is skipped
  have hread : ∀ (found : Option BdecodeNode) (seeds : List Bytes),
      (∀ m ∈ found, ∀ seeds : List Bytes, (∀ url ∈ seeds, url ≠ []) →
        ∃ seeds', readSeeds m seeds = some seeds' ∧ ∀ url ∈ seeds', url ≠ []) →
      (∀ url ∈ seeds, url ≠ []) → ∃ seeds',
        found.elim (some seeds) (readSeeds · seeds) = some seeds' ∧ ∀ url ∈ seeds', url ≠ [] := by
    intro found seeds hfound hseeds
    cases found with
    | none => exact ⟨seeds, rfl, hseeds⟩
    | some m => exact hfound m rfl seeds hseeds
  obtain ⟨urlSeeds, g₁, k₁⟩ := hread urlList ret.urlSeeds hurl hold.1
  obtain ⟨httpSeeds, g₂, k₂⟩ := hread httpseeds ret.httpSeeds hhttp hold.2
  refine ⟨_, ?_, ({ hret with seeds := List.forall_mem_append.mpr ⟨k₁, k₂⟩ } :
    ResumeParams.Sane infoHash ti { ret with
      flags := if urlList.isSome || httpseeds.isSome
        then Function.update ret.flags .overrideWebSeeds true else ret.flags
      urlSeeds := urlSeeds
      httpSeeds := httpSeeds })⟩
  rw [readWebSeeds, h₁, h₂]
  cases urlList with
  | none =>
      obtain rfl := Option.some.inj g₁
      cases httpseeds with
      | none =>
          obtain rfl := Option.some.inj g₂
          rfl
      | some list =>
          dsimp only [Option.elim_some] at g₂
          simp only [Option.bind_eq_bind, Option.bind_some, g₂]
  | some list =>
      dsimp only [Option.elim_some] at g₁
      cases httpseeds with
      | none =>
          obtain rfl := Option.some.inj g₂
          simp only [Option.bind_eq_bind, Option.bind_some, g₁]
      | some list =>
          dsimp only [Option.elim_some] at g₂
          simp only [Option.bind_eq_bind, Option.bind_some, g₁, g₂]

/-! ## Strings of bytes -/

/-- A reader of a string that may be missing. -/
theorem sane_of_string (h : rd.At (.sequence true is) offset) (key : Bytes)
    {f : Bytes → ResumeParams → ResumeParams} {read : ResumeParams → Option ResumeParams}
    (hf : ∀ s infoHash ti ret, ret.Sane infoHash ti → (f s ret).Sane infoHash ti)
    (hread : ∀ ret, read ret = do
      match ← rd.dictFindString key with
      | none => some ret
      | some m => do
          let s ← m.stringValue
          some (f s ret)) : ReadsSanely read := by
  intro infoHash ti ret hret
  obtain ⟨found, hfound, hm⟩ := BdecodeNode.dictFindString_spec h key
  rw [hread, hfound]
  cases found with
  | none => exact ⟨ret, rfl, hret⟩
  | some m =>
      obtain ⟨s, hs⟩ := hm m rfl
      exact ⟨f s ret, by simp [hs], hf s infoHash ti ret hret⟩

theorem readMerkleTree_sane (h : rd.At (.sequence true is) offset) :
    ReadsSanely (readMerkleTree rd) := by
  refine @sane_of_string rd is offset h (ascii "merkle tree")
    (fun s ret => if 20 ≤ s.length then { ret with
      merkleTree := (List.range (s.length / 20)).map fun k => (s.drop (20 * k)).take 20 } else ret)
    _ ?_ ?_
  · intro s infoHash ti ret hret
    split
    · refine { hret with merkle := fun hash hhash => ?_ }
      obtain ⟨k, hk, rfl⟩ := List.mem_map.mp hhash
      have := List.mem_range.mp hk
      rw [List.length_take, List.length_drop]
      omega
    · exact hret
  · intro ret
    unfold readMerkleTree
    refine congrArg _ (funext fun found => ?_)
    cases found with
    | none => rfl
    | some m =>
        dsimp only
        refine congrArg _ (funext fun s => ?_)
        split <;> rfl

theorem readHavePieces_sane (h : rd.At (.sequence true is) offset) :
    ReadsSanely (readHavePieces rd) :=
  @sane_of_string rd is offset h (ascii "pieces")
    (fun s ret => { ret with
      havePieces := s.map fun c => c.toNat.testBit 0
      verifiedPieces := s.map fun c => c.toNat.testBit 1 }) _
    (fun _ _ _ _ hret => { hret with pieces := by simp }) fun _ => rfl

theorem readPiecePriorities_sane (h : rd.At (.sequence true is) offset) :
    ReadsSanely (readPiecePriorities rd) := by
  refine sane_of_string h (ascii "piece_priority") (fun s infoHash ti ret hret => ?_) fun _ => rfl
  refine { hret with piecePriorities := fun prio hprio => ?_ }
  obtain ⟨c, -, rfl⟩ := List.mem_map.mp hprio
  exact clampPriority_le c

/-- The loop never reads behind the string: it starts so late that a whole endpoint is left in
every round. -/
theorem endpointLoop_isSome {size length : Nat} {read : Bytes → Option Endpoint}
    (hread : ∀ ptr, size ≤ ptr.length → (read ptr).isSome) {rounds i : Nat} {ptr : Bytes}
    (hptr : length + size ≤ ptr.length + i + 1) :
    ∃ ps, endpointLoop size read length rounds i ptr = some ps := by
  induction rounds generalizing i ptr with
  | zero => exact ⟨[], rfl⟩
  | succ rounds ih =>
      rw [endpointLoop]
      by_cases hlt : i < length
      · obtain ⟨p, hp⟩ := Option.isSome_iff_exists.mp (hread ptr (by omega))
        obtain ⟨ps, hps⟩ := ih (show length + size ≤ (ptr.drop size).length + (i + size) + 1 by
          rw [List.length_drop]; omega)
        rw [if_pos hlt, hp, hps]
        exact ⟨p :: ps, rfl⟩
      · rw [if_neg hlt]
        exact ⟨[], rfl⟩

theorem readV4Endpoint_isSome (ptr : Bytes) (h : 6 ≤ ptr.length) : (readV4Endpoint ptr).isSome := by
  match ptr, h with
  | _ :: _ :: _ :: _ :: _ :: _ :: _, _ => rfl

theorem readV6Endpoint_isSome (ptr : Bytes) (h : 18 ≤ ptr.length) : (readV6Endpoint ptr).isSome := by
  have hlength : (ptr.take 16).length = 16 := by rw [List.length_take]; omega
  rw [readV6Endpoint]
  match hdrop : ptr.drop 16 with
  | [] =>
      have := congrArg List.length hdrop
      simp at this
      omega
  | [_] =>
      have := congrArg List.length hdrop
      simp at this
      omega
  | hi :: lo :: _ =>
      dsimp only
      rw [dif_pos hlength]
      rfl

theorem readEndpoints_isSome (h : rd.At (.sequence true is) offset) (key : Bytes) {size first : Nat}
    {read : Bytes → Option Endpoint} (hread : ∀ ptr, size ≤ ptr.length → (read ptr).isSome)
    (hfirst : size ≤ first + 1) (peers : List Endpoint) :
    ∃ peers', readEndpoints rd key size first read peers = some peers' := by
  obtain ⟨found, hfound, hm⟩ := BdecodeNode.dictFindString_spec h key
  rw [readEndpoints, hfound]
  cases found with
  | none => exact ⟨peers, rfl⟩
  | some m =>
      obtain ⟨s, hs⟩ := hm m rfl
      obtain ⟨ps, hps⟩ := @endpointLoop_isSome size s.length read hread s.length first s (by omega)
      exact ⟨peers ++ ps, by simp [hs, hps]⟩

theorem readPeers_sane (h : rd.At (.sequence true is) offset) : ReadsSanely (readPeers rd) := by
  intro infoHash ti ret hret
  obtain ⟨ps₁, h₁⟩ := @readEndpoints_isSome rd is offset h (ascii "peers") 6 5 _
    readV4Endpoint_isSome (by omega) ret.peers
  obtain ⟨ps₂, h₂⟩ := @readEndpoints_isSome rd is offset h (ascii "peers6") 18 17 _
    readV6Endpoint_isSome (by omega) ps₁
  obtain ⟨ps₃, h₃⟩ := @readEndpoints_isSome rd is offset h (ascii "banned_peers") 6 6 _
    readV4Endpoint_isSome (by omega) ret.bannedPeers
  obtain ⟨ps₄, h₄⟩ := @readEndpoints_isSome rd is offset h (ascii "banned_peers6") 18 17 _
    readV6Endpoint_isSome (by omega) ps₃
  refine ⟨{ ret with peers := ps₂, bannedPeers := ps₄ }, ?_, { hret with }⟩
  simp only [readPeers, Option.bind_eq_bind, h₁, h₂, h₃, h₄, Option.bind_some]

/-! ## Unfinished pieces -/

theorem unpack_ne_nil {s : Bytes} (h : s ≠ []) : Bits.unpack s ≠ [] := by
  have := Bits.length_unpack s
  have := List.length_pos_iff.mpr h
  exact List.length_pos_iff.mp (by omega)

theorem readUnfinishedPiece_spec {m : BdecodeNode} {i : Item} (h : m.At i offset)
    {pieces : List (Int × List Bool)} (hpieces : OrderedMap.Sorted pieces ∧
      ∀ piece ∈ pieces, 0 ≤ piece.1 ∧ piece.1 < 2 ^ 31 ∧ piece.2 ≠ []) :
    ∃ pieces', readUnfinishedPiece m pieces = some pieces' ∧ OrderedMap.Sorted pieces' ∧
      ∀ piece ∈ pieces', 0 ≤ piece.1 ∧ piece.1 < 2 ^ 31 ∧ piece.2 ≠ [] := by
  unfold readUnfinishedPiece
  -- an entry is skipped that is no dictionary, or lacks its piece or its bits
  by_cases htype : m.type = some .dict
  · obtain ⟨js, rfl⟩ := @exists_sequence i true (Option.some.inj (h.type ▸ htype))
    obtain ⟨piece, hpiece, -⟩ := @BdecodeNode.dictFindIntValue_spec m js offset h (ascii "piece") (-1)
      (by norm_num) (by norm_num)
    obtain ⟨found, hfound, hm⟩ := BdecodeNode.dictFindString_spec h (ascii "bitmask")
    have hbounds := toInt32_bounds piece
    rw [if_neg (by simpa using htype), hpiece]
    dsimp only [Option.bind_eq_bind, Option.bind_some]
    by_cases hneg : toInt32 piece < 0
    · rw [if_pos hneg]
      exact ⟨pieces, rfl, hpieces⟩
    rw [if_neg hneg, hfound]
    cases found with
    | none => exact ⟨pieces, rfl, hpieces⟩
    | some bitmask =>
        obtain ⟨s, hs⟩ := hm bitmask rfl
        dsimp only [Option.bind_some]
        rw [hs]
        dsimp only [Option.bind_some]
        by_cases hempty : s.length = 0
        · rw [if_pos hempty]
          exact ⟨pieces, rfl, hpieces⟩
        · rw [if_neg hempty]
          refine ⟨_, rfl, OrderedMap.sorted_insert hpieces.1, fun new hnew => ?_⟩
          rcases OrderedMap.mem_insert hnew with rfl | hold
          · exact ⟨not_lt.mp hneg, hbounds.2, unpack_ne_nil fun hnil => hempty (by rw [hnil]; rfl)⟩
          · exact hpieces.2 new hold
  · rw [if_pos htype]
    exact ⟨pieces, rfl, hpieces⟩

theorem readUnfinished_sane (h : rd.At (.sequence true is) offset) :
    ReadsSanely (readUnfinished rd) := by
  intro infoHash ti ret hret
  obtain ⟨found, hfound, hloop⟩ := findList_spec h (ascii "unfinished")
    fun _ _ _ _ _ hm hP => readUnfinishedPiece_spec hm hP
  rw [readUnfinished, hfound]
  cases found with
  | none => exact ⟨ret, rfl, hret⟩
  | some unfinished =>
      obtain ⟨pieces, hread, hsorted, hbitmasks⟩ := hloop unfinished rfl _
        ⟨hret.unfinished, hret.bitmasks⟩
      exact ⟨{ ret with unfinishedPieces := pieces },
        by simp only [Option.bind_eq_bind, Option.bind_some, hread],
        { hret with unfinished := hsorted, bitmasks := hbitmasks }⟩

/-! ## All fields -/

theorem readFields_sane (h : rd.At (.sequence true is) offset) : ReadsSanely (readFields rd) := by
  have hend : ReadsSanely fun ret =>
      some { ret with flags := Function.update ret.flags .needSaveResume false } :=
    fun _ _ _ hret => ⟨_, rfl, { hret with }⟩
  exact (readNumbers_sane h).bind <| (readFlags_sane h).bind <| (readPaths_sane h).bind <|
    (readFilePriorities_sane h).bind <| (readTrackers_sane h).bind <| (readWebSeeds_sane h).bind <|
    (readMerkleTree_sane h).bind <| (readHavePieces_sane h).bind <|
    (readPiecePriorities_sane h).bind <| (readPeers_sane h).bind <| (readUnfinished_sane h).bind hend

end

section

variable (sha1 : Bytes → Bytes) (parseInfoSection : Bytes → Option Bytes)

/-- What may be returned. There is a torrent only with its own hash; it is one that cannot be
parsed only together with the error that says so; and other errors leave nothing but the
storage mode. -/
def MayReturn : ResumeParams × Option ResumeError → Prop
  | (ret, none) =>
      ret.infoHash.length = 20 ∧ ret.Sane ret.infoHash ret.ti ∧ ∀ ti ∈ ret.ti,
        sha1 ti.metadata = ret.infoHash ∧ parseInfoSection ti.metadata = none ∧ ti.valid = true
  | (ret, some (.infoSection message)) =>
      ret.infoHash.length = 20 ∧ ret.Sane ret.infoHash ret.ti ∧ ∃ ti, ret.ti = some ti ∧
        sha1 ti.metadata = ret.infoHash ∧ parseInfoSection ti.metadata = some message ∧
        ti.valid = false
  | (ret, some _) => ∃ storageModeAllocate, ret = { storageModeAllocate }

variable {sha1 parseInfoSection} {rd : BdecodeNode} {is : List Item} {offset : Nat}

theorem readInfo_spec (h : rd.At (.sequence true is) offset) {ret : ResumeParams}
    (hlength : ret.infoHash.length = 20) (hti : ret.ti = none)
    (hret : ∀ ti, ({ ret with ti := ti } : ResumeParams).Sane ret.infoHash ti) :
    ∃ ret' ec, readInfo sha1 parseInfoSection rd ret = some (ret', ec) ∧
      (∀ e ∈ ec, ∃ message, e = .infoSection message) ∧ ret'.Sane ret'.infoHash ret'.ti ∧
      MayReturn sha1 parseInfoSection (ret', ec) := by
  have hsane : ret.Sane ret.infoHash ret.ti := by
    rw [hti]
    exact { hret none with ti := hti }
  have hnone : MayReturn sha1 parseInfoSection (ret, none) := ⟨hlength, hsane, by simp [hti]⟩
  obtain ⟨found, hfound, hm⟩ := BdecodeNode.dictFindDict_spec h (ascii "info")
  unfold readInfo
  rw [hfound]
  cases found with
  | none => exact ⟨ret, none, rfl, by simp, hsane, hnone⟩
  | some info =>
      obtain ⟨section_, hsection⟩ := hm info rfl
      dsimp only [Option.bind_eq_bind, Option.bind_some]
      rw [hsection]
      dsimp only [Option.bind_some]
      -- an info section with another hash is ignored
      by_cases hhash : sha1 section_ = ret.infoHash
      · rw [if_pos hhash]
        cases hparse : parseInfoSection section_ with
        | some message =>
            refine ⟨_, _, rfl, ?_, hret _, hlength, hret _, _, rfl, hhash, hparse, rfl⟩
            rintro _ ⟨⟩
            exact ⟨message, rfl⟩
        | none =>
            obtain ⟨creationDate, h₁, -⟩ := @BdecodeNode.dictFindIntValue_spec rd is offset h
              (ascii "creation date") 0 (by norm_num) (by norm_num)
            obtain ⟨creator, h₂⟩ := BdecodeNode.dictFindStringValue_spec h (ascii "created by") []
            obtain ⟨comment, h₃⟩ := BdecodeNode.dictFindStringValue_spec h (ascii "comment") []
            rw [h₁, h₂, h₃]
            refine ⟨_, _, rfl, by simp, hret _, hlength, hret _, ?_⟩
            rintro _ ⟨⟩
            exact ⟨hhash, hparse, rfl⟩
      · rw [if_neg hhash]
        exact ⟨ret, none, rfl, by simp, hsane, hnone⟩

/-- What is read behind the info section does not change it. -/
theorem mayReturn_of_sane {ret ret' : ResumeParams} {ec : Option ResumeError}
    (hec : ∀ e ∈ ec, ∃ message, e = .infoSection message)
    (hret : MayReturn sha1 parseInfoSection (ret, ec)) (hsane : ret'.Sane ret.infoHash ret.ti) :
    MayReturn sha1 parseInfoSection (ret', ec) := by
  have hti := hsane.ti
  have hhash := hsane.infoHash
  cases ec with
  | none =>
      obtain ⟨hlength, -, hinfo⟩ := hret
      refine ⟨by rw [hhash, hlength], by rwa [hhash, hti], ?_⟩
      rwa [hti, hhash]
  | some e =>
      obtain ⟨message, rfl⟩ := hec e rfl
      obtain ⟨hlength, -, hinfo⟩ := hret
      refine ⟨by rw [hhash, hlength], by rwa [hhash, hti], ?_⟩
      rwa [hti, hhash]

theorem readResumeNode_spec {i : Item} (h : rd.At i offset) :
    ∃ result, readResumeNode sha1 parseInfoSection rd = some result ∧
      MayReturn sha1 parseInfoSection result := by
  unfold readResumeNode
  by_cases htype : rd.type = some .dict
  swap
  · rw [if_pos htype]
    exact ⟨_, rfl, false, rfl⟩
  rw [if_neg (by simpa using htype)]
  obtain ⟨is, rfl⟩ := @exists_sequence i true (Option.some.inj (h.type ▸ htype))
  obtain ⟨found, hfound, hm⟩ := BdecodeNode.dictFindString_spec h (ascii "allocation")
  obtain ⟨fileFormat, hformat⟩ := BdecodeNode.dictFindStringValue_spec h (ascii "file-format") []
  obtain ⟨infoHash, hhash⟩ := BdecodeNode.dictFindStringValue_spec h (ascii "info-hash") []
  obtain ⟨name, hname⟩ := BdecodeNode.dictFindStringValue_spec h (ascii "name") []
  -- what follows the storage mode
  have hrest : ∀ storageModeAllocate, ∃ result, (do
      let ret : ResumeParams := { storageModeAllocate := storageModeAllocate }
      let fileFormat ← rd.dictFindStringValue (ascii "file-format")
      if fileFormat ≠ ascii "libtorrent resume file" then some (ret, some .invalidFileTag)
      else
        let infoHash ← rd.dictFindStringValue (ascii "info-hash")
        if infoHash.length ≠ 20 then some (ret, some .missingInfoHash)
        else
          let name ← rd.dictFindStringValue (ascii "name")
          let read ← readInfo sha1 parseInfoSection rd
            { ret with name := name, infoHash := infoHash }
          let ret ← readFields rd read.1
          some (ret, read.2)) = some result ∧ MayReturn sha1 parseInfoSection result := by
    intro storageModeAllocate
    rw [hformat]
    dsimp only [Option.bind_eq_bind, Option.bind_some]
    by_cases htag : fileFormat = ascii "libtorrent resume file"
    swap
    · rw [if_pos htag]
      exact ⟨_, rfl, storageModeAllocate, rfl⟩
    rw [if_neg (by simpa using htag), hhash]
    dsimp only [Option.bind_some]
    by_cases hlength : infoHash.length = 20
    swap
    · rw [if_pos hlength]
      exact ⟨_, rfl, storageModeAllocate, rfl⟩
    obtain ⟨ret, ec, hinfo, hec, hsane, hmay⟩ := @readInfo_spec sha1 parseInfoSection rd is offset
      h { storageModeAllocate, name, infoHash } hlength rfl fun ti =>
        ResumeParams.sane_init storageModeAllocate name infoHash ti
    obtain ⟨ret', hfields, hsane'⟩ := readFields_sane h _ _ ret hsane
    rw [if_neg (by simpa using hlength), hname]
    dsimp only [Option.bind_some]
    rw [hinfo]
    dsimp only [Option.bind_some]
    rw [hfields]
    exact ⟨(ret', ec), rfl, mayReturn_of_sane hec hmay hsane'⟩
  rw [hfound]
  cases found with
  | none => exact hrest false
  | some alloc =>
      obtain ⟨mode, hmode⟩ := hm alloc rfl
      dsimp only [Option.bind_eq_bind, Option.bind_some]
      rw [hmode]
      exact hrest _

/-- **Whatever the bytes are**, `read_resume_data` stays within the tokens and the buffer, and what it
returns is well formed. -/
theorem readResumeData_spec (sha1 : Bytes → Bytes) (parseInfoSection : Bytes → Option Bytes)
    (buffer : Bytes) : ∃ result, readResumeData sha1 parseInfoSection buffer = some result ∧
      MayReturn sha1 parseInfoSection result := by
  unfold readResumeData
  match hdecode : bdecode buffer 100 2000000 with
  | (_, some (e, _)) => exact ⟨_, rfl, false, rfl⟩
  | (root, none) =>
      obtain ⟨-, i, rest, rfl, hwf, -, -, rfl⟩ := item_of_bdecode hdecode
      exact readResumeNode_spec (at_rootOf hwf)

end

end BtDownloader
