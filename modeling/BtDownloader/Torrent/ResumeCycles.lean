import BtDownloader.Torrent.ResumeFile

set_option autoImplicit false

/-! # Resume data that is read and written again

What is read back is written again at the end of the next session.

* `restored_restored`: reading it once more changes nothing but the banned peers.
* `resumeCycles_eq`: however often this is repeated, all that is lost is one banned peer with an
  IPv4 address each time.
-/

namespace BtDownloader

open Bencoding

/-! ## Trackers -/

section

variable {trs : List (Bytes × Nat)}

/-- Trackers that are numbered by their place among the tiers. -/
def numbered (trs : List (Bytes × Nat)) (tiers : List Nat) (k : Nat) : List (Bytes × Nat) :=
  (tiers.zipIdx k).flatMap fun tier => (inTier trs tier.1).map fun tr => (tr, tier.2)

theorem renumbered_eq (tiers : List Nat) (k : Nat) :
    renumbered trs tiers k
      = (numbered trs (tiers.filter (usedTier trs)) k).map fun tr => (tr.1, (tr.2 : Int)) := by
  rw [renumbered, numbered, List.map_flatMap]
  simp only [List.map_map]
  rfl

theorem inTier_numbered_append {tier : Nat} {rest : List (Bytes × Nat)} (trs' : List Bytes) (k : Nat) :
    inTier (trs'.map (fun tr => (tr, k)) ++ rest) tier
      = (if k = tier then trs' else []) ++ inTier rest tier := by
  unfold inTier
  rw [List.filter_append, List.map_append]
  congr 1
  by_cases h : k = tier
  · rw [if_pos h, List.filter_eq_self.mpr]
    · rw [List.map_map]
      exact List.map_id trs'
    · intro tr htr
      obtain ⟨_, -, rfl⟩ := List.mem_map.mp htr
      simpa using h
  · rw [if_neg h, List.filter_eq_nil_iff.mpr]
    · rfl
    · intro tr htr
      obtain ⟨_, -, rfl⟩ := List.mem_map.mp htr
      simpa using h

/-- The trackers of a tier after the numbering. -/
theorem inTier_numbered (tiers : List Nat) (k j : Nat) :
    inTier (numbered trs tiers k) (k + j) = ((tiers[j]?).map (inTier trs)).getD [] := by
  induction tiers generalizing k j with
  | nil => rfl
  | cons tier tiers ih =>
      have hsplit : numbered trs (tier :: tiers) k
          = (inTier trs tier).map (fun tr => (tr, k)) ++ numbered trs tiers (k + 1) := rfl
      rw [hsplit, inTier_numbered_append]
      cases j with
      | zero =>
          have hnil : inTier (numbered trs tiers (k + 1)) (k + 0) = [] := by
            refine inTier_eq_nil fun tr htr => ?_
            obtain ⟨t, ht, htr⟩ := List.mem_flatMap.mp htr
            obtain ⟨_, -, rfl⟩ := List.mem_map.mp htr
            have := (List.mem_zipIdx ht).1
            dsimp only
            omega
          rw [if_pos (by omega), hnil, List.append_nil]
          rfl
      | succ j =>
          rw [if_neg (by omega), List.nil_append, show k + (j + 1) = k + 1 + j by omega, ih]
          rfl

theorem numbered_eq_flatMap (tiers : List Nat) :
    numbered trs tiers 0 = (List.range tiers.length).flatMap fun j =>
      (((tiers[j]?).map (inTier trs)).getD []).map fun tr => (tr, j) := by
  have hzip : tiers.zipIdx 0 = (List.range tiers.length).map fun j => (tiers.getD j 0, j) := by
    refine List.ext_getElem (by simp) fun j h₁ h₂ => ?_
    have hj : j < tiers.length := by simpa using h₁
    simp [hj]
  rw [numbered, hzip, List.flatMap_map]
  refine List.flatMap_congr fun j hj => ?_
  have hj : j < tiers.length := List.mem_range.mp hj
  simp [hj]

theorem lt_of_mem_numbered {tiers : List Nat} {tr : Bytes × Nat} (h : tr ∈ numbered trs tiers 0) :
    tr.2 < tiers.length := by
  obtain ⟨t, ht, htr⟩ := List.mem_flatMap.mp h
  obtain ⟨_, -, rfl⟩ := List.mem_map.mp htr
  have := (List.mem_zipIdx ht).2.1
  omega

/-- Trackers keep the tiers they have. -/
theorem assignTiers_map (trs : List (Bytes × Nat)) (h : ∀ tr ∈ trs, tr.2 ≤ 1024) (tier : Nat) :
    assignTiers (trs.map Prod.fst) (trs.map fun tr => (tr.2 : Int)) tier = trs := by
  induction trs generalizing tier with
  | nil => rfl
  | cons tr trs ih =>
      have hle := h tr List.mem_cons_self
      have hclamp : clampTier tr.2 = tr.2 := by
        unfold clampTier
        rw [if_neg (by omega)]
        omega
      rw [List.map_cons, List.map_cons, assignTiers, hclamp,
        ih fun tr' htr' => h tr' (List.mem_cons_of_mem _ htr')]

/-- The tiers that are used after the numbering are the first ones. -/
theorem usedTier_numbered {tiers : List Nat} {j : Nat} (hused : ∀ tier ∈ tiers, usedTier trs tier)
    (hnodup : tiers.Nodup) (hzero : tiers.head? = some 0) :
    usedTier (numbered trs tiers 0) j = decide (j < tiers.length) := by
  have hpos : 0 < tiers.length := by
    cases tiers with
    | nil => cases hzero
    | cons tier tiers => exact Nat.zero_lt_succ _
  have hin := @inTier_numbered trs tiers 0 j
  rw [Nat.zero_add] at hin
  unfold usedTier
  rw [hin]
  by_cases hj : j = 0
  · subst hj
    simp [hpos]
  by_cases hlt : j < tiers.length
  · have hget : tiers[j]? = some tiers[j] := List.getElem?_eq_getElem hlt
    have hused := hused tiers[j] (List.getElem_mem hlt)
    -- only the first tier may be used without a tracker
    have hne : tiers[j] ≠ 0 := by
      intro h
      have hfirst : tiers[0]? = some 0 := by rw [← List.head?_eq_getElem?, hzero]
      have hsame : tiers[j] = tiers[0] := by rw [h, (List.getElem?_eq_some_iff.mp hfirst).2]
      exact hj (hnodup.getElem_inj_iff.mp hsame)
    unfold usedTier at hused
    rw [hget]
    simpa [hj, hlt, hne] using hused
  · simp [hj, hlt]

end

/-- **Trackers are sorted once.** -/
theorem restoredTrackers_restored {p p' : ResumeParams}
    (htrackers : p'.trackers = (restoredTrackers p).map Prod.fst)
    (htiers : p'.trackerTiers = (restoredTrackers p).map Prod.snd) :
    restoredTrackers p' = restoredTrackers p := by
  by_cases hnil : restoredTrackers p = []
  · rw [restoredTrackers, htrackers, hnil]
    rfl
  have hp : p.trackers ≠ [] := by
    intro h
    rw [restoredTrackers, if_pos h] at hnil
    exact hnil rfl
  obtain ⟨trs, htrs⟩ : ∃ trs, trs = assignTiers p.trackers p.trackerTiers 0 := ⟨_, rfl⟩
  obtain ⟨tiers, htiers'⟩ : ∃ tiers, tiers = (List.range 1025).filter (usedTier trs) := ⟨_, rfl⟩
  have hold : restoredTrackers p = (numbered trs tiers 0).map fun tr => (tr.1, (tr.2 : Int)) := by
    rw [restoredTrackers, if_neg hp, renumbered_eq, htiers', htrs]
  have hlength : tiers.length ≤ 1025 := by
    rw [htiers']
    exact (List.length_filter_le _ _).trans (by simp)
  have hnew : assignTiers p'.trackers p'.trackerTiers 0 = numbered trs tiers 0 := by
    rw [htrackers, htiers, hold, List.map_map, List.map_map]
    refine assignTiers_map _ (fun tr htr => ?_) 0
    have := lt_of_mem_numbered htr
    omega
  have hused : ∀ j, usedTier (numbered trs tiers 0) j = decide (j < tiers.length) := by
    intro j
    refine usedTier_numbered (fun tier ht => ?_) ?_ ?_
    · rw [htiers'] at ht
      exact (List.mem_filter.mp ht).2
    · rw [htiers']
      exact List.nodup_range.filter _
    · rw [htiers', show List.range 1025 = 0 :: (List.range 1024).map Nat.succ from
        List.range_succ_eq_map, List.filter_cons_of_pos (by simp [usedTier])]
      rfl
  have hfilter : (List.range 1025).filter (usedTier (numbered trs tiers 0))
      = List.range tiers.length := by
    rw [show 1025 = tiers.length + (1025 - tiers.length) by omega, List.range_add,
      List.filter_append, List.filter_eq_self.mpr, List.filter_eq_nil_iff.mpr, List.append_nil]
    · intro j hj
      obtain ⟨j, -, rfl⟩ := List.mem_map.mp hj
      rw [hused]
      simp
    · intro j hj
      rw [hused]
      simpa using hj
  rw [restoredTrackers, if_neg (by rw [htrackers]; simpa using hnil), hnew, renumbered_eq, hfilter,
    hold]
  -- a tier of the numbered trackers is the tier it was
  refine congrArg _ ?_
  rw [numbered_eq_flatMap, numbered_eq_flatMap tiers, List.length_range]
  refine List.flatMap_congr fun j hj => ?_
  have hj : j < tiers.length := List.mem_range.mp hj
  have hin := @inTier_numbered trs tiers 0 j
  rw [Nat.zero_add] at hin
  rw [List.getElem?_eq_getElem (by simpa using hj), List.getElem_range, Option.map_some,
    Option.getD_some, ← numbered_eq_flatMap, hin]

/-! ## The other fields -/

theorem length_extendBits (bits : List Bool) (length : Nat) : (extendBits bits length).length = length := by
  simp [extendBits]

theorem extendBits_extendBits (bits : List Bool) (length : Nat) :
    extendBits (extendBits bits length) length = extendBits bits length := by
  refine List.map_congr_left fun i hi => ?_
  have hi : i < length := List.mem_range.mp hi
  simp [extendBits, hi]

theorem paddedBits_paddedBits (bits : List Bool) : paddedBits (paddedBits bits) = paddedBits bits := by
  have hlength : (paddedBits bits).length = 8 * ((bits.length + 7) / 8) := by
    rw [paddedBits, List.length_append, List.length_replicate]
    omega
  rw [paddedBits, hlength, show 8 * ((8 * ((bits.length + 7) / 8) + 7) / 8)
    - 8 * ((bits.length + 7) / 8) = 0 by omega, List.replicate_zero, List.append_nil]

theorem paddedBits_ne_nil {bits : List Bool} (h : bits ≠ []) : paddedBits bits ≠ [] := by
  simp [paddedBits, h]

/-- Unfinished pieces that were read are read again. -/
theorem restoredPieces_restored {p p' : ResumeParams} (h : p'.unfinishedPieces = restoredPieces p) :
    restoredPieces p' = restoredPieces p := by
  rw [restoredPieces, h, restoredPieces, List.filter_eq_self.mpr, List.map_map]
  · refine List.map_congr_left fun piece _ => ?_
    dsimp only [Function.comp_apply]
    rw [paddedBits_paddedBits]
  · intro piece hpiece
    obtain ⟨old, hold, rfl⟩ := List.mem_map.mp hpiece
    have hold := of_decide_eq_true (List.mem_filter.mp hold).2
    exact decide_eq_true ⟨hold.1, paddedBits_ne_nil hold.2⟩

theorem restoredFiles_restored {p p' : ResumeParams} (h : p'.renamedFiles = restoredFiles p) :
    restoredFiles p' = restoredFiles p := by
  rw [restoredFiles, h, restoredFiles, List.filter_filter]
  simp

theorem clampPriority_clampPriority (c : UInt8) : clampPriority (clampPriority c) = clampPriority c := by
  unfold clampPriority
  rw [min_assoc, min_self]

theorem restoredFlags_restored (p : ResumeParams) : restoredFlags (restored p) = restoredFlags p := by
  have hall : ((p.filePriorities.map clampPriority).all (· ≠ 0)) = p.filePriorities.all (· ≠ 0) := by
    rw [List.all_map]
    refine congrArg (List.all _) (funext fun c => ?_)
    simp [clampPriority_eq_zero]
  funext flag
  cases flag with
  | seedMode =>
      have hseed : (restored p).flags .seedMode
          = (p.flags .seedMode && p.filePriorities.all (· ≠ 0)) := rfl
      have hprio : (restored p).filePriorities = p.filePriorities.map clampPriority := rfl
      rw [restoredFlags, restoredFlags, hseed, hprio, hall, Bool.and_assoc, Bool.and_self]
  | _ => rfl

/-! ## Peers -/

theorem ofVersion_append (isV6 : Bool) (es es' : List Endpoint) :
    ofVersion isV6 (es ++ es') = ofVersion isV6 es ++ ofVersion isV6 es' := List.filter_append ..

theorem ofVersion_self {isV6 : Bool} {es : List Endpoint} (h : ∀ e ∈ es, e.isV6 = isV6) :
    ofVersion isV6 es = es := by
  rw [ofVersion, List.filter_eq_self]
  simpa using h

theorem ofVersion_other {isV6 : Bool} {es : List Endpoint} (h : ∀ e ∈ es, e.isV6 = !isV6) :
    ofVersion isV6 es = [] := by
  rw [ofVersion, List.filter_eq_nil_iff]
  intro e he
  rw [h e he]
  simp

theorem ofVersion_sorted {v4 v6 : List Endpoint} (h4 : ∀ e ∈ v4, e.isV6 = false)
    (h6 : ∀ e ∈ v6, e.isV6 = true) :
    ofVersion false (v4 ++ v6) = v4 ∧ ofVersion true (v4 ++ v6) = v6 := by
  constructor
  · rw [ofVersion_append, ofVersion_self h4, ofVersion_other (by simpa using h6), List.append_nil]
  · rw [ofVersion_append, ofVersion_self h6, ofVersion_other (by simpa using h4), List.nil_append]

/-- The banned peers that are left after some rounds. -/
def bannedAfter (p : ResumeParams) (rounds : Nat) : List Endpoint :=
  (ofVersion false p.bannedPeers).take ((ofVersion false p.bannedPeers).length - rounds)
    ++ ofVersion true p.bannedPeers

theorem bannedAfter_succ {p p' : ResumeParams} {rounds : Nat}
    (h : p'.bannedPeers = bannedAfter p rounds) :
    (ofVersion false p'.bannedPeers).dropLast ++ ofVersion true p'.bannedPeers
      = bannedAfter p (rounds + 1) := by
  have hsorted := @ofVersion_sorted
    ((ofVersion false p.bannedPeers).take ((ofVersion false p.bannedPeers).length - rounds))
    (ofVersion true p.bannedPeers)
    (fun e he => isV6_of_mem_ofVersion (List.mem_of_mem_take he))
    (fun e he => isV6_of_mem_ofVersion he)
  rw [h, bannedAfter, hsorted.1, hsorted.2, bannedAfter, List.dropLast_eq_take, List.take_take,
    List.length_take]
  congr 2
  omega

/-! ## Rounds -/

/-- **Reading once more** changes nothing but the banned peers. -/
theorem restored_restored {p p' : ResumeParams} {rounds : Nat}
    (h : p' = { restored p with bannedPeers := bannedAfter p (rounds + 1) }) :
    restored p' = { restored p with bannedPeers := bannedAfter p (rounds + 2) } := by
  have hflags : restoredFlags p' = restoredFlags p := by
    rw [h]
    exact restoredFlags_restored p
  have htrackers : restoredTrackers p' = restoredTrackers p :=
    restoredTrackers_restored (by rw [h]; rfl) (by rw [h]; rfl)
  have hpieces : restoredPieces p' = restoredPieces p := restoredPieces_restored (by rw [h]; rfl)
  have hfiles : restoredFiles p' = restoredFiles p := restoredFiles_restored (by rw [h]; rfl)
  have hbanned : (ofVersion false p'.bannedPeers).dropLast ++ ofVersion true p'.bannedPeers
      = bannedAfter p (rounds + 2) := bannedAfter_succ (by rw [h])
  have hpeers : ofVersion false p'.peers ++ ofVersion true p'.peers
      = ofVersion false p.peers ++ ofVersion true p.peers := by
    have hsorted := @ofVersion_sorted (ofVersion false p.peers) (ofVersion true p.peers)
      (fun e he => isV6_of_mem_ofVersion he) (fun e he => isV6_of_mem_ofVersion he)
    rw [h]
    exact congrArg₂ _ hsorted.1 hsorted.2
  have hlength : max p'.havePieces.length p'.verifiedPieces.length
      = max p.havePieces.length p.verifiedPieces.length := by
    rw [h]
    simp only [restored, length_extendBits, max_self]
  rw [restored, hflags, htrackers, hpieces, hfiles, hbanned, hpeers, hlength, h]
  simp [restored, extendBits_extendBits, List.filter_filter, Function.comp_def,
    clampPriority_clampPriority]

section

variable (sha1 : Bytes → Bytes) (parseInfoSection : Bytes → Option Bytes)

/-- Parameters written and read, without an error. -/
def resumeCycle (p : ResumeParams) : Option ResumeParams :=
  match readResumeData sha1 parseInfoSection (writeResumeDataBuf p) with
  | some (ret, none) => some ret
  | _ => none

/-- Written and read several times. -/
def resumeCycles : Nat → ResumeParams → Option ResumeParams
  | 0, p => some p
  | rounds + 1, p => do
      let p ← resumeCycles rounds p
      resumeCycle sha1 parseInfoSection p

/-- What is written is within the limits of `bdecode`. -/
structure ResumeParams.Fits (info : Item) (p : ResumeParams) : Prop where
  length : (writeResumeDataBuf p).length < 10 ^ 8
  depth : ((writeResumeData p).item fun _ => info).nesting < 100
  count : ((writeResumeData p).item fun _ => info).count ≤ 2000000

variable {sha1 parseInfoSection} {info : Item} {p : ResumeParams}

/-- What is read can be written. -/
theorem storable_restored (hp : p.Storable sha1 parseInfoSection info) :
    (restored p).Storable sha1 parseInfoSection info where
  int64 := hp.int64
  int32 := hp.int32
  infoHash := hp.infoHash
  unfinished := sorted_restoredPieces hp.unfinished
  pieces := by
    intro piece hpiece
    obtain ⟨old, hold, rfl⟩ := List.mem_map.mp hpiece
    exact hp.pieces old (List.mem_filter.mp hold).1
  renamed := OrderedMap.sorted_filter hp.renamed _
  files := fun file hfile => hp.files file (List.mem_filter.mp hfile).1
  merkle := hp.merkle
  metadata := hp.metadata
  creationDate := hp.creationDate

theorem resumeCycle_eq (hp : p.Storable sha1 parseInfoSection info) (hfits : p.Fits info) :
    resumeCycle sha1 parseInfoSection p = some (restored p) := by
  rw [resumeCycle, readResumeData_writeResumeDataBuf hp hfits.length hfits.depth hfits.count]

/-- The parameters after some rounds. -/
def restoredAfter (p : ResumeParams) : Nat → ResumeParams
  | 0 => p
  | rounds + 1 => { restored p with bannedPeers := bannedAfter p (rounds + 1) }

theorem restoredAfter_succ (p : ResumeParams) (rounds : Nat) :
    restoredAfter p (rounds + 1) = restored (restoredAfter p rounds) := by
  cases rounds with
  | zero =>
      have hbanned : bannedAfter p 1 = (restored p).bannedPeers := by
        rw [bannedAfter, ← List.dropLast_eq_take]
        rfl
      exact congrArg (fun banned => { restored p with bannedPeers := banned }) hbanned
  | succ rounds => exact (restored_restored rfl).symm

/-- **However often resume data is read and written again**, the parameters stay what they were
after the first time, but for one banned peer with an IPv4 address that is lost each time. -/
theorem resumeCycles_eq (hp : p.Storable sha1 parseInfoSection info) (rounds : Nat)
    (hfits : ∀ k < rounds, (restoredAfter p k).Fits info) :
    resumeCycles sha1 parseInfoSection rounds p = some (restoredAfter p rounds) := by
  suffices hall : resumeCycles sha1 parseInfoSection rounds p = some (restoredAfter p rounds) ∧
      (restoredAfter p rounds).Storable sha1 parseInfoSection info from hall.1
  induction rounds with
  | zero => exact ⟨rfl, hp⟩
  | succ rounds ih =>
      obtain ⟨hcycles, hstorable⟩ := ih fun k hk => hfits k (by omega)
      rw [resumeCycles, hcycles, restoredAfter_succ]
      exact ⟨resumeCycle_eq hstorable (hfits rounds (by omega)), storable_restored hstorable⟩

end

/-- Twice the file of `sampleParams`: no banned peer is left. -/
theorem resumeCycles_sample : resumeCycles (fun _ => sampleHash) (fun _ => none) 2 sampleParams
    = some (restoredAfter sampleParams 2) := by
  refine resumeCycles_eq storable_sampleParams 2 fun k hk => ?_
  match k, hk with
  | 0, _ => exact ⟨by decide +kernel, by decide +kernel, by decide +kernel⟩
  | 1, _ => exact ⟨by decide +kernel, by decide +kernel, by decide +kernel⟩

example : (restoredAfter sampleParams 2).bannedPeers = [] := by decide

end BtDownloader
