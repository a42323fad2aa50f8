import Mathlib.Order.Basic
import Mathlib.Data.List.Sort
import Mathlib.Tactic

set_option autoImplicit false

/-! # Ordered maps

A map as the list of its entries, with the keys in strictly increasing order.
-/

namespace OrderedMap

variable {K V : Type} [LinearOrder K]

/-- The keys are in strictly increasing order. -/
def Sorted (map : List (K × V)) : Prop := (map.map Prod.fst).Pairwise (· < ·)

instance (map : List (K × V)) : Decidable (Sorted map) :=
  inferInstanceAs (Decidable (List.Pairwise _ _))

def find? (key : K) : List (K × V) → Option V
  | [] => none
  | (k, v) :: map => if key = k then some v else find? key map

/-- The map with `value` under `key`, whatever was there. -/
def insert (key : K) (value : V) : List (K × V) → List (K × V)
  | [] => [(key, value)]
  | (k, v) :: map =>
      if key < k then (key, value) :: (k, v) :: map
      else if key = k then (key, value) :: map
      else (k, v) :: insert key value map

/-- The entries put into a map one after the other. -/
def ofList (entries : List (K × V)) : List (K × V) :=
  entries.foldl (fun map entry => insert entry.1 entry.2 map) []

variable {key k : K} {value : V} {map : List (K × V)}

theorem find?_insert :
    find? k (insert key value map) = if k = key then some value else find? k map := by
  induction map with
  | nil => rfl
  | cons entry map ih =>
      obtain ⟨k', v'⟩ := entry
      unfold insert
      by_cases hlt : key < k'
      · rw [if_pos hlt, find?]
      · rw [if_neg hlt]
        by_cases heq : key = k'
        · subst heq
          rw [if_pos rfl, find?, find?]
          split <;> rfl
        · rw [if_neg heq, find?, find?, ih]
          by_cases hk : k = k'
          · subst hk
            rw [if_pos rfl, if_pos rfl, if_neg (Ne.symm heq)]
          · rw [if_neg hk, if_neg hk]

theorem mem_keys_insert :
    k ∈ (insert key value map).map Prod.fst ↔ k = key ∨ k ∈ map.map Prod.fst := by
  induction map with
  | nil => simp [insert]
  | cons entry map ih =>
      obtain ⟨k', v'⟩ := entry
      unfold insert
      split
      · simp
      · split
        · rename_i heq
          simp [heq]
        · simp only [List.map_cons, List.mem_cons, ih]
          tauto

/-- **An insertion keeps the order.** -/
theorem sorted_insert (h : Sorted map) : Sorted (insert key value map) := by
  induction map with
  | nil => simp [insert, Sorted]
  | cons entry map ih =>
      obtain ⟨k', v'⟩ := entry
      obtain ⟨hhead, htail⟩ := List.pairwise_cons.mp h
      unfold insert
      by_cases hlt : key < k'
      · rw [if_pos hlt]
        refine List.pairwise_cons.mpr ⟨fun k₁ hk₁ => ?_, h⟩
        rcases List.mem_cons.mp hk₁ with rfl | hmem
        · exact hlt
        · exact hlt.trans (hhead k₁ hmem)
      · rw [if_neg hlt]
        by_cases heq : key = k'
        · subst heq
          rw [if_pos rfl]
          exact h
        · rw [if_neg heq]
          refine List.pairwise_cons.mpr ⟨fun k₁ hk₁ => ?_, ih htail⟩
          rcases mem_keys_insert.mp hk₁ with rfl | hmem
          · exact lt_of_le_of_ne (not_lt.mp hlt) (Ne.symm heq)
          · exact hhead k₁ hmem

theorem insert_of_forall_lt (h : ∀ k ∈ map.map Prod.fst, k < key) :
    insert key value map = map ++ [(key, value)] := by
  induction map with
  | nil => rfl
  | cons entry map ih =>
      obtain ⟨k', v'⟩ := entry
      have hlt : k' < key := h k' (by simp)
      rw [insert, if_neg (not_lt.mpr hlt.le), if_neg hlt.ne',
        ih fun k₁ hk₁ => h k₁ (List.mem_cons_of_mem _ hk₁)]
      rfl

theorem ofList_append (entries : List (K × V)) (entry : K × V) :
    ofList (entries ++ [entry]) = insert entry.1 entry.2 (ofList entries) := by
  simp [ofList]

theorem sorted_ofList (entries : List (K × V)) : Sorted (ofList entries) := by
  induction entries using List.reverseRecOn with
  | nil => simp [ofList, Sorted]
  | append_singleton entries entry ih =>
      rw [ofList_append]
      exact sorted_insert ih

/-- **Entries that are in order are the map they make.** -/
theorem ofList_eq (entries : List (K × V)) (h : Sorted entries) : ofList entries = entries := by
  induction entries using List.reverseRecOn with
  | nil => rfl
  | append_singleton entries entry ih =>
      unfold Sorted at h
      rw [List.map_append, List.pairwise_append] at h
      obtain ⟨hinit, -, hlt⟩ := h
      rw [ofList_append, ih hinit, insert_of_forall_lt fun k hk => hlt k hk _ (by simp)]

/-- What a map holds under a key that was put in once. -/
theorem find?_ofList {entries : List (K × V)} (hnodup : (entries.map Prod.fst).Nodup)
    (hmem : (key, value) ∈ entries) : find? key (ofList entries) = some value := by
  induction entries using List.reverseRecOn with
  | nil => simp at hmem
  | append_singleton entries entry ih =>
      rw [ofList_append, find?_insert]
      rw [List.map_append, List.nodup_append] at hnodup
      obtain ⟨hinit, -, hne⟩ := hnodup
      rcases List.mem_append.mp hmem with hmem | hmem
      · have hkey : key ≠ entry.1 :=
          hne key (List.mem_map_of_mem (f := Prod.fst) hmem) entry.1 (by simp)
        rw [if_neg hkey, ih hinit hmem]
      · obtain rfl := List.mem_singleton.mp hmem
        rw [if_pos rfl]

theorem find?_ofList_eq_none {entries : List (K × V)} (h : key ∉ entries.map Prod.fst) :
    find? key (ofList entries) = none := by
  induction entries using List.reverseRecOn with
  | nil => rfl
  | append_singleton entries entry ih =>
      rw [ofList_append, find?_insert]
      simp only [List.map_append, List.mem_append, not_or, List.map_cons, List.map_nil,
        List.mem_singleton] at h
      rw [if_neg h.2, ih h.1]

theorem mem_insert {entry : K × V} (h : entry ∈ insert key value map) :
    entry = (key, value) ∨ entry ∈ map := by
  induction map with
  | nil => exact Or.inl (List.mem_singleton.mp h)
  | cons first map ih =>
      obtain ⟨k', v'⟩ := first
      unfold insert at h
      split at h
      · exact List.mem_cons.mp h
      · split at h
        · rcases List.mem_cons.mp h with h | h
          · exact Or.inl h
          · exact Or.inr (List.mem_cons_of_mem _ h)
        · rcases List.mem_cons.mp h with h | h
          · exact Or.inr (h ▸ List.mem_cons_self)
          · exact (ih h).imp_right fun h => List.mem_cons_of_mem _ h

theorem mem_of_mem_ofList {entries : List (K × V)} {entry : K × V} (h : entry ∈ ofList entries) :
    entry ∈ entries := by
  induction entries using List.reverseRecOn with
  | nil => exact h
  | append_singleton entries last ih =>
      rw [ofList_append] at h
      rcases mem_insert h with rfl | h
      · simp
      · exact List.mem_append_left _ (ih h)

theorem find?_eq_none (h : ∀ k ∈ map.map Prod.fst, k ≠ key) : find? key map = none := by
  induction map with
  | nil => rfl
  | cons entry map ih =>
      obtain ⟨k', v'⟩ := entry
      rw [find?, if_neg (h k' (by simp)).symm]
      exact ih fun k hk => h k (List.mem_cons_of_mem _ hk)

/-- A map is known by what it holds. -/
theorem ext_find? {map' : List (K × V)} (h : Sorted map) (h' : Sorted map')
    (hfind : ∀ k, find? k map = find? k map') : map = map' := by
  induction map generalizing map' with
  | nil =>
      cases map' with
      | nil => rfl
      | cons entry' map' =>
          have := hfind entry'.1
          rw [find?, find?, if_pos rfl] at this
          cases this
  | cons entry map ih =>
      obtain ⟨k, v⟩ := entry
      cases map' with
      | nil =>
          have := hfind k
          rw [find?, find?, if_pos rfl] at this
          cases this
      | cons entry' map' =>
          obtain ⟨k', v'⟩ := entry'
          obtain ⟨hhead, htail⟩ := List.pairwise_cons.mp h
          obtain ⟨hhead', htail'⟩ := List.pairwise_cons.mp h'
          -- the first keys are equal: neither is among the others of the other map
          have hk : k = k' := by
            rcases lt_trichotomy k k' with hlt | heq | hlt
            · have := hfind k
              rw [find?, if_pos rfl, find?, if_neg hlt.ne,
                find?_eq_none fun k₁ hk₁ => (hlt.trans (hhead' k₁ hk₁)).ne'] at this
              cases this
            · exact heq
            · have := hfind k'
              rw [find?, if_neg hlt.ne, find?_eq_none fun k₁ hk₁ => (hlt.trans (hhead k₁ hk₁)).ne',
                find?, if_pos rfl] at this
              cases this
          subst hk
          have hv := hfind k
          rw [find?, find?, if_pos rfl, if_pos rfl, Option.some.injEq] at hv
          subst hv
          rw [ih htail htail' fun k₁ => ?_]
          by_cases hk₁ : k₁ = k
          · subst hk₁
            rw [find?_eq_none fun k₂ hk₂ => (hhead k₂ hk₂).ne',
              find?_eq_none fun k₂ hk₂ => (hhead' k₂ hk₂).ne']
          · have := hfind k₁
            rwa [find?, find?, if_neg hk₁, if_neg hk₁] at this

theorem sorted_filter (h : Sorted map) (keep : K × V → Bool) : Sorted (map.filter keep) :=
  List.Pairwise.sublist (List.Sublist.map Prod.fst List.filter_sublist) h

theorem find?_append (map' : List (K × V)) :
    find? key (map ++ map') = (find? key map).or (find? key map') := by
  induction map with
  | nil => rfl
  | cons entry map ih =>
      obtain ⟨k', v'⟩ := entry
      rw [List.cons_append, find?, find?]
      split
      · rfl
      · exact ih

theorem find?_filter (hsorted : Sorted map) (keep : V → Bool) (key : K) :
    find? key (map.filter fun entry => keep entry.2)
      = (find? key map).filter keep := by
  induction map with
  | nil => rfl
  | cons entry map ih =>
      obtain ⟨k, v⟩ := entry
      obtain ⟨hhead, htail⟩ := List.pairwise_cons.mp hsorted
      have ih := ih htail
      by_cases hkeep : keep v = true
      · rw [List.filter_cons, if_pos (show (fun entry : K × V => keep entry.2) (k, v) = true from hkeep),
          find?, find?]
        by_cases hk : key = k
        · rw [if_pos hk, if_pos hk, Option.filter_some, if_pos hkeep]
        · rw [if_neg hk, if_neg hk, ih]
      · rw [List.filter_cons, if_neg (show ¬ (fun entry : K × V => keep entry.2) (k, v) = true from hkeep),
          ih, find?]
        by_cases hk : key = k
        · rw [if_pos hk, Option.filter_some, if_neg hkeep, hk,
            find?_eq_none fun k' hk' => (hhead k' hk').ne']
          rfl
        · rw [if_neg hk]

end OrderedMap
