import Mathlib.Data.Nat.Digits.Lemmas
import Mathlib.Tactic

set_option autoImplicit false

/-! # Bencoded text

The bencoded format as a tree that keeps the text of every number, so that an `Item` is one
text (`Item.render`) and not only the value of one. A dictionary is a sequence in which keys
and values take turns. Numbers are written in decimal: `decimalText` makes the digits and
`decimalValue` reads them back.
-/

namespace Bencoding

abbrev Bytes := List UInt8

/-- The byte of an ASCII character. -/
def byte (c : Char) : UInt8 := c.toUInt8

/-- The bytes of an ASCII text. -/
def ascii (s : String) : Bytes := s.toList.map byte

/-- Bytes are compared as unsigned numbers, and texts byte by byte. -/
instance linearOrderUInt8 : LinearOrder UInt8 where
  le_refl := UInt8.le_refl
  le_trans _ _ _ := UInt8.le_trans
  lt_iff_le_not_ge _ _ := Std.LawfulOrderLT.lt_iff _ _
  le_antisymm _ _ := UInt8.le_antisymm
  le_total := UInt8.le_total
  toDecidableLE := inferInstance
  toDecidableEq := inferInstance
  toDecidableLT := inferInstance

/-! ## Decimal numbers -/

def numeric (c : UInt8) : Bool := byte '0' ≤ c && c ≤ byte '9'

theorem numeric_iff {c : UInt8} : numeric c = true ↔ 48 ≤ c.toNat ∧ c.toNat ≤ 57 := by
  simp only [numeric, Bool.and_eq_true, decide_eq_true_eq, UInt8.le_iff_toNat_le]
  exact Iff.rfl

/-- The value of the digits of a text. -/
def decimalValue (text : Bytes) : Nat := text.foldl (fun n c => 10 * n + (c.toNat - 48)) 0

/-- The decimal digits of a number. -/
def decimalText (n : Nat) : Bytes :=
  if n = 0 then [byte '0']
  else ((Nat.digits 10 n).map fun d => UInt8.ofNat (48 + d)).reverse

theorem toNat_digit {d : Nat} (hd : d < 10) : (UInt8.ofNat (48 + d)).toNat = 48 + d := by
  rw [UInt8.toNat_ofNat']
  omega

theorem decimalText_ne_nil (n : Nat) : decimalText n ≠ [] := by
  unfold decimalText
  split
  · simp
  · rename_i hn
    simp [Nat.digits_ne_nil_iff_ne_zero, hn]

theorem numeric_of_mem_decimalText {n : Nat} {c : UInt8} (h : c ∈ decimalText n) :
    numeric c = true := by
  unfold decimalText at h
  split at h
  · obtain rfl := List.mem_singleton.mp h
    decide
  · rw [List.mem_reverse, List.mem_map] at h
    obtain ⟨d, hd, rfl⟩ := h
    have hlt : d < 10 := Nat.digits_lt_base (by omega) hd
    rw [numeric_iff, toNat_digit hlt]
    omega

/-- **The digits of a number have its value.** -/
theorem decimalValue_decimalText (n : Nat) : decimalValue (decimalText n) = n := by
  unfold decimalText
  split
  · rename_i hn
    rw [hn]
    rfl
  · unfold decimalValue
    rw [List.foldl_reverse, List.foldr_map]
    have hfold : ∀ ds : List Nat, (∀ d ∈ ds, d < 10) →
        ds.foldr (fun d n => 10 * n + ((UInt8.ofNat (48 + d)).toNat - 48)) 0
          = Nat.ofDigits 10 ds := by
      intro ds hds
      induction ds with
      | nil => rfl
      | cons d ds ih =>
          have hd : d < 10 := hds d List.mem_cons_self
          rw [List.foldr_cons, ih fun d' hd' => hds d' (List.mem_cons_of_mem _ hd'),
            toNat_digit hd, Nat.ofDigits_cons]
          omega
    rw [hfold _ fun d hd => Nat.digits_lt_base (by omega) hd, Nat.ofDigits_digits]

theorem length_decimalText_le {n k : Nat} (hk : 0 < k) (h : n < 10 ^ k) :
    (decimalText n).length ≤ k := by
  unfold decimalText
  split
  · exact hk
  · rw [List.length_reverse, List.length_map]
    exact (Nat.digits_length_le_iff (by omega) n).mpr h

/-! ## Items -/

/-- A bencoded text. An integer keeps the text between `i` and `e`, a string the digits
before its colon. -/
inductive Item
  | integer (text : Bytes)
  | string (length : Bytes) (content : Bytes)
  | sequence (dict : Bool) (items : List Item)

/-- The first byte of a list or of a dictionary. -/
def opening (dict : Bool) : UInt8 := if dict then byte 'd' else byte 'l'

mutual

/-- The bytes of an item. -/
def Item.render : Item → Bytes
  | .integer text => byte 'i' :: text ++ [byte 'e']
  | .string length content => length ++ byte ':' :: content
  | .sequence dict items => opening dict :: renderAll items ++ [byte 'e']
termination_by structural i => i

def renderAll : List Item → Bytes
  | [] => []
  | i :: is => i.render ++ renderAll is
termination_by structural is => is

end

def Item.isString : Item → Bool
  | .string _ _ => true
  | _ => false

/-- The items of a dictionary from one place to another: where a key is due (`false`) a
string comes, and keys and values take turns. -/
def Turns : Bool → List Item → Bool → Prop
  | value, [], value' => value = value'
  | value, i :: is, value' => (value = false → i.isString = true) ∧ Turns (!value) is value'

/-- The text between `i` and `e`: digits, at most `20` of them, behind an optional minus. -/
def IsIntegerText (text : Bytes) : Prop :=
  ∃ sign digits, text = sign ++ digits ∧ (sign = [] ∨ sign = [byte '-']) ∧ digits ≠ [] ∧
    (∀ c ∈ digits, numeric c = true) ∧ digits.length ≤ 20

/-- The digits before the colon give the length of the string; at most `8` of them. -/
def IsLengthText (length content : Bytes) : Prop :=
  length ≠ [] ∧ (∀ c ∈ length, numeric c = true) ∧ length.length ≤ 8 ∧
    decimalValue length = content.length

mutual

/-- The numbers are numbers, strings have the lengths they say, and a dictionary has keys with
values. -/
def Item.WellFormed : Item → Prop
  | .integer text => IsIntegerText text
  | .string length content => IsLengthText length content
  | .sequence dict items => AllWellFormed items ∧ (dict = true → Turns false items false)
termination_by structural i => i

def AllWellFormed : List Item → Prop
  | [] => True
  | i :: is => i.WellFormed ∧ AllWellFormed is
termination_by structural is => is

end

mutual

/-- How deep lists and dictionaries are nested. -/
def Item.nesting : Item → Nat
  | .integer _ => 0
  | .string _ _ => 0
  | .sequence _ items => nestingAll items + 1
termination_by structural i => i

def nestingAll : List Item → Nat
  | [] => 0
  | i :: is => max i.nesting (nestingAll is)
termination_by structural is => is

end

mutual

/-- The number of tokens of an item: a list or dictionary has one at each end. -/
def Item.count : Item → Nat
  | .integer _ => 1
  | .string _ _ => 1
  | .sequence _ items => countAll items + 2
termination_by structural i => i

def countAll : List Item → Nat
  | [] => 0
  | i :: is => i.count + countAll is
termination_by structural is => is

end

/-! ## Lists of items -/

@[simp] theorem renderAll_append (is js : List Item) :
    renderAll (is ++ js) = renderAll is ++ renderAll js := by
  induction is with
  | nil => rfl
  | cons i is ih => simp [renderAll, ih]

@[simp] theorem countAll_append (is js : List Item) :
    countAll (is ++ js) = countAll is + countAll js := by
  induction is with
  | nil => simp [countAll]
  | cons i is ih =>
      simp only [List.cons_append, countAll, ih]
      omega

@[simp] theorem allWellFormed_append (is js : List Item) :
    AllWellFormed (is ++ js) ↔ AllWellFormed is ∧ AllWellFormed js := by
  induction is with
  | nil => simp [AllWellFormed]
  | cons i is ih => simp [AllWellFormed, ih, and_assoc]

@[simp] theorem nestingAll_append (is js : List Item) :
    nestingAll (is ++ js) = max (nestingAll is) (nestingAll js) := by
  induction is with
  | nil => simp [nestingAll]
  | cons i is ih => simp [nestingAll, ih, Nat.max_assoc]

theorem turns_append {value value'' : Bool} {is js : List Item} :
    Turns value (is ++ js) value'' ↔ ∃ value', Turns value is value' ∧ Turns value' js value'' := by
  induction is generalizing value with
  | nil => simp [Turns]
  | cons i is ih =>
      simp only [List.cons_append, Turns, ih]
      constructor
      · rintro ⟨hkey, value', h₁, h₂⟩
        exact ⟨value', ⟨hkey, h₁⟩, h₂⟩
      · rintro ⟨value', ⟨hkey, h₁⟩, h₂⟩
        exact ⟨hkey, value', h₁, h₂⟩

theorem nestingAll_lt_iff {is : List Item} {n : Nat} (hn : 0 < n) :
    nestingAll is < n ↔ ∀ i ∈ is, i.nesting < n := by
  induction is with
  | nil => simp [nestingAll, hn]
  | cons i is ih => simp [nestingAll, ih]

theorem length_render_pos (i : Item) : 0 < i.render.length := by
  cases i with
  | integer text => simp [Item.render]
  | string length content => simp [Item.render]
  | sequence dict items => simp [Item.render]

mutual

/-- Every token stands for a byte at least. -/
theorem count_le_length_render (i : Item) : i.count ≤ i.render.length := by
  cases i with
  | integer text => simp [Item.count, Item.render]
  | string length content =>
      simp only [Item.count, Item.render, List.length_append, List.length_cons]
      omega
  | sequence dict items =>
      have := countAll_le_length_renderAll items
      simp only [Item.count, Item.render, List.length_append, List.length_cons, List.length_nil]
      omega

theorem countAll_le_length_renderAll (is : List Item) : countAll is ≤ (renderAll is).length := by
  cases is with
  | nil => simp [countAll]
  | cons i is =>
      have := count_le_length_render i
      have := countAll_le_length_renderAll is
      simp only [countAll, renderAll, List.length_append]
      omega

end

end Bencoding
