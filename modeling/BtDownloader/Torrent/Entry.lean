import BtDownloader.Lib.Bencoding
import BtDownloader.Lib.OrderedMap

set_option autoImplicit false

/-! # libtorrent's `entry` and `bencode`

An `entry` is a value to be bencoded. Dictionaries are `std::map`s, so their keys are in order;
preformatted text goes into the output as it is, and an undefined entry as an empty string.

* `integerToStr_eq`: the digits of an integer are its decimal digits exactly above `-10^18`; from
  there down the first digit is lost.
* `bencode_eq_render`: the text of an entry is that of an item, which is well formed.
-/

namespace BtDownloader

open Bencoding

/-- `entry`. -/
inductive Entry
  | undefined
  | integer (value : Int)
  | string (value : Bytes)
  | list (items : List Entry)
  | dictionary (items : List (Bytes × Entry))
  | preformatted (text : Bytes)
deriving Repr

/-! ## Numbers -/

/-- `-val` of an `int64_t`; that of the least one is out of range and wraps around. -/
def negated (val : Int) : Int := (-val).bmod (2 ^ 64)

/-- The loop of `integer_to_str`: the digits are written in front of `text`, from the last one
on, as long as there is room. -/
def digitsInto : Nat → Int → Bytes → Bytes
  | 0, _, text => text
  | room + 1, val, text =>
      if val = 0 then text
      else digitsInto room (val.tdiv 10) (UInt8.ofNat (48 + val.tmod 10).toNat :: text)

/-- `integer_to_str`, into a buffer of `size` characters. The last one is a zero, and the loop
stops short of the first one, or with a sign of the second. -/
def integerToStr (size : Nat) (val : Int) : Bytes :=
  let sign := if val < 0 then 1 else 0
  let text := if val = 0 then [byte '0'] else []
  let digits := digitsInto (size - 2 - sign) (if val < 0 then negated val else val) text
  if val < 0 then byte '-' :: digits else digits

/-- `write_integer`, whose buffer has `21` characters. -/
def writeInteger (val : Int) : Bytes := integerToStr 21 val

/-! ## `bencode` -/

def writeString (s : Bytes) : Bytes := writeInteger s.length ++ byte ':' :: s

mutual

/-- `bencode`. -/
def bencode : Entry → Bytes
  | .integer v => byte 'i' :: writeInteger v ++ [byte 'e']
  | .string s => writeString s
  | .list es => byte 'l' :: bencodeList es ++ [byte 'e']
  | .dictionary d => byte 'd' :: bencodeDict d ++ [byte 'e']
  | .preformatted text => text
  | .undefined => [byte '0', byte ':']
termination_by structural e => e

def bencodeList : List Entry → Bytes
  | [] => []
  | e :: es => bencode e ++ bencodeList es
termination_by structural es => es

def bencodeDict : List (Bytes × Entry) → Bytes
  | [] => []
  | kv :: d => bencodePair kv ++ bencodeDict d
termination_by structural d => d

/-- A key and its value. -/
def bencodePair : Bytes × Entry → Bytes
  | (key, e) => writeString key ++ bencode e
termination_by structural kv => kv

end

/-! ## The item of an entry -/

def stringItem (s : Bytes) : Item := .string (writeInteger s.length) s

section

-- how preformatted text is read as an item
variable (format : Bytes → Item)

mutual

/-- The item whose text `bencode` writes. -/
def Entry.item : Entry → Item
  | .integer v => .integer (writeInteger v)
  | .string s => stringItem s
  | .list es => .sequence false (listItems es)
  | .dictionary d => .sequence true (dictItems d)
  | .preformatted text => format text
  | .undefined => .string [byte '0'] []
termination_by structural e => e

def listItems : List Entry → List Item
  | [] => []
  | e :: es => e.item :: listItems es
termination_by structural es => es

def dictItems : List (Bytes × Entry) → List Item
  | [] => []
  | kv :: d => pairItems kv ++ dictItems d
termination_by structural d => d

def pairItems : Bytes × Entry → List Item
  | (key, e) => [stringItem key, e.item]
termination_by structural kv => kv

end

mutual

/-- The integers are those that can be written, strings are not too long to be read, the keys of
dictionaries are in order, and preformatted text is bencoded. -/
def Entry.Valid : Entry → Prop
  | .integer v => -10 ^ 18 < v ∧ v < 2 ^ 63
  | .string s => s.length < 10 ^ 8
  | .list es => ListValid es
  | .dictionary d => OrderedMap.Sorted d ∧ DictValid d
  | .preformatted text => (format text).WellFormed ∧ (format text).render = text
  | .undefined => True
termination_by structural e => e

def ListValid : List Entry → Prop
  | [] => True
  | e :: es => e.Valid ∧ ListValid es
termination_by structural es => es

def DictValid : List (Bytes × Entry) → Prop
  | [] => True
  | kv :: d => PairValid kv ∧ DictValid d
termination_by structural d => d

def PairValid : Bytes × Entry → Prop
  | (key, e) => key.length < 10 ^ 8 ∧ e.Valid
termination_by structural kv => kv

end

end

/-! ## Digits -/

/-- The loop writes the last digits, as many as there is room for. -/
theorem digitsInto_eq (room val : Nat) (text : Bytes) :
    digitsInto room val text =
      (((Nat.digits 10 val).take room).map fun d => UInt8.ofNat (48 + d)).reverse ++ text := by
  induction room generalizing val text with
  | zero => rfl
  | succ room ih =>
      unfold digitsInto
      by_cases hval : val = 0
      · subst hval
        rfl
      · have hdigit : (48 + (val : Int).tmod 10).toNat = 48 + val % 10 := by
          show (48 + ((val % 10 : Nat) : Int)).toNat = _
          omega
        have hrest : (val : Int).tdiv 10 = (val / 10 : Nat) := rfl
        rw [if_neg (by omega), hdigit, hrest, ih,
          Nat.digits_def' (by omega) (Nat.pos_of_ne_zero hval)]
        simp

theorem negated_eq {val : Int} (hmin : -2 ^ 63 < val) (hneg : val < 0) :
    negated val = val.natAbs := by
  rw [negated, Int.bmod_eq_of_le]
  · omega
  · omega
  · omega

/-- The decimal digits of an integer, with a minus in front of those of a negative one. -/
def integerText (val : Int) : Bytes :=
  if val < 0 then byte '-' :: decimalText val.natAbs else decimalText val.natAbs

/-- With room for all digits they are the decimal digits. -/
theorem digitsInto_natAbs {room : Nat} {val : Int} (h : val.natAbs < 10 ^ room) :
    digitsInto room val.natAbs (if val = 0 then [byte '0'] else []) = decimalText val.natAbs := by
  have hlength := (Nat.digits_length_le_iff (b := 10) (by omega) val.natAbs).mpr h
  rw [digitsInto_eq, List.take_of_length_le hlength, decimalText]
  by_cases hval : val = 0
  · subst hval
    rfl
  · rw [if_neg hval, if_neg (by omega), List.append_nil]

/-- With room for all digits but one the first one is lost. -/
theorem digitsInto_tail {room n : Nat} (hlong : 10 ^ room ≤ n) (hshort : n < 10 ^ (room + 1)) :
    digitsInto room n [] = (decimalText n).tail := by
  have hn : n ≠ 0 := by
    have hpos := Nat.pos_of_ne_zero (pow_ne_zero room (show (10 : Nat) ≠ 0 by omega))
    omega
  have hlength : (Nat.digits 10 n).length = room + 1 := by
    have hmore := (Nat.lt_digits_length_iff (b := 10) (by omega) n).mpr hlong
    have hless := (Nat.digits_length_le_iff (b := 10) (by omega) n).mpr hshort
    omega
  rw [digitsInto_eq, List.append_nil, decimalText, if_neg hn, List.tail_reverse,
    List.dropLast_eq_take, List.length_map, hlength, Nat.add_sub_cancel, List.map_take]

theorem writeInteger_eq {val : Int} (hmin : -10 ^ 18 < val) (hmax : val < 2 ^ 63) :
    writeInteger val = integerText val := by
  unfold writeInteger integerToStr integerText
  dsimp only
  by_cases hneg : val < 0
  · rw [if_pos hneg, if_pos hneg, if_pos hneg, if_pos hneg, negated_eq (by omega) hneg,
      digitsInto_natAbs (show val.natAbs < 10 ^ 18 by omega)]
  · rw [if_neg hneg, if_neg hneg, if_neg hneg, if_neg hneg]
    have habs : (val.natAbs : Int) = val := by omega
    have hdigits := digitsInto_natAbs (show val.natAbs < 10 ^ 19 by omega)
    rwa [habs] at hdigits

/-- From `-10^18` down there is room for all digits but one. -/
theorem integerToStr_of_le {val : Int} (hmin : -2 ^ 63 < val) (hle : val ≤ -10 ^ 18) :
    integerToStr 21 val = byte '-' :: (decimalText val.natAbs).tail := by
  have hneg : val < 0 := by omega
  unfold integerToStr
  dsimp only
  rw [if_pos hneg, if_pos hneg, if_pos hneg, if_neg (by omega), negated_eq hmin hneg,
    digitsInto_tail (show 10 ^ 18 ≤ val.natAbs by omega) (by omega)]

/-- **What `integer_to_str` writes**, of every `int64_t` whose negation is one. There is room for
19 digits, but only for 18 behind a sign: the decimal digits are written exactly above `-10^18`,
and from there down all but the first one. -/
theorem integerToStr_eq {val : Int} (hmin : -2 ^ 63 < val) (hmax : val < 2 ^ 63) :
    (integerToStr 21 val = integerText val ↔ -10 ^ 18 < val) ∧
      (val ≤ -10 ^ 18 → integerToStr 21 val = byte '-' :: (decimalText val.natAbs).tail) := by
  refine ⟨⟨fun h => ?_, fun h => writeInteger_eq h hmax⟩, integerToStr_of_le hmin⟩
  by_contra hle
  rw [integerToStr_of_le hmin (by omega), integerText, if_pos (by omega), List.cons.injEq,
    and_iff_right rfl] at h
  -- no text is its own tail
  have hpos := List.length_pos_of_ne_nil (decimalText_ne_nil val.natAbs)
  have hlength := congrArg List.length h
  rw [List.length_tail] at hlength
  omega

/-- `-10^18` itself is not written. -/
theorem integerToStr_sample : integerToStr 21 (-10 ^ 18) ≠ integerText (-10 ^ 18) ∧
    integerToStr 21 (-10 ^ 18) = byte '-' :: List.replicate 18 (byte '0') := by
  obtain ⟨hiff, htail⟩ := @integerToStr_eq (-10 ^ 18) (by norm_num) (by norm_num)
  refine ⟨fun h => absurd (hiff.mp h) (by norm_num), (htail le_rfl).trans ?_⟩
  norm_num [decimalText]
  rfl

theorem writeInteger_natCast {n : Nat} (h : n < 2 ^ 63) : writeInteger n = decimalText n := by
  rw [writeInteger_eq (by omega) (by omega), integerText, if_neg (by omega), Int.natAbs_natCast]

theorem isIntegerText_integerText {val : Int} (hmin : -10 ^ 18 < val) (hmax : val < 2 ^ 63) :
    IsIntegerText (integerText val) := by
  have hdigits : (decimalText val.natAbs).length ≤ 20 :=
    length_decimalText_le (by omega) (by omega)
  by_cases hneg : val < 0
  · refine ⟨[byte '-'], decimalText val.natAbs, ?_, Or.inr rfl, decimalText_ne_nil _,
      fun c hc => numeric_of_mem_decimalText hc, hdigits⟩
    rw [integerText, if_pos hneg]
    rfl
  · refine ⟨[], decimalText val.natAbs, ?_, Or.inl rfl, decimalText_ne_nil _,
      fun c hc => numeric_of_mem_decimalText hc, hdigits⟩
    rw [integerText, if_neg hneg]
    rfl

theorem wellFormed_stringItem {s : Bytes} (h : s.length < 10 ^ 8) :
    (stringItem s).WellFormed := by
  unfold stringItem Item.WellFormed
  rw [writeInteger_natCast (by omega)]
  exact ⟨decimalText_ne_nil _, fun c hc => numeric_of_mem_decimalText hc,
    length_decimalText_le (by omega) h, decimalValue_decimalText _⟩

/-! ## The text of an entry -/

section

variable {format : Bytes → Item}

theorem turns_dictItems (d : List (Bytes × Entry)) : Turns false (dictItems format d) false := by
  induction d with
  | nil => rfl
  | cons kv d ih =>
      obtain ⟨key, e⟩ := kv
      exact ⟨fun _ => rfl, by simp, ih⟩

mutual

/-- **The text of a valid entry is that of its item.** -/
theorem bencode_eq_render (e : Entry) (h : e.Valid format) :
    bencode e = (e.item format).render := by
  cases e with
  | undefined => rfl
  | integer v => rfl
  | string s => rfl
  | list es =>
      rw [bencode, Entry.item, Item.render, bencodeList_eq es h]
      rfl
  | dictionary d =>
      rw [bencode, Entry.item, Item.render, bencodeDict_eq d h.2]
      rfl
  | preformatted text => exact h.2.symm

theorem bencodeList_eq (es : List Entry) (h : ListValid format es) :
    bencodeList es = renderAll (listItems format es) := by
  cases es with
  | nil => rfl
  | cons e es =>
      rw [bencodeList, listItems, renderAll, bencode_eq_render e h.1, bencodeList_eq es h.2]

theorem bencodeDict_eq (d : List (Bytes × Entry)) (h : DictValid format d) :
    bencodeDict d = renderAll (dictItems format d) := by
  cases d with
  | nil => rfl
  | cons kv d =>
      rw [bencodeDict, dictItems, renderAll_append, bencodePair_eq kv h.1,
        bencodeDict_eq d h.2]

theorem bencodePair_eq (kv : Bytes × Entry) (h : PairValid format kv) :
    bencodePair kv = renderAll (pairItems format kv) := by
  obtain ⟨key, e⟩ := kv
  simp only [bencodePair, pairItems, renderAll, List.append_nil, bencode_eq_render e h.2]
  rfl

end

mutual

/-- **The item of a valid entry is well formed**, so `bdecode` can read its text. -/
theorem wellFormed_item (e : Entry) (h : e.Valid format) : (e.item format).WellFormed := by
  cases e with
  | undefined =>
      refine ⟨by decide, fun c hc => ?_, by decide, by decide⟩
      obtain rfl := List.mem_singleton.mp hc
      decide
  | integer v =>
      obtain ⟨hmin, hmax⟩ := h
      unfold Entry.item Item.WellFormed
      rw [writeInteger_eq hmin hmax]
      exact isIntegerText_integerText hmin hmax
  | string s => exact wellFormed_stringItem h
  | list es => exact ⟨wellFormed_listItems es h, by simp⟩
  | dictionary d => exact ⟨wellFormed_dictItems d h.2, fun _ => turns_dictItems d⟩
  | preformatted text => exact h.1

theorem wellFormed_listItems (es : List Entry) (h : ListValid format es) :
    AllWellFormed (listItems format es) := by
  cases es with
  | nil => trivial
  | cons e es => exact ⟨wellFormed_item e h.1, wellFormed_listItems es h.2⟩

theorem wellFormed_dictItems (d : List (Bytes × Entry)) (h : DictValid format d) :
    AllWellFormed (dictItems format d) := by
  cases d with
  | nil => trivial
  | cons kv d =>
      rw [dictItems, allWellFormed_append]
      exact ⟨wellFormed_pairItems kv h.1, wellFormed_dictItems d h.2⟩

theorem wellFormed_pairItems (kv : Bytes × Entry) (h : PairValid format kv) :
    AllWellFormed (pairItems format kv) := by
  obtain ⟨key, e⟩ := kv
  exact ⟨wellFormed_stringItem h.1, wellFormed_item e h.2, trivial⟩

end

end

end BtDownloader
