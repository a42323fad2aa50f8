import BtDownloader.Torrent.Bdecode

set_option autoImplicit false

/-! # The numbers `bdecode` reads

`check_integer` finds the end of an integer and `parse_int` reads the length of a string and,
when a node is asked for it, the value of an integer. Both are compared with the digits of
`Lib/Bencoding.lean`.
-/

namespace BtDownloader

open Bencoding

/-! ## `check_integer` -/

theorem digitLoop_digits {digits : Bytes} (hne : digits ≠ [])
    (hdigits : ∀ c ∈ digits, numeric c = true) (rest : Bytes) (n : Nat) :
    digitLoop (digits ++ byte 'e' :: rest) n = (n + digits.length, none) := by
  induction digits generalizing n with
  | nil => exact absurd rfl hne
  | cons c digits ih =>
      have hc : numeric c = true := hdigits c List.mem_cons_self
      rw [List.cons_append, digitLoop, if_neg (by simp [hc])]
      by_cases hnil : digits = []
      · simp [hnil]
      · have hhead : (digits ++ byte 'e' :: rest).head? ≠ some (byte 'e') := by
          rw [List.head?_append_of_ne_nil _ hnil]
          intro hhead
          have := hdigits (byte 'e') (List.mem_cons_of_mem _ (List.mem_of_mem_head? hhead))
          exact absurd this (by decide)
        rw [if_neg hhead, ih hnil fun c' hc' => hdigits c' (List.mem_cons_of_mem _ hc')]
        simp only [List.length_cons, Prod.mk.injEq, and_true]
        omega

theorem digitLoop_eq_none {text : Bytes} {n m : Nat} (h : digitLoop text n = (m, none)) :
    ∃ digits rest, text = digits ++ byte 'e' :: rest ∧ digits ≠ [] ∧
      (∀ c ∈ digits, numeric c = true) ∧ m = n + digits.length := by
  induction text generalizing n with
  | nil => simp [digitLoop] at h
  | cons c text ih =>
      rw [digitLoop] at h
      split at h
      · simp at h
      · rename_i hc
        rw [Bool.not_eq_false] at hc
        split at h
        · rename_i hhead
          simp only [Prod.mk.injEq, and_true] at h
          obtain ⟨rest, rfl⟩ := List.head?_eq_some_iff.mp hhead
          exact ⟨[c], rest, rfl, by simp, by simpa using hc, by simp [← h]⟩
        · obtain ⟨digits, rest, htext, -, hdigits, hm⟩ := ih h
          refine ⟨c :: digits, rest, by rw [htext, List.cons_append], by simp, ?_, ?_⟩
          · simpa [hc] using hdigits
          · rw [hm, List.length_cons]
            omega

/-- The sign is a minus in front, if there is one. -/
theorem take_sign (text : Bytes) :
    text.take (if text.head? = some (byte '-') then 1 else 0) = [] ∨
      text.take (if text.head? = some (byte '-') then 1 else 0) = [byte '-'] := by
  cases text with
  | nil => simp
  | cons c text =>
      by_cases hc : c = byte '-'
      · right
        simp [hc]
      · left
        simp [hc]

/-- **`check_integer` accepts the texts of integers**, and stops at their `e`. -/
theorem checkInteger_eq_none {text : Bytes} {n : Nat} :
    checkInteger text = (n, none) ↔
      ∃ body rest, text = body ++ byte 'e' :: rest ∧ IsIntegerText body ∧ n = body.length := by
  constructor
  · intro h
    have htake := take_sign text
    unfold checkInteger at h
    dsimp only at h
    generalize hsign : (if text.head? = some (byte '-') then 1 else 0) = sign at h htake
    obtain ⟨m, e, hloop⟩ : ∃ m e, digitLoop (text.drop sign) 0 = (m, e) := ⟨_, _, rfl⟩
    rw [hloop] at h
    dsimp only at h
    -- more than 20 digits are an error, however the digits go on
    by_cases hm : 20 < m
    · simp [hm] at h
    · rw [if_neg hm] at h
      obtain ⟨rfl, rfl⟩ : sign + m = n ∧ e = none := by simpa using h
      obtain ⟨digits, rest, htext, hne, hdigits, hlen⟩ := digitLoop_eq_none hloop
      have hle : sign ≤ text.length := by
        have := congrArg List.length htext
        simp only [List.length_drop, List.length_append, List.length_cons] at this
        omega
      refine ⟨text.take sign ++ digits, rest, ?_, ⟨_, digits, rfl, htake, hne, hdigits, by omega⟩,
        ?_⟩
      · rw [List.append_assoc, ← htext, List.take_append_drop]
      · rw [List.length_append, List.length_take, hlen, Nat.min_eq_left hle, Nat.zero_add]
  · rintro ⟨body, rest, rfl, ⟨sign, digits, rfl, hsign, hne, hdigits, hlen⟩, rfl⟩
    -- the sign is what the text says it is: digits do not begin with one
    have hdrop : (sign ++ digits ++ byte 'e' :: rest).drop
        (if (sign ++ digits ++ byte 'e' :: rest).head? = some (byte '-') then 1 else 0)
          = digits ++ byte 'e' :: rest ∧
        (if (sign ++ digits ++ byte 'e' :: rest).head? = some (byte '-') then 1 else 0)
          = sign.length := by
      rcases hsign with rfl | rfl
      · have hhead : ([] ++ digits ++ byte 'e' :: rest).head? ≠ some (byte '-') := by
          rw [List.nil_append, List.head?_append_of_ne_nil _ hne]
          intro hhead
          exact absurd (hdigits _ (List.mem_of_mem_head? hhead)) (by decide)
        rw [if_neg hhead]
        exact ⟨rfl, rfl⟩
      · simp
    unfold checkInteger
    dsimp only
    rw [hdrop.1, hdrop.2, digitLoop_digits hne hdigits]
    simp only [Nat.zero_add, List.length_append, Prod.mk.injEq, true_and]
    rw [if_neg (by omega)]

theorem digitLoop_le (text : Bytes) (n : Nat) : (digitLoop text n).1 ≤ n + text.length := by
  induction text generalizing n with
  | nil => simp [digitLoop]
  | cons c text ih =>
      have := ih (n + 1)
      rw [digitLoop, List.length_cons]
      split
      · simp
      · split
        · simp
        · omega

/-- `check_integer` stays inside the text. -/
theorem checkInteger_le (text : Bytes) : (checkInteger text).1 ≤ text.length := by
  have hloop := digitLoop_le (text.drop (if text.head? = some (byte '-') then 1 else 0)) 0
  rw [List.length_drop] at hloop
  unfold checkInteger
  dsimp only
  split at hloop
  · rename_i hhead
    have : 0 < text.length := List.length_pos_of_mem (List.mem_of_mem_head? hhead)
    rw [if_pos hhead]
    omega
  · rename_i hhead
    rw [if_neg hhead]
    omega

/-! ## `parse_int` -/

/-- The value of digits that go on behind a number. -/
def decimalFrom (val : Nat) (digits : Bytes) : Nat :=
  digits.foldl (fun n c => 10 * n + (c.toNat - 48)) val

theorem le_decimalFrom (val : Nat) (digits : Bytes) : val ≤ decimalFrom val digits := by
  induction digits generalizing val with
  | nil => exact Nat.le_refl _
  | cons c digits ih =>
      have := ih (10 * val + (c.toNat - 48))
      show val ≤ decimalFrom (10 * val + (c.toNat - 48)) digits
      omega

theorem decimalValue_cons (c : UInt8) (digits : Bytes) :
    decimalValue (c :: digits) = decimalFrom (c.toNat - 48) digits := by
  simp [decimalValue, decimalFrom]

/-- Few digits make a small number. -/
theorem decimalFrom_lt {digits : Bytes} (hdigits : ∀ c ∈ digits, numeric c = true)
    {val k : Nat} (hval : val < 10 ^ k) : decimalFrom val digits < 10 ^ (k + digits.length) := by
  induction digits generalizing val k with
  | nil => simpa [decimalFrom] using hval
  | cons c digits ih =>
      have hc := numeric_iff.mp (hdigits c List.mem_cons_self)
      have hstep : 10 * val + (c.toNat - 48) < 10 ^ (k + 1) := by
        rw [Nat.pow_succ]
        omega
      have := ih (fun c' hc' => hdigits c' (List.mem_cons_of_mem _ hc')) hstep
      rw [List.length_cons, show k + (digits.length + 1) = k + 1 + digits.length by omega]
      exact this

/-- `parse_int` on digits: their value, or an overflow where that is no `std::int64_t`. -/
theorem parseInt_digits {delimiter : UInt8} (hdelim : numeric delimiter = false) {digits : Bytes}
    (hdigits : ∀ c ∈ digits, numeric c = true) (rest : Bytes) {val : Nat} (hval : val ≤ maxInt64) :
    if decimalFrom val digits ≤ maxInt64 then
      parseInt delimiter (digits ++ delimiter :: rest) val
        = (digits.length, decimalFrom val digits, none)
    else ∃ n val', parseInt delimiter (digits ++ delimiter :: rest) val
        = (n, val', some .overflow) := by
  induction digits generalizing val with
  | nil =>
      rw [if_pos (by simpa [decimalFrom] using hval)]
      simp [parseInt, decimalFrom]
  | cons c digits ih =>
      have hc : numeric c = true := hdigits c List.mem_cons_self
      have hne : c ≠ delimiter := by
        rintro rfl
        rw [hc] at hdelim
        cases hdelim
      have hd := numeric_iff.mp hc
      have hfrom : decimalFrom val (c :: digits)
          = decimalFrom (val * 10 + (c.toNat - 48)) digits := by
        show decimalFrom (10 * val + (c.toNat - 48)) digits = _
        rw [Nat.mul_comm]
      have hge := le_decimalFrom (val * 10 + (c.toNat - 48)) digits
      rw [hfrom, List.cons_append]
      simp only [parseInt, if_neg hne, hc, Bool.true_eq_false, if_false]
      -- the two checks for an overflow, before the multiplication and before the addition
      by_cases h₁ : maxInt64 / 10 < val
      · rw [if_pos h₁, if_neg (by unfold maxInt64 at *; omega)]
        exact ⟨_, _, rfl⟩
      · rw [if_neg h₁]
        by_cases h₂ : maxInt64 - (c.toNat - 48) < val * 10
        · rw [if_pos h₂, if_neg (by omega)]
          exact ⟨_, _, rfl⟩
        · rw [if_neg h₂]
          have := ih (fun c' hc' => hdigits c' (List.mem_cons_of_mem _ hc'))
            (show val * 10 + (c.toNat - 48) ≤ maxInt64 by unfold maxInt64 at *; omega)
          split at this
          · rename_i hle
            rw [if_pos hle, this, List.length_cons]
          · rename_i hgt
            obtain ⟨n, val', h⟩ := this
            rw [if_neg hgt, h]
            exact ⟨_, _, rfl⟩

/-- What `parse_int` has read when it reports no error. -/
theorem parseInt_eq_none {delimiter : UInt8} {text : Bytes} {val n val' : Nat}
    (h : parseInt delimiter text val = (n, val', none)) :
    ∃ digits rest, text = digits ++ rest ∧ n = digits.length ∧
      (∀ c ∈ digits, numeric c = true) ∧ val' = decimalFrom val digits ∧
      (rest = [] ∨ rest.head? = some delimiter) := by
  induction text generalizing val n with
  | nil =>
      obtain ⟨rfl, rfl⟩ : 0 = n ∧ val = val' := by simpa [parseInt] using h
      exact ⟨[], [], rfl, rfl, by simp, rfl, Or.inl rfl⟩
  | cons c text ih =>
      rw [parseInt] at h
      split at h
      · rename_i hc
        obtain ⟨rfl, rfl⟩ : 0 = n ∧ val = val' := by simpa using h
        exact ⟨[], c :: text, rfl, rfl, by simp, rfl, Or.inr (by simp [hc])⟩
      · split at h
        · simp at h
        · rename_i hc
          rw [Bool.not_eq_false] at hc
          split at h
          · simp at h
          · split at h
            · simp at h
            -- a digit that does not overflow: the others follow
            · obtain ⟨n', v', e', hrec⟩ : ∃ n' v' e',
                  parseInt delimiter text (val * 10 + (c.toNat - 48)) = (n', v', e') :=
                ⟨_, _, _, rfl⟩
              rw [hrec] at h
              obtain ⟨rfl, rfl, rfl⟩ : n' + 1 = n ∧ v' = val' ∧ e' = none := by simpa using h
              obtain ⟨digits, rest, htext, hn, hdigits, hval, hrest⟩ := ih hrec
              refine ⟨c :: digits, rest, by rw [htext, List.cons_append], by simp [hn], ?_, ?_,
                hrest⟩
              · intro c' hc'
                rcases List.mem_cons.mp hc' with rfl | hc'
                · exact hc
                · exact hdigits c' hc'
              · rw [hval]
                show _ = decimalFrom (10 * val + (c.toNat - 48)) digits
                rw [Nat.mul_comm]

theorem parseInt_le (delimiter : UInt8) (text : Bytes) (val : Nat) :
    (parseInt delimiter text val).1 ≤ text.length := by
  induction text generalizing val with
  | nil => simp [parseInt]
  | cons c text ih =>
      have := ih (val * 10 + (c.toNat - 48))
      rw [parseInt]
      repeat' split
      all_goals simp_all

/-- An error is one of a character of the text. -/
theorem parseInt_lt {delimiter : UInt8} {text : Bytes} {val n val' : Nat} {e : BdecodeError}
    (h : parseInt delimiter text val = (n, val', some e)) : n < text.length := by
  induction text generalizing val n with
  | nil => simp [parseInt] at h
  | cons c text ih =>
      rw [parseInt] at h
      rw [List.length_cons]
      by_cases hdelim : c = delimiter
      · simp [hdelim] at h
      rw [if_neg hdelim] at h
      split at h
      · obtain ⟨rfl, -⟩ := Prod.mk.inj h
        omega
      split at h
      · obtain ⟨rfl, -⟩ := Prod.mk.inj h
        omega
      split at h
      · obtain ⟨rfl, -⟩ := Prod.mk.inj h
        omega
      · obtain ⟨m, v, e', hrest⟩ : ∃ m v e', parseInt delimiter text
            (val * 10 + (c.toNat - 48)) = (m, v, e') := ⟨_, _, _, rfl⟩
        rw [hrest] at h
        simp only [Prod.mk.injEq] at h
        obtain ⟨rfl, rfl, rfl⟩ := h
        have := ih hrest
        omega

end BtDownloader
