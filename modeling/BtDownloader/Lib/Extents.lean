import Mathlib.Data.Nat.Basic
import Mathlib.Algebra.Order.Group.Nat
import Mathlib.Tactic

set_option autoImplicit false

/-! # Extents over blocks

Extents of given sizes are laid one after the other on a line of bytes, and the line is cut
into blocks of `L` bytes. An extent overlaps a block when some byte lies in both; for `L > 0`
these blocks are the consecutive ones from `off / L` to `(off + size - 1) / L`
(`overlaps_iff`). The counting lemmas compare the size of an extent with the number of
blocks it overlaps.
-/

namespace Extents

/-! ## Offsets -/

/-- Where extent `i` starts. -/
def offset (sizes : List Nat) (i : Nat) : Nat := (sizes.take i).sum

theorem offset_succ {sizes : List Nat} {i : Nat} (h : i < sizes.length) :
    offset sizes (i + 1) = offset sizes i + sizes[i] := by
  rw [offset, offset, List.take_succ_eq_append_getElem h, List.sum_append, List.sum_singleton]

theorem offset_le_sum (sizes : List Nat) (i : Nat) : offset sizes i ≤ sizes.sum :=
  (List.take_sublist i sizes).sum_le_sum (fun _ _ => Nat.zero_le _)

/-- Every extent ends inside the line. -/
theorem offset_add_size_le {sizes : List Nat} {i : Nat} (h : i < sizes.length) :
    offset sizes i + sizes[i] ≤ sizes.sum := by
  rw [← offset_succ h]
  exact offset_le_sum sizes (i + 1)

/-! ## Blocks -/

/-- Some byte of the extent `[off, off + size)` lies in block `b`. -/
def Overlaps (L off size b : Nat) : Prop := ∃ x, off ≤ x ∧ x < off + size ∧ x / L = b

/-- The number of blocks of `L` bytes that cover `total` bytes. -/
def blocks (L total : Nat) : Nat := (total + L - 1) / L

/-- **The blocks of an extent are consecutive.** -/
theorem overlaps_iff {L : Nat} (hL : 0 < L) (off size b : Nat) :
    Overlaps L off size b ↔ 0 < size ∧ off / L ≤ b ∧ b ≤ (off + size - 1) / L := by
  constructor
  · rintro ⟨x, h₁, h₂, rfl⟩
    exact ⟨by omega, Nat.div_le_div_right h₁, Nat.div_le_div_right (by omega)⟩
  · rintro ⟨hs, h₁, h₂⟩
    -- the byte is the start of the extent in its first block, the start of `b` after it
    rcases Nat.eq_or_lt_of_le h₁ with heq | hlt
    · exact ⟨off, Nat.le_refl _, by omega, heq⟩
    · refine ⟨b * L, ?_, ?_, Nat.mul_div_cancel b hL⟩
      · exact Nat.le_of_lt ((Nat.div_lt_iff_lt_mul hL).mp hlt)
      · have := (Nat.le_div_iff_mul_le hL).mp h₂
        omega

instance {L off size b : Nat} [h : NeZero L] : Decidable (Overlaps L off size b) :=
  decidable_of_iff _ (overlaps_iff (Nat.pos_of_ne_zero h.out) off size b).symm

theorem div_lt_blocks {L total x : Nat} (hL : 0 < L) (h : x < total) :
    x / L < blocks L total := by
  unfold blocks
  rw [Nat.lt_iff_add_one_le, Nat.le_div_iff_mul_le hL, Nat.add_mul, Nat.one_mul]
  have := Nat.div_mul_le_self x L
  omega

/-- An overlapped block is one of the blocks of the line. -/
theorem overlaps_lt_blocks {L off size total b : Nat} (hL : 0 < L) (hend : off + size ≤ total)
    (h : Overlaps L off size b) : b < blocks L total := by
  obtain ⟨x, -, hx, rfl⟩ := h
  exact div_lt_blocks hL (by omega)

theorem div_le_blocks {L total x : Nat} (hL : 0 < L) (h : x ≤ total) :
    x / L ≤ blocks L total := by
  unfold blocks
  exact Nat.div_le_div_right (by omega)

/-! ## Counting the blocks of an extent -/

/-- The number of blocks an extent overlaps. -/
def spanned (L off size : Nat) : Nat :=
  if size = 0 then 0 else (off + size - 1) / L + 1 - off / L

theorem spanned_of_pos {L off size : Nat} (h : 0 < size) :
    off / L + spanned L off size = (off + size - 1) / L + 1 := by
  have hle : off / L ≤ (off + size - 1) / L := Nat.div_le_div_right (by omega)
  rw [spanned, if_neg (by omega)]
  omega

/-- An extent is no longer than the blocks it overlaps. -/
theorem size_le_spanned {L : Nat} (hL : 0 < L) (off size : Nat) :
    size ≤ spanned L off size * L := by
  rcases Nat.eq_zero_or_pos size with rfl | hs
  · exact Nat.zero_le _
  · have hspan : off / L + spanned L off size = (off + size - 1) / L + 1 := spanned_of_pos hs
    have hlast : off + size - 1 < ((off + size - 1) / L + 1) * L := by
      rw [Nat.mul_comm]
      exact Nat.lt_mul_div_succ _ hL
    have hfirst := Nat.div_mul_le_self off L
    rw [← hspan, Nat.add_mul] at hlast
    omega

/-- An extent of at least `k` blocks' bytes overlaps at least `k` blocks. -/
theorem le_spanned {L k : Nat} (hL : 0 < L) {off size : Nat} (h : k * L ≤ size) :
    k ≤ spanned L off size :=
  Nat.le_of_mul_le_mul_right (Nat.le_trans h (size_le_spanned hL off size)) hL

theorem first_add_spanned_le {L off size total : Nat} (hL : 0 < L)
    (hend : off + size ≤ total) : off / L + spanned L off size ≤ blocks L total := by
  rcases Nat.eq_zero_or_pos size with rfl | hs
  · rw [spanned, if_pos rfl, Nat.add_zero]
    exact div_le_blocks hL (by omega)
  · rw [spanned_of_pos hs]
    exact div_lt_blocks hL (by omega)

/-- The overlapped blocks, counted from the first. -/
theorem overlaps_iff_spanned {L : Nat} (hL : 0 < L) (off size b : Nat) :
    Overlaps L off size b ↔ off / L ≤ b ∧ b < off / L + spanned L off size := by
  rw [overlaps_iff hL]
  rcases Nat.eq_zero_or_pos size with rfl | hs
  · rw [spanned, if_pos rfl]
    omega
  · rw [spanned_of_pos hs]
    omega

end Extents
