import BtDownloader.Lib.Bencoding
import Mathlib.Data.List.GetD

set_option autoImplicit false

/-! # Bits packed into bytes

Bits in bytes of eight, the first bit being the highest one of the first byte. The bits of the
last byte that are left over are clear.
-/

namespace Bits

open Bencoding

/-- The byte of the first eight bits. -/
def packByte (bits : List Bool) : UInt8 :=
  UInt8.ofNat (((List.range 8).map fun i => (bits.getD i false).toNat * 2 ^ (7 - i)).sum)

/-- The bytes of the bits. -/
def pack (bits : List Bool) : Bytes :=
  (List.range ((bits.length + 7) / 8)).map fun k => packByte (bits.drop (8 * k))

def unpackByte (c : UInt8) : List Bool := (List.range 8).map fun i => c.toNat.testBit (7 - i)

def unpack (bytes : Bytes) : List Bool := bytes.flatMap unpackByte

theorem length_pack (bits : List Bool) : (pack bits).length = (bits.length + 7) / 8 := by
  simp [pack]

theorem length_unpack (bytes : Bytes) : (unpack bytes).length = 8 * bytes.length := by
  induction bytes with
  | nil => rfl
  | cons c bytes ih =>
      simp only [unpack, List.flatMap_cons, List.length_append, List.length_cons] at ih ⊢
      rw [ih]
      simp only [unpackByte, List.length_map, List.length_range]
      omega

/-- The bits of a byte that were packed, and clear bits up to eight. -/
theorem unpackByte_packByte (bits : List Bool) :
    unpackByte (packByte bits) = bits.take 8 ++ List.replicate (8 - bits.length) false := by
  -- a byte of eight bits is decided bit by bit; a shorter list is filled up
  have hpack : unpackByte (packByte bits) = (List.range 8).map fun i => bits.getD i false := by
    have hall : ∀ b₀ b₁ b₂ b₃ b₄ b₅ b₆ b₇ : Bool,
        (List.range 8).map (fun i => (UInt8.ofNat (b₀.toNat * 128 + b₁.toNat * 64 + b₂.toNat * 32 +
          b₃.toNat * 16 + b₄.toNat * 8 + b₅.toNat * 4 + b₆.toNat * 2 + b₇.toNat)).toNat.testBit
            (7 - i)) = [b₀, b₁, b₂, b₃, b₄, b₅, b₆, b₇] := by
      decide
    have hsum : ((List.range 8).map fun i => (bits.getD i false).toNat * 2 ^ (7 - i)).sum =
        (bits.getD 0 false).toNat * 128 + (bits.getD 1 false).toNat * 64 +
        (bits.getD 2 false).toNat * 32 + (bits.getD 3 false).toNat * 16 +
        (bits.getD 4 false).toNat * 8 + (bits.getD 5 false).toNat * 4 +
        (bits.getD 6 false).toNat * 2 + (bits.getD 7 false).toNat := by
      simp only [show List.range 8 = [0, 1, 2, 3, 4, 5, 6, 7] from rfl, List.map_cons,
        List.map_nil, List.sum_cons, List.sum_nil]
      omega
    rw [unpackByte, packByte, hsum, hall]
    rfl
  rw [hpack]
  refine List.ext_getElem (by simp; omega) fun i h₁ h₂ => ?_
  rw [List.getElem_map, List.getElem_range]
  by_cases hi : i < bits.length
  · rw [List.getElem_append_left (by simp at h₁ ⊢; omega), List.getElem_take,
      List.getD_eq_getElem _ _ hi]
  · rw [List.getElem_append_right (by simp; omega), List.getElem_replicate,
      List.getD_eq_default _ _ (by omega)]

theorem pack_eq_cons {bits : List Bool} (h : bits ≠ []) :
    pack bits = packByte bits :: pack (bits.drop 8) := by
  have hpos : 0 < bits.length := List.length_pos_iff.mpr h
  have hcount : (bits.length + 7) / 8 = (bits.length - 8 + 7) / 8 + 1 := by omega
  rw [pack, hcount, List.range_succ_eq_map, List.map_cons, List.map_map, pack, List.length_drop]
  refine congrArg₂ _ rfl (List.map_congr_left fun k _ => ?_)
  simp only [Function.comp_apply, List.drop_drop]
  rw [Nat.mul_succ, Nat.add_comm]

/-- **Packed bits are read back**, with clear bits up to a whole byte. -/
theorem unpack_pack (bits : List Bool) :
    unpack (pack bits)
      = bits ++ List.replicate (8 * ((bits.length + 7) / 8) - bits.length) false := by
  -- a byte at a time
  induction hn : bits.length using Nat.strong_induction_on generalizing bits with
  | _ n ih =>
      by_cases hnil : bits = []
      · subst hnil
        subst hn
        rfl
      · have hpos : 0 < bits.length := List.length_pos_iff.mpr hnil
        have htail := ih (bits.drop 8).length (by rw [List.length_drop]; omega) (bits.drop 8) rfl
        rw [pack_eq_cons hnil, unpack, List.flatMap_cons, ← unpack, htail, unpackByte_packByte,
          List.length_drop, ← hn]
        by_cases hlong : 8 ≤ bits.length
        · rw [show 8 - bits.length = 0 by omega, List.replicate_zero, List.append_nil,
            ← List.append_assoc, List.take_append_drop]
          congr 2
          omega
        · rw [List.drop_of_length_le (by omega), List.take_of_length_le (by omega),
            show bits.length - 8 = 0 by omega]
          simp only [Nat.zero_add, Nat.reduceDiv, Nat.mul_zero, Nat.sub_zero,
            List.replicate_zero, List.append_nil]
          congr 2
          omega

end Bits
