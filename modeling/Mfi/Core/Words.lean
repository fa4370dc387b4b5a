import Mathlib.Algebra.Group.Nat.Defs

/-!
# Counters of fixed width

A counter that is not at its end counts up as a number does, and one whose top bit is
clear is in the lower half of its range.
-/

namespace Mfi.Core

variable {w : Nat}

theorem toNat_add_one {a : BitVec w} (h : a.toNat + 1 < 2 ^ w) :
    (a + 1).toNat = a.toNat + 1 := by
  have hone : (1 : BitVec w).toNat = 1 := by
    show (BitVec.ofNat w 1).toNat = 1
    rw [BitVec.toNat_ofNat]
    exact Nat.mod_eq_of_lt (by omega)
  rw [BitVec.toNat_add_of_lt (by rw [hone]; exact h), hone]

theorem toNat_sub_one {a : BitVec w} (h : 0 < a.toNat) : (a - 1).toNat = a.toNat - 1 := by
  have hlt := a.isLt
  have hone : (1 : BitVec w).toNat = 1 := by
    show (BitVec.ofNat w 1).toNat = 1
    rw [BitVec.toNat_ofNat]
    exact Nat.mod_eq_of_lt (by omega)
  rw [BitVec.toNat_sub_of_le (by rw [BitVec.le_def, hone]; exact h), hone]

theorem toNat_lt_of_top {a : BitVec (w + 1)} (h : a.getLsbD w = false) : a.toNat < 2 ^ w := by
  have hmsb : a.msb = false := h
  simpa using BitVec.toNat_lt_of_msb_false hmsb

end Mfi.Core
