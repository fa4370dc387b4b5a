import Mathlib.Algebra.Order.Group.Nat

/-!
# Multipliers with one pipeline stage

The product of two numbers without sign has room for all of its bits. It is in the output
register one cycle later, and a clock enable keeps it there.
-/

namespace Mfi.Core

variable {v w : Nat}

def mulNext (clken : Bool) (result : BitVec (v + w)) (a : BitVec v) (b : BitVec w) :
    BitVec (v + w) :=
  if clken then a.setWidth (v + w) * b.setWidth (v + w) else result

@[simp] theorem mulNext_hold (result : BitVec (v + w)) (a : BitVec v) (b : BitVec w) :
    mulNext false result a b = result := rfl

@[simp] theorem mulNext_toNat (result : BitVec (v + w)) (a : BitVec v) (b : BitVec w) :
    (mulNext true result a b).toNat = a.toNat * b.toNat := by
  have ha : a.toNat < 2 ^ (v + w) :=
    Nat.lt_of_lt_of_le a.isLt (Nat.pow_le_pow_right (by omega) (by omega))
  have hb : b.toNat < 2 ^ (v + w) :=
    Nat.lt_of_lt_of_le b.isLt (Nat.pow_le_pow_right (by omega) (by omega))
  have hprod : a.toNat * b.toNat < 2 ^ (v + w) := by
    rw [Nat.pow_add]
    exact Nat.mul_lt_mul_of_lt_of_le a.isLt b.isLt.le (Nat.two_pow_pos w)
  show (a.setWidth (v + w) * b.setWidth (v + w)).toNat = _
  rw [BitVec.toNat_mul, BitVec.toNat_setWidth, BitVec.toNat_setWidth, Nat.mod_eq_of_lt ha,
    Nat.mod_eq_of_lt hb, Nat.mod_eq_of_lt hprod]

end Mfi.Core
