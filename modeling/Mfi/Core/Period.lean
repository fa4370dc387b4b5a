import Mathlib.Logic.Function.Basic

/-!
# Counting in periods

A position on a time line is a number of whole periods and a rest. A divided clock
shows the rest, a bit counter the whole periods; these lemmas keep the two together.
-/

namespace Mfi.Core

theorem div_mod_of_eq {x T q r : Nat} (hr : r < T) (hx : x = T * q + r) :
    x / T = q ∧ x % T = r := by
  have hT : 0 < T := by omega
  subst hx
  constructor
  · rw [Nat.mul_add_div hT, Nat.div_eq_of_lt hr, Nat.add_zero]
  · rw [Nat.mul_add_mod, Nat.mod_eq_of_lt hr]

theorem succ_div_mod (x : Nat) {T : Nat} (hT : 0 < T) :
    if x % T + 1 = T then (x + 1) / T = x / T + 1 ∧ (x + 1) % T = 0
    else (x + 1) / T = x / T ∧ (x + 1) % T = x % T + 1 := by
  have hdiv := Nat.div_add_mod x T
  have hlt := Nat.mod_lt x hT
  split
  · apply div_mod_of_eq hT
    rw [Nat.mul_add]
    omega
  · apply div_mod_of_eq
    · omega
    · omega

end Mfi.Core
