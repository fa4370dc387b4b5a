import Mathlib.Order.MinMax

/-!
# Clamping

A value is moved into an interval. Wrapping a number before it is clamped does no harm
exactly if what is left of it is still not below the upper limit.
-/

namespace Mfi.Core

section Order

variable {α : Type} [LinearOrder α] {lo hi x y : α}

/-- `x` moved into the interval from `lo` to `hi`. -/
def clamp (lo hi x : α) : α := max lo (min x hi)

theorem le_clamp (lo hi x : α) : lo ≤ clamp lo hi x := le_max_left lo (min x hi)

theorem clamp_le (h : lo ≤ hi) (x : α) : clamp lo hi x ≤ hi := max_le h (min_le_right x hi)

theorem clamp_mono (hxy : x ≤ y) : clamp lo hi x ≤ clamp lo hi y :=
  max_le_max_left lo (min_le_min_right hi hxy)

theorem clamp_of_hi_le (h : lo ≤ hi) (hx : hi ≤ x) : clamp lo hi x = hi := by
  rw [clamp, min_eq_right hx, max_eq_right h]

theorem clamp_eq_hi_iff (h : lo ≤ hi) : clamp lo hi x = hi ↔ hi ≤ x ∨ lo = hi := by
  constructor
  · intro heq
    rcases le_total hi x with hge | hle
    · exact Or.inl hge
    · rw [clamp, min_eq_left hle] at heq
      rcases max_choice lo x with hlo | hx
      · exact Or.inr (hlo.symm.trans heq)
      · exact Or.inl (heq.symm.trans hx).le
  · intro hcases
    cases hcases with
    | inl hge => exact clamp_of_hi_le h hge
    | inr hsame => exact le_antisymm (clamp_le h x) (hsame ▸ le_clamp lo hi x)

theorem clamp_eq_ite (h : lo ≤ hi) (x : α) :
    clamp lo hi x = if hi < x then hi else if x < lo then lo else x := by
  split
  · rename_i hgt
    exact clamp_of_hi_le h hgt.le
  · rename_i hle
    rw [clamp, min_eq_left (not_lt.mp hle)]
    split
    · rename_i hlt
      exact max_eq_left hlt.le
    · rename_i hge
      exact max_eq_right (not_lt.mp hge)

end Order

theorem clamp_mod_iff {lo hi m s : Nat} (h : lo ≤ hi) (hm : hi < m) :
    clamp lo hi (s % m) = clamp lo hi s ↔ s < m ∨ hi ≤ s % m ∨ lo = hi := by
  by_cases hs : s < m
  · rw [Nat.mod_eq_of_lt hs]
    exact iff_of_true rfl (Or.inl hs)
  · rw [clamp_of_hi_le h (show hi ≤ s by omega), clamp_eq_hi_iff h]
    constructor
    · exact Or.inr
    · intro hcases
      exact hcases.resolve_left hs

end Mfi.Core
