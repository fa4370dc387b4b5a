import Mfi.Core.Words

/-!
# Timers on a counter of fixed width

A machine stays in a state while a counter is below a limit, and counts in each of its
cycles. The stay is as long as the limit says if the counter can reach it; a limit out of
the reach of the counter is never met, for the counter wraps below it.
-/

namespace Mfi.Core

variable {w limit : Nat} {busy done : Nat → Prop} {cnt : Nat → BitVec w}

structure Counts (limit : Nat) (busy done : Nat → Prop) (cnt : Nat → BitVec w) : Prop where
  starts : busy 0
  clear : cnt 0 = 0
  counts : ∀ k, busy k → (cnt k).toNat < limit → busy (k + 1) ∧ cnt (k + 1) = cnt k + 1
  ends : ∀ k, busy k → limit ≤ (cnt k).toNat → done (k + 1)

namespace Counts

theorem busy_of_le (h : Counts limit busy done cnt) (hlimit : limit < 2 ^ w) {k : Nat}
    (hk : k ≤ limit) : busy k ∧ (cnt k).toNat = k := by
  induction k with
  | zero =>
      constructor
      · exact h.starts
      · rw [h.clear]
        exact BitVec.toNat_zero
  | succ k ih =>
      have hnow : busy k ∧ (cnt k).toNat = k := ih (by omega)
      have hnext := h.counts k hnow.1 (by omega)
      constructor
      · exact hnext.1
      · rw [hnext.2, toNat_add_one (by omega), hnow.2]

theorem done_at (h : Counts limit busy done cnt) (hlimit : limit < 2 ^ w) : done (limit + 1) := by
  have hlast := h.busy_of_le hlimit (Nat.le_refl limit)
  exact h.ends limit hlast.1 (by omega)

theorem busy_forever (h : Counts limit busy done cnt) (hlimit : 2 ^ w ≤ limit) (k : Nat) :
    busy k := by
  induction k with
  | zero => exact h.starts
  | succ k ih =>
      have hlt := (cnt k).isLt
      exact (h.counts k ih (by omega)).1

/-- The stay, seen from outside, has `t` cycles exactly if the counter reaches the limit and `t`
is one more. -/
theorem lasts_iff (h : Counts limit busy done cnt) {seen : Nat → Prop}
    (hseen : ∀ k, busy k → seen k) (hapart : ∀ k, seen k → ¬ done k) (t : Nat) :
    ((∀ k < t, seen k) ∧ done t) ↔ limit < 2 ^ w ∧ t = limit + 1 := by
  constructor
  · rintro ⟨hstay, hdone⟩
    have hlimit : limit < 2 ^ w := by
      rcases Nat.lt_or_ge limit (2 ^ w) with hnear | hfar
      · exact hnear
      · exact absurd hdone (hapart t (hseen t (h.busy_forever hfar t)))
    apply And.intro hlimit
    rcases Nat.lt_trichotomy t (limit + 1) with hless | heq | hmore
    · exact absurd hdone (hapart t (hseen t (h.busy_of_le hlimit (by omega)).1))
    · exact heq
    · exact absurd (h.done_at hlimit) (hapart _ (hstay _ hmore))
  · rintro ⟨hlimit, rfl⟩
    constructor
    · intro k hk
      exact hseen k (h.busy_of_le hlimit (by omega)).1
    · exact h.done_at hlimit

end Counts

end Mfi.Core
