import Mathlib.Algebra.BigOperators.Group.Finset.Basic
import Mathlib.Algebra.Order.Group.Unbundled.Int

/-!
# Balances

An account takes in and gives out. If it stays within bounds, what it has given out in any
stretch of time is what it has taken in, up to the bound.
-/

namespace Mfi.Core

theorem balance {α : Type} [AddCommMonoid α] {acc inp out : Nat → α}
    (h : ∀ n, acc (n + 1) + out n = acc n + inp n) (n m : Nat) :
    acc (n + m) + ∑ k ∈ Finset.range m, out (n + k) =
      acc n + ∑ k ∈ Finset.range m, inp (n + k) := by
  induction m with
  | zero => rw [Finset.sum_range_zero, Finset.sum_range_zero, Nat.add_zero]
  | succ m ih =>
      rw [Finset.sum_range_succ, Finset.sum_range_succ, ← Nat.add_assoc]
      calc acc (n + m + 1) + (∑ k ∈ Finset.range m, out (n + k) + out (n + m))
          = acc (n + m + 1) + out (n + m) + ∑ k ∈ Finset.range m, out (n + k) := by
            rw [add_comm (∑ k ∈ Finset.range m, out (n + k)), ← add_assoc]
        _ = acc (n + m) + ∑ k ∈ Finset.range m, out (n + k) + inp (n + m) := by
            rw [h, add_right_comm]
        _ = acc n + (∑ k ∈ Finset.range m, inp (n + k) + inp (n + m)) := by
            rw [ih, add_assoc]

/-- An account that cannot be overdrawn and holds less than `B`. -/
theorem balance_window {acc inp out : Nat → Nat} {B : Nat}
    (h : ∀ n, acc (n + 1) + out n = acc n + inp n) (hacc : ∀ n, acc n < B) (n m : Nat) :
    |((∑ k ∈ Finset.range m, out (n + k) : Nat) : Int) -
      (∑ k ∈ Finset.range m, inp (n + k) : Nat)| < B := by
  have hbalance := balance h n m
  have hstart := hacc n
  have hend := hacc (n + m)
  rw [abs_lt]
  omega

end Mfi.Core
