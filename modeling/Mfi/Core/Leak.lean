import Mathlib.Algebra.Order.Group.Nat

/-!
# Truncating averages

An average that keeps `c - 1` parts of `c` of its last value and adds the input comes to
`c` times the input if nothing is lost. Here the parts are rounded down. Whether the
average is on the way from above or from below then decides where it ends.
-/

namespace Mfi.Core

variable {c x b m : Nat}

def leak (c x b : Nat) : Nat := x + (c - 1) * b / c

theorem parts_add (hc : 0 < c) (x : Nat) : x + (c - 1) * x = c * x := by
  calc x + (c - 1) * x = (1 + (c - 1)) * x := by rw [Nat.add_mul, Nat.one_mul]
    _ = c * x := by rw [show 1 + (c - 1) = c by omega]

theorem parts_div (hc : 0 < c) (x : Nat) : (c - 1) * (c * x) / c = (c - 1) * x := by
  rw [Nat.mul_left_comm, Nat.mul_div_cancel_left _ hc]

theorem le_leak (hc : 0 < c) (h : c * x ≤ b) : c * x ≤ leak c x b := by
  have hdiv : (c - 1) * (c * x) / c ≤ (c - 1) * b / c :=
    Nat.div_le_div_right (Nat.mul_le_mul_left (c - 1) h)
  rw [parts_div hc] at hdiv
  have hparts := parts_add hc x
  unfold leak
  omega

theorem leak_lt (hc : 2 ≤ c) (h : b < c * x) : leak c x b < c * x := by
  have hpos : 0 < c := by omega
  have hmul : (c - 1) * b < c * ((c - 1) * x) := by
    rw [Nat.mul_left_comm]
    exact Nat.mul_lt_mul_of_pos_left h (by omega)
  have hdiv : (c - 1) * b / c < (c - 1) * x := by
    rw [Nat.div_lt_iff_lt_mul hpos, Nat.mul_comm _ c]
    exact hmul
  have hparts := parts_add hpos x
  unfold leak
  omega

theorem leak_lt_self (hc : 0 < c) (h : c * x < b) : leak c x b < b := by
  have hx : x ≤ b := Nat.le_trans (Nat.le_mul_of_pos_left x hc) h.le
  have hmul : (c - 1) * b < c * (b - x) := by
    have hparts := parts_add hc b
    rw [Nat.mul_sub]
    omega
  have hdiv : (c - 1) * b / c < b - x := by
    rw [Nat.div_lt_iff_lt_mul hc, Nat.mul_comm _ c]
    exact hmul
  unfold leak
  omega

theorem leak_fixed (hc : 0 < c) : leak c x (c * x) = c * x := by
  unfold leak
  rw [parts_div hc, parts_add hc]

section Run

variable {f : Nat → Nat}

theorem leak_run_below (hc : 2 ≤ c) (hstep : ∀ n, f (n + 1) = leak c x (f n))
    (h : f 0 < c * x) (n : Nat) : f n < c * x := by
  induction n with
  | zero => exact h
  | succ n ih =>
      rw [hstep]
      exact leak_lt hc ih

/-- From above the average arrives, and it does so within as many steps as it starts with. -/
theorem leak_run_above (hc : 0 < c) (hstep : ∀ n, f (n + 1) = leak c x (f n))
    (h : c * x ≤ f 0) (n : Nat) : c * x ≤ f n ∧ f n ≤ max (c * x) (f 0 - n) := by
  induction n with
  | zero => exact ⟨h, Nat.le_max_right _ _⟩
  | succ n ih =>
      rw [hstep]
      constructor
      · exact le_leak hc ih.1
      · rcases Nat.eq_or_lt_of_le ih.1 with heq | hlt
        · rw [← heq, leak_fixed hc]
          exact Nat.le_max_left _ _
        · have hdown := leak_lt_self hc hlt
          omega

theorem leak_run_eq (hc : 0 < c) (hstep : ∀ n, f (n + 1) = leak c x (f n)) (h : c * x ≤ f 0)
    {n : Nat} (hn : f 0 ≤ n) : f n = c * x := by
  have hrun := leak_run_above hc hstep h n
  omega

end Run

end Mfi.Core
