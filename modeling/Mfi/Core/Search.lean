import Mathlib.Order.Monotone.Basic

/-!
# Searches that step through places

A search works in rounds. A round that fails goes on to the next of `m` places, a round that
passes stays. If all rounds at one place pass, only finitely many rounds fail.
-/

namespace Mfi.Core

theorem exists_round_of_time {start : Nat → Nat} (hstart : ∀ k, start k < start (k + 1)) {n : Nat}
    (hn : start 0 ≤ n) : ∃ k, start k ≤ n ∧ n < start (k + 1) := by
  induction hn with
  | refl => exact ⟨0, Nat.le_refl _, hstart 0⟩
  | @step n _ ih =>
      obtain ⟨k, hfrom, hto⟩ := ih
      rcases Nat.lt_or_ge (n + 1) (start (k + 1)) with hless | hmore
      · exact ⟨k, Nat.le_succ_of_le hfrom, hless⟩
      · have hnext := hstart (k + 1)
        exact ⟨k + 1, hmore, by omega⟩

theorem le_of_rounds {start : Nat → Nat} (hstart : ∀ k, start k < start (k + 1)) {j k : Nat}
    (hjk : j ≤ k) : start j ≤ start k :=
  (strictMono_nat_of_lt_succ hstart).monotone hjk

theorem le_round {start : Nat → Nat} (hstart : ∀ k, start k < start (k + 1)) (k : Nat) :
    k ≤ start k := by
  induction k with
  | zero => exact Nat.zero_le _
  | succ k ih => exact Nat.succ_le_of_lt (Nat.lt_of_le_of_lt ih (hstart k))

/-- `place k` counts the failures before round `k`, and `ok (k + 1)` tells whether it passes. -/
structure Searches (place : Nat → Nat) (ok : Nat → Bool) : Prop where
  next : ∀ k, place (k + 1) = if ok (k + 1) then place k else place k + 1

namespace Searches

variable {place : Nat → Nat} {ok : Nat → Bool} {m p K : Nat}

theorem mono (h : Searches place ok) {j k : Nat} (hjk : j ≤ k) : place j ≤ place k := by
  induction hjk with
  | refl => exact Nat.le_refl _
  | step _ ih =>
      refine Nat.le_trans ih ?_
      rw [h.next]
      split <;> omega

theorem le_last (h : Searches place ok) (hm : 0 < m)
    (hgood : ∀ k ≥ K, place k % m = p % m → ok (k + 1) = true) {k : Nat} (hk : K ≤ k) :
    place k ≤ place K + (p + (m - place K % m)) % m := by
  have hlast : (place K + (p + (m - place K % m)) % m) % m = p % m := by
    have hlt := Nat.mod_lt (place K) hm
    have hdiv := Nat.div_add_mod (place K) m
    have hsum : place K + (p + (m - place K % m)) = p + m * (place K / m + 1) := by
      rw [Nat.mul_add, Nat.mul_one]
      omega
    rw [Nat.add_mod_mod, hsum, Nat.add_mul_mod_self_left]
  induction hk with
  | refl => exact Nat.le_add_right _ _
  | @step k hk ih =>
      rcases Nat.lt_or_eq_of_le ih with hless | heq
      · rw [h.next]
        split <;> omega
      · rw [h.next, hgood k hk (by rw [heq, hlast])]
        exact ih

/-- From some round on all pass, after fewer than `m` failures. -/
theorem ends (h : Searches place ok) (hm : 0 < m)
    (hgood : ∀ k ≥ K, place k % m = p % m → ok (k + 1) = true) :
    (∀ k ≥ K, place k < place K + m) ∧
      ∃ L ≥ K, ∀ k ≥ L, place k = place L ∧ ok (k + 1) = true := by
  have hbound : ∀ k ≥ K, place k < place K + m := by
    intro k hk
    have hle := h.le_last hm hgood hk
    have hlt := Nat.mod_lt (p + (m - place K % m)) hm
    omega
  apply And.intro hbound
  by_contra hnever
  have hgrows : ∀ j, ∃ k ≥ K, place K + j ≤ place k := by
    intro j
    induction j with
    | zero => exact ⟨K, Nat.le_refl K, Nat.le_refl _⟩
    | succ j ih =>
        obtain ⟨L, hL, hle⟩ := ih
        by_contra hstays
        have hroof : ∀ k ≥ K, place k ≤ place K + j := by
          intro k hk
          by_contra hmore
          exact hstays ⟨k, hk, by omega⟩
        apply hnever
        refine ⟨L, hL, fun k hk => ?_⟩
        have hnow := h.mono hk
        have hroof' := hroof (k + 1) (by omega)
        have hnext := h.next k
        cases hok : ok (k + 1) with
        | true =>
            have hroof := hroof k (by omega)
            exact ⟨by omega, rfl⟩
        | false =>
            rw [hok, if_neg Bool.false_ne_true] at hnext
            omega
  obtain ⟨k, hk, hle⟩ := hgrows m
  have hlt := hbound k hk
  omega

end Searches

end Mfi.Core
