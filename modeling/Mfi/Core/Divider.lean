import Mathlib.Data.Nat.Count
import Mathlib.Data.Nat.Log
import Mathlib.Tactic.ByContra
import Mfi.Core.Words

/-!
# Divided clocks

A counter that counts up to its limit and starts again meets the limit once in every turn,
and a turn has one cycle more than the limit says. A limit that the counter cannot reach
is never met. A counter as wide as the logarithm of its limit, rounded up, reaches every
limit but a power of two.
-/

namespace Mfi.Core

/-- The strobe is there in exactly one cycle of every `turn` consecutive ones, and comes again
after every turn. -/
structure OnceIn (turn : Nat) (strobe : Nat → Bool) : Prop where
  once : ∀ n, Nat.count (fun k => strobe (n + k) = true) turn = 1
  again : ∀ n, strobe (n + turn) = strobe n

/-- The counter is cleared before the first cycle and after the one in which it has met its
limit. -/
structure Divides {w : Nat} (limit : Nat) (cnt : Nat → BitVec w) : Prop where
  clear : cnt 0 = 0
  counts : ∀ n, (cnt n).toNat < limit → cnt (n + 1) = cnt n + 1
  restarts : ∀ n, (cnt n).toNat = limit → cnt (n + 1) = 0

theorem OnceIn.count_turns {turn : Nat} {strobe : Nat → Bool} (h : OnceIn turn strobe)
    (n m : Nat) : Nat.count (fun k => strobe (n + k) = true) (turn * m) = m := by
  induction m with
  | zero => exact Nat.count_zero _
  | succ m ih =>
      have hturn := h.once (n + turn * m)
      simp only [Nat.add_assoc] at hturn
      rw [Nat.mul_succ, Nat.count_add, ih, hturn]

theorem OnceIn.exists_strobe {turn : Nat} {strobe : Nat → Bool} (h : OnceIn turn strobe) (n : Nat) :
    ∃ k < turn, strobe (n + k) = true := by
  by_contra hnone
  have hcount := h.once n
  rw [(Nat.count_iff_forall_not).mpr fun k hk hstrobe => hnone ⟨k, hk, hstrobe⟩] at hcount
  cases hcount

def met {w : Nat} (limit : Nat) (cnt : Nat → BitVec w) (n : Nat) : Bool :=
  decide ((cnt n).toNat = limit)

namespace Divides

variable {w limit : Nat} {cnt : Nat → BitVec w}

theorem toNat_eq (h : Divides limit cnt) (hlimit : limit < 2 ^ w) (n : Nat) :
    (cnt n).toNat = n % (limit + 1) := by
  induction n with
  | zero =>
      rw [h.clear, Nat.zero_mod]
      exact BitVec.toNat_zero
  | succ n ih =>
      have hlt : n % (limit + 1) < limit + 1 := Nat.mod_lt n (Nat.succ_pos limit)
      rw [Nat.add_mod n 1 (limit + 1)]
      by_cases hend : (cnt n).toNat = limit
      · rw [h.restarts n hend, ← ih, hend, Nat.add_mod_mod, Nat.mod_self]
        exact BitVec.toNat_zero
      · have hless : (cnt n).toNat < limit := by omega
        rw [h.counts n hless, toNat_add_one (by omega), ← ih, Nat.add_mod_mod,
          Nat.mod_eq_of_lt (by omega)]

theorem met_iff (h : Divides limit cnt) (hlimit : limit < 2 ^ w) (n : Nat) :
    met limit cnt n = true ↔ limit + 1 ∣ n + 1 := by
  have hlt : n % (limit + 1) < limit + 1 := Nat.mod_lt n (Nat.succ_pos limit)
  rw [met, decide_eq_true_iff, h.toNat_eq hlimit, Nat.dvd_iff_mod_eq_zero]
  constructor
  · intro hend
    rw [← Nat.mod_add_mod, hend, Nat.mod_self]
  · intro hzero
    by_contra hend
    rw [← Nat.mod_add_mod, Nat.mod_eq_of_lt (by omega)] at hzero
    cases hzero

theorem count_met (h : Divides limit cnt) (hlimit : limit < 2 ^ w) (n : Nat) :
    Nat.count (fun k => met limit cnt k = true) n = n / (limit + 1) := by
  induction n with
  | zero => rw [Nat.count_zero, Nat.zero_div]
  | succ n ih =>
      rw [Nat.count_succ, ih, Nat.succ_div]
      congr 1
      exact if_congr (h.met_iff hlimit n) rfl rfl

theorem not_met (hlimit : 2 ^ w ≤ limit) (n : Nat) : met limit cnt n = false := by
  have hlt := (cnt n).isLt
  exact decide_eq_false (by omega)

/-- A strobe at the limit is there once in every turn exactly if the counter reaches it. -/
theorem onceIn_iff (h : Divides limit cnt) :
    OnceIn (limit + 1) (met limit cnt) ↔ limit < 2 ^ w := by
  constructor
  · intro honce
    by_contra hfar
    have hcount := honce.once 0
    have hnone : Nat.count (fun k => met limit cnt (0 + k) = true) (limit + 1) = 0 := by
      rw [Nat.count_iff_forall_not]
      intro k _ hmet
      rw [not_met (Nat.le_of_not_lt hfar)] at hmet
      cases hmet
    rw [hnone] at hcount
    cases hcount
  · intro hlimit
    constructor
    · intro n
      have hsum := Nat.count_add (fun k => met limit cnt k = true) n (limit + 1)
      rw [h.count_met hlimit, h.count_met hlimit, Nat.add_div_right _ (Nat.succ_pos limit)] at hsum
      exact (Nat.add_left_cancel hsum).symm
    · intro n
      rw [met, met, h.toNat_eq hlimit, h.toNat_eq hlimit, Nat.add_mod_right]

end Divides

/-! ## The width of the counter -/

theorem lt_pow_clog_iff {limit : Nat} (h : 0 < limit) :
    limit < 2 ^ Nat.clog 2 limit ↔ ¬ ∃ k, limit = 2 ^ k := by
  have hle : limit ≤ 2 ^ Nat.clog 2 limit := Nat.le_pow_clog Nat.one_lt_two limit
  constructor
  · rintro hlt ⟨k, rfl⟩
    rw [Nat.clog_pow 2 k Nat.one_lt_two] at hlt
    exact Nat.lt_irrefl _ hlt
  · intro hnot
    rcases Nat.lt_or_eq_of_le hle with hlt | heq
    · exact hlt
    · exact absurd ⟨Nat.clog 2 limit, heq⟩ hnot

theorem not_pow_of_lt {limit m : Nat} (hlt : limit < 2 ^ m) (hnone : ∀ k < m, limit ≠ 2 ^ k) :
    ¬ ∃ k, limit = 2 ^ k := by
  rintro ⟨k, rfl⟩
  exact hnone k ((Nat.pow_lt_pow_iff_right Nat.one_lt_two).mp hlt) rfl

end Mfi.Core
