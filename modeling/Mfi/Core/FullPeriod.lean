import Mathlib.Data.Nat.Count
import Mathlib.Logic.Function.Basic

/-!
# Counters over a full period

A counter of fixed width passes every word exactly once in a full period, from wherever it
starts. How often a property holds in a period is then the number of words that have it,
and it does not change if the words are read through a permutation. A counter that does
not count in every cycle is followed from tick to tick.
-/

namespace Mfi.Core

variable {w : Nat}

def words (f : BitVec w → Bool) : Nat := Nat.count (fun k => f (BitVec.ofNat w k) = true) (2 ^ w)

theorem words_from (f : BitVec w → Bool) (c : BitVec w) :
    Nat.count (fun k => f (c + BitVec.ofNat w k) = true) (2 ^ w) = words f := by
  have hshift : ∀ k, BitVec.ofNat w (c.toNat + k) = c + BitVec.ofNat w k := by
    intro k
    rw [BitVec.ofNat_add, BitVec.ofNat_toNat, BitVec.setWidth_eq]
  have hwrap : ∀ k, BitVec.ofNat w (2 ^ w + k) = BitVec.ofNat w k := by
    intro k
    apply BitVec.eq_of_toNat_eq
    rw [BitVec.toNat_ofNat, BitVec.toNat_ofNat, Nat.add_mod_left]
  have hstart := Nat.count_add (fun k => f (BitVec.ofNat w k) = true) c.toNat (2 ^ w)
  have hend := Nat.count_add (fun k => f (BitVec.ofNat w k) = true) (2 ^ w) c.toNat
  simp only [hshift] at hstart
  simp only [hwrap] at hend
  rw [Nat.add_comm] at hstart
  unfold words
  omega

theorem toNat_mem_range (x : BitVec w) : x.toNat ∈ Finset.range (2 ^ w) :=
  Finset.mem_range.2 x.isLt

theorem words_comp (f : BitVec w → Bool) {e : BitVec w → BitVec w} (he : Function.Involutive e) :
    words (fun x => f (e x)) = words f := by
  have hback : ∀ k ∈ Finset.range (2 ^ w),
      (e (BitVec.ofNat w (e (BitVec.ofNat w k)).toNat)).toNat = k := by
    intro k hk
    rw [BitVec.ofNat_toNat, BitVec.setWidth_eq, he, BitVec.toNat_ofNat]
    exact Nat.mod_eq_of_lt (Finset.mem_range.1 hk)
  unfold words
  rw [Nat.count_eq_card_filter_range, Nat.count_eq_card_filter_range]
  apply Finset.card_nbij' (fun k => (e (BitVec.ofNat w k)).toNat)
    (fun k => (e (BitVec.ofNat w k)).toNat)
  · intro k hk
    have hf := (Finset.mem_filter.1 hk).2
    apply Finset.mem_filter.2
    rw [BitVec.ofNat_toNat, BitVec.setWidth_eq]
    exact ⟨toNat_mem_range _, hf⟩
  · intro k hk
    have hf := (Finset.mem_filter.1 hk).2
    apply Finset.mem_filter.2
    rw [BitVec.ofNat_toNat, BitVec.setWidth_eq]
    constructor
    · exact toNat_mem_range _
    · show f (e (e (BitVec.ofNat w k))) = true
      rw [he]
      exact hf
  · intro k hk
    exact hback k (Finset.mem_filter.1 hk).1
  · intro k hk
    exact hback k (Finset.mem_filter.1 hk).1

theorem words_below (d : BitVec w) : words (fun x => decide (x < d)) = d.toNat := by
  have hbelow : ∀ k ∈ Finset.range (2 ^ w),
      decide (BitVec.ofNat w k < d) = true ↔ k ∈ Finset.range d.toNat := by
    intro k hk
    rw [decide_eq_true_iff, BitVec.lt_def, BitVec.toNat_ofNat,
      Nat.mod_eq_of_lt (Finset.mem_range.1 hk), Finset.mem_range]
  have hd := d.isLt
  unfold words
  rw [Nat.count_eq_card_filter_range, Finset.filter_congr hbelow, Finset.filter_mem_eq_inter,
    Finset.inter_eq_right.2 (Finset.range_subset_range.2 (by omega)), Finset.card_range]

theorem ofNat_succ_low {k : Nat} (hk : k < 2 ^ w) :
    BitVec.ofNat (w + 1) k = BitVec.cons false (BitVec.ofNat w k) := by
  apply BitVec.eq_of_toNat_eq
  rw [BitVec.toNat_cons', BitVec.toNat_ofNat, BitVec.toNat_ofNat, Nat.mod_eq_of_lt hk,
    Nat.mod_eq_of_lt (by rw [Nat.pow_succ]; omega)]
  simp

theorem ofNat_succ_high {k : Nat} (hk : k < 2 ^ w) :
    BitVec.ofNat (w + 1) (2 ^ w + k) = BitVec.cons true (BitVec.ofNat w k) := by
  apply BitVec.eq_of_toNat_eq
  rw [BitVec.toNat_cons', BitVec.toNat_ofNat, BitVec.toNat_ofNat, Nat.mod_eq_of_lt hk,
    Nat.mod_eq_of_lt (by rw [Nat.pow_succ]; omega)]
  simp [Nat.shiftLeft_eq]

theorem words_succ (f : BitVec (w + 1) → Bool) :
    words f = words (fun x => f (BitVec.cons false x)) +
      words (fun x => f (BitVec.cons true x)) := by
  have hlow : Nat.count (fun k => f (BitVec.ofNat (w + 1) k) = true) (2 ^ w) =
      words (fun x => f (BitVec.cons false x)) := by
    unfold words
    rw [Nat.count_eq_card_filter_range, Nat.count_eq_card_filter_range]
    apply congrArg
    apply Finset.filter_congr
    intro k hk
    rw [ofNat_succ_low (Finset.mem_range.1 hk)]
  have hhigh : Nat.count (fun k => f (BitVec.ofNat (w + 1) (2 ^ w + k)) = true) (2 ^ w) =
      words (fun x => f (BitVec.cons true x)) := by
    unfold words
    rw [Nat.count_eq_card_filter_range, Nat.count_eq_card_filter_range]
    apply congrArg
    apply Finset.filter_congr
    intro k hk
    rw [ofNat_succ_high (Finset.mem_range.1 hk)]
  rw [← hlow, ← hhigh, words, Nat.pow_succ, Nat.mul_two, Nat.count_add]

/-! ## Ticks -/

section Ticks

variable (cnt : Nat → BitVec w) (tick : Nat → Bool)

theorem counter_at (h : ∀ n, cnt (n + 1) = if tick n then cnt n + 1 else cnt n) (a len : Nat) :
    cnt (a + len) = cnt a + BitVec.ofNat w (Nat.count (fun k => tick (a + k) = true) len) := by
  induction len with
  | zero =>
      rw [Nat.count_zero]
      exact (BitVec.add_zero _).symm
  | succ len ih =>
      rw [← Nat.add_assoc, h, ih, Nat.count_succ]
      cases htick : tick (a + len) with
      | false => rfl
      | true =>
          rw [if_pos rfl, if_pos rfl, BitVec.ofNat_add, BitVec.add_assoc]
          rfl

/-- What is seen of a counter at its ticks is what its consecutive counts give. -/
theorem count_ticks (h : ∀ n, cnt (n + 1) = if tick n then cnt n + 1 else cnt n)
    (f : BitVec w → Bool) (a len : Nat) :
    Nat.count (fun k => tick (a + k) = true ∧ f (cnt (a + k)) = true) len =
      Nat.count (fun j => f (cnt a + BitVec.ofNat w j) = true)
        (Nat.count (fun k => tick (a + k) = true) len) := by
  induction len with
  | zero => rw [Nat.count_zero, Nat.count_zero, Nat.count_zero]
  | succ len ih =>
      rw [Nat.count_succ, Nat.count_succ (fun k => tick (a + k) = true), ih]
      cases htick : tick (a + len) with
      | false => simp
      | true =>
          rw [if_pos rfl, Nat.count_succ, counter_at cnt tick h a len]
          simp

theorem exists_ticks (h : ∀ n, ∃ k, tick (n + k) = true) (a m : Nat) :
    ∃ len, Nat.count (fun k => tick (a + k) = true) len = m := by
  induction m with
  | zero => exact ⟨0, Nat.count_zero _⟩
  | succ m ih =>
      cases ih with
      | intro len hlen =>
          have hnext := Nat.find_spec (h (a + len))
          have hfirst : Nat.count (fun k => tick (a + (len + k)) = true)
              (Nat.find (h (a + len))) = 0 := by
            rw [Nat.count_iff_forall_not]
            intro k hk
            rw [← Nat.add_assoc]
            exact Nat.find_min (h (a + len)) hk
          apply Exists.intro (len + Nat.find (h (a + len)) + 1)
          rw [Nat.count_succ, Nat.count_add, hlen, hfirst, ← Nat.add_assoc, if_pos hnext]

end Ticks

end Mfi.Core
