import Mathlib.Algebra.BigOperators.Group.List.Basic
import Mathlib.Algebra.Order.Group.Abs
import Mathlib.Algebra.Order.Group.Int
import Mathlib.Data.List.Infix

/-!
# Codes for a serial line

A word on a line is a list of bits in the order in which they are sent. Its disparity is
the number of ones less the number of zeros. A coder that keeps an account of the
disparity of what it has sent keeps the line free of a direct component; a code with few
transitions in its data words leaves those with many to its control words.
-/

namespace Mfi.Core

def lsbFirst {w : Nat} (x : BitVec w) : List Bool := (List.range w).map fun i => x.getLsbD i

@[simp] theorem length_lsbFirst {w : Nat} (x : BitVec w) : (lsbFirst x).length = w := by
  simp [lsbFirst]

theorem lsbFirst_append {v w : Nat} (x : BitVec v) (y : BitVec w) :
    lsbFirst (x ++ y) = lsbFirst y ++ lsbFirst x := by
  apply List.ext_getElem
  · simp only [length_lsbFirst, List.length_append]
    omega
  · intro i hi hi'
    rw [length_lsbFirst] at hi
    rw [List.getElem_append]
    simp only [lsbFirst, List.getElem_map, List.getElem_range, List.length_map, List.length_range]
    rw [BitVec.getLsbD_append]
    split <;> rfl

theorem lsbFirst_not {w : Nat} (x : BitVec w) : lsbFirst (~~~x) = (lsbFirst x).map not := by
  rw [lsbFirst, lsbFirst, List.map_map]
  apply List.map_congr_left
  intro i hi
  rw [List.mem_range] at hi
  simp [hi]

@[simp] theorem lsbFirst_ofBool (b : Bool) : lsbFirst (BitVec.ofBool b) = [b] := by
  cases b <;> rfl

/-! ## Shift registers -/

/-- The word of the next `w` bits, the first of them at the bottom. -/
def gather (bit : Nat → Bool) : (w : Nat) → BitVec w
  | 0 => 0#0
  | w + 1 => BitVec.cons (bit w) (gather bit w)

theorem gather_getLsbD (bit : Nat → Bool) {w k : Nat} (hk : k < w) :
    (gather bit w).getLsbD k = bit k := by
  induction w with
  | zero => exact absurd hk (Nat.not_lt_zero k)
  | succ w ih =>
      rw [gather, BitVec.getLsbD_cons]
      split
      · next heq => rw [heq]
      · next hne => exact ih (by omega)

theorem gather_eq {bit : Nat → Bool} {w : Nat} {x : BitVec w}
    (h : ∀ k < w, bit k = x.getLsbD k) : gather bit w = x := by
  apply BitVec.eq_of_getLsbD_eq
  intro k hk
  rw [gather_getLsbD bit hk, h k hk]

theorem shiftOut_getLsbD {w : Nat} {reg : Nat → BitVec w} {n : Nat}
    (h : ∀ j, j + 1 < w → reg (n + j + 1) = reg (n + j) >>> 1) {j : Nat} (hj : j < w) :
    (reg (n + j)).getLsbD 0 = (reg n).getLsbD j := by
  have hshift : ∀ j < w, ∀ k, (reg (n + j)).getLsbD k = (reg n).getLsbD (j + k) := by
    intro j
    induction j with
    | zero =>
        intro _ k
        rw [Nat.add_zero, Nat.zero_add]
    | succ j ih =>
        intro hj k
        rw [← Nat.add_assoc, h j hj, BitVec.getLsbD_ushiftRight, ih (Nat.lt_of_succ_lt hj)]
        exact congrArg _ (Nat.add_assoc j 1 k).symm
  exact hshift j hj 0

/-! ## Disparity -/

def level (b : Bool) : Int := if b then 1 else -1

@[simp] theorem level_false : level false = -1 := rfl

@[simp] theorem level_true : level true = 1 := rfl

def disparity : List Bool → Int
  | [] => 0
  | b :: l => level b + disparity l

@[simp] theorem disparity_nil : disparity [] = 0 := rfl

@[simp] theorem disparity_cons (b : Bool) (l : List Bool) :
    disparity (b :: l) = level b + disparity l := rfl

theorem disparity_append (l r : List Bool) : disparity (l ++ r) = disparity l + disparity r := by
  induction l with
  | nil => exact (Int.zero_add _).symm
  | cons b l ih => rw [List.cons_append, disparity_cons, disparity_cons, ih, Int.add_assoc]

theorem level_not (b : Bool) : level (!b) = -level b := by
  cases b <;> rfl

theorem disparity_not (l : List Bool) : disparity (l.map not) = -disparity l := by
  induction l with
  | nil => rfl
  | cons b l ih =>
      rw [List.map_cons, disparity_cons, disparity_cons, ih, level_not]
      omega

theorem abs_disparity_le (l : List Bool) : |disparity l| ≤ l.length := by
  induction l with
  | nil => exact Int.le_refl 0
  | cons b l ih =>
      rw [abs_le] at ih ⊢
      rw [disparity_cons, List.length_cons]
      cases b with
      | false =>
          rw [level_false]
          omega
      | true =>
          rw [level_true]
          omega

/-- In the course of a word the account strays no further than the rest of the word can bring it
back. -/
theorem disparity_prefix {p l : List Bool} (h : p <+: l) :
    2 * disparity p ≤ disparity l + l.length ∧ disparity l - l.length ≤ 2 * disparity p := by
  obtain ⟨rest, rfl⟩ := h
  have hp := abs_disparity_le p
  have hrest := abs_disparity_le rest
  rw [abs_le] at hp hrest
  rw [disparity_append, List.length_append]
  omega

/-! ## A line of words -/

/-- The first `n` words one after the other. -/
def lineOf (word : Nat → List Bool) (n : Nat) : List Bool :=
  ((List.range n).map word).flatten

theorem lineOf_succ (word : Nat → List Bool) (n : Nat) :
    lineOf word (n + 1) = lineOf word n ++ word n := by
  simp [lineOf, List.range_succ]

section Account

variable {word : Nat → List Bool} {account : Nat → Int} {m : Nat}

theorem disparity_lineOf
    (h : ∀ k < m, account (k + 1) = account k + disparity (word k)) :
    disparity (lineOf word m) = account m - account 0 := by
  induction m with
  | zero => exact (Int.sub_self _).symm
  | succ m ih =>
      have hword := h m (Nat.lt_succ_self m)
      have hline := ih fun k hk => h k (Nat.lt_succ_of_lt hk)
      rw [lineOf_succ, disparity_append]
      omega

/-- If no word takes the account out of bounds at any of its bits, the line never does. -/
theorem account_bounded {B : Int}
    (h : ∀ k < m, account (k + 1) = account k + disparity (word k)) (h0 : |account 0| ≤ B)
    (hword : ∀ k < m, ∀ p, p <+: word k → |account k + disparity p| ≤ B) {p : List Bool}
    (hp : p <+: lineOf word m) : |account 0 + disparity p| ≤ B := by
  induction m with
  | zero =>
      have hnil : p = [] := List.prefix_nil.mp hp
      rw [hnil, disparity_nil, Int.add_zero]
      exact h0
  | succ m ih =>
      have hbefore := ih (fun k hk => h k (Nat.lt_succ_of_lt hk))
        (fun k hk => hword k (Nat.lt_succ_of_lt hk))
      rw [lineOf_succ] at hp
      obtain ⟨rest, hrest⟩ := hp
      rcases List.append_eq_append_iff.mp hrest with ⟨q, hline, _⟩ | ⟨q, rfl, hq⟩
      · exact hbefore ⟨q, hline.symm⟩
      · have hline := disparity_lineOf fun k (hk : k < m) => h k (Nat.lt_succ_of_lt hk)
        have hlast := hword m (Nat.lt_succ_self m) q ⟨rest, hq.symm⟩
        rw [disparity_append, hline]
        rwa [show account 0 + (account m - account 0 + disparity q) = account m + disparity q by
          omega]

end Account

/-! ## Transitions -/

def transitions : List Bool → Nat
  | [] => 0
  | [_] => 0
  | a :: b :: l => (if a = b then 0 else 1) + transitions (b :: l)

@[simp] theorem transitions_cons_cons (a b : Bool) (l : List Bool) :
    transitions (a :: b :: l) = (if a = b then 0 else 1) + transitions (b :: l) := rfl

theorem transitions_cons_le (a : Bool) (l : List Bool) :
    transitions (a :: l) ≤ 1 + transitions l := by
  cases l with
  | nil => exact Nat.zero_le _
  | cons b l =>
      rw [transitions_cons_cons]
      split <;> omega

theorem transitions_append_le (l r : List Bool) :
    transitions (l ++ r) ≤ transitions l + 1 + transitions r := by
  induction l with
  | nil =>
      rw [List.nil_append]
      omega
  | cons a l ih =>
      cases l with
      | nil =>
          have hone := transitions_cons_le a r
          rw [List.singleton_append]
          omega
      | cons b l =>
          rw [List.cons_append, List.cons_append, transitions_cons_cons, transitions_cons_cons]
          rw [List.cons_append] at ih
          omega

theorem transitions_not (l : List Bool) : transitions (l.map not) = transitions l := by
  induction l with
  | nil => rfl
  | cons a l ih =>
      cases l with
      | nil => rfl
      | cons b l =>
          rw [List.map_cons] at ih
          rw [List.map_cons, List.map_cons, transitions_cons_cons, transitions_cons_cons, ih]
          cases a <;> cases b <;> rfl

theorem transitions_range (f : Nat → Bool) (n : Nat) :
    transitions ((List.range (n + 1)).map f) =
      (List.range n).countP fun i => f i != f (i + 1) := by
  induction n generalizing f with
  | zero => rfl
  | succ n ih =>
      have hrest := ih fun i => f (i + 1)
      rw [List.range_succ_eq_map, List.map_cons, List.map_map] at hrest
      rw [List.range_succ_eq_map, List.map_cons, List.map_map, List.range_succ_eq_map,
        List.map_cons, List.map_map, transitions_cons_cons, List.countP_cons, List.countP_map]
      have hstep : ((f ∘ Nat.succ) ∘ Nat.succ) = (fun i => f (i + 1)) ∘ Nat.succ := rfl
      rw [hstep]
      have hzero : (f ∘ Nat.succ) 0 = f (0 + 1) := rfl
      rw [hzero, hrest]
      have hcount : (fun i => f (i + 1) != f (i + 1 + 1)) =
          (fun i => f i != f (i + 1)) ∘ Nat.succ := rfl
      rw [hcount]
      by_cases heq : f 0 = f (0 + 1)
      · simp [heq]
      · simp [heq, Nat.add_comm]

end Mfi.Core
