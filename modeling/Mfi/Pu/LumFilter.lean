import Mfi.Core.Leak
import Mfi.Core.Lpm
import Mfi.Core.Trace

/-!
# Averaging the brightness

A recursive filter: a weighted sum of the new value and of the last sum, whose lower half
is cut off. The multipliers and the adder have a register each, so that two averages are
on the way and come out in turn. The weights of the instance add up to one.
-/

namespace Mfi.Pu.LumFilter

open Core

structure Params where
  coeffX : BitVec 16
  coeffY : BitVec 16
  deriving DecidableEq, Repr

def lumFilterI : Params := { coeffX := 1#16, coeffY := 65535#16 }

variable {w : Nat}

/-- The registers of the multipliers and of the adder. The declared wires have one bit more, which
nothing drives or reads. -/
structure Regs (w : Nat) where
  mulX : BitVec (w + 16 + 16)
  mulY : BitVec (w + 16 + 16)
  addXy : BitVec (w + 16 + 16)
  deriving DecidableEq, Repr

structure Input (w : Nat) where
  resetN : Bool
  valueI : BitVec w
  deriving DecidableEq, Repr

def zero : Regs w := { mulX := 0, mulY := 0, addXy := 0 }

/-- One clock cycle. The reset stops the multipliers and not the adder. -/
def step (p : Params) (r : Regs w) (i : Input w) : Regs w :=
  { mulX := mulNext i.resetN r.mulX (i.valueI ++ 0x0000#16) p.coeffX
    mulY := mulNext i.resetN r.mulY (r.addXy.extractLsb' 16 (w + 16)) p.coeffY
    addXy := r.mulX + r.mulY }

def valueO (r : Regs w) : BitVec w := r.addXy.extractLsb' 32 w

def run (inp : Nat → Input w) : Nat → Regs w := trace (step lumFilterI) zero inp

/-! ## The registers as numbers -/

def kept (r : Regs w) : Nat := r.addXy.toNat / 65536

theorem extract_toNat (a : BitVec (w + 16 + 16)) :
    (a.extractLsb' 16 (w + 16)).toNat = a.toNat / 65536 := by
  have hlt := a.isLt
  rw [BitVec.extractLsb'_toNat, Nat.shiftRight_eq_div_pow, Nat.mod_eq_of_lt]
  rw [Nat.pow_add] at hlt
  omega

theorem valueO_toNat (r : Regs w) : (valueO r).toNat = kept r / 65536 := by
  have hlt := r.addXy.isLt
  unfold valueO kept
  rw [BitVec.extractLsb'_toNat, Nat.shiftRight_eq_div_pow, Nat.div_div_eq_div_mul,
    Nat.mod_eq_of_lt]
  rw [Nat.pow_add, Nat.pow_add] at hlt
  omega

theorem step_mulX (r : Regs w) (x : BitVec w) :
    (step lumFilterI r ⟨true, x⟩).mulX.toNat = 65536 * x.toNat := by
  have hin : (x ++ 0x0000#16).toNat = 65536 * x.toNat := by
    rw [BitVec.toNat_append, Nat.shiftLeft_eq]
    simp [Nat.mul_comm]
  show (mulNext true r.mulX (x ++ 0x0000#16) 1#16).toNat = _
  rw [mulNext_toNat, hin]
  exact Nat.mul_one _

theorem step_mulY (r : Regs w) (x : BitVec w) :
    (step lumFilterI r ⟨true, x⟩).mulY.toNat = 65535 * kept r := by
  show (mulNext true r.mulY (r.addXy.extractLsb' 16 (w + 16)) 65535#16).toNat = _
  rw [mulNext_toNat, extract_toNat, Nat.mul_comm]
  rfl

/-! ## The largest input -/

/-- No register holds more than it does for a constant input `m`. -/
structure Bounded (m : Nat) (r : Regs w) : Prop where
  mulX : r.mulX.toNat ≤ 65536 * m
  mulY : r.mulY.toNat ≤ 65535 * (65536 * m)
  addXy : r.addXy.toNat ≤ 65536 * (65536 * m)

theorem bounded_zero (m : Nat) : Bounded m (zero : Regs w) := by
  constructor <;> exact Nat.le_trans (Nat.le_of_eq BitVec.toNat_zero) (Nat.zero_le _)

theorem Bounded.kept {m : Nat} {r : Regs w} (h : Bounded m r) : kept r ≤ 65536 * m :=
  Nat.div_le_of_le_mul h.addXy

theorem Bounded.sum {m : Nat} {r : Regs w} (h : Bounded m r) (hm : m < 2 ^ w) :
    (r.mulX + r.mulY).toNat = r.mulX.toNat + r.mulY.toNat := by
  apply BitVec.toNat_add_of_lt
  have hx := h.mulX
  have hy := h.mulY
  rw [Nat.pow_add, Nat.pow_add]
  omega

theorem bounded_step {m : Nat} {r : Regs w} {i : Input w} (h : Bounded m r) (hm : m < 2 ^ w)
    (hi : i.valueI.toNat ≤ m) : Bounded m (step lumFilterI r i) := by
  rcases i with ⟨resetN, x⟩
  have hsum : (step lumFilterI r ⟨resetN, x⟩).addXy.toNat = r.mulX.toNat + r.mulY.toNat :=
    h.sum hm
  have hx := h.mulX
  have hy := h.mulY
  constructor
  · cases resetN with
    | false => exact hx
    | true =>
        rw [step_mulX]
        exact Nat.mul_le_mul_left 65536 hi
  · cases resetN with
    | false => exact hy
    | true =>
        rw [step_mulY]
        exact Nat.mul_le_mul_left 65535 h.kept
  · omega

theorem bounded_run {inp : Nat → Input w} {m n : Nat} (hm : m < 2 ^ w)
    (h : ∀ j, j < n → (inp j).valueI.toNat ≤ m) : Bounded m (run inp n) := by
  induction n with
  | zero => exact bounded_zero m
  | succ n ih => exact bounded_step (ih fun j hj => h j (by omega)) hm (h n (by omega))

theorem valueO_le {inp : Nat → Input w} {m n : Nat}
    (h : ∀ j, j < n → (inp j).valueI.toNat ≤ m) : (valueO (run inp n)).toNat ≤ m := by
  rcases Nat.lt_or_ge m (2 ^ w) with hm | hm
  · have hkept := (bounded_run hm h).kept
    rw [valueO_toNat]
    omega
  · exact Nat.le_trans (valueO (run inp n)).isLt.le hm

/-! ## A constant input -/

theorem kept_succ (inp : Nat → Input w) (n : Nat) :
    kept (run inp (n + 1)) = ((run inp n).mulX.toNat + (run inp n).mulY.toNat) / 65536 := by
  have hpos := Nat.two_pow_pos w
  have hbound : Bounded (2 ^ w - 1) (run inp n) :=
    bounded_run (by omega) fun j _ => Nat.le_pred_of_lt (inp j).valueI.isLt
  have hsum := hbound.sum (by omega)
  show (((run inp n).mulX + (run inp n).mulY).toNat) / 65536 = _
  rw [hsum]

theorem kept_add_two {inp : Nat → Input w} {n : Nat} {x : BitVec w} (h : inp n = ⟨true, x⟩) :
    kept (run inp (n + 2)) = leak 65536 x.toNat (kept (run inp n)) := by
  have hstep : run inp (n + 1) = step lumFilterI (run inp n) ⟨true, x⟩ := by
    rw [← h]
    rfl
  rw [kept_succ, hstep, step_mulX, step_mulY, Nat.mul_add_div (by omega)]
  rfl

section Constant

variable {inp : Nat → Input w} {n : Nat} {x : BitVec w}

/-- The two averages, one in the even and one in the odd cycles from `n` on. -/
theorem kept_leaks (h : ∀ k, n ≤ k → inp k = ⟨true, x⟩) (p j : Nat) :
    kept (run inp (n + p + 2 * (j + 1))) =
      leak 65536 x.toNat (kept (run inp (n + p + 2 * j))) := by
  rw [show n + p + 2 * (j + 1) = n + p + 2 * j + 2 by omega]
  exact kept_add_two (h _ (by omega))

theorem kept_below (h : ∀ k, n ≤ k → inp k = ⟨true, x⟩) {p : Nat}
    (hbelow : kept (run inp (n + p)) < 65536 * x.toNat) (j : Nat) :
    kept (run inp (n + p + 2 * j)) < 65536 * x.toNat :=
  leak_run_below (f := fun j => kept (run inp (n + p + 2 * j))) (by omega) (kept_leaks h p)
    hbelow j

theorem kept_above (h : ∀ k, n ≤ k → inp k = ⟨true, x⟩) {p : Nat}
    (habove : 65536 * x.toNat ≤ kept (run inp (n + p))) {j : Nat}
    (hj : kept (run inp (n + p)) ≤ j) : kept (run inp (n + p + 2 * j)) = 65536 * x.toNat :=
  leak_run_eq (f := fun j => kept (run inp (n + p + 2 * j))) (by omega) (kept_leaks h p)
    habove hj

def FromAbove (r : Regs w) (x : BitVec w) : Prop :=
  x.toNat * 4294967296 ≤ r.addXy.toNat ∧ x.toNat * 4294967296 ≤ r.mulX.toNat + r.mulY.toNat

instance (r : Regs w) (x : BitVec w) : Decidable (FromAbove r x) :=
  inferInstanceAs (Decidable (_ ∧ _))

theorem fromAbove_iff (inp : Nat → Input w) (n : Nat) (x : BitVec w) :
    FromAbove (run inp n) x ↔
      65536 * x.toNat ≤ kept (run inp (n + 0)) ∧ 65536 * x.toNat ≤ kept (run inp (n + 1)) := by
  rw [kept_succ]
  show _ ↔ 65536 * x.toNat ≤ kept (run inp n) ∧ _
  unfold FromAbove kept
  omega

def Reaches (inp : Nat → Input w) (x : BitVec w) : Prop :=
  ∃ N, ∀ k, N ≤ k → valueO (run inp k) = x

theorem reaches_of_fromAbove (h : ∀ k, n ≤ k → inp k = ⟨true, x⟩)
    (habove : FromAbove (run inp n) x) : Reaches inp x := by
  rw [fromAbove_iff] at habove
  use n + 2 * (kept (run inp (n + 0)) + kept (run inp (n + 1))) + 1
  intro k hk
  have hkept : kept (run inp k) = 65536 * x.toNat := by
    have hhalf := Nat.div_add_mod (k - n) 2
    rcases Nat.mod_two_eq_zero_or_one (k - n) with heven | hodd
    · rw [show k = n + 0 + 2 * ((k - n) / 2) by omega]
      exact kept_above h habove.1 (by omega)
    · rw [show k = n + 1 + 2 * ((k - n) / 2) by omega]
      exact kept_above h habove.2 (by omega)
  apply BitVec.eq_of_toNat_eq
  rw [valueO_toNat, hkept, Nat.mul_div_cancel_left _ (by omega)]

theorem not_reaches_of_below (h : ∀ k, n ≤ k → inp k = ⟨true, x⟩) {p : Nat}
    (hbelow : kept (run inp (n + p)) < 65536 * x.toNat) : ¬Reaches inp x := by
  intro hreach
  rcases hreach with ⟨N, hN⟩
  have hlast := hN (n + p + 2 * N) (by omega)
  have hkept := kept_below h hbelow N
  have hvalue := valueO_toNat (run inp (n + p + 2 * N))
  rw [hlast] at hvalue
  omega

end Constant

/-- The output reaches a constant input exactly if both averages come to it from above, and it
never exceeds the largest input so far. -/
theorem lum_filter_reaches_iff (inp other : Nat → Input w) (n : Nat) (x : BitVec w)
    (h : ∀ k, n ≤ k → inp k = ⟨true, x⟩) :
    (Reaches inp x ↔ FromAbove (run inp n) x) ∧
      ∀ k m, (∀ j, j < k → (other j).valueI.toNat ≤ m) → (valueO (run other k)).toNat ≤ m := by
  constructor
  · constructor
    · intro hreach
      rw [fromAbove_iff]
      constructor
      · exact not_lt.mp fun hbelow => not_reaches_of_below h hbelow hreach
      · exact not_lt.mp fun hbelow => not_reaches_of_below h hbelow hreach
    · exact reaches_of_fromAbove h
  · intro k m hm
    exact valueO_le hm

def flash (k : Nat) : Input 5 := if k < 1 then ⟨true, 31#5⟩ else ⟨true, 0#5⟩

theorem lum_filter_reaches_zero : Reaches flash 0#5 :=
  (lum_filter_reaches_iff flash flash 1 0#5 (fun k hk => if_neg (by omega))).1.mpr (by decide)

/-- Full light is never reached from power up. -/
theorem lum_filter_misses :
    ¬Reaches (fun _ => (⟨true, 31#5⟩ : Input 5)) 31#5 :=
  not_reaches_of_below (n := 0) (p := 0) (fun _ _ => rfl) (by decide)

end Mfi.Pu.LumFilter
