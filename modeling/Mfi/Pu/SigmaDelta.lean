import Mathlib.Algebra.BigOperators.Ring.Finset
import Mfi.Core.Balance
import Mfi.Core.Clamp
import Mfi.Core.Divider
import Mfi.Core.Trace
import Mfi.Core.Words

/-!
# Sigma-delta modulator

The modulator adds a threshold to an accumulator at every tick of a divided clock, and
takes a full step off while a bit of the accumulator is set. The bit is the output. The
threshold follows the value that was loaded, one unit at a tick.
-/

namespace Mfi.Pu.SigmaDelta

open Core

variable {w v : Nat}

/-- The parameter of the clock divider. The width of the value is `w`. -/
structure Params where
  clockPrescaler : Nat
  deriving DecidableEq, Repr

def Params.prescalerWidth (p : Params) : Nat := Nat.clog 2 p.clockPrescaler

structure Regs (w v : Nat) where
  loadMeta : Bool
  loadLatch : Bool
  valueMeta : BitVec w
  valueLatch : BitVec w
  valueLatched : BitVec w
  prescaledClock : Bool
  prescaler : BitVec v
  threshold : BitVec w
  sigmaD : BitVec (w + 3)
  pwmOut : Bool
  deriving DecidableEq, Repr

structure Input (w : Nat) where
  pwmLoad : Bool
  pwmValue : BitVec w
  deriving DecidableEq, Repr

def reset (prescaledClock : Bool) : Regs w v :=
  { loadMeta := false, loadLatch := false, valueMeta := 0#w, valueLatch := 0#w,
    valueLatched := 0#w, prescaledClock := prescaledClock, prescaler := 0#v, threshold := 0#w,
    sigmaD := 0, pwmOut := false }

def feedback (r : Regs w v) : Bool := r.sigmaD.getLsbD (w + 1)

/-- The bit twice above zeros, and one more zero from the left. -/
def delta (r : Regs w v) : BitVec (w + 3) :=
  (BitVec.ofBool (feedback r) ++ BitVec.ofBool (feedback r) ++ 0#w).setWidth (w + 3)

def sigma (r : Regs w v) : BitVec (w + 3) := r.threshold.setWidth (w + 3) + delta r + r.sigmaD

def thresholdNext (r : Regs w v) : BitVec w :=
  if r.threshold < r.valueLatched then r.threshold + 1
  else if r.threshold > r.valueLatched then r.threshold - 1
  else r.threshold

def step (p : Params) (r : Regs w p.prescalerWidth) (i : Input w) : Regs w p.prescalerWidth :=
  { loadMeta := i.pwmLoad
    loadLatch := r.loadMeta
    valueMeta := i.pwmValue
    valueLatch := r.valueMeta
    valueLatched := if r.loadLatch then r.valueLatch else r.valueLatched
    prescaledClock := decide (¬r.prescaler.toNat < p.clockPrescaler)
    prescaler := if r.prescaler.toNat < p.clockPrescaler then r.prescaler + 1 else 0
    threshold := if r.prescaledClock then thresholdNext r else r.threshold
    sigmaD := if r.prescaledClock then sigma r else r.sigmaD
    pwmOut := if r.prescaledClock then feedback r else r.pwmOut }

/-! ## The divided clock -/

structure Prescales (p : Params) (cnt : Nat → BitVec p.prescalerWidth) (clk : Nat → Bool) :
    Prop where
  clear : cnt 0 = 0
  next : ∀ n, cnt (n + 1) = if (cnt n).toNat < p.clockPrescaler then cnt n + 1 else 0
  strobe : ∀ n, clk (n + 1) = decide (¬(cnt n).toNat < p.clockPrescaler)

namespace Prescales

variable {p : Params} {cnt : Nat → BitVec p.prescalerWidth} {clk : Nat → Bool}

theorem divides (h : Prescales p cnt clk) : Divides p.clockPrescaler cnt := by
  constructor
  · exact h.clear
  · intro n hless
    rw [h.next, if_pos hless]
  · intro n hend
    rw [h.next, if_neg (by omega)]

theorem width (p : Params) : p.clockPrescaler ≤ 2 ^ p.prescalerWidth :=
  Nat.le_pow_clog Nat.one_lt_two p.clockPrescaler

/-- The strobe is there after the counter has met its limit, which it cannot exceed. -/
theorem strobe_met (h : Prescales p cnt clk) (n : Nat) :
    clk (n + 1) = met p.clockPrescaler cnt n := by
  have hmax : (cnt n).toNat ≤ p.clockPrescaler := by
    rcases Nat.lt_or_ge p.clockPrescaler (2 ^ p.prescalerWidth) with hnear | hfar
    · rw [h.divides.toNat_eq hnear]
      exact Nat.lt_succ_iff.1 (Nat.mod_lt n (Nat.succ_pos _))
    · have hlt := (cnt n).isLt
      omega
  rw [h.strobe, met, decide_eq_decide]
  omega

theorem onceIn_iff (h : Prescales p cnt clk) (hpos : 0 < p.clockPrescaler) :
    OnceIn (p.clockPrescaler + 1) (fun n => clk (n + 1)) ↔
      ¬ ∃ k, p.clockPrescaler = 2 ^ k := by
  have hmet : (fun n => clk (n + 1)) = met p.clockPrescaler cnt := funext h.strobe_met
  rw [hmet, h.divides.onceIn_iff]
  exact lt_pow_clog_iff hpos

end Prescales

/-! ## One tick -/

def level (r : Regs w v) : Nat := r.sigmaD.toNat % 2 ^ (w + 2)

theorem feedback_iff (r : Regs w v) : feedback r = true ↔ 2 * 2 ^ w ≤ level r := by
  have hmsb : feedback r = (r.sigmaD.setWidth (w + 2)).msb := by
    simp [feedback, BitVec.msb_eq_getLsbD_last]
  rw [hmsb, BitVec.msb_eq_decide, decide_eq_true_iff, BitVec.toNat_setWidth]
  unfold level
  rw [show w + 2 - 1 = w + 1 by omega, Nat.pow_succ, Nat.mul_comm]

theorem delta_toNat (r : Regs w v) :
    (delta r).toNat = if feedback r then 3 * 2 ^ w else 0 := by
  have hpos := Nat.two_pow_pos w
  have happend : (BitVec.ofBool (feedback r) ++ BitVec.ofBool (feedback r) ++ 0#w).toNat =
      if feedback r then 3 * 2 ^ w else 0 := by
    rw [BitVec.toNat_append, Nat.shiftLeft_eq]
    cases feedback r <;> simp
  unfold delta
  rw [BitVec.toNat_setWidth, happend]
  apply Nat.mod_eq_of_lt
  rw [Nat.pow_add]
  split <;> omega

theorem sigma_mod (r : Regs w v) :
    (sigma r).toNat % 2 ^ (w + 2) =
      (r.threshold.toNat + (if feedback r then 3 * 2 ^ w else 0) + level r) % 2 ^ (w + 2) := by
  have hdvd : 2 ^ (w + 2) ∣ 2 ^ (w + 3) := Nat.pow_dvd_pow 2 (by omega)
  have hthreshold : r.threshold.toNat % 2 ^ (w + 3) = r.threshold.toNat :=
    Nat.mod_eq_of_lt (Nat.lt_of_lt_of_le r.threshold.isLt (Nat.pow_le_pow_right (by omega)
      (by omega)))
  unfold sigma level
  rw [BitVec.toNat_add, BitVec.toNat_add, delta_toNat, BitVec.toNat_setWidth, hthreshold,
    Nat.mod_add_mod, Nat.mod_mod_of_dvd _ hdvd, Nat.add_mod_mod]

/-- A tick adds the threshold and takes off a full step if the bit is set. Nothing wraps. -/
theorem level_tick {r : Regs w v} (h : level r < 3 * 2 ^ w) :
    (sigma r).toNat % 2 ^ (w + 2) + (if feedback r then 2 ^ w else 0) =
        level r + r.threshold.toNat ∧
      (sigma r).toNat % 2 ^ (w + 2) < 3 * 2 ^ w := by
  have hbit := feedback_iff r
  have hthreshold := r.threshold.isLt
  have hquarter : 2 ^ (w + 2) = 4 * 2 ^ w := by rw [Nat.pow_add, Nat.mul_comm]
  rw [sigma_mod, hquarter]
  cases hf : feedback r with
  | false =>
      have hlow : ¬2 * 2 ^ w ≤ level r := by
        rw [← hbit, hf]
        exact Bool.false_ne_true
      simp only [Bool.false_eq_true, if_false]
      rw [Nat.mod_eq_of_lt (by omega)]
      omega
  | true =>
      have hhigh := hbit.mp hf
      simp only [if_true]
      rw [show r.threshold.toNat + 3 * 2 ^ w + level r =
        r.threshold.toNat + level r - 2 ^ w + 4 * 2 ^ w by omega, Nat.add_mod_right,
        Nat.mod_eq_of_lt (by omega)]
      omega

theorem thresholdNext_toNat (r : Regs w v) :
    ((thresholdNext r).toNat : Int) =
      clamp ((r.threshold.toNat : Int) - 1) (r.threshold.toNat + 1) r.valueLatched.toNat := by
  have hvalue := r.valueLatched.isLt
  unfold thresholdNext clamp
  split
  · rename_i hlt
    rw [BitVec.lt_def] at hlt
    rw [toNat_add_one (by omega)]
    omega
  · rename_i hle
    split
    · rename_i hgt
      rw [gt_iff_lt, BitVec.lt_def] at hgt
      rw [toNat_sub_one (by omega)]
      omega
    · rename_i hge
      rw [gt_iff_lt, BitVec.lt_def] at hge
      rw [BitVec.lt_def] at hle
      omega

/-! ## Runs -/

/-- How often the bit is fed back at the ticks of the `m` cycles from `n` on. -/
def ones (r : Nat → Regs w v) (n m : Nat) : Nat :=
  ∑ k ∈ Finset.range m, if (r (n + k)).prescaledClock ∧ feedback (r (n + k)) then 1 else 0

def thresholds (r : Nat → Regs w v) (n m : Nat) : Nat :=
  ∑ k ∈ Finset.range m, if (r (n + k)).prescaledClock then (r (n + k)).threshold.toNat else 0

structure NextTick (r : Nat → Regs w v) (n m : Nat) : Prop where
  lt : n < m
  first : (r n).prescaledClock = true
  second : (r m).prescaledClock = true
  between : ∀ k, n < k → k < m → (r k).prescaledClock = false

/-- The run from reset. The divided clock may have any value there. -/
def run (p : Params) (prescaledClock : Bool) (inp : Nat → Input w) :
    Nat → Regs w p.prescalerWidth :=
  trace (step p) (reset prescaledClock) inp

section Run

variable {p : Params} {prescaledClock : Bool} {inp : Nat → Input w}

theorem run_succ (n : Nat) :
    run p prescaledClock inp (n + 1) = step p (run p prescaledClock inp n) (inp n) := rfl

theorem level_reset : level (reset prescaledClock : Regs w v) = 0 := by
  show BitVec.toNat (0 : BitVec (w + 3)) % _ = 0
  simp

theorem level_lt (n : Nat) : level (run p prescaledClock inp n) < 3 * 2 ^ w := by
  induction n with
  | zero =>
      have hpos := Nat.two_pow_pos w
      show level (reset prescaledClock) < _
      rw [level_reset]
      omega
  | succ n ih =>
      have htick := (level_tick ih).2
      rw [run_succ]
      unfold level step
      cases (run p prescaledClock inp n).prescaledClock with
      | false => exact ih
      | true => exact htick

theorem level_succ (n : Nat) :
    level (run p prescaledClock inp (n + 1)) +
        2 ^ w * (if (run p prescaledClock inp n).prescaledClock ∧
          feedback (run p prescaledClock inp n) then 1 else 0) =
      level (run p prescaledClock inp n) +
        (if (run p prescaledClock inp n).prescaledClock
          then (run p prescaledClock inp n).threshold.toNat else 0) := by
  have htick := (level_tick (@level_lt w p prescaledClock inp n)).1
  rw [run_succ]
  unfold level step at *
  cases (run p prescaledClock inp n).prescaledClock with
  | false => simp
  | true => simpa using htick

/-- The ones carry the thresholds up to three full steps. -/
theorem ones_density (n m : Nat) :
    |((2 ^ w * ones (run p prescaledClock inp) n m : Nat) : Int) -
      (thresholds (run p prescaledClock inp) n m : Nat)| < (3 * 2 ^ w : Nat) := by
  have hwindow := balance_window (@level_succ w p prescaledClock inp)
    (@level_lt w p prescaledClock inp) n m
  rw [← Finset.mul_sum] at hwindow
  exact hwindow

theorem pwmOut_after {n m : Nat} (h : (run p prescaledClock inp n).prescaledClock = true)
    (hm : n < m)
    (hquiet : ∀ k, n < k → k < m → (run p prescaledClock inp k).prescaledClock = false) :
    (run p prescaledClock inp m).pwmOut = feedback (run p prescaledClock inp n) := by
  induction hm with
  | refl =>
      rw [run_succ]
      simp only [step, h, if_true]
  | step hm ih =>
      rename_i m
      rw [run_succ]
      simp only [step, hquiet m hm (Nat.lt_succ_self m), Bool.false_eq_true, if_false]
      exact ih fun k hk hkm => hquiet k hk (by omega)

theorem threshold_tick {n : Nat} (h : (run p prescaledClock inp n).prescaledClock = true) :
    (run p prescaledClock inp (n + 1)).threshold = thresholdNext (run p prescaledClock inp n) := by
  rw [run_succ]
  simp only [step, h, if_true]

theorem threshold_hold {n : Nat} (h : (run p prescaledClock inp n).prescaledClock = false) :
    (run p prescaledClock inp (n + 1)).threshold = (run p prescaledClock inp n).threshold := by
  rw [run_succ]
  simp only [step, h, Bool.false_eq_true, if_false]

end Run

/-! ### Ticks and values come through -/

section Run

variable {p : Params} {prescaledClock : Bool} {inp : Nat → Input w}

theorem prescales : Prescales p (fun n => (run p prescaledClock inp n).prescaler)
    (fun n => (run p prescaledClock inp n).prescaledClock) := by
  constructor
  · rfl
  · exact fun _ => rfl
  · exact fun _ => rfl

theorem ticks_recur (hpos : 0 < p.clockPrescaler) (hpower : ¬ ∃ k, p.clockPrescaler = 2 ^ k)
    (n : Nat) : ∃ m, n < m ∧ m ≤ n + p.clockPrescaler + 1 ∧
      (run p prescaledClock inp m).prescaledClock = true := by
  obtain ⟨k, hk, htick⟩ := ((prescales.onceIn_iff hpos).2 hpower).exists_strobe n
  exact ⟨n + k + 1, by omega, by omega, htick⟩

/-- A value is latched three cycles after it has been loaded. -/
theorem valueLatched_eq (n : Nat) :
    (run p prescaledClock inp (n + 3)).valueLatched =
      if (inp n).pwmLoad then (inp n).pwmValue
      else (run p prescaledClock inp (n + 2)).valueLatched := rfl

def distance (r : Regs w v) (d : BitVec w) : Nat :=
  ((r.threshold.toNat : Int) - d.toNat).natAbs

theorem distance_tick {n : Nat} {d : BitVec w}
    (hvalue : (run p prescaledClock inp n).valueLatched = d)
    (htick : (run p prescaledClock inp n).prescaledClock = true) :
    distance (run p prescaledClock inp (n + 1)) d =
      distance (run p prescaledClock inp n) d - 1 := by
  have hnext := thresholdNext_toNat (run p prescaledClock inp n)
  rw [← threshold_tick htick, hvalue] at hnext
  unfold distance
  rw [hnext]
  unfold clamp
  omega

theorem distance_hold {n : Nat} {d : BitVec w}
    (htick : (run p prescaledClock inp n).prescaledClock = false) :
    distance (run p prescaledClock inp (n + 1)) d = distance (run p prescaledClock inp n) d := by
  unfold distance
  rw [threshold_hold htick]

theorem distance_le {n : Nat} {d : BitVec w}
    (hvalue : ∀ k, (run p prescaledClock inp (n + k)).valueLatched = d) (k : Nat) :
    distance (run p prescaledClock inp (n + k)) d ≤ distance (run p prescaledClock inp n) d := by
  induction k with
  | zero => exact Nat.le_refl _
  | succ k ih =>
      rw [← Nat.add_assoc]
      cases htick : (run p prescaledClock inp (n + k)).prescaledClock with
      | false => rwa [distance_hold htick]
      | true =>
          rw [distance_tick (hvalue k) htick]
          omega

/-- A value that stays is reached, and the threshold stays there. -/
theorem threshold_arrives (hpos : 0 < p.clockPrescaler)
    (hpower : ¬ ∃ k, p.clockPrescaler = 2 ^ k) {n : Nat} {d : BitVec w}
    (hvalue : ∀ k, (run p prescaledClock inp (n + k)).valueLatched = d) :
    ∃ m, ∀ k, (run p prescaledClock inp (m + k)).threshold = d := by
  -- on the distance that is left
  induction hleft : distance (run p prescaledClock inp n) d using Nat.strong_induction_on
    generalizing n with
  | _ left ih =>
      by_cases hzero : left = 0
      · refine ⟨n, fun k => BitVec.eq_of_toNat_eq ?_⟩
        have hle := distance_le hvalue k
        unfold distance at hle hleft
        omega
      · have hrecur : ∃ m, n < m ∧ m ≤ n + p.clockPrescaler + 1 ∧
            (run p prescaledClock inp m).prescaledClock = true := ticks_recur hpos hpower n
        obtain ⟨m, hm, _, htick⟩ := hrecur
        obtain ⟨j, rfl⟩ := Nat.exists_eq_add_of_le hm.le
        have hnear : distance (run p prescaledClock inp (n + j + 1)) d < left := by
          rw [distance_tick (hvalue j) htick]
          have hle := distance_le hvalue j
          omega
        refine ih _ hnear (fun k => ?_) rfl
        rw [show n + j + 1 + k = n + (j + 1 + k) by omega]
        exact hvalue _

end Run

/-- The modulator for every width of the value: the accumulator does not wrap, the ones carry the
thresholds in every stretch of ticks, the output is the bit of the tick before, and the threshold
moves by a unit at most and not beyond the value. -/
theorem sigma_delta_modulates (p : Params) (prescaledClock : Bool) (inp : Nat → Input w) :
    (∀ n, (run p prescaledClock inp n).sigmaD.toNat % 2 ^ (w + 2) < 3 * 2 ^ w) ∧
      (∀ n m, |((2 ^ w * ones (run p prescaledClock inp) n m : Nat) : Int) -
        (thresholds (run p prescaledClock inp) n m : Nat)| < (3 * 2 ^ w : Nat)) ∧
      (∀ n m, NextTick (run p prescaledClock inp) n m →
        (run p prescaledClock inp m).pwmOut = feedback (run p prescaledClock inp n)) ∧
      ∀ n, (((run p prescaledClock inp (n + 1)).threshold.toNat : Nat) : Int) =
        if (run p prescaledClock inp n).prescaledClock then
          clamp (((run p prescaledClock inp n).threshold.toNat : Int) - 1)
            ((run p prescaledClock inp n).threshold.toNat + 1)
            (run p prescaledClock inp n).valueLatched.toNat
        else (run p prescaledClock inp n).threshold.toNat := by
  constructor
  · exact level_lt
  constructor
  · exact ones_density
  constructor
  · intro n m h
    exact pwmOut_after h.first h.lt h.between
  · intro n
    cases htick : (run p prescaledClock inp n).prescaledClock with
    | false =>
        rw [threshold_hold htick]
        rfl
    | true =>
        rw [threshold_tick htick]
        exact thresholdNext_toNat _

/-- A quarter is loaded all the time. -/
def quarter (_ : Nat) : Input 12 := ⟨true, 0x400#12⟩

/-- With the parameter of the host's defaults there is a tick in every 25 cycles, the threshold gets
to the value, and the ones carry the thresholds. -/
theorem sigma_delta_modulates_quarter :
    (∀ n, ∃ m, n < m ∧ m ≤ n + 25 ∧ (run ⟨24⟩ false quarter m).prescaledClock = true) ∧
      (∃ m, ∀ k, (run ⟨24⟩ false quarter (m + k)).threshold = 0x400#12) ∧
      ∀ n m, |((2 ^ 12 * ones (run ⟨24⟩ false quarter) n m : Nat) : Int) -
        (thresholds (run ⟨24⟩ false quarter) n m : Nat)| < (3 * 2 ^ 12 : Nat) := by
  have hpower : ¬ ∃ k, (⟨24⟩ : Params).clockPrescaler = 2 ^ k :=
    not_pow_of_lt (show 24 < 2 ^ 5 by decide) (by decide)
  have hvalue : ∀ k, (run ⟨24⟩ false quarter (3 + k)).valueLatched = 0x400#12 := by
    intro k
    rw [Nat.add_comm]
    exact valueLatched_eq k
  exact ⟨ticks_recur (by decide) hpower, threshold_arrives (by decide) hpower hvalue,
    (sigma_delta_modulates ⟨24⟩ false quarter).2.1⟩

end Mfi.Pu.SigmaDelta
