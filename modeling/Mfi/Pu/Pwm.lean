import Mfi.Core.FullPeriod
import Mfi.Pu.SigmaDelta

/-!
# Pulse width modulator and the clock of the modulators

The modulator compares a counter with a threshold at every tick of a divided clock. The
loading of the value, the threshold and the divided clock are those of the sigma-delta
modulator. The counter of the divided clock has just the width of the logarithm of its
limit, so it depends on the parameter whether there are any ticks.
-/

namespace Mfi.Pu.Pwm

open Core
open SigmaDelta (Params Input Prescales)

variable {w v : Nat}

def pwmPrescaler (clockFreq pwmFreq : Nat) : Nat := clockFreq / 2 ^ 12 / pwmFreq

structure Regs (w v : Nat) where
  loadMeta : Bool
  loadLatch : Bool
  valueMeta : BitVec w
  valueLatch : BitVec w
  valueLatched : BitVec w
  prescaledClock : Bool
  prescaler : BitVec v
  pwmCounter : BitVec w
  threshold : BitVec w
  pwmOut : Bool
  deriving DecidableEq, Repr

/-- The reset leaves the divided clock and the output as they were. -/
def reset (prescaledClock pwmOut : Bool) : Regs w v :=
  { loadMeta := false, loadLatch := false, valueMeta := 0#w, valueLatch := 0#w,
    valueLatched := 0#w, prescaledClock := prescaledClock, prescaler := 0#v, pwmCounter := 0#w,
    threshold := 0#w, pwmOut := pwmOut }

def thresholdNext (r : Regs w v) : BitVec w :=
  if r.threshold < r.valueLatched then r.threshold + 1
  else if r.threshold > r.valueLatched then r.threshold - 1
  else r.threshold

def step (p : Params) (r : Regs w p.prescalerWidth) (i : Input w) : Regs w p.prescalerWidth :=
  { loadMeta := i.pwmLoad
    loadLatch := r.loadMeta
    valueMeta := i.pwmValue
    valueLatch := r.valueMeta
    valueLatched := if r.loadLatch then r.valueLatch else r.valueLatched
    prescaledClock := decide (¬r.prescaler.toNat < p.clockPrescaler)
    prescaler := if r.prescaler.toNat < p.clockPrescaler then r.prescaler + 1 else 0
    pwmCounter := if r.prescaledClock then r.pwmCounter + 1 else r.pwmCounter
    threshold := if r.prescaledClock then thresholdNext r else r.threshold
    pwmOut := if r.prescaledClock then decide (r.pwmCounter < r.threshold) else r.pwmOut }

def run (p : Params) (prescaledClock pwmOut : Bool) (inp : Nat → Input w) :
    Nat → Regs w p.prescalerWidth :=
  trace (step p) (reset prescaledClock pwmOut) inp

/-! ## The divided clock -/

section Run

variable {p : Params} {prescaledClock pwmOut : Bool} {inp : Nat → Input w}

theorem prescales : Prescales p (fun n => (run p prescaledClock pwmOut inp n).prescaler)
    (fun n => (run p prescaledClock pwmOut inp n).prescaledClock) := by
  constructor
  · rfl
  · exact fun _ => rfl
  · exact fun _ => rfl

end Run

/-- The divided clock of either modulator ticks once in every turn, whatever is loaded, unless the
parameter is a power of two. -/
theorem prescaled_clock_iff (p : Params) (hp : 2 ≤ p.clockPrescaler)
    (prescaledClock pwmOut : Bool) (inp : Nat → Input w) :
    (OnceIn (p.clockPrescaler + 1)
        (fun n => (run p prescaledClock pwmOut inp (n + 1)).prescaledClock) ∧
      OnceIn (p.clockPrescaler + 1)
        (fun n => (SigmaDelta.run p prescaledClock inp (n + 1)).prescaledClock)) ↔
      ¬ ∃ k, p.clockPrescaler = 2 ^ k := by
  have hpos : 0 < p.clockPrescaler := Nat.lt_of_lt_of_le Nat.two_pos hp
  constructor
  · intro hboth
    exact (prescales.onceIn_iff hpos).1 hboth.1
  · intro hpower
    constructor
    · exact (prescales.onceIn_iff hpos).2 hpower
    · exact (SigmaDelta.prescales.onceIn_iff hpos).2 hpower

/-- With the frequencies of the host's defaults the parameter is 24. -/
theorem prescaled_clock_defaults :
    OnceIn 25 (fun n => (run ⟨pwmPrescaler 100000000 1000⟩ false false
        (fun _ => ⟨false, 0#12⟩) (n + 1)).prescaledClock) ∧
      OnceIn 25 (fun n => (SigmaDelta.run ⟨pwmPrescaler 100000000 1000⟩ false
        (fun _ => ⟨false, 0#12⟩) (n + 1)).prescaledClock) :=
  (prescaled_clock_iff ⟨pwmPrescaler 100000000 1000⟩ (by decide) false false
    fun _ => ⟨false, 0#12⟩).mpr
      (not_pow_of_lt (show pwmPrescaler 100000000 1000 < 2 ^ 5 by decide) (by decide))

/-- For a frequency of 750 it is 32, and the clock stands. -/
theorem prescaled_clock_stands :
    ¬ OnceIn (pwmPrescaler 100000000 750 + 1)
      (fun n => (run ⟨pwmPrescaler 100000000 750⟩ false false
        (fun _ => ⟨false, 0#12⟩) (n + 1)).prescaledClock) := by
  intro honce
  have hpos : 0 < pwmPrescaler 100000000 750 := by decide
  apply (prescales.onceIn_iff hpos).1 honce
  exact ⟨5, rfl⟩

/-! ## The pulse -/

section Pulse

variable {p : Params} {prescaledClock pwmOut : Bool} {inp : Nat → Input w}

theorem counter_next (n : Nat) :
    (run p prescaledClock pwmOut inp (n + 1)).pwmCounter =
      if (run p prescaledClock pwmOut inp n).prescaledClock then
        (run p prescaledClock pwmOut inp n).pwmCounter + 1
      else (run p prescaledClock pwmOut inp n).pwmCounter := rfl

theorem pwmOut_tick {n : Nat} (h : (run p prescaledClock pwmOut inp n).prescaledClock = true) :
    (run p prescaledClock pwmOut inp (n + 1)).pwmOut =
      decide ((run p prescaledClock pwmOut inp n).pwmCounter <
        (run p prescaledClock pwmOut inp n).threshold) :=
  if_pos h

/-- In a full period of the counter the output is set at as many ticks as the threshold says, if
the threshold stays. -/
theorem pulse_width {n : Nat} {d : BitVec w} (hp : 2 ≤ p.clockPrescaler)
    (hpower : ¬ ∃ k, p.clockPrescaler = 2 ^ k)
    (hthreshold : ∀ k < (p.clockPrescaler + 1) * 2 ^ w,
      (run p prescaledClock pwmOut inp (n + 1 + k)).threshold = d) :
    Nat.count (fun k => (run p prescaledClock pwmOut inp (n + 1 + k)).prescaledClock = true ∧
      (run p prescaledClock pwmOut inp (n + 1 + k + 1)).pwmOut = true)
      ((p.clockPrescaler + 1) * 2 ^ w) = d.toNat := by
  have honce : OnceIn (p.clockPrescaler + 1)
      (fun n => (run p prescaledClock pwmOut inp (n + 1)).prescaledClock) :=
    (prescales.onceIn_iff (Nat.lt_of_lt_of_le Nat.two_pos hp)).2 hpower
  have hticks := honce.count_turns n (2 ^ w)
  have hcount := count_ticks (fun n => (run p prescaledClock pwmOut inp n).pwmCounter)
    (fun n => (run p prescaledClock pwmOut inp n).prescaledClock) counter_next
    (fun x => decide (x < d)) (n + 1) ((p.clockPrescaler + 1) * 2 ^ w)
  simp only [Nat.add_right_comm n _ 1] at hticks
  rw [hticks] at hcount
  have htotal := hcount.trans (words_from (fun x => decide (x < d)) _)
  rw [words_below] at htotal
  rw [← htotal, Nat.count_eq_card_filter_range, Nat.count_eq_card_filter_range]
  apply congrArg
  apply Finset.filter_congr
  intro k hk
  apply and_congr_right
  intro htick
  rw [pwmOut_tick htick, hthreshold k (Finset.mem_range.1 hk)]

end Pulse

end Mfi.Pu.Pwm
