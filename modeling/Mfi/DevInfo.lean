import Mfi.Core.Divider
import Mfi.Core.FullPeriod
import Mfi.Core.Trace

/-!
# Device information

Eight registers that the bus can read, among them the time since reset in milliseconds. The
milliseconds are counted at the end of a timer, which starts again in the cycle after it
has met the number of cycles of a millisecond.
-/

namespace Mfi.DevInfo

open Core

def mSec (inputClock : Nat) : Nat := inputClock / 1000

def numberVersion : BitVec 32 := 2958367#32
def timestmp : BitVec 32 := 1655817855#32
def hash : BitVec 32 := 0xf49cd86#32

structure Regs where
  msecTimer : BitVec 32
  runtime : BitVec 32
  amsReaddata : BitVec 32
  amsReaddatavalid : BitVec 32
  deriving DecidableEq, Repr

structure Input where
  amsAddress : BitVec 3
  amsRead : Bool
  mkioAddress : BitVec 5
  crcIn : BitVec 32
  deriving DecidableEq, Repr

def reset (amsReaddatavalid : BitVec 32) : Regs :=
  { msecTimer := 0#32, runtime := 0#32, amsReaddata := 0#32,
    amsReaddatavalid := amsReaddatavalid }

/-- The timer is compared without sign, in the width of the wider side. -/
def msecEvent (inputClock : Nat) (r : Regs) : Bool := decide (r.msecTimer.toNat = mSec inputClock)

def infoRegs (r : Regs) (i : Input) (address : BitVec 3) : BitVec 32 :=
  match address.toNat with
  | 0 => 0x4D464441#32
  | 1 => i.mkioAddress.setWidth 32
  | 2 => r.runtime
  | 3 => 0xA#32
  | 4 => numberVersion
  | 5 => i.crcIn
  | 6 => timestmp
  | _ => hash

def step (inputClock : Nat) (r : Regs) (i : Input) : Regs :=
  { msecTimer := if msecEvent inputClock r then 0#32 else r.msecTimer + 1
    runtime := if msecEvent inputClock r then r.runtime + 1 else r.runtime
    amsReaddata := if i.amsRead then infoRegs r i i.amsAddress else 0#32
    amsReaddatavalid := (BitVec.ofBool i.amsRead).setWidth 32 }

/-- The registers `n` cycles after reset. -/
def run (inputClock : Nat) (amsReaddatavalid : BitVec 32) (inp : Nat → Input) (n : Nat) : Regs :=
  trace (step inputClock) (reset amsReaddatavalid) inp n

/-! ## The timer -/

section Run

variable {inputClock : Nat} {amsReaddatavalid : BitVec 32} {inp : Nat → Input}

theorem run_succ (n : Nat) : run inputClock amsReaddatavalid inp (n + 1) =
    step inputClock (run inputClock amsReaddatavalid inp n) (inp n) := rfl

theorem msecTimer_divides :
    Divides (mSec inputClock) (fun n => (run inputClock amsReaddatavalid inp n).msecTimer) := by
  constructor
  · rfl
  · intro n hless
    have hquiet : ¬ msecEvent inputClock (run inputClock amsReaddatavalid inp n) = true := by
      intro hevent
      have hend := of_decide_eq_true hevent
      omega
    exact if_neg hquiet
  · intro n hend
    exact if_pos (decide_eq_true hend)

theorem runtime_count (n : Nat) :
    (run inputClock amsReaddatavalid inp n).runtime =
      BitVec.ofNat 32 (Nat.count (fun k => met (mSec inputClock)
        (fun k => (run inputClock amsReaddatavalid inp k).msecTimer) k = true) n) := by
  have hcount := counter_at (fun n => (run inputClock amsReaddatavalid inp n).runtime)
    (met (mSec inputClock) (fun k => (run inputClock amsReaddatavalid inp k).msecTimer))
    (fun _ => rfl) 0 n
  simp only [Nat.zero_add] at hcount
  rw [hcount]
  exact BitVec.zero_add _

/-- A turn of the timer has one cycle more than a millisecond. -/
theorem runtime_run (h : mSec inputClock < 2 ^ 32) (n : Nat) :
    (run inputClock amsReaddatavalid inp n).runtime.toNat =
      n / (mSec inputClock + 1) % 2 ^ 32 := by
  rw [runtime_count, msecTimer_divides.count_met h, BitVec.toNat_ofNat]

/-- A millisecond that the timer cannot count never ends. -/
theorem runtime_stopped (h : 2 ^ 32 ≤ mSec inputClock) (n : Nat) :
    (run inputClock amsReaddatavalid inp n).runtime.toNat = 0 := by
  have hnone : Nat.count (fun k => met (mSec inputClock)
      (fun k => (run inputClock amsReaddatavalid inp k).msecTimer) k = true) n = 0 := by
    rw [Nat.count_iff_forall_not]
    intro k _ hmet
    rw [Divides.not_met h] at hmet
    cases hmet
  rw [runtime_count, hnone]
  rfl

end Run

/-! ## The run time -/

/-- Counting with one cycle too many for each period goes unnoticed while there are no more periods
than cycles since the last one. -/
theorem div_succ_eq_iff {m : Nat} (hm : 0 < m) (k : Nat) :
    k / (m + 1) = k / m ↔ k / m ≤ k % m := by
  have hk := Nat.div_add_mod k m
  have hlt := Nat.mod_lt k hm
  have hsplit : (m + 1) * (k / m) = m * (k / m) + k / m := Nat.succ_mul m (k / m)
  constructor
  · intro heq
    have hle := Nat.mul_div_le k (m + 1)
    rw [heq] at hle
    omega
  · intro hle
    apply Nat.div_eq_of_lt_le
    · rw [Nat.mul_comm]
      omega
    · rw [Nat.succ_mul, Nat.mul_comm]
      generalize k / m = q at *
      omega

/-- The run time is the number of milliseconds in the first one, and from then on while it is not
late by a whole one. -/
theorem runtime_exact_iff (inputClock : Nat) (hclock : 0 < inputClock)
    (hmultiple : 1000 ∣ inputClock) (k : Nat) (hfits : k / (inputClock / 1000) < 2 ^ 32)
    (amsReaddatavalid : BitVec 32) (inp : Nat → Input) :
    (run inputClock amsReaddatavalid inp k).runtime.toNat = k / (inputClock / 1000) ↔
      k < mSec inputClock ∨ (mSec inputClock < 2 ^ 32 ∧
        k / mSec inputClock ≤ k % mSec inputClock) := by
  have hpos : 0 < mSec inputClock := Nat.div_pos (Nat.le_of_dvd hclock hmultiple) (by omega)
  change k / mSec inputClock < 2 ^ 32 at hfits
  change _ = k / mSec inputClock ↔ _
  rcases Nat.lt_or_ge (mSec inputClock) (2 ^ 32) with hnear | hfar
  · have hle : k / (mSec inputClock + 1) ≤ k / mSec inputClock :=
      Nat.div_le_div_left (Nat.le_succ _) hpos
    rw [runtime_run hnear, Nat.mod_eq_of_lt (by omega), div_succ_eq_iff hpos]
    constructor
    · intro hnow
      exact Or.inr ⟨hnear, hnow⟩
    · rintro (hfirst | ⟨_, hnow⟩)
      · rw [Nat.div_eq_of_lt hfirst]
        exact Nat.zero_le _
      · exact hnow
  · rw [runtime_stopped hfar, eq_comm, Nat.div_eq_zero_iff]
    omega

def quiet (_ : Nat) : Input :=
  { amsAddress := 0#3, amsRead := false, mkioAddress := 0#5, crcIn := 0#32 }

/-- With the clock of the instance, one cycle into the second millisecond. -/
theorem runtime_exact_second :
    (run 80000000 0#32 quiet 80001).runtime.toNat = 80001 / (80000000 / 1000) :=
  (runtime_exact_iff 80000000 (by decide) (by decide) 80001 (by decide) 0#32 quiet).2
    (Or.inr (by decide))

/-- One cycle earlier the millisecond is over and not counted. -/
theorem runtime_late :
    (run 80000000 0#32 quiet 80000).runtime.toNat ≠ 80000 / (80000000 / 1000) := by
  rw [runtime_run (by decide)]
  decide

end Mfi.DevInfo
