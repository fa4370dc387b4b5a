import Mfi.Arinc429.RxIdle
import Mfi.Core.Runs
import Mfi.Core.Trace
import Mfi.Core.Words

/-!
# The input filter

`filter_input.sv` for data of any width and any constant threshold. The counter is
compared with one less than the threshold, so each run of equal samples is taken once, when
as many of its samples are in as the threshold says. The receiver has the filter with two
bits and a threshold of three.
-/

namespace Mfi.Arinc429.Filter

open Core

structure Regs (w : Nat) where
  delayIn : BitVec w
  cntTime : BitVec 16
  out : BitVec w
  deriving DecidableEq, Repr

variable {w : Nat}

def reset : Regs w := ⟨0#w, 0#16, 0#w⟩

def step (cntConstT : BitVec 16) (r : Regs w) (input : BitVec w) : Regs w :=
  { delayIn := input
    cntTime :=
      if r.delayIn ≠ input then 0#16
      else if r.cntTime < cntConstT then r.cntTime + 1#16
      else r.cntTime
    out := if r.cntTime.setWidth 32 = cntConstT.setWidth 32 - 1#32 then r.delayIn else r.out }

/-- The registers before edge `n`. -/
def run (cntConstT : BitVec 16) (inp : Nat → BitVec w) (n : Nat) : Regs w :=
  trace (step cntConstT) reset inp n

/-! ## One edge -/

section Run

variable {cntConstT : BitVec 16} {inp : Nat → BitVec w}

theorem run_succ (n : Nat) :
    run cntConstT inp (n + 1) = step cntConstT (run cntConstT inp n) (inp n) := rfl

theorem delayIn_run (n : Nat) : (run cntConstT inp n).delayIn = delayed 0#w inp n := by
  cases n with
  | zero => rfl
  | succ n => rfl

theorem ends_iff (hT : 0 < cntConstT.toNat) (c : BitVec 16) :
    c.setWidth 32 = cntConstT.setWidth 32 - 1#32 ↔ c.toNat + 1 = cntConstT.toNat := by
  have hc := c.isLt
  have hlt := cntConstT.isLt
  have hone : (1#32).toNat = 1 := rfl
  have hsub : (cntConstT.setWidth 32 - 1#32).toNat = cntConstT.toNat - 1 := by
    rw [BitVec.toNat_sub_of_le, hone, BitVec.toNat_setWidth, Nat.mod_eq_of_lt (by omega)]
    rw [BitVec.le_def, hone, BitVec.toNat_setWidth, Nat.mod_eq_of_lt (by omega)]
    exact hT
  rw [← BitVec.toNat_inj, hsub, BitVec.toNat_setWidth, Nat.mod_eq_of_lt (by omega)]
  omega

theorem counts_run :
    CountsRun cntConstT.toNat (delayed 0#w inp) (fun n => (run cntConstT inp n).cntTime.toNat) := by
  constructor
  · rfl
  · intro n hmoved
    have hinput : (run cntConstT inp n).delayIn ≠ inp n := by
      rw [delayIn_run]
      exact hmoved
    show (step cntConstT (run cntConstT inp n) (inp n)).cntTime.toNat = 0
    unfold step
    rw [if_pos hinput]
    rfl
  · intro n hsame
    have hinput : ¬ (run cntConstT inp n).delayIn ≠ inp n := by
      rw [delayIn_run]
      exact not_not_intro hsame
    have hlt := cntConstT.isLt
    show (step cntConstT (run cntConstT inp n) (inp n)).cntTime.toNat = _
    unfold step
    rw [if_neg hinput]
    dsimp only
    by_cases hless : (run cntConstT inp n).cntTime < cntConstT
    · rw [if_pos hless, if_pos (BitVec.lt_def.1 hless)]
      rw [BitVec.lt_def] at hless
      exact toNat_add_one (by omega)
    · rw [if_neg hless, if_neg (fun h => hless (BitVec.lt_def.2 h))]

theorem takes_run (hT : 0 < cntConstT.toNat) :
    Takes cntConstT.toNat inp 0#w (fun n => (run cntConstT inp n).cntTime.toNat)
      (fun n => (run cntConstT inp n).out) := by
  constructor
  · exact counts_run
  · rfl
  · intro n
    show (step cntConstT (run cntConstT inp n) (inp n)).out = _
    unfold step
    dsimp only
    rw [delayIn_run]
    exact if_congr (ends_iff hT _) rfl rfl

end Run

/-- The output follows the runs of the input that are as long as the threshold, each from the edge
on that is as many edges after its first sample. -/
theorem filter_follows (cntConstT : BitVec 16) (hT : 0 < cntConstT.toNat)
    (inp : Nat → BitVec w) :
    Follows cntConstT.toNat inp 0#w (fun n => (run cntConstT inp n).out) :=
  (takes_run hT).follows hT

theorem filter_follows_three :
    Follows 3 (fun n => BitVec.ofNat 2 (n / 4)) 0#2
      (fun n => (run 3#16 (fun n => BitVec.ofNat 2 (n / 4)) n).out) :=
  filter_follows 3#16 (by decide) (fun n => BitVec.ofNat 2 (n / 4))

/-! ## The filter of the receiver -/

def lineBits (l : Line) : BitVec 2 := BitVec.ofBool l.a ++ BitVec.ofBool l.b

/-- The registers of the receiver's filter as those of the general one. -/
def ofReceiver (p : FilterInput) : Regs 2 :=
  ⟨lineBits p.delayIn, BitVec.ofNat 16 p.cntTime, lineBits p.out⟩

theorem lineBits_inj {l m : Line} : lineBits l = lineBits m ↔ l = m := by
  obtain ⟨a, b⟩ := l
  obtain ⟨c, d⟩ := m
  revert a b c d
  decide

theorem ofReceiver_reset : ofReceiver FilterInput.reset = reset := rfl

theorem ofReceiver_clkEdge {p : FilterInput} (h : p.Sound) (input : Line) :
    ofReceiver (p.clkEdge input) = step 3#16 (ofReceiver p) (lineBits input) := by
  obtain ⟨delayIn, cntTime, out⟩ := p
  have hle : cntTime ≤ 3 := h.cnt_le
  have hmoved : lineBits delayIn ≠ lineBits input ↔ delayIn ≠ input := not_congr lineBits_inj
  unfold ofReceiver FilterInput.clkEdge step
  dsimp only
  rw [if_congr hmoved rfl rfl]
  have hcases : cntTime = 0 ∨ cntTime = 1 ∨ cntTime = 2 ∨ cntTime = 3 := by omega
  rcases hcases with rfl | rfl | rfl | rfl
  · split <;> rfl
  · split <;> rfl
  · split <;> rfl
  · split <;> rfl

theorem sound_run (line : Nat → Line) (n : Nat) :
    (trace FilterInput.clkEdge FilterInput.reset line n).Sound := by
  induction n with
  | zero =>
      constructor
      · exact Nat.zero_le 3
      · exact fun _ => rfl
  | succ n ih => exact ih.clkEdge (line n)

/-- The receiver's filter does what the general one does with a threshold of three. -/
theorem ofReceiver_run (line : Nat → Line) (n : Nat) :
    ofReceiver (trace FilterInput.clkEdge FilterInput.reset line n) =
      run 3#16 (fun k => lineBits (line k)) n := by
  induction n with
  | zero => exact ofReceiver_reset
  | succ n ih =>
      rw [trace_succ, ofReceiver_clkEdge (sound_run line n), ih]
      rfl

end Mfi.Arinc429.Filter
