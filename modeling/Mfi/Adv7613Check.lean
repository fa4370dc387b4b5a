import Mfi.Core.Events
import Mfi.Core.Trace
import Mfi.Core.Words

/-!
# Watch over two video receivers

The master is meant to read the power-down register of two video receivers in
turn and to reset them when one has lost its settings. Its commands are packed
records, built by concatenation. The concatenation is eight bits shorter than
the record, so its fields do not fall where they are meant to: the commands
read as writes, and after two of them the master stops.
-/

namespace Mfi.Adv7613Check

open Core

/-- The parameters of the instance as 32 bit values. The products are computed with sign if the
instance gives plain numbers. -/
structure Params where
  inClkHz : BitVec 32
  timerDelayMks : BitVec 32
  amsI2cAmmAddress : BitVec 32
  adv7613I2cAddress : BitVec 32
  adv7613TimerResetMks : BitVec 32
  signed : Bool
  deriving DecidableEq, Repr

def Params.ticks (p : Params) (mks : BitVec 32) : BitVec 32 :=
  if p.signed then (mks * p.inClkHz).sdiv 1000000#32 else (mks * p.inClkHz).udiv 1000000#32

def Params.timerDelay (p : Params) : BitVec 32 := p.ticks p.timerDelayMks

def Params.adv7613TimerReset (p : Params) : BitVec 32 := p.ticks p.adv7613TimerResetMks

def adv7613Pwrdwn : BitVec 8 := 0x0C#8

def adv7613PwrdwnMsk : BitVec 8 := 0x20#8

/-! ## The command records -/

/-- Operation, address, register and data, packed into 1, 32, 16 and 8 bits. -/
abbrev OpArray : Type := BitVec 57

def OpArray.isRead (op : OpArray) : Bool := op.getLsbD 56

def OpArray.address (op : OpArray) : BitVec 32 := op.extractLsb' 24 32

def OpArray.register (op : OpArray) : BitVec 16 := op.extractLsb' 8 16

def OpArray.data (op : OpArray) : BitVec 8 := op.extractLsb' 0 8

/-- Both commands of the work array. The shift is applied to the sum. The four parts have 49 bits
together, and the assignment fills up with zeros from the left. -/
def workArray (p : Params) : OpArray :=
  (1#1 ++ (p.amsI2cAmmAddress + p.adv7613I2cAddress) <<< 8 ++ adv7613Pwrdwn ++ 0#8).setWidth 57

/-! ## The master -/

inductive AmmState where
  | reset
  | init
  | waitTimerDone
  | work
  | workDone
  | write
  | read
  | ack
  deriving DecidableEq, Repr

structure Regs where
  ammAddress : BitVec 32
  ammWrite : Bool
  ammWritedata : BitVec 8
  ammRead : Bool
  ammData : BitVec 32
  ammIndex : BitVec 8
  ammCnt : BitVec 16
  ammRegAdrOfst : BitVec 8
  ammPrevState : AmmState
  ammCurrentState : AmmState
  error : Bool
  pio : BitVec 8
  avsRstN : Bool
  deriving DecidableEq, Repr

structure Input where
  readdata : BitVec 8
  waitrequest : Bool
  deriving DecidableEq, Repr

def reset : Regs :=
  { ammAddress := 0#32, ammWrite := false, ammWritedata := 0#8, ammRead := false, ammData := 0#32,
    ammIndex := 0#8, ammCnt := 0#16, ammRegAdrOfst := 0#8, ammPrevState := .reset,
    ammCurrentState := .reset, error := false, pio := 0x07#8, avsRstN := true }

def putBit (word : BitVec 8) (k : Nat) (bit : Bool) : BitVec 8 :=
  if bit then word ||| 1#8 <<< k else word &&& ~~~(1#8 <<< k)

/-- The indicators of the two receivers while their commands are looked at. -/
def workPio (pio : BitVec 8) (index : BitVec 8) : BitVec 8 :=
  if index = 0#8 then putBit (putBit pio 2 true) 1 false
  else if index = 1#8 then putBit (putBit pio 1 true) 2 false
  else putBit (putBit pio 1 true) 2 true

def commandAddress (p : Params) (r : Regs) : BitVec 32 :=
  (workArray p).address + ((workArray p).register.setWidth 32 + r.ammRegAdrOfst.setWidth 32)

def step (p : Params) (r : Regs) (i : Input) : Regs :=
  match r.ammCurrentState with
  | .init =>
      { r with
        ammPrevState := .init
        ammIndex := 0#8
        ammCnt := 0#16
        ammCurrentState := .waitTimerDone
        error := false
        pio := 0x07#8
        avsRstN := true }
  | .waitTimerDone =>
      { r with
        ammPrevState := .waitTimerDone
        ammWrite := false
        ammRead := false
        ammAddress := 0#32
        ammWritedata := 0#8
        ammRegAdrOfst := 0#8
        error := false
        pio := 0x07#8
        avsRstN := true
        ammCnt := if r.ammCnt.toNat < (p.timerDelay - 1).toNat then r.ammCnt + 1#16 else 0#16
        ammCurrentState :=
          if r.ammCnt.toNat < (p.timerDelay - 1).toNat then .waitTimerDone else .work
        ammIndex := if r.ammCnt.toNat < (p.timerDelay - 1).toNat then r.ammIndex else 0#8 }
  | .work =>
      if r.ammIndex.toNat < 2 then
        if (workArray p).isRead then
          { r with
            ammPrevState := .work
            ammAddress := commandAddress p r
            ammRead := true
            ammData := (workArray p).data.setWidth 32
            ammCurrentState := .read
            pio := workPio r.pio r.ammIndex }
        else
          { r with
            ammPrevState := .work
            ammAddress := commandAddress p r
            ammWrite := true
            ammWritedata := (workArray p).data
            ammCurrentState := .write
            pio := workPio r.pio r.ammIndex }
      else
        { r with
          ammPrevState := .work
          ammIndex := 0#8
          ammCnt := 0#16
          ammCurrentState := .workDone
          pio := workPio r.pio r.ammIndex }
  | .write =>
      if i.waitrequest then r
      else
        { r with
          ammAddress := 0#32
          ammWrite := false
          ammWritedata := 0#8
          ammIndex := r.ammIndex + 1#8
          ammCurrentState := r.ammPrevState }
  | .read =>
      if i.waitrequest then r
      else
        { r with
          ammAddress := 0#32
          ammRead := false
          ammData := i.readdata.setWidth 32
          ammCurrentState := .ack }
  | .ack =>
      { r with
        ammCurrentState := r.ammPrevState
        error :=
          if r.ammPrevState = .work ∧ r.ammIndex.toNat < 2 ∧
              r.ammData &&& adv7613PwrdwnMsk.setWidth 32 ≠ 0#32 then true else r.error
        ammIndex := if r.ammPrevState = .work then r.ammIndex + 1#8 else r.ammIndex }
  | .workDone =>
      if r.error then
        { r with
          avsRstN := false
          pio := putBit r.pio 0 false
          ammCnt :=
            if r.ammCnt.toNat < (p.adv7613TimerReset - 1).toNat then r.ammCnt + 1#16 else 0#16
          ammCurrentState :=
            if r.ammCnt.toNat < (p.adv7613TimerReset - 1).toNat then .workDone
            else .waitTimerDone }
      else r
  | .reset =>
      { r with
        ammWrite := false
        ammRead := false
        ammAddress := 0#32
        ammWritedata := 0#8
        ammData := 0#32
        ammRegAdrOfst := 0#8
        ammIndex := 0#8
        ammCnt := 0#16
        ammPrevState := .init
        ammCurrentState := .init
        error := false
        pio := 0x07#8
        avsRstN := true }

/-! ## What it is meant to do -/

section Run

variable (p : Params) (inp : Nat → Input)

/-- The registers before cycle `n` after the reset. -/
def run (n : Nat) : Regs := trace (step p) reset inp n

def PassStart (n : Nat) : Prop :=
  (run p inp n).ammCurrentState = .waitTimerDone ∧ (run p inp (n + 1)).ammCurrentState = .work

def PassEnd (n : Nat) : Prop :=
  (run p inp n).ammCurrentState = .work ∧ (run p inp (n + 1)).ammCurrentState = .workDone

structure Pass (s e : Nat) : Prop where
  order : s < e
  starts : PassStart p inp s
  ends : PassEnd p inp e
  first : ∀ k, s < k → k < e → ¬ PassEnd p inp k

/-- The byte of a read that is accepted after cycle `s`. -/
def byteRead (s k : Nat) : Option (BitVec 8) :=
  if s < k ∧ (run p inp k).ammRead = true ∧ (inp k).waitrequest = false then
    some (inp k).readdata
  else none

def bytesRead (s e : Nat) : List (BitVec 8) := events (byteRead p inp s) e

/-- Polling: only reads of the power-down register, two in a pass, a reset pulse exactly after a
pass that has seen the bit, and one pass after the other. -/
structure Polls : Prop where
  noWrites : ∀ n, (run p inp n).ammWrite = false
  address : ∀ n, (run p inp n).ammRead = true →
    (run p inp n).ammAddress = p.amsI2cAmmAddress + p.adv7613I2cAddress <<< 8 + 0x0C#32
  twoReads : ∀ s e, Pass p inp s e → (bytesRead p inp s e).length = 2
  resetPulse : ∀ s e, Pass p inp s e →
    ((∃ m > e, (∀ k, e < k → k < m → ¬ PassStart p inp k) ∧ (run p inp m).avsRstN = false) ↔
      ∃ b ∈ bytesRead p inp s e, b.getLsbD 5 = true)
  goesOn : ∀ s e, Pass p inp s e →
    ∃ w > e, (run p inp w).ammCurrentState = .waitTimerDone ∧ ∃ t ≥ w, PassStart p inp t

end Run

/-! ## What it does -/

section Waiting

variable {p : Params} {inp : Nat → Input}

theorem run_succ (n : Nat) : run p inp (n + 1) = step p (run p inp n) (inp n) := rfl

/-- The operation bit lies in the part that is filled up with zeros. -/
theorem workArray_isRead (p : Params) : (workArray p).isRead = false := by
  rw [OpArray.isRead, workArray, BitVec.getLsbD_setWidth, BitVec.getLsbD_of_ge _ 56 (by decide),
    Bool.and_false]

theorem run_waiting {k : Nat} (hk : k ≤ (p.timerDelay - 1).toNat) (h16 : k ≤ 65535) :
    (run p inp (2 + k)).ammCurrentState = .waitTimerDone ∧
      (run p inp (2 + k)).ammCnt.toNat = k := by
  induction k with
  | zero => exact ⟨rfl, rfl⟩
  | succ k ih =>
      obtain ⟨hstate, hcnt⟩ := ih (by omega) (by omega)
      have hless : (run p inp (2 + k)).ammCnt.toNat < (p.timerDelay - 1).toNat := by omega
      rw [← Nat.add_assoc, run_succ, step, hstate]
      dsimp only
      rw [if_pos hless, if_pos hless]
      refine ⟨rfl, ?_⟩
      have hadd : ((run p inp (2 + k)).ammCnt + 1).toNat = (run p inp (2 + k)).ammCnt.toNat + 1 :=
        toNat_add_one (by omega)
      exact hadd.trans (congrArg (· + 1) hcnt)

theorem exists_write (h : (p.timerDelay - 1).toNat ≤ 65535) :
    ∃ n, (run p inp n).ammWrite = true := by
  have hwait : (run p inp (2 + (p.timerDelay - 1).toNat)).ammCurrentState = .waitTimerDone ∧
      (run p inp (2 + (p.timerDelay - 1).toNat)).ammCnt.toNat = (p.timerDelay - 1).toNat :=
    run_waiting (Nat.le_refl _) h
  have hstate := hwait.1
  have hcnt := hwait.2
  have hdone : ¬ (run p inp (2 + (p.timerDelay - 1).toNat)).ammCnt.toNat <
      (p.timerDelay - 1).toNat := by omega
  have hwork : (run p inp (2 + (p.timerDelay - 1).toNat + 1)).ammCurrentState = .work ∧
      (run p inp (2 + (p.timerDelay - 1).toNat + 1)).ammIndex = 0#8 := by
    rw [run_succ, step, hstate]
    exact ⟨if_neg hdone, if_neg hdone⟩
  refine ⟨2 + (p.timerDelay - 1).toNat + 2, ?_⟩
  rw [run_succ, step, hwork.1]
  dsimp only
  rw [hwork.2, if_pos (by decide), workArray_isRead]
  rfl

structure Idling (r : Regs) : Prop where
  state : r.ammCurrentState = .reset ∨ r.ammCurrentState = .init ∨
    r.ammCurrentState = .waitTimerDone
  write : r.ammWrite = false
  read : r.ammRead = false

theorem idling_step (h : 65535 < (p.timerDelay - 1).toNat) {r : Regs} (hr : Idling r)
    (i : Input) : Idling (step p r i) := by
  rcases hr.state with hstate | hstate | hstate
  · rw [step, hstate]
    exact ⟨Or.inr (Or.inl rfl), rfl, rfl⟩
  · rw [step, hstate]
    exact ⟨Or.inr (Or.inr rfl), hr.write, hr.read⟩
  · have hlt := r.ammCnt.isLt
    have hless : r.ammCnt.toNat < (p.timerDelay - 1).toNat := by omega
    rw [step, hstate]
    exact ⟨Or.inr (Or.inr (if_pos hless)), rfl, rfl⟩

theorem idling_run (h : 65535 < (p.timerDelay - 1).toNat) (n : Nat) : Idling (run p inp n) := by
  induction n with
  | zero => exact ⟨Or.inl rfl, rfl, rfl⟩
  | succ n ih => exact idling_step h ih (inp n)

theorem not_pass (h : 65535 < (p.timerDelay - 1).toNat) (s e : Nat) : ¬ Pass p inp s e := by
  intro hpass
  obtain ⟨_, hwork⟩ := hpass.starts
  have hidle : Idling (run p inp (s + 1)) := idling_run h (s + 1)
  rcases hidle.state with hstate | hstate | hstate
  · rw [hstate] at hwork
    cases hwork
  · rw [hstate] at hwork
    cases hwork
  · rw [hstate] at hwork
    cases hwork

end Waiting

/-- The master does what it is meant to do only if its delay, less one, is out of the reach of
its counter, so that it never begins. -/
theorem polls_iff (p : Params) (inp : Nat → Input) :
    Polls p inp ↔ 65535 < (p.timerDelay - 1).toNat := by
  constructor
  · intro hpolls
    by_contra hreach
    have hexists : ∃ n, (run p inp n).ammWrite = true := exists_write (by omega)
    cases hexists with
    | intro n hwrite =>
        rw [hpolls.noWrites n] at hwrite
        cases hwrite
  · intro h
    have hidle : ∀ n, Idling (run p inp n) := idling_run h
    exact
      { noWrites := fun n => (hidle n).write
        address := by
          intro n hread
          rw [(hidle n).read] at hread
          cases hread
        twoReads := fun s e hpass => absurd hpass (not_pass h s e)
        resetPulse := fun s e hpass => absurd hpass (not_pass h s e)
        goesOn := fun s e hpass => absurd hpass (not_pass h s e) }

/-- The default parameters, with a slave that never waits and returns zeros. -/
theorem default_writes :
    ¬ Polls ⟨50000000#32, 1#32, 0#32, 3#32, 10000#32, false⟩ (fun _ => ⟨0#8, false⟩) := by
  intro hpolls
  have hreach : (Params.timerDelay ⟨50000000#32, 1#32, 0#32, 3#32, 10000#32, false⟩ - 1).toNat ≤
      65535 := by decide
  cases exists_write hreach with
  | intro n hwrite =>
      rw [hpolls.noWrites n] at hwrite
      cases hwrite

end Mfi.Adv7613Check
