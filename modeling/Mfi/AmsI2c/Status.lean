import Mfi.AmsI2c.Handshake

/-!
# The status read of the bridge

A read with bit 8 of the address set performs a transaction of its own and returns the
error bits of the master. The master clears them with the falling edge that takes
`i2c_busy` down, and the port reads them after it has seen that.
-/

namespace Mfi.AmsI2c

open Core

/-! ## What is seen of a transaction -/

/-- The byte with this word state is refused in this cycle: the data line was sampled high
in its acknowledge slot. -/
def BridgeRegs.refuses (s : BridgeRegs) (i2cClockTime : BitVec 32) (word : WordState) : Bool :=
  s.falls i2cClockTime && s.master.i2cState == .ack && s.master.i2cWord == word &&
    s.samples.i2cDataIn

/-- The command in progress, and the bytes refused since it was taken up. -/
structure Watch where
  command : Option Command
  deviceRefused : Bool
  registerRefused : Bool

def Watch.step (w : Watch) (i2cClockTime : BitVec 32) (s : BridgeRegs) (i : BridgeInput) : Watch :=
  match s.port.takes s.i2cBusyLatch i with
  | some c => ⟨some c, false, false⟩
  | none =>
      { w with
        deviceRefused := w.deviceRefused || s.refuses i2cClockTime .device
        registerRefused := w.registerRefused || s.refuses i2cClockTime .address }

/-- The port returns the byte of a read with the end of this cycle. -/
def BridgeRegs.returns (s : BridgeRegs) : Bool := s.port.amsState == .read && !s.i2cBusyLatch

structure StatusRight (byte : BitVec 8) (deviceRefused registerRefused : Bool) : Prop where
  device : deviceRefused = true → byte.getLsbD 0 = true
  register : registerRefused = true → byte.getLsbD 1 = true
  acknowledged : deviceRefused = false → registerRefused = false →
    byte.getLsbD 0 = false ∧ byte.getLsbD 1 = false

section Run

variable (i2cClockTime : BitVec 32) (i2cWait : Bool) (inp : Nat → BridgeInput)

def watch : Nat → Watch
  | 0 => ⟨none, false, false⟩
  | n + 1 => (watch n).step i2cClockTime (bridgeRun i2cClockTime i2cWait inp n) (inp n)

/-! ## The run -/

theorem stage_run (n : Nat) :
    ∃ o, BridgeRegs.Stage (bridgeRun i2cClockTime i2cWait inp n) o ∧
      (o = none ∨ o = (watch i2cClockTime i2cWait inp n).command) := by
  induction n with
  | zero => exact ⟨none, .rest (BridgeRegs.rest_init i2cWait), .inl rfl⟩
  | succ n ih =>
      obtain ⟨o, hstage, ho⟩ := ih
      obtain ⟨o', hnext, ho'⟩ := hstage.step i2cClockTime (inp n)
      refine ⟨o', hnext, ?_⟩
      cases ht : (bridgeRun i2cClockTime i2cWait inp n).port.takes
          (bridgeRun i2cClockTime i2cWait inp n).i2cBusyLatch (inp n) with
      | some c =>
          right
          rw [ho'.1 c ht, watch, Watch.step, ht]
      | none =>
          have hcommand : (watch i2cClockTime i2cWait inp (n + 1)).command =
              (watch i2cClockTime i2cWait inp n).command := by
            rw [watch, Watch.step, ht]
          rw [hcommand]
          rcases ho'.2 ht with hnone | hsame
          · exact .inl hnone
          · rw [hsame]
            exact ho

variable {i2cClockTime i2cWait inp} {n : Nat} {c : Command}

theorem closing_of_returns (hret : (bridgeRun i2cClockTime i2cWait inp n).returns = true)
    (hc : (watch i2cClockTime i2cWait inp n).command = some c) :
    (bridgeRun i2cClockTime i2cWait inp n).Closing c := by
  obtain ⟨o, hstage, ho⟩ := stage_run i2cClockTime i2cWait inp n
  unfold BridgeRegs.returns at hret
  simp only [Bool.and_eq_true, beq_iff_eq, Bool.not_eq_true'] at hret
  obtain ⟨hread, hlatch⟩ := hret
  cases hstage with
  | rest h =>
      rcases h.port.state with hs | hs
      · exact absurd (hread.symm.trans hs) nofun
      · exact absurd (hread.symm.trans hs) nofun
  | asked c' h => exact absurd (hread.symm.trans h.port.state) nofun
  | begun c' h => exact absurd (hread.symm.trans h.port.state) nofun
  | opening c' h =>
      rcases h.port with hreq | ⟨_, hl⟩
      · exact absurd (hread.symm.trans hreq.state) nofun
      · exact absurd (hlatch.symm.trans hl) nofun
  | running c' h => exact absurd (hlatch.symm.trans h.busy.2) nofun
  | closing c' h =>
      rcases ho with hnone | hsame
      · exact absurd hnone nofun
      · rw [hc] at hsame
        rw [← Option.some.inj hsame]
        exact h

/-- The status byte is always 0: the errors are gone before the port sees the end. -/
theorem status_zero (hret : (bridgeRun i2cClockTime i2cWait inp n).returns = true)
    (hc : (watch i2cClockTime i2cWait inp n).command = some c)
    (hbit : c.address.getLsbD 8 = true) :
    (bridgeRun i2cClockTime i2cWait inp (n + 1)).port.amsReaddata = 0 := by
  have hclosing := closing_of_returns hret hc
  unfold BridgeRegs.returns at hret
  simp only [Bool.and_eq_true, beq_iff_eq, Bool.not_eq_true'] at hret
  obtain ⟨hread, hlatch⟩ := hret
  rw [bridgeRun_succ, BridgeRegs.step_port, (Port.step_returns hread hlatch).2,
    hclosing.port.address, if_pos hbit, hclosing.master.regError, hclosing.master.devError]
  rfl

end Run

/-- A status read returns the errors of its own transaction exactly when there are none. -/
theorem status_right_iff (i2cClockTime : BitVec 32) (i2cWait : Bool) (inp : Nat → BridgeInput)
    (n : Nat) (c : Command) (hret : (bridgeRun i2cClockTime i2cWait inp n).returns = true)
    (hc : (watch i2cClockTime i2cWait inp n).command = some c)
    (hbit : c.address.getLsbD 8 = true) :
    StatusRight (bridgeRun i2cClockTime i2cWait inp (n + 1)).port.amsReaddata
        (watch i2cClockTime i2cWait inp n).deviceRefused
        (watch i2cClockTime i2cWait inp n).registerRefused ↔
      (watch i2cClockTime i2cWait inp n).deviceRefused = false ∧
      (watch i2cClockTime i2cWait inp n).registerRefused = false := by
  rw [status_zero hret hc hbit]
  constructor
  · intro h
    constructor
    · rw [← Bool.not_eq_true]
      exact fun hdev => absurd (h.device hdev) (by decide)
    · rw [← Bool.not_eq_true]
      exact fun hreg => absurd (h.register hreg) (by decide)
  · rintro ⟨hdev, hreg⟩
    rw [hdev, hreg]
    exact ⟨nofun, nofun, fun _ _ => ⟨rfl, rfl⟩⟩

/-- A bus where everybody acknowledges: the data line is low all the time. -/
def everybody (n : Nat) : BridgeInput := ⟨false, n = 1 || n = 2, 0x0300, 0, true, false⟩

theorem everybody_returns :
    (bridgeRun 1 false everybody 338).returns = true ∧
    (watch 1 false everybody 338).command = some ⟨true, 0x0300, 0⟩ := by
  decide +kernel

theorem status_right_everybody :
    StatusRight (bridgeRun 1 false everybody (338 + 1)).port.amsReaddata
        (watch 1 false everybody 338).deviceRefused
        (watch 1 false everybody 338).registerRefused ↔
      (watch 1 false everybody 338).deviceRefused = false ∧
      (watch 1 false everybody 338).registerRefused = false :=
  status_right_iff 1 false everybody 338 ⟨true, 0x0300, 0⟩ everybody_returns.1 everybody_returns.2
    (by decide)

/-! ## A status read that is refused -/

def nobody (n : Nat) : BridgeInput := ⟨false, n = 1 || n = 2, 0x0300, 0, true, true⟩

theorem nobody_returns :
    (bridgeRun 1 false nobody 114).returns = true ∧
    (watch 1 false nobody 114).command = some ⟨true, 0x0300, 0⟩ ∧
    (watch 1 false nobody 114).deviceRefused = true := by
  decide +kernel

theorem refusal_not_reported :
    ¬ ∀ n c, (bridgeRun 1 false nobody n).returns = true →
      (watch 1 false nobody n).command = some c → c.address.getLsbD 8 = true →
      StatusRight (bridgeRun 1 false nobody (n + 1)).port.amsReaddata
        (watch 1 false nobody n).deviceRefused (watch 1 false nobody n).registerRefused := by
  intro h
  obtain ⟨hret, hc, hdev⟩ := nobody_returns
  have hright := h 114 _ hret hc (by decide)
  rw [status_zero hret hc (by decide)] at hright
  exact absurd (hright.device hdev) (by decide)

end Mfi.AmsI2c
