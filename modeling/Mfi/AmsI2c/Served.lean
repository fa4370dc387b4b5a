import Mfi.AmsI2c.Protocol
import Mfi.AmsI2c.Status

/-!
# What the bridge has done for its hosts

A log of the accesses that came to their end, each with the byte that its host got. Behind every
entry stands one transaction on the bus; a read of the status answers zero, whatever became of
the transactions before it, for the error bits are down whenever the port returns a byte.
-/

namespace Mfi.AmsI2c

open Core

namespace Port

variable {p : Port} {c : Command} {i : BridgeInput} {i2cBusyLatch dev reg : Bool} {byte : BitVec 8}

theorem Serves.working (h : p.Serves c) :
    p.amsState ≠ .idle ∧ p.amsState ≠ .reset ∧ p.amsState ≠ .wait := by
  rw [h.state]
  cases c.isRead <;> exact ⟨nofun, nofun, nofun⟩

theorem Serves.not_silent (h : p.Serves c) : ¬ p.Silent := by
  intro hsilent
  have hs := hsilent.state
  rw [h.state] at hs
  cases hread : c.isRead <;> simp [hread] at hs

theorem Requests.not_silent (h : p.Requests c) : ¬ p.Silent := by
  intro hsilent
  have hs := hsilent.state
  rw [h.state] at hs
  simp at hs

def completes (p : Port) (i2cBusyLatch : Bool) : Option Command :=
  if i2cBusyLatch then none
  else
    match p.amsState with
    | .write => some ⟨false, p.i2cAddress, p.i2cWritedata⟩
    | .read => some ⟨true, p.i2cAddress, p.i2cWritedata⟩
    | _ => none

theorem Silent.completes (h : p.Silent) : p.completes i2cBusyLatch = none := by
  unfold Port.completes
  rcases h.state with hs | hs <;> rw [hs, ite_self]

theorem Requests.completes (h : p.Requests c) : p.completes i2cBusyLatch = none := by
  unfold Port.completes
  rw [h.state, ite_self]

theorem Serves.completes (h : p.Serves c) (hlatch : i2cBusyLatch = false) :
    p.completes i2cBusyLatch = some c := by
  have hs := h.state
  unfold Port.completes
  rw [hlatch, if_neg Bool.false_ne_true]
  cases hread : c.isRead with
  | false =>
      rw [hread] at hs
      rw [show p.amsState = .write from hs, h.address, h.data, ← hread]
  | true =>
      rw [hread] at hs
      rw [show p.amsState = .read from hs, h.address, h.data, ← hread]

theorem read_of_completes (h : p.completes i2cBusyLatch = some c) (hread : c.isRead = true) :
    i2cBusyLatch = false ∧ p.amsState = .read ∧ p.i2cAddress = c.address := by
  unfold completes at h
  cases i2cBusyLatch with
  | true => exact absurd h nofun
  | false =>
      rw [if_neg Bool.false_ne_true] at h
      cases hs : p.amsState with
      | read =>
          rw [hs] at h
          cases h
          exact ⟨rfl, rfl, rfl⟩
      | write =>
          rw [hs] at h
          cases h
          exact absurd hread nofun
      | _ =>
          rw [hs] at h
          cases h

end Port

namespace BridgeRegs

variable {i2cClockTime : BitVec 32} {s : BridgeRegs} {i : BridgeInput} {o : Option Command}
  {c : Command} {l new : List Symbol}

theorem Stage.errors_down (h : s.Stage o)
    (hne : s.port.amsState ≠ .idle ∧ s.port.amsState ≠ .reset ∧ s.port.amsState ≠ .wait)
    (hlatch : s.i2cBusyLatch = false) :
    s.master.i2cDevError = false ∧ s.master.i2cRegError = false := by
  cases h with
  | rest h =>
      rcases h.port.state with hs | hs
      · exact absurd hs hne.1
      · exact absurd hs hne.2.1
  | asked c' h => exact absurd h.port.state hne.2.2
  | begun c' h => exact absurd h.port.state hne.2.2
  | opening c' h =>
      rcases h.port with hreq | ⟨_, hl⟩
      · exact absurd hreq.state hne.2.2
      · exact absurd (hlatch.symm.trans hl) Bool.false_ne_true
  | running c' h => exact absurd (hlatch.symm.trans h.busy.2) Bool.false_ne_true
  | closing c' h => exact ⟨h.master.devError, h.master.regError⟩

/-- A read of the status answers zero, on any bus. -/
theorem Stage.status_zero (h : s.Stage o) (hend : s.port.completes s.i2cBusyLatch = some c)
    (hread : c.isRead = true) (hbit : c.address.getLsbD 8 = true) :
    (s.step i2cClockTime i).port.response = some 0 := by
  obtain ⟨hlatch, hs, haddress⟩ := Port.read_of_completes hend hread
  obtain ⟨hdev, hreg⟩ := h.errors_down (hs ▸ ⟨nofun, nofun, nofun⟩) hlatch
  rw [step_port, hlatch, hdev, hreg, Port.response, (Port.step_returns hs rfl).1,
    (Port.step_returns hs rfl).2, haddress, hbit]
  rfl

theorem Stage.rest_of_idle (h : s.Stage o) (hs : s.port.amsState = .idle) :
    s.i2cBusyLatch = false := by
  cases h with
  | rest h => exact h.busy.2
  | asked c' h => exact absurd (hs.symm.trans h.port.state) nofun
  | begun c' h => exact absurd (hs.symm.trans h.port.state) nofun
  | opening c' h =>
      rcases h.port with hreq | ⟨hp, _⟩
      · exact absurd (hs.symm.trans hreq.state) nofun
      · exact absurd hs hp.working.1
  | running c' h => exact absurd hs h.port.working.1
  | closing c' h => exact absurd hs h.port.working.1

theorem Phase.port (h : s.Phase (some c) l) : s.port.Requests c ∨ s.port.Serves c := by
  cases h with
  | asked h => exact .inl h.port
  | moving h => exact h.port
  | closing h => exact .inr h.port

theorem Phase.silent (h : s.Phase none l) : s.port.Silent := by
  cases h with
  | rest h => exact h.port

theorem Phase.completes_goes (h : s.Phase (some c) l)
    (hnext : (s.step i2cClockTime i).Phase (some c) new) :
    s.port.completes s.i2cBusyLatch = none := by
  rcases h.port with hreq | hserves
  · exact hreq.completes
  · cases hlatch : s.i2cBusyLatch with
    | true => rfl
    | false =>
        have hidle : (s.step i2cClockTime i).port.amsState = .idle := by
          rw [step_port, hlatch]
          exact hserves.step_done.2
        rcases hnext.port with hreq' | hserves'
        · exact absurd (hidle.symm.trans hreq'.state) nofun
        · exact absurd hidle hserves'.working.1

theorem Phase.serves_ends (h : s.Phase (some c) l)
    (hnext : (s.step i2cClockTime i).Phase none new) :
    s.port.Serves c ∧ s.i2cBusyLatch = false := by
  have hsilent := hnext.silent
  rw [step_port] at hsilent
  rcases h.port with hreq | hserves
  · cases hlatch : s.i2cBusyLatch with
    | true =>
        rw [hlatch] at hsilent
        exact absurd hsilent hreq.step_served.not_silent
    | false =>
        rw [hlatch] at hsilent
        exact absurd hsilent hreq.step_wait.not_silent
  · refine ⟨hserves, ?_⟩
    cases hlatch : s.i2cBusyLatch with
    | true =>
        rw [hlatch] at hsilent
        exact absurd hsilent hserves.step_busy.not_silent
    | false => rfl

end BridgeRegs

/-! ## The log -/

/-- An access at its end, and the byte that the host got. -/
structure Access where
  command : Command
  answer : Option (BitVec 8)
  deriving DecidableEq

structure Access.Fulfilled (e : Access) (symbols : List Symbol) : Prop where
  served : Served e.command ⟨symbols, e.answer⟩
  status : e.command.isRead = true → e.command.address.getLsbD 8 = true → e.answer = some 0

/-- The accesses that came to their end before cycle `n`. -/
def served (i2cClockTime : BitVec 32) (i2cWait : Bool) (inp : Nat → BridgeInput) :
    Nat → List Access
  | 0 => []
  | n + 1 =>
      let s := bridgeRun i2cClockTime i2cWait inp n
      served i2cClockTime i2cWait inp n ++ (s.port.completes s.i2cBusyLatch).toList.map
        fun c => ⟨c, (bridgeRun i2cClockTime i2cWait inp (n + 1)).port.response⟩

/-- The log holds all commands but the one in progress, and its transactions are those on the
bus. -/
def Logged (s : BridgeRegs) (a : Account) (es : List Access) : Prop :=
  ∃ o l e log, s.Phase o l ∧ Wave s a.pending e ∧ s.port.Clear ∧
    a.commands = es.map Access.command ++ o.toList ∧ a.symbols = log.flatten ++ l ++ e ∧
    List.Forall₂ Access.Fulfilled es log

theorem Logged.step {s : BridgeRegs} {a : Account} {es : List Access} (h : Logged s a es)
    {o : Option Command} (hstage : s.Stage o) (i2cClockTime : BitVec 32) {i : BridgeInput}
    (hreleased : i.sclReleased = true) :
    Logged (s.step i2cClockTime i) (a.step s (s.step i2cClockTime i) i)
      (es ++ (s.port.completes s.i2cBusyLatch).toList.map
        fun c => ⟨c, (s.step i2cClockTime i).port.response⟩) := by
  obtain ⟨o', l, e, log, hphase, hwave, hclear, hcommands, hsymbols, hlog⟩ := h
  obtain ⟨e', new, hnew, hwave', hadds⟩ := BridgeRegs.adds_step i2cClockTime hwave hreleased
  have hclear' : (s.step i2cClockTime i).port.Clear := by
    rw [BridgeRegs.step_port]
    exact (hclear.step _).1
  have hsymbols' : (a.step s (s.step i2cClockTime i) i).symbols =
      log.flatten ++ (l ++ new) ++ e' := by
    simp only [Account.step]
    rw [hsymbols, List.append_assoc, hnew]
    simp only [List.append_assoc]
  have hcommands' : (a.step s (s.step i2cClockTime i) i).commands =
      es.map Access.command ++ o'.toList ++ (s.port.takes s.i2cBusyLatch i).toList := by
    simp only [Account.step]
    rw [hcommands]
  cases hphase.step (i := i) hclear hadds with
  | goes hnext htakes hresponse =>
      have hnone : s.port.completes s.i2cBusyLatch = none := by
        cases o' with
        | none => exact hphase.silent.completes
        | some c => exact hphase.completes_goes hnext
      refine ⟨o', l ++ new, e', log, hnext, hwave', hclear', ?_, hsymbols', ?_⟩
      · rw [hcommands', htakes, hnone]
        simp
      · rw [hnone]
        simpa using hlog
  | @takes c hnext htakes hresponse =>
      refine ⟨some c, l ++ new, e', log, hnext, hwave', hclear', ?_, hsymbols', ?_⟩
      · rw [hcommands', htakes, hphase.silent.completes]
        simp
      · rw [hphase.silent.completes]
        simpa using hlog
  | @ends c hnext htakes hserved =>
      obtain ⟨hserves, hlatch⟩ := hphase.serves_ends hnext
      have hstatus : c.isRead = true → c.address.getLsbD 8 = true →
          (s.step i2cClockTime i).port.response = some 0 :=
        hstage.status_zero (hserves.completes hlatch)
      refine ⟨none, [], e', log ++ [l ++ new], hnext, hwave', hclear', ?_, ?_, ?_⟩
      · rw [hcommands', htakes, hserves.completes hlatch]
        simp
      · rw [hsymbols', List.flatten_concat, List.append_nil]
      · rw [hserves.completes hlatch]
        exact List.rel_append hlog (.cons ⟨hserved, hstatus⟩ .nil)

section Run

variable {i2cClockTime : BitVec 32} {i2cWait : Bool} {inp : Nat → BridgeInput}

theorem logged_run (hreleased : ∀ n, (inp n).sclReleased = true) (n : Nat) :
    Logged (bridgeRun i2cClockTime i2cWait inp n) (account i2cClockTime i2cWait inp n)
      (served i2cClockTime i2cWait inp n) := by
  induction n with
  | zero =>
      obtain ⟨o, l, e, cs, symbols, hphase, hwave, hclear, hcommands, hsymbols, _⟩ :=
        balanced_init i2cWait
      have hnil : cs = [] ∧ o.toList = [] := List.append_eq_nil_iff.mp hcommands.symm
      have hnil' : (symbols = [] ∧ l = []) ∧ e = [] := by
        rw [← List.append_eq_nil_iff, ← List.append_eq_nil_iff]
        exact hsymbols.symm
      refine ⟨o, l, e, [], hphase, hwave, hclear, ?_, ?_, .nil⟩
      · rw [hnil.2]
        rfl
      · rw [hnil'.1.2, hnil'.2]
        rfl
  | succ n ih =>
      obtain ⟨o, hstage, _⟩ := stage_run i2cClockTime i2cWait inp n
      exact ih.step hstage i2cClockTime (hreleased n)

/-- Every read of the status that came to its end has answered zero. -/
theorem served_status {n : Nat} {e : Access} (he : e ∈ served i2cClockTime i2cWait inp n)
    (hread : e.command.isRead = true) (hbit : e.command.address.getLsbD 8 = true) :
    e.answer = some 0 := by
  induction n with
  | zero => exact absurd he List.not_mem_nil
  | succ n ih =>
      rcases List.mem_append.mp he with hbefore | hnow
      · exact ih hbefore
      · obtain ⟨c, hc, rfl⟩ := List.mem_map.mp hnow
        obtain ⟨o, hstage, _⟩ := stage_run i2cClockTime i2cWait inp n
        rw [bridgeRun_succ]
        exact hstage.status_zero (Option.mem_toList.mp hc) hread hbit

/-- The bus has carried the transactions of the log, each with its outcome, before anything
else. -/
theorem served_on_bus (hreleased : ∀ n, (inp n).sclReleased = true) (n : Nat) :
    ∃ log, List.Forall₂ Access.Fulfilled (served i2cClockTime i2cWait inp n) log ∧
      log.flatten <+: (account i2cClockTime i2cWait inp n).symbols := by
  obtain ⟨o, l, e, log, _, _, _, _, hsymbols, hlog⟩ := logged_run hreleased n
  exact ⟨log, hlog, l ++ e, by rw [hsymbols, List.append_assoc]⟩

end Run

end Mfi.AmsI2c
