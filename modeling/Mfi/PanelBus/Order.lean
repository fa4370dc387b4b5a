import Mfi.AmsI2c.Served
import Mfi.PanelBus.Wiring
import Mfi.Pu.ScanOrder

/-!
# The scan on the I2C bus

The panel unit waits for the bridge and the bridge for the panel unit. Neither waits for ever,
no command is lost or taken twice between them, and so the I2C bus carries one transaction
for each entry of the tables, in the order of the tables.
-/

namespace Mfi.PanelBus

open Core

/-! ## The two blocks as parts of the run -/

namespace Panel

variable (q : Panel) (inp : Nat → PanelInput)

/-- What the panel unit sees in cycle `n`. -/
def puInput (n : Nat) : Pu.PuInput := ⟨ammInput (q.run inp n).bridge.port, (inp n).host⟩

/-- What the bridge sees in cycle `n`. -/
def busInput (n : Nat) : AmsI2c.BridgeInput := bridgeInput (q.run inp n).pu.bus (inp n)

theorem run_pu (n : Nat) :
    (q.run inp n).pu = Pu.puRun 0 q.defaultLight q.byteenable (q.puInput inp) n :=
  trace_part PanelRegs.pu (fun _ => rfl) n

theorem run_bridge (n : Nat) :
    (q.run inp n).bridge = AmsI2c.bridgeRun q.i2cClockTime q.i2cWait (q.busInput inp) n :=
  trace_part PanelRegs.bridge (fun _ => rfl) n

/-- The account of what the bridge has done before cycle `n`. -/
def account (n : Nat) : AmsI2c.Account :=
  AmsI2c.account q.i2cClockTime q.i2cWait (q.busInput inp) n

/-- The command that the bridge takes up in cycle `n`. -/
def taken (n : Nat) : Option AmsI2c.Command :=
  (q.run inp n).bridge.port.takes (q.run inp n).bridge.i2cBusyLatch (q.busInput inp n)

/-- The command that the panel unit sees accepted in cycle `n`. -/
def accepted (n : Nat) : Option Pu.BusCommand :=
  (q.run inp n).pu.bus.accepted (ammInput (q.run inp n).bridge.port)

theorem onBus (n : Nat) : (q.run inp n).pu.bus.OnBus 0 := by
  rw [run_pu]
  exact (Pu.run_in_order 0 q.defaultLight q.byteenable (q.puInput inp) n).1

theorem stage (n : Nat) : ∃ o, AmsI2c.BridgeRegs.Stage (q.run inp n).bridge o := by
  obtain ⟨o, hstage, _⟩ := AmsI2c.stage_run q.i2cClockTime q.i2cWait (q.busInput inp) n
  rw [← run_bridge] at hstage
  exact ⟨o, hstage⟩

theorem run_port (n : Nat) :
    (q.run inp (n + 1)).bridge.port =
      (q.run inp n).bridge.port.step (q.busInput inp n) (q.run inp n).bridge.i2cBusyLatch
        (q.run inp n).bridge.master.i2cDevError (q.run inp n).bridge.master.i2cRegError
        (q.run inp n).bridge.master.i2cReaddata :=
  AmsI2c.BridgeRegs.step_port

theorem run_bus (n : Nat) :
    (q.run inp (n + 1)).pu.bus =
      (q.run inp n).pu.bus.step 0 (ammInput (q.run inp n).bridge.port) := rfl

theorem errors_run (n : Nat) (c : AmsI2c.Command) (hp : (q.run inp n).bridge.port.Serves c)
    (hlatch : (q.run inp n).bridge.i2cBusyLatch = false) :
    (q.run inp n).bridge.master.i2cDevError = false ∧
      (q.run inp n).bridge.master.i2cRegError = false := by
  obtain ⟨o, hstage⟩ := q.stage inp n
  exact hstage.errors_down hp.working hlatch

theorem linked (n : Nat) : Linked (q.run inp n).pu.bus (q.run inp n).bridge.port := by
  induction n with
  | zero => exact Linked.init
  | succ n ih =>
      have hon := q.onBus inp n
      rw [run_bus, run_port]
      cases ht : q.taken inp n with
      | some c => exact ih.takes_step hon ht
      | none => exact (ih.goes_step hon (q.errors_run inp n) ht).1

/-- The panel unit sees its command accepted in the cycle after the bridge has taken it up, and
only then. -/
theorem accepted_late (n : Nat) :
    (q.accepted inp (n + 1)).map bridgeCommand = q.taken inp n := by
  have hon := q.onBus inp n
  cases ht : q.taken inp n with
  | none =>
      have hw : (q.run inp (n + 1)).bridge.port.amsWaitrequest = true := by
        rw [run_port]
        exact ((q.linked inp n).goes_step hon (q.errors_run inp n) ht).2
      have hquiet : q.accepted inp (n + 1) = none := if_pos hw
      rw [hquiet]
      rfl
  | some c =>
      obtain ⟨hlines, hb, htrans, _⟩ := takes_lines hon ht
      obtain ⟨hstate, htrans', hlines'⟩ :=
        lines_stay (i := ammInput (q.run inp n).bridge.port) hon hb htrans
          ((q.linked inp n).waits_of_takes hon ht)
      have hw : (q.run inp (n + 1)).bridge.port.amsWaitrequest = false := by
        rw [run_port]
        exact (step_takes _ _ _ ht).1
      have hnext := step_accepted (i := ammInput (q.run inp (n + 1)).bridge.port)
        (q.onBus inp (n + 1)) (by rw [run_bus, hstate]; exact hb) htrans' hw
      rw [accepted, hnext.2.2, ← hlines, ← hlines']
      rfl

theorem account_commands (n : Nat) :
    (q.account inp n).commands = events (q.taken inp) n := by
  induction n with
  | zero => rfl
  | succ n ih =>
      rw [events_succ, ← ih, taken, run_bridge]
      rfl

theorem commands_accepted (n : Nat) :
    (q.account inp n).commands = (events (q.accepted inp) (n + 1)).map bridgeCommand := by
  rw [account_commands, map_events]
  exact (events_late rfl (q.accepted_late inp) n).symm

theorem accepted_events (n : Nat) :
    events (q.accepted inp) n =
      Pu.acceptedCommands 0 q.defaultLight q.byteenable (q.puInput inp) n := by
  unfold Pu.acceptedCommands accepted
  simp only [run_pu]
  rfl

/-- The commands taken up are the first ones of the schedule. -/
theorem commands_scheduled (n : Nat) :
    (q.account inp n).commands =
      (List.range (q.account inp n).commands.length).map fun k =>
        bridgeCommand (Pu.schedule 0 k) := by
  obtain ⟨_, k, hlist, _⟩ :=
    Pu.run_in_order 0 q.defaultLight q.byteenable (q.puInput inp) (n + 1)
  rw [commands_accepted, accepted_events, hlist, List.length_map, List.length_map,
    List.length_range, List.map_map]
  rfl

end Panel

/-! ## Nobody waits for ever -/

namespace Panel

variable {q : Panel} {inp : Nat → PanelInput} {n : Nat}

def Unstretched (inp : Nat → PanelInput) : Prop := ∀ n, (inp n).sclReleased = true

theorem idle_again (h : Unstretched inp) (n : Nat) :
    ∃ m ≥ n, (q.run inp m).bridge.port.amsState = .idle := by
  obtain ⟨m, hm, hidle⟩ := @AmsI2c.ready_again q.i2cClockTime q.i2cWait (q.busInput inp) h n
  rw [← run_bridge] at hidle
  exact ⟨m, hm, hidle⟩

theorem accepts_again (h : Unstretched inp)
    (hlines : (q.run inp n).pu.bus.ammWrite = true ∨ (q.run inp n).pu.bus.ammRead = true) :
    ∃ m ≥ n, (q.run inp m).bridge.port.amsWaitrequest = false := by
  obtain ⟨k, hk, hidle⟩ := idle_again (q := q) h n
  let shown := fun m =>
    ((q.run inp m).pu.bus.ammState = .write ∨ (q.run inp m).pu.bus.ammState = .read) ∧
      (q.run inp m).pu.bus.ammTransaction = true
  let ready := fun m => (q.run inp m).bridge.port.amsWaitrequest = false ∨
    (q.run inp (m + 1)).bridge.port.amsWaitrequest = false
  have hgoes : ∀ m, shown m → ready m ∨ shown (m + 1) := by
    rintro m ⟨hb, ht⟩
    cases hw : (q.run inp m).bridge.port.amsWaitrequest with
    | false => exact .inl (.inl hw)
    | true =>
        obtain ⟨hstate, htrans, _⟩ := lines_stay (i := ammInput (q.run inp m).bridge.port)
          (q.onBus inp m) hb ht hw
        exact .inr ⟨by rw [run_bus, hstate]; exact hb, htrans⟩
  have hexit : shown k → ready k := by
    rintro ⟨hb, ht⟩
    obtain ⟨o, hstage⟩ := q.stage inp k
    have hlatch := hstage.rest_of_idle hidle
    obtain ⟨c, hc⟩ := Option.ne_none_iff_exists'.mp
      (takes_on_lines (i := inp k) (q.onBus inp k) hidle hlatch hb ht)
    refine .inr ?_
    rw [run_port]
    exact (step_takes _ _ _ hc).1
  obtain ⟨m, hm, hw⟩ := leads_of_exit hgoes (lines_on (q.onBus inp n) hlines) hk hexit
  rcases hw with hw | hw
  · exact ⟨m, hm, hw⟩
  · exact ⟨m + 1, Nat.le_succ_of_le hm, hw⟩

theorem answers_again (h : Unstretched inp) (hack : (q.run inp n).pu.bus.ammState = .ack) :
    ∃ m ≥ n, (q.run inp m).bridge.port.amsReaddatavalid = true := by
  obtain ⟨k, hk, hidle⟩ := idle_again (q := q) h n
  let waiting := fun m => (q.run inp m).pu.bus.ammState = .ack
  have hgoes : ∀ m, waiting m →
      (q.run inp m).bridge.port.amsReaddatavalid = true ∨ waiting (m + 1) := by
    intro m hm
    cases hv : (q.run inp m).bridge.port.amsReaddatavalid with
    | true => exact .inl rfl
    | false => exact .inr (step_await (i := ammInput (q.run inp m).bridge.port) hm hv).1
  have hexit : waiting k → (q.run inp k).bridge.port.amsReaddatavalid = true := by
    intro hwait
    cases q.linked inp k with
    | ready hp hw hv hb => exact absurd hwait hb
    | taken hp hw hv hb ht hc => exact absurd (hidle.symm.trans hp.state) nofun
    | serving hp hw hv hb hc =>
        rcases hp with hp | hp
        · exact absurd (hidle.symm.trans hp.state) nofun
        · exact absurd hidle hp.working.1
    | answered hp hw hv hb hd => exact hv
  exact leads_of_exit hgoes hack hk hexit

theorem accepted_again (h : Unstretched inp) (n : Nat) :
    ∃ m ≥ n, q.accepted inp m ≠ none :=
  Pu.exists_accepted (q.run_bus inp) (q.onBus inp) (fun _ => accepts_again h)
    (fun _ => answers_again h) n

theorem taken_again (h : Unstretched inp) (n : Nat) : ∃ m ≥ n, q.taken inp m ≠ none := by
  obtain ⟨m, hm, hacc⟩ := accepted_again (q := q) h (n + 1)
  obtain ⟨k, rfl⟩ := Nat.exists_eq_add_of_le' (Nat.le_trans (Nat.le_add_left 1 n) hm)
  refine ⟨k, by omega, ?_⟩
  rw [← accepted_late]
  exact fun hnone => hacc (Option.map_eq_none_iff.mp hnone)

end Panel

/-- If the slaves do not stretch the clock, whatever else they and the host do: the commands
that the bridge takes up are those of the tables, one after the other and each once; whenever
the port is ready, the I2C bus has carried one transaction for each of them and each read has
had its response; and as many of them as one likes come to their end. -/
theorem scan_on_bus (q : Panel) (inp : Nat → PanelInput) (h : Panel.Unstretched inp) :
    (∀ n, (q.account inp n).commands =
      (List.range (q.account inp n).commands.length).map fun k =>
        bridgeCommand (Pu.schedule 0 k)) ∧
    (∀ n, (q.run inp n).bridge.port.amsState = .idle →
      AmsI2c.Settled (q.account inp n).commands (q.account inp n).symbols
        (q.account inp n).responses) ∧
    ∀ k, ∃ n, k ≤ (q.account inp n).commands.length ∧
      (q.run inp n).bridge.port.amsState = .idle := by
  refine ⟨q.commands_scheduled inp, fun n hidle => ?_, fun k => ?_⟩
  · rw [Panel.run_bridge] at hidle
    exact AmsI2c.settled_of_ready h hidle
  · obtain ⟨n, hn⟩ := exists_length_events (Panel.taken_again (q := q) h) k
    obtain ⟨m, hm, hidle⟩ := Panel.idle_again (q := q) h n
    refine ⟨m, ?_, hidle⟩
    rw [Panel.account_commands]
    exact Nat.le_trans hn (length_events_mono _ hm)

/-- A bus on which nobody answers. -/
theorem scan_on_empty_bus :
    ∃ n, 1000 ≤ (Panel.account ⟨16, 100, 0, false⟩
      (fun _ => ⟨⟨false, false, 0, 0, 0, 0, 0, 0⟩, true, true⟩) n).commands.length := by
  obtain ⟨n, hn, _⟩ := (scan_on_bus ⟨16, 100, 0, false⟩
    (fun _ => ⟨⟨false, false, 0, 0, 0, 0, 0, 0⟩, true, true⟩) fun _ => rfl).2.2 1000
  exact ⟨n, hn⟩

end Mfi.PanelBus
