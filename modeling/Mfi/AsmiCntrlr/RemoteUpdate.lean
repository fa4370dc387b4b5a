import Mfi.Core.Events
import Mfi.Core.Trace

/-!
# The remote update writes of the flash controller

After reset `asmi_cntrlr` sets the remote update block up with four register writes and
then resets its watchdog from time to time. A set-up state waits until the write on the
port is taken and puts the next one there. The idle state, which follows the last set-up
write and every watchdog reset, takes the write line down without looking at the port.
-/

namespace Mfi.AsmiCntrlr

open Core

inductive RuState where
  | idle
  | wdtTimeout
  | pageSelect
  | confMode
  | wdtEnable
  | wdtReset
  | reconfig
deriving DecidableEq

/-- The registers of the remote update machine and its Avalon master. -/
structure RemoteUpdate where
  state : RuState
  cnfgrd : Bool
  timer : BitVec 30
  cntrRu : BitVec 5
  ruAmmWrite : Bool
  ruAmmAddress : BitVec 5
  ruAmmWritedata : BitVec 32
deriving DecidableEq

structure RuWrite where
  address : BitVec 5
  data : BitVec 32
deriving DecidableEq

def interval : BitVec 30 := 10000000#30

namespace RemoteUpdate

/-- After reset. The address and data registers have no reset value. -/
def reset (address : BitVec 5) (data : BitVec 32) : RemoteUpdate :=
  ⟨.idle, false, 0, 0, false, address, data⟩

def timerEvent (s : RemoteUpdate) : Bool := s.timer == interval

/-- `cntr_ru[4]`. -/
def delayOver (s : RemoteUpdate) : Bool := s.cntrRu.getLsbD 4

/-- Put a write on the port and go on with state `next`. -/
def launch (s : RemoteUpdate) (w : RuWrite) (next : RuState) : RemoteUpdate :=
  { s with ruAmmWrite := true, ruAmmAddress := w.address, ruAmmWritedata := w.data, state := next }

def count (s : RemoteUpdate) : RemoteUpdate :=
  if s.state = .idle then
    { s with timer := if s.timerEvent then 0 else s.timer + 1, cntrRu := 0 }
  else
    { s with timer := 0, cntrRu := if s.delayOver then 0 else s.cntrRu + 1 }

def wdtTimeoutWrite : RuWrite := ⟨4, 0x800⟩
def pageSelectWrite : RuWrite := ⟨12, 0x006C4C4F⟩
def confModeWrite : RuWrite := ⟨16, 1⟩
def wdtEnableWrite : RuWrite := ⟨8, 1⟩
def wdtResetWrite : RuWrite := ⟨20, 1⟩
def reconfigWrite : RuWrite := ⟨24, 1⟩

/-- One clock cycle with `ru_amm_waitrequest`. -/
def step (s : RemoteUpdate) (ruAmmWaitrequest : Bool) : RemoteUpdate :=
  let c := s.count
  match s.state with
  | .idle =>
      { c with
        ruAmmWrite := false
        state := if !s.cnfgrd then .wdtTimeout
          else if s.timerEvent then .wdtReset else .idle }
  | .wdtTimeout => if s.delayOver then c.launch wdtTimeoutWrite .pageSelect else c
  | .pageSelect => if !ruAmmWaitrequest then c.launch pageSelectWrite .confMode else c
  | .confMode => if !ruAmmWaitrequest then c.launch confModeWrite .wdtEnable else c
  | .wdtEnable =>
      if !ruAmmWaitrequest then { c.launch wdtEnableWrite .idle with cnfgrd := true } else c
  | .wdtReset => c.launch wdtResetWrite .idle
  | .reconfig => c.launch reconfigWrite .idle

/-! ## What is started and what is accepted -/

def started (s : RemoteUpdate) (ruAmmWaitrequest : Bool) : Option RuWrite :=
  match s.state with
  | .idle => none
  | .wdtTimeout => if s.delayOver then some wdtTimeoutWrite else none
  | .pageSelect => if !ruAmmWaitrequest then some pageSelectWrite else none
  | .confMode => if !ruAmmWaitrequest then some confModeWrite else none
  | .wdtEnable => if !ruAmmWaitrequest then some wdtEnableWrite else none
  | .wdtReset => some wdtResetWrite
  | .reconfig => some reconfigWrite

def onPort (s : RemoteUpdate) : Option RuWrite :=
  if s.ruAmmWrite then some ⟨s.ruAmmAddress, s.ruAmmWritedata⟩ else none

def accepted (s : RemoteUpdate) (ruAmmWaitrequest : Bool) : Option RuWrite :=
  if ruAmmWaitrequest then none else s.onPort

/-- The write line is not taken down under a write that waits. -/
def KeepsWrite (s : RemoteUpdate) (ruAmmWaitrequest : Bool) : Prop :=
  s.state = .idle → s.ruAmmWrite = true → ruAmmWaitrequest = false

end RemoteUpdate

open RemoteUpdate

def ruRun (s : RemoteUpdate) (wait : Nat → Bool) : Nat → RemoteUpdate :=
  trace RemoteUpdate.step s wait

def startedWrites (s : RemoteUpdate) (wait : Nat → Bool) : Nat → List RuWrite :=
  events fun n => (ruRun s wait n).started (wait n)

def acceptedWrites (s : RemoteUpdate) (wait : Nat → Bool) : Nat → List RuWrite :=
  events fun n => (ruRun s wait n).accepted (wait n)

def setUp : List RuWrite := [wdtTimeoutWrite, pageSelectWrite, confModeWrite, wdtEnableWrite]

/-- After `n` cycles every write started is accepted, in order, but for the last, which
is still on the port and stays there while the slave waits. The four set-up writes come
first and all others are watchdog resets. -/
structure WritesArrive (s : RemoteUpdate) (wait : Nat → Bool) (n : Nat) : Prop where
  arrived : startedWrites s wait n = acceptedWrites s wait n ++ (ruRun s wait n).onPort.toList
  held : wait n = true → ∀ w, (ruRun s wait n).onPort = some w →
    (ruRun s wait (n + 1)).onPort = some w
  ordered : ∃ k, startedWrites s wait n <+: setUp ++ List.replicate k wdtResetWrite

/-! ## One cycle -/

namespace RemoteUpdate

variable {s : RemoteUpdate} {wait : Bool}

theorem count_onPort (s : RemoteUpdate) : s.count.onPort = s.onPort := by
  unfold count
  split <;> rfl

@[simp] theorem count_state (s : RemoteUpdate) : s.count.state = s.state := by
  unfold count
  split <;> rfl

@[simp] theorem count_cnfgrd (s : RemoteUpdate) : s.count.cnfgrd = s.cnfgrd := by
  unfold count
  split <;> rfl

@[simp] theorem launch_onPort (s : RemoteUpdate) (w : RuWrite) (next : RuState) :
    (s.launch w next).onPort = some w := rfl

/-- The phase of the machine and the writes started so far. -/
def Phase (s : RemoteUpdate) (writes : List RuWrite) : Prop :=
  match s.cnfgrd, s.state with
  | false, .idle => s.onPort = none ∧ writes = []
  | false, .wdtTimeout => s.onPort = none ∧ writes = []
  | false, .pageSelect => s.onPort = some wdtTimeoutWrite ∧ writes = setUp.take 1
  | false, .confMode => s.onPort = some pageSelectWrite ∧ writes = setUp.take 2
  | false, .wdtEnable => s.onPort = some confModeWrite ∧ writes = setUp.take 3
  | true, .idle => ∃ k, writes = setUp ++ List.replicate k wdtResetWrite
  | true, .wdtReset => s.onPort = none ∧ ∃ k, writes = setUp ++ List.replicate k wdtResetWrite
  | _, _ => False

theorem Phase.reset (address : BitVec 5) (data : BitVec 32) :
    Phase (RemoteUpdate.reset address data) [] := ⟨rfl, rfl⟩

/-- A step goes on to the next phase, also when it loses a write. -/
theorem Phase.step {writes : List RuWrite} (h : Phase s writes) :
    Phase (s.step wait) (writes ++ (s.started wait).toList) := by
  unfold Phase at h
  cases hc : s.cnfgrd with
  | false =>
      cases hs : s.state with
      | idle =>
          simp only [hc, hs] at h
          simp [Phase, RemoteUpdate.step, started, hs, hc, h.2, onPort]
      | wdtTimeout =>
          simp only [hc, hs] at h
          cases hcnt : s.delayOver with
          | false =>
              simp [Phase, RemoteUpdate.step, started, hs, hc, hcnt, h, count_onPort]
          | true =>
              simp [Phase, RemoteUpdate.step, started, hs, hc, hcnt, h, launch, onPort, setUp]
      | pageSelect =>
          simp only [hc, hs] at h
          cases wait with
          | false => simp [Phase, RemoteUpdate.step, started, hs, hc, h, launch, onPort, setUp]
          | true => simp [Phase, RemoteUpdate.step, started, hs, hc, h, count_onPort]
      | confMode =>
          simp only [hc, hs] at h
          cases wait with
          | false => simp [Phase, RemoteUpdate.step, started, hs, hc, h, launch, onPort, setUp]
          | true => simp [Phase, RemoteUpdate.step, started, hs, hc, h, count_onPort]
      | wdtEnable =>
          simp only [hc, hs] at h
          cases wait with
          | false =>
              simp only [Phase, RemoteUpdate.step, started, hs, launch, Bool.not_false, if_true]
              exact ⟨0, by rw [h.2]; rfl⟩
          | true => simp [Phase, RemoteUpdate.step, started, hs, hc, h, count_onPort]
      | wdtReset => simp only [hc, hs] at h
      | reconfig => simp only [hc, hs] at h
  | true =>
      cases hs : s.state with
      | idle =>
          simp only [hc, hs] at h
          cases ht : s.timerEvent with
          | false => simpa [Phase, RemoteUpdate.step, started, hs, hc, ht, onPort] using h
          | true => simpa [Phase, RemoteUpdate.step, started, hs, hc, ht, onPort] using h
      | wdtReset =>
          simp only [hc, hs] at h
          obtain ⟨_, k, hk⟩ := h
          simp only [Phase, RemoteUpdate.step, started, hs, launch, count_cnfgrd, hc]
          refine ⟨k + 1, ?_⟩
          rw [hk, List.append_assoc, List.replicate_succ', Option.toList_some]
      | wdtTimeout => simp only [hc, hs] at h
      | pageSelect => simp only [hc, hs] at h
      | confMode => simp only [hc, hs] at h
      | wdtEnable => simp only [hc, hs] at h
      | reconfig => simp only [hc, hs] at h

theorem step_onPort {writes : List RuWrite} (h : Phase s writes) (hkeep : s.KeepsWrite wait) :
    s.onPort.toList ++ (s.started wait).toList =
      (s.accepted wait).toList ++ (s.step wait).onPort.toList := by
  unfold Phase at h
  cases hs : s.state with
  | idle =>
      cases hp : s.ruAmmWrite with
      | false => cases wait <;> simp [RemoteUpdate.step, started, accepted, hs, onPort, hp]
      | true =>
          have hw : wait = false := hkeep hs hp
          simp [RemoteUpdate.step, started, accepted, hs, onPort, hp, hw]
  | wdtTimeout =>
      cases hc : s.cnfgrd <;> simp only [hc, hs] at h
      cases hcnt : s.delayOver <;> cases wait <;>
        simp [RemoteUpdate.step, started, accepted, hs, hcnt, h.1, count_onPort]
  | pageSelect =>
      cases wait <;> simp [RemoteUpdate.step, started, accepted, hs, count_onPort]
  | confMode =>
      cases wait <;> simp [RemoteUpdate.step, started, accepted, hs, count_onPort]
  | wdtEnable =>
      cases wait with
      | false =>
          simp only [RemoteUpdate.step, started, accepted, hs, Bool.not_false, if_true]
          rfl
      | true => simp [RemoteUpdate.step, started, accepted, hs, count_onPort]
  | wdtReset =>
      cases hc : s.cnfgrd <;> simp only [hc, hs] at h
      cases wait <;> simp [RemoteUpdate.step, started, accepted, hs, h.1]
  | reconfig => cases hc : s.cnfgrd <;> simp only [hc, hs] at h

theorem idle_takes_down (hs : s.state = .idle) : (s.step wait).onPort = none := by
  simp [RemoteUpdate.step, hs, onPort]

theorem step_held {writes : List RuWrite} (h : Phase s writes) (hkeep : s.KeepsWrite true)
    {w : RuWrite} (hw : s.onPort = some w) : (s.step true).onPort = some w := by
  unfold Phase at h
  cases hs : s.state with
  | idle =>
      have hp : s.ruAmmWrite = true := by
        cases hp : s.ruAmmWrite with
        | true => rfl
        | false => simp [onPort, hp] at hw
      exact absurd (hkeep hs hp) (by decide)
  | wdtTimeout =>
      cases hc : s.cnfgrd <;> simp only [hc, hs] at h
      rw [h.1] at hw
      exact absurd hw (by simp)
  | pageSelect => simpa [RemoteUpdate.step, hs, count_onPort] using hw
  | confMode => simpa [RemoteUpdate.step, hs, count_onPort] using hw
  | wdtEnable => simpa [RemoteUpdate.step, hs, count_onPort] using hw
  | wdtReset =>
      cases hc : s.cnfgrd <;> simp only [hc, hs] at h
      rw [h.1] at hw
      exact absurd hw (by simp)
  | reconfig => cases hc : s.cnfgrd <;> simp only [hc, hs] at h

theorem Phase.ordered {writes : List RuWrite} (h : Phase s writes) :
    ∃ k, writes <+: setUp ++ List.replicate k wdtResetWrite := by
  have htake : ∀ k, writes = setUp.take k →
      ∃ k, writes <+: setUp ++ List.replicate k wdtResetWrite := by
    intro k hk
    exact ⟨0, hk ▸ (List.take_prefix k setUp).trans (List.prefix_append _ _)⟩
  unfold Phase at h
  cases hc : s.cnfgrd with
  | false =>
      cases hs : s.state <;> simp only [hc, hs] at h
      · exact htake 0 h.2
      · exact htake 0 h.2
      · exact htake 1 h.2
      · exact htake 2 h.2
      · exact htake 3 h.2
  | true =>
      cases hs : s.state <;> simp only [hc, hs] at h
      · obtain ⟨k, hk⟩ := h
        exact ⟨k, hk ▸ List.prefix_refl _⟩
      · obtain ⟨_, k, hk⟩ := h
        exact ⟨k, hk ▸ List.prefix_refl _⟩

end RemoteUpdate

/-! ## Whole runs -/

section Run

variable {address : BitVec 5} {data : BitVec 32} {wait : Nat → Bool}

theorem phase_run (n : Nat) :
    Phase (ruRun (reset address data) wait n) (startedWrites (reset address data) wait n) := by
  induction n with
  | zero => exact Phase.reset address data
  | succ n ih => exact ih.step

theorem arrived_run
    (h : ∀ n, (ruRun (reset address data) wait n).KeepsWrite (wait n)) (n : Nat) :
    startedWrites (reset address data) wait n =
      acceptedWrites (reset address data) wait n ++
        (ruRun (reset address data) wait n).onPort.toList := by
  induction n with
  | zero => rfl
  | succ n ih =>
      have hstep := step_onPort (phase_run n) (h n)
      rw [startedWrites, events_succ, ← startedWrites, ih, acceptedWrites, events_succ,
        List.append_assoc, hstep, List.append_assoc]
      rfl

/-- Every register write arrives exactly once, held until it is taken and in order, on
exactly those runs in which the slave never stalls a write that the idle state ends. -/
theorem writes_arrive_iff (address : BitVec 5) (data : BitVec 32) (wait : Nat → Bool) :
    (∀ n, WritesArrive (reset address data) wait n) ↔
      ∀ n, (ruRun (reset address data) wait n).KeepsWrite (wait n) := by
  constructor
  · intro h n hs hp
    cases hw : wait n with
    | false => rfl
    | true =>
        have hkept := (h n).held hw ⟨_, _⟩ (if_pos hp)
        have hnone : (ruRun (reset address data) wait (n + 1)).onPort = none :=
          idle_takes_down hs
        rw [hnone] at hkept
        exact absurd hkept (by simp)
  · intro h n
    refine ⟨arrived_run h n, ?_, (phase_run n).ordered⟩
    intro hw w hport
    have hkeep := h n
    rw [hw] at hkeep
    have hnext := step_held (phase_run n) hkeep hport
    rw [← hw] at hnext
    exact hnext

/-! ## A stalled last write -/

def stallLast (n : Nat) : Bool := n == 21

/-- The write that enables the watchdog is started and put on the port in cycle 21, is
not accepted there, and is gone in the next cycle. -/
theorem enable_write_lost :
    ¬ (∀ n, WritesArrive (reset 0 0) stallLast n) ∧
    startedWrites (reset 0 0) stallLast 22 = setUp ∧
    acceptedWrites (reset 0 0) stallLast 22 = setUp.take 3 ∧
    (ruRun (reset 0 0) stallLast 22).onPort = none := by
  have hport : (ruRun (reset 0 0) stallLast 22).onPort = none := by decide
  have hstarted : startedWrites (reset 0 0) stallLast 22 = setUp := by decide
  have haccepted : acceptedWrites (reset 0 0) stallLast 22 = setUp.take 3 := by decide
  refine ⟨fun h => ?_, hstarted, haccepted, hport⟩
  have hall := (h 22).arrived
  rw [hstarted, haccepted, hport] at hall
  exact absurd hall (by decide)

end Run

end Mfi.AsmiCntrlr
