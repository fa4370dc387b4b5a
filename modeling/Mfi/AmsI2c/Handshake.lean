import Mfi.AmsI2c.Bridge

/-!
# The handshake of the bridge

The port raises a request, which the master sees through two samples at rising edges of
`i2c_clock`; the master raises `i2c_busy`, which the port sees through two registers. A
command passes through six stages, and in each one it is known what both sides hold.
Nothing here depends on how many cycles a count of the divider takes, nor on the slaves.
-/

namespace Mfi.AmsI2c

open Core

/-! ## The edges of the divided clocks -/

namespace BridgeRegs

variable {i2cClockTime : BitVec 32} {s : BridgeRegs} {i : BridgeInput}

/-- The count of the divider, in an eighth of a period of `i2c_clock`. -/
def count (s : BridgeRegs) : Nat := s.divider.i2cClocks.toNat

theorem divider_step (s : BridgeRegs) (i2cClockTime : BitVec 32) :
    (s.divider.step i2cClockTime).i2cClocks = s.divider.i2cClocks ∨
      (s.divider.step i2cClockTime).i2cClocks = s.divider.i2cClocks + 1 := by
  unfold Divider.step
  split
  · exact .inl rfl
  · exact .inr rfl

theorem step_clocked :
    (s.step i2cClockTime i).divider = s.divider.step i2cClockTime ∧
    (s.step i2cClockTime i).port = s.port.step i s.i2cBusyLatch s.master.i2cDevError
      s.master.i2cRegError s.master.i2cReaddata ∧
    (s.step i2cClockTime i).i2cBusyMeta = s.master.i2cBusy ∧
    (s.step i2cClockTime i).i2cBusyLatch = s.i2cBusyMeta := by
  unfold step
  split
  · exact ⟨rfl, rfl, rfl, rfl⟩
  split
  · exact ⟨rfl, rfl, rfl, rfl⟩
  split <;> exact ⟨rfl, rfl, rfl, rfl⟩

theorem step_divider : (s.step i2cClockTime i).divider = s.divider.step i2cClockTime :=
  step_clocked.1

theorem step_port :
    (s.step i2cClockTime i).port = s.port.step i s.i2cBusyLatch s.master.i2cDevError
      s.master.i2cRegError s.master.i2cReaddata :=
  step_clocked.2.1

theorem step_busyMeta : (s.step i2cClockTime i).i2cBusyMeta = s.master.i2cBusy :=
  step_clocked.2.2.1

theorem step_busyLatch : (s.step i2cClockTime i).i2cBusyLatch = s.i2cBusyMeta :=
  step_clocked.2.2.2

theorem step_samples :
    (s.step i2cClockTime i).samples =
      if s.rises i2cClockTime then
        s.samples.step (s.step i2cClockTime i).port.i2cWrite (s.step i2cClockTime i).port.i2cRead
          (s.sda && i.sdaReleased)
      else s.samples := by
  rw [step_port]
  unfold step
  split
  · rfl
  split
  · rfl
  split <;> rfl

theorem not_falls_of_rises (h : s.rises i2cClockTime = true) : s.falls i2cClockTime = false := by
  unfold rises at h
  unfold falls
  cases hc : s.divider.i2cClock with
  | false => rfl
  | true =>
      rw [hc] at h
      exact absurd h Bool.false_ne_true

theorem not_rises_of_falls (h : s.falls i2cClockTime = true) : s.rises i2cClockTime = false := by
  rw [← Bool.not_eq_true]
  intro hrise
  exact Bool.false_ne_true ((not_falls_of_rises hrise).symm.trans h)

theorem step_master :
    (s.step i2cClockTime i).master =
      if s.falls i2cClockTime then
        s.master.step (s.step i2cClockTime i).port.i2cAddress
          (s.step i2cClockTime i).port.i2cWritedata s.samples.i2cWriteLatch
          s.samples.i2cReadLatch s.samples.i2cDataIn s.lines.i2cWait
      else s.master := by
  rw [step_port]
  unfold step
  split
  · rename_i hrise
    rw [not_falls_of_rises hrise]
    rfl
  split
  · rfl
  split <;> rfl

theorem rises_count (h : s.rises i2cClockTime = true) :
    s.count = 3 ∧ (s.step i2cClockTime i).count = 4 := by
  have hcases : ∀ k : BitVec 3, (!k.getLsbD 2 && (k + 1).getLsbD 2) = true →
      k.toNat = 3 ∧ (k + 1).toNat = 4 := by decide
  unfold count
  rw [step_divider]
  unfold rises Divider.i2cClock at h
  rcases divider_step s i2cClockTime with hk | hk
  · rw [hk] at h
    cases hb : s.divider.i2cClocks.getLsbD 2 <;> rw [hb] at h <;> exact absurd h (by decide)
  · rw [hk] at h ⊢
    exact hcases _ h

theorem falls_count (h : s.falls i2cClockTime = true) :
    s.count = 7 ∧ (s.step i2cClockTime i).count = 0 := by
  have hcases : ∀ k : BitVec 3, (k.getLsbD 2 && !(k + 1).getLsbD 2) = true →
      k.toNat = 7 ∧ (k + 1).toNat = 0 := by decide
  unfold count
  rw [step_divider]
  unfold falls Divider.i2cClock at h
  rcases divider_step s i2cClockTime with hk | hk
  · rw [hk] at h
    cases hb : s.divider.i2cClocks.getLsbD 2 <;> rw [hb] at h <;> exact absurd h (by decide)
  · rw [hk] at h ⊢
    exact hcases _ h

theorem count_step (h : s.falls i2cClockTime = false) :
    (s.step i2cClockTime i).count = s.count ∨ (s.step i2cClockTime i).count = s.count + 1 := by
  have hcases : ∀ k : BitVec 3, (k.getLsbD 2 && !(k + 1).getLsbD 2) = false →
      (k + 1).toNat = k.toNat + 1 := by decide
  unfold count
  rw [step_divider]
  unfold falls Divider.i2cClock at h
  rcases divider_step s i2cClockTime with hk | hk
  · exact .inl (by rw [hk])
  · rw [hk] at h ⊢
    exact .inr (hcases _ h)

theorem rises_of_count (h : s.count < 4) (h' : 4 ≤ (s.step i2cClockTime i).count) :
    s.rises i2cClockTime = true := by
  have hcases : ∀ k : BitVec 3, k.toNat < 4 → 4 ≤ (k + 1).toNat →
      (!k.getLsbD 2 && (k + 1).getLsbD 2) = true := by decide
  unfold count at h h'
  rw [step_divider] at h'
  unfold rises Divider.i2cClock
  rcases divider_step s i2cClockTime with hk | hk
  · rw [hk] at h'
    omega
  · rw [hk] at h' ⊢
    exact hcases _ h h'

theorem low_half_step (hr : s.rises i2cClockTime = false) (hf : s.falls i2cClockTime = false) :
    (s.step i2cClockTime i).count < 4 ↔ s.count < 4 := by
  have hcount := count_step (i := i) hf
  constructor
  · omega
  · intro hlow
    by_contra hhigh
    have hrise := rises_of_count (i := i) hlow (Nat.not_lt.mp hhigh)
    exact Bool.false_ne_true (hr.symm.trans hrise)

end BridgeRegs

/-! ## The port -/

structure Command where
  isRead : Bool
  address : BitVec 16
  data : BitVec 8
deriving DecidableEq

namespace Port

variable {p : Port} {c : Command} {i : BridgeInput} {dev reg : Bool} {byte : BitVec 8}

/-- The command that the port takes up in a cycle. `ams_waitrequest` is low in the next
cycle, until when the host holds its command. -/
def takes (p : Port) (i2cBusyLatch : Bool) (i : BridgeInput) : Option Command :=
  if p.amsState = .idle ∧ i2cBusyLatch = false then
    if i.amsWrite then some ⟨false, i.amsAddress, i.amsWritedata⟩
    else if i.amsRead then some ⟨true, i.amsAddress, 0⟩
    else none
  else none

structure Silent (p : Port) : Prop where
  state : p.amsState = .idle ∨ p.amsState = .reset
  write : p.i2cWrite = false
  read : p.i2cRead = false

structure Requests (p : Port) (c : Command) : Prop where
  state : p.amsState = .wait
  write : p.i2cWrite = !c.isRead
  read : p.i2cRead = c.isRead
  address : p.i2cAddress = c.address
  data : p.i2cWritedata = c.data

structure Serves (p : Port) (c : Command) : Prop where
  state : p.amsState = if c.isRead then .read else .write
  write : p.i2cWrite = false
  read : p.i2cRead = false
  address : p.i2cAddress = c.address
  data : p.i2cWritedata = c.data

theorem requests_of_takes (h : p.takes false i = some c) :
    (p.step i false dev reg byte).Requests c := by
  unfold takes at h
  by_cases hs : p.amsState = .idle
  · rw [if_pos ⟨hs, rfl⟩] at h
    unfold step
    rw [hs]
    cases hw : i.amsWrite with
    | true =>
        rw [hw, if_pos rfl] at h
        cases Option.some.inj h
        exact ⟨rfl, rfl, rfl, rfl, rfl⟩
    | false =>
        rw [hw, if_neg Bool.false_ne_true] at h
        cases hr : i.amsRead with
        | true =>
            rw [hr, if_pos rfl] at h
            cases Option.some.inj h
            exact ⟨rfl, rfl, rfl, rfl, rfl⟩
        | false =>
            rw [hr] at h
            exact absurd h nofun
  · rw [if_neg (fun hboth => hs hboth.1)] at h
    exact absurd h nofun

theorem Silent.step_none (h : p.Silent) (ht : p.takes false i = none) :
    (p.step i false dev reg byte).Silent ∧
      (p.step i false dev reg byte).amsState = .idle := by
  rcases h.state with hs | hs
  · unfold takes at ht
    rw [if_pos ⟨hs, rfl⟩] at ht
    unfold step
    rw [hs]
    cases hw : i.amsWrite with
    | true =>
        rw [hw] at ht
        exact absurd ht nofun
    | false =>
        rw [hw, if_neg Bool.false_ne_true] at ht
        cases hr : i.amsRead with
        | true =>
            rw [hr] at ht
            exact absurd ht nofun
        | false => exact ⟨⟨.inl rfl, rfl, rfl⟩, rfl⟩
  · unfold step
    rw [hs]
    exact ⟨⟨.inl rfl, rfl, rfl⟩, rfl⟩

theorem Requests.step_wait (h : p.Requests c) : (p.step i false dev reg byte).Requests c := by
  unfold step
  rw [h.state]
  exact ⟨rfl, h.write, h.read, h.address, h.data⟩

theorem Requests.step_served (h : p.Requests c) : (p.step i true dev reg byte).Serves c := by
  unfold step
  rw [h.state]
  refine ⟨?_, rfl, rfl, h.address, h.data⟩
  simp only [if_true, h.write, h.read]
  cases c.isRead <;> rfl

theorem Serves.step_busy (h : p.Serves c) : (p.step i true dev reg byte).Serves c := by
  unfold step
  cases hc : c.isRead with
  | true =>
      have hs : p.amsState = .read := by rw [h.state, hc]; rfl
      rw [hs]
      exact ⟨by rw [hc]; rfl, rfl, rfl, h.address, h.data⟩
  | false =>
      have hs : p.amsState = .write := by rw [h.state, hc]; rfl
      rw [hs]
      exact ⟨by rw [hc]; rfl, rfl, rfl, h.address, h.data⟩

theorem Serves.step_done (h : p.Serves c) :
    (p.step i false dev reg byte).Silent ∧ (p.step i false dev reg byte).amsState = .idle := by
  unfold step
  cases hc : c.isRead with
  | true =>
      have hs : p.amsState = .read := by rw [h.state, hc]; rfl
      rw [hs]
      exact ⟨⟨.inl rfl, rfl, rfl⟩, rfl⟩
  | false =>
      have hs : p.amsState = .write := by rw [h.state, hc]; rfl
      rw [hs]
      exact ⟨⟨.inl rfl, rfl, rfl⟩, rfl⟩

theorem step_returns {i2cBusyLatch : Bool} (hs : p.amsState = .read)
    (hl : i2cBusyLatch = false) :
    (p.step i i2cBusyLatch dev reg byte).amsReaddatavalid = true ∧
    (p.step i i2cBusyLatch dev reg byte).amsReaddata =
      if p.i2cAddress.getLsbD 8 then 0#6 ++ BitVec.ofBool reg ++ BitVec.ofBool dev else byte := by
  unfold step
  rw [hs, hl]
  exact ⟨rfl, rfl⟩

theorem takes_none (h : p.amsState ≠ .idle) (i2cBusyLatch : Bool) :
    p.takes i2cBusyLatch i = none := by
  unfold takes
  rw [if_neg (fun hboth => h hboth.1)]

theorem Requests.takes_none (h : p.Requests c) (i2cBusyLatch : Bool) :
    p.takes i2cBusyLatch i = none :=
  Port.takes_none (by rw [h.state]; decide) i2cBusyLatch

theorem Serves.takes_none (h : p.Serves c) (i2cBusyLatch : Bool) :
    p.takes i2cBusyLatch i = none := by
  apply Port.takes_none
  rw [h.state]
  cases c.isRead <;> decide

end Port

/-! ## The samples and the master -/

structure Samples.Quiet (a : Samples) : Prop where
  writeMeta : a.i2cWriteMeta = false
  writeLatch : a.i2cWriteLatch = false
  readMeta : a.i2cReadMeta = false
  readLatch : a.i2cReadLatch = false

/-- No request but that of `c` is on its way. -/
structure Samples.Only (a : Samples) (c : Command) : Prop where
  writeMeta : a.i2cWriteMeta = true → c.isRead = false
  writeLatch : a.i2cWriteLatch = true → c.isRead = false
  readMeta : a.i2cReadMeta = true → c.isRead = true
  readLatch : a.i2cReadLatch = true → c.isRead = true

namespace Master

variable {m : Master} {c : Command} {address : BitVec 16} {data : BitVec 8}
  {writeLatch readLatch dataIn wait : Bool}

structure Waits (m : Master) : Prop where
  state : m.i2cState = .idle ∨ m.i2cState = .reset
  busy : m.i2cBusy = false
  devError : m.i2cDevError = false
  regError : m.i2cRegError = false

structure Starts (m : Master) (c : Command) : Prop where
  state : m.i2cState = .start
  word : m.i2cWord = .device
  readOp : m.i2cReadOp = c.isRead
  readBit : m.i2cReadBit = false
  busy : m.i2cBusy = false

structure Opens (m : Master) : Prop where
  state : m.i2cState = .data
  word : m.i2cWord = .device
  readBit : m.i2cReadBit = false
  bitCnt : m.i2cBitCnt = 7
  busy : m.i2cBusy = true

structure Runs (m : Master) : Prop where
  state : m.i2cState ≠ .start ∧ m.i2cState ≠ .reset
  busy : m.i2cBusy = true

def Second (m : Master) : Prop :=
  m.i2cState = .data ∧ m.i2cWord = .device ∧ m.i2cReadBit = false ∧ m.i2cBitCnt = 6

theorem step_start (hs : m.i2cState = .start ∨ m.i2cState = .restart) :
    m.step address data writeLatch readLatch dataIn wait =
      { m with
        i2cBitCnt := 7, i2cShiftData := address.extractLsb' 9 7 ++ BitVec.ofBool m.i2cReadBit
        i2cReaddata := 0, i2cBusy := true, i2cState := .data } := by
  rcases hs with hs | hs
  · simp only [step, hs]
  · simp only [step, hs]

theorem step_data_wait (hs : m.i2cState = .data) (hb : 0 < m.i2cBitCnt) :
    m.step address data writeLatch readLatch dataIn true =
      { m with
        i2cReaddata := 0, i2cBusy := true
        i2cShiftData := m.i2cShiftData.extractLsb' 0 7 ++ BitVec.ofBool dataIn } := by
  simp only [step, hs, if_pos hb, if_true]

theorem step_data_next (hs : m.i2cState = .data) (hb : 0 < m.i2cBitCnt) :
    m.step address data writeLatch readLatch dataIn false =
      { m with
        i2cReaddata := 0, i2cBusy := true
        i2cShiftData := m.i2cShiftData.extractLsb' 0 7 ++ BitVec.ofBool dataIn
        i2cBitCnt := m.i2cBitCnt - 1 } := by
  simp only [step, hs, if_pos hb, Bool.false_eq_true, if_false]

theorem step_data_last (hs : m.i2cState = .data) (hb : ¬ 0 < m.i2cBitCnt) :
    m.step address data writeLatch readLatch dataIn wait =
      { m with
        i2cReaddata := 0, i2cBusy := true
        i2cShiftData := m.i2cShiftData.extractLsb' 0 7 ++ BitVec.ofBool dataIn
        i2cState := .ack } := by
  simp only [step, hs, if_neg hb]

theorem step_ack (hs : m.i2cState = .ack) :
    m.step address data writeLatch readLatch dataIn wait = m.ack address data dataIn := by
  simp only [step, hs]

theorem step_stop (hs : m.i2cState = .stop) :
    m.step address data writeLatch readLatch dataIn wait =
      { m with i2cBusy := true, i2cWord := .reset, i2cState := .idle } := by
  simp only [step, hs]

theorem step_idle_quiet (hs : m.i2cState = .idle) :
    m.step address data false false dataIn wait =
      { m with
        i2cBusy := false, i2cReadBit := false, i2cDevError := false, i2cRegError := false
        i2cBitCnt := 0, i2cShiftData := 0 } := by
  simp only [step, hs, Bool.or_self, Bool.false_eq_true, if_false]

theorem step_reset (hs : m.i2cState = .reset) :
    m.step address data writeLatch readLatch dataIn wait = { init with i2cState := .idle } := by
  simp only [step, hs]

theorem Waits.step_quiet (h : m.Waits) :
    (m.step address data false false dataIn wait).Waits ∧
      (m.step address data false false dataIn wait).i2cState = .idle := by
  rcases h.state with hs | hs
  · rw [step_idle_quiet hs]
    exact ⟨⟨.inl hs, rfl, rfl, rfl⟩, hs⟩
  · rw [step_reset hs]
    exact ⟨⟨.inl rfl, rfl, rfl, rfl⟩, rfl⟩

theorem Waits.step_request (h : m.Waits) (hr : readLatch = c.isRead)
    (hsome : (writeLatch || readLatch) = true) :
    (m.step address data writeLatch readLatch dataIn wait).Waits ∨
      (m.step address data writeLatch readLatch dataIn wait).Starts c := by
  rcases h.state with hs | hs
  · right
    unfold step
    rw [hs]
    simp only [hsome, if_true]
    exact ⟨rfl, rfl, hr, rfl, rfl⟩
  · left
    rw [step_reset hs]
    exact ⟨.inl rfl, rfl, rfl, rfl⟩

theorem Starts.step (h : m.Starts c) :
    (m.step address data writeLatch readLatch dataIn wait).Opens := by
  rw [step_start (.inl h.state)]
  exact ⟨rfl, h.word, h.readBit, rfl, rfl⟩

theorem runs_of_data (hs : m.i2cState = .data) (hb : m.i2cBusy = true) : m.Runs :=
  ⟨⟨ne_of_eq_of_ne hs nofun, ne_of_eq_of_ne hs nofun⟩, hb⟩

theorem Opens.step (h : m.Opens) :
    (m.step address data writeLatch readLatch dataIn wait).Opens ∨
    ((m.step address data writeLatch readLatch dataIn wait).Runs ∧
      (m.step address data writeLatch readLatch dataIn wait).Second) := by
  have hpos : 0 < m.i2cBitCnt := by
    rw [h.bitCnt]
    decide
  cases wait with
  | true =>
      rw [step_data_wait h.state hpos]
      exact .inl ⟨h.state, h.word, h.readBit, h.bitCnt, rfl⟩
  | false =>
      have hsix : m.i2cBitCnt - 1 = 6 := by
        rw [h.bitCnt]
        decide
      rw [step_data_next h.state hpos]
      exact .inr ⟨runs_of_data h.state rfl, h.state, h.word, h.readBit, hsix⟩

theorem ack_runs : (m.ack address data dataIn).Runs := by
  unfold ack
  cases m.i2cWord with
  | device => cases dataIn <;> exact ⟨⟨nofun, nofun⟩, rfl⟩
  | address =>
      cases dataIn with
      | true => exact ⟨⟨nofun, nofun⟩, rfl⟩
      | false => cases m.i2cReadOp <;> exact ⟨⟨nofun, nofun⟩, rfl⟩
  | write => exact ⟨⟨nofun, nofun⟩, rfl⟩
  | read => exact ⟨⟨nofun, nofun⟩, rfl⟩
  | reset => exact ⟨⟨nofun, nofun⟩, rfl⟩

theorem Runs.step (h : m.Runs) (hne : m.i2cState ≠ .idle) :
    (m.step address data writeLatch readLatch dataIn wait).Runs := by
  cases hs : m.i2cState with
  | idle => exact absurd hs hne
  | start => exact absurd hs h.state.1
  | restart =>
      rw [step_start (.inr hs)]
      exact ⟨⟨nofun, nofun⟩, rfl⟩
  | data =>
      by_cases hb : 0 < m.i2cBitCnt
      · cases wait with
        | true =>
            rw [step_data_wait hs hb]
            exact runs_of_data hs rfl
        | false =>
            rw [step_data_next hs hb]
            exact runs_of_data hs rfl
      · rw [step_data_last hs hb]
        exact ⟨⟨nofun, nofun⟩, rfl⟩
  | ack =>
      rw [step_ack hs]
      exact ack_runs
  | stop =>
      rw [step_stop hs]
      exact ⟨⟨nofun, nofun⟩, rfl⟩
  | reset => exact absurd hs h.state.2

theorem step_end (hs : m.i2cState = .idle) :
    (m.step address data false false dataIn wait).Waits := by
  rw [step_idle_quiet hs]
  exact ⟨.inl hs, rfl, rfl, rfl⟩

end Master

/-! ## The stages of a command -/

namespace BridgeRegs

structure Rest (s : BridgeRegs) : Prop where
  port : s.port.Silent
  samples : s.samples.Quiet
  master : s.master.Waits
  busy : s.i2cBusyMeta = false ∧ s.i2cBusyLatch = false

structure Asked (s : BridgeRegs) (c : Command) : Prop where
  port : s.port.Requests c
  samples : s.samples.Only c
  master : s.master.Waits
  busy : s.i2cBusyMeta = false ∧ s.i2cBusyLatch = false

structure Begun (s : BridgeRegs) (c : Command) : Prop where
  port : s.port.Requests c
  master : s.master.Starts c
  busy : s.i2cBusyMeta = false ∧ s.i2cBusyLatch = false

/-- The first bit, within which the port sees that the master is busy. -/
structure Opening (s : BridgeRegs) (c : Command) : Prop where
  port : s.port.Requests c ∨ (s.port.Serves c ∧ s.i2cBusyLatch = true)
  master : s.master.Opens
  order : s.i2cBusyLatch = true → s.i2cBusyMeta = true
  busyMeta : 1 ≤ s.count → s.i2cBusyMeta = true
  busyLatch : 2 ≤ s.count → s.i2cBusyLatch = true
  served : 3 ≤ s.count → s.port.Serves c
  request : 4 ≤ s.count → s.samples.i2cWriteMeta = false ∧ s.samples.i2cReadMeta = false

structure Running (s : BridgeRegs) (c : Command) : Prop where
  port : s.port.Serves c
  master : s.master.Runs
  busy : s.i2cBusyMeta = true ∧ s.i2cBusyLatch = true
  request : s.samples.i2cWriteMeta = false ∧ s.samples.i2cReadMeta = false
  latch : s.samples.Quiet ∨ (s.master.Second ∧ s.count < 4)

/-- The transaction is over, and the port is about to see it. -/
structure Closing (s : BridgeRegs) (c : Command) : Prop where
  port : s.port.Serves c
  samples : s.samples.Quiet
  master : s.master.Waits
  busy : s.i2cBusyLatch = false → s.i2cBusyMeta = false

inductive Stage (s : BridgeRegs) : Option Command → Prop where
  | rest (h : s.Rest) : Stage s none
  | asked (c : Command) (h : s.Asked c) : Stage s (some c)
  | begun (c : Command) (h : s.Begun c) : Stage s (some c)
  | opening (c : Command) (h : s.Opening c) : Stage s (some c)
  | running (c : Command) (h : s.Running c) : Stage s (some c)
  | closing (c : Command) (h : s.Closing c) : Stage s (some c)

theorem rest_init (i2cWait : Bool) : (init i2cWait).Rest where
  port := ⟨.inr rfl, rfl, rfl⟩
  samples := ⟨rfl, rfl, rfl, rfl⟩
  master := ⟨.inr rfl, rfl, rfl, rfl⟩
  busy := ⟨rfl, rfl⟩

variable {i2cClockTime : BitVec 32} {s : BridgeRegs} {i : BridgeInput} {c : Command}

theorem master_quiet (h : s.falls i2cClockTime = false) :
    (s.step i2cClockTime i).master = s.master := by
  rw [step_master, h]
  rfl

theorem samples_quiet (h : s.rises i2cClockTime = false) :
    (s.step i2cClockTime i).samples = s.samples := by
  rw [step_samples, h]
  rfl

theorem quiet_step (h : s.samples.Quiet) (hw : (s.step i2cClockTime i).port.i2cWrite = false)
    (hr : (s.step i2cClockTime i).port.i2cRead = false) :
    (s.step i2cClockTime i).samples.Quiet := by
  rw [step_samples]
  cases s.rises i2cClockTime with
  | true => exact ⟨hw, h.writeMeta, hr, h.readMeta⟩
  | false => exact h

theorem waits_step (h : s.master.Waits) (hq : s.samples.Quiet) :
    (s.step i2cClockTime i).master.Waits := by
  rw [step_master]
  cases s.falls i2cClockTime with
  | true =>
      rw [hq.writeLatch, hq.readLatch]
      exact h.step_quiet.1
  | false => exact h

theorem only_step (h : s.samples.Only c) (hp : (s.step i2cClockTime i).port.Requests c) :
    (s.step i2cClockTime i).samples.Only c := by
  rw [step_samples]
  cases s.rises i2cClockTime with
  | true =>
      refine ⟨fun hw => ?_, h.writeMeta, fun hr => ?_, h.readMeta⟩
      · have hnot : (!c.isRead) = true := hp.write.symm.trans hw
        simpa using hnot
      · exact hp.read.symm.trans hr
  | false => exact h

theorem only_of_quiet (h : s.samples.Quiet) : s.samples.Only c where
  writeMeta := fun hw => absurd (h.writeMeta.symm.trans hw) Bool.false_ne_true
  writeLatch := fun hw => absurd (h.writeLatch.symm.trans hw) Bool.false_ne_true
  readMeta := fun hr => absurd (h.readMeta.symm.trans hr) Bool.false_ne_true
  readLatch := fun hr => absurd (h.readLatch.symm.trans hr) Bool.false_ne_true

theorem Rest.step_none (h : s.Rest) (ht : s.port.takes s.i2cBusyLatch i = none) :
    (s.step i2cClockTime i).Rest := by
  rw [h.busy.2] at ht
  have hport : (s.step i2cClockTime i).port.Silent := by
    rw [step_port, h.busy.2]
    exact (h.port.step_none ht).1
  refine ⟨hport, quiet_step h.samples hport.write hport.read, waits_step h.master h.samples, ?_⟩
  rw [step_busyMeta, step_busyLatch]
  exact ⟨h.master.busy, h.busy.1⟩

theorem Rest.step_take (h : s.Rest) (ht : s.port.takes s.i2cBusyLatch i = some c) :
    (s.step i2cClockTime i).Asked c := by
  rw [h.busy.2] at ht
  have hport : (s.step i2cClockTime i).port.Requests c := by
    rw [step_port, h.busy.2]
    exact Port.requests_of_takes ht
  refine ⟨hport, only_step (only_of_quiet h.samples) hport, waits_step h.master h.samples, ?_⟩
  rw [step_busyMeta, step_busyLatch]
  exact ⟨h.master.busy, h.busy.1⟩

theorem Asked.step (h : s.Asked c) :
    (s.step i2cClockTime i).Asked c ∨ (s.step i2cClockTime i).Begun c := by
  have hport : (s.step i2cClockTime i).port.Requests c := by
    rw [step_port, h.busy.2]
    exact h.port.step_wait
  have hsamples := only_step h.samples hport
  have hbusy : (s.step i2cClockTime i).i2cBusyMeta = false ∧
      (s.step i2cClockTime i).i2cBusyLatch = false := by
    rw [step_busyMeta, step_busyLatch]
    exact ⟨h.master.busy, h.busy.1⟩
  cases hf : s.falls i2cClockTime with
  | false => exact .inl ⟨hport, hsamples, by rw [master_quiet hf]; exact h.master, hbusy⟩
  | true =>
      have hmaster : (s.step i2cClockTime i).master = _ := step_master
      rw [hf, if_pos rfl] at hmaster
      cases hany : s.samples.i2cWriteLatch || s.samples.i2cReadLatch with
      | false =>
          obtain ⟨hw, hr⟩ := Bool.or_eq_false_iff.mp hany
          rw [hw, hr] at hmaster
          exact .inl ⟨hport, hsamples, by rw [hmaster]; exact h.master.step_quiet.1, hbusy⟩
      | true =>
          have hread : s.samples.i2cReadLatch = c.isRead := by
            cases hr : s.samples.i2cReadLatch with
            | true => exact (h.samples.readLatch hr).symm
            | false =>
                rw [hr, Bool.or_false] at hany
                exact (h.samples.writeLatch hany).symm
          rcases h.master.step_request hread hany with hwaits | hstarts
          · exact .inl ⟨hport, hsamples, by rw [hmaster]; exact hwaits, hbusy⟩
          · exact .inr ⟨hport, by rw [hmaster]; exact hstarts, hbusy⟩

theorem Begun.step (h : s.Begun c) :
    (s.step i2cClockTime i).Begun c ∨ (s.step i2cClockTime i).Opening c := by
  have hport : (s.step i2cClockTime i).port.Requests c := by
    rw [step_port, h.busy.2]
    exact h.port.step_wait
  cases hf : s.falls i2cClockTime with
  | false =>
      refine .inl ⟨hport, by rw [master_quiet hf]; exact h.master, ?_⟩
      rw [step_busyMeta, step_busyLatch]
      exact ⟨h.master.busy, h.busy.1⟩
  | true =>
      have hcount := (falls_count (i := i) hf).2
      have hopens : (s.step i2cClockTime i).master.Opens := by
        rw [step_master, hf, if_pos rfl]
        exact h.master.step
      have hlatch : (s.step i2cClockTime i).i2cBusyLatch = false := by
        rw [step_busyLatch]
        exact h.busy.1
      exact .inr ⟨.inl hport, hopens, fun hl => absurd (hlatch.symm.trans hl) Bool.false_ne_true,
        by omega, by omega, by omega, by omega⟩

theorem Opening.port_step (h : s.Opening c) :
    ((s.step i2cClockTime i).port.Requests c ∨ (s.step i2cClockTime i).port.Serves c ∧
      (s.step i2cClockTime i).i2cBusyLatch = true) ∧
    (s.i2cBusyLatch = true → (s.step i2cClockTime i).port.Serves c) := by
  rw [step_port, step_busyLatch]
  cases hlatch : s.i2cBusyLatch with
  | false =>
      rcases h.port with hreq | ⟨_, hl⟩
      · exact ⟨.inl hreq.step_wait, nofun⟩
      · exact absurd (hlatch.symm.trans hl) Bool.false_ne_true
  | true =>
      have hserves : (s.port.step i true s.master.i2cDevError s.master.i2cRegError
          s.master.i2cReaddata).Serves c := by
        rcases h.port with hreq | ⟨hser, _⟩
        · exact hreq.step_served
        · exact hser.step_busy
      exact ⟨.inr ⟨hserves, h.order hlatch⟩, fun _ => hserves⟩

theorem Opening.step (h : s.Opening c) :
    (s.step i2cClockTime i).Opening c ∨ (s.step i2cClockTime i).Running c := by
  obtain ⟨hport, hserves⟩ := @port_step i2cClockTime s i c h
  have hmeta : (s.step i2cClockTime i).i2cBusyMeta = true := by
    rw [step_busyMeta]
    exact h.master.busy
  cases hf : s.falls i2cClockTime with
  | false =>
      have hcount := count_step (i := i) hf
      refine .inl ⟨hport, by rw [master_quiet hf]; exact h.master, fun _ => hmeta, fun _ => hmeta,
        fun hk => ?_, fun hk => ?_, fun hk => ?_⟩
      · rw [step_busyLatch]
        exact h.busyMeta (by omega)
      · exact hserves (h.busyLatch (by omega))
      · cases hr : s.rises i2cClockTime with
        | true =>
            have hthree := (rises_count (i := i) hr).1
            have hsilent := hserves (h.busyLatch (by omega))
            rw [step_samples, hr, if_pos rfl]
            exact ⟨hsilent.write, hsilent.read⟩
        | false =>
            rw [samples_quiet hr]
            exact h.request (Nat.not_lt.mp fun hlow =>
              Nat.not_lt.mpr hk ((low_half_step hr hf).mpr hlow))
  | true =>
      obtain ⟨hseven, hzero⟩ := falls_count (i := i) hf
      have hserved := hserves (h.busyLatch (by omega))
      have hlatch : (s.step i2cClockTime i).i2cBusyLatch = true := by
        rw [step_busyLatch]
        exact h.busyMeta (by omega)
      have hr := not_rises_of_falls hf
      have hmaster : (s.step i2cClockTime i).master = _ := step_master
      rw [hf, if_pos rfl] at hmaster
      rcases h.master.step with hopens | ⟨hruns, hsecond⟩
      · refine .inl ⟨.inr ⟨hserved, hlatch⟩, by rw [hmaster]; exact hopens, fun _ => hmeta,
          by omega, by omega, by omega, by omega⟩
      · refine .inr ⟨hserved, by rw [hmaster]; exact hruns, ⟨hmeta, hlatch⟩, ?_,
          .inr ⟨by rw [hmaster]; exact hsecond, by omega⟩⟩
        rw [samples_quiet hr]
        exact h.request (by omega)

theorem Running.step (h : s.Running c) :
    (s.step i2cClockTime i).Running c ∨ (s.step i2cClockTime i).Closing c := by
  have hport : (s.step i2cClockTime i).port.Serves c := by
    rw [step_port, h.busy.2]
    exact h.port.step_busy
  have hbusy : (s.step i2cClockTime i).i2cBusyMeta = true ∧
      (s.step i2cClockTime i).i2cBusyLatch = true := by
    rw [step_busyMeta, step_busyLatch]
    exact ⟨h.master.busy, h.busy.1⟩
  cases hr : s.rises i2cClockTime with
  | true =>
      have hf := not_falls_of_rises hr
      have hquiet : (s.step i2cClockTime i).samples.Quiet := by
        rw [step_samples, hr, if_pos rfl]
        exact ⟨hport.write, h.request.1, hport.read, h.request.2⟩
      refine .inl ⟨hport, by rw [master_quiet hf]; exact h.master, hbusy,
        ⟨hquiet.writeMeta, hquiet.readMeta⟩, .inl hquiet⟩
  | false =>
      have hsame := samples_quiet (i := i) hr
      cases hf : s.falls i2cClockTime with
      | false =>
          refine .inl ⟨hport, by rw [master_quiet hf]; exact h.master, hbusy,
            by rw [hsame]; exact h.request, ?_⟩
          rw [hsame, master_quiet hf]
          rcases h.latch with hquiet | ⟨hsecond, hlow⟩
          · exact .inl hquiet
          · exact .inr ⟨hsecond, (low_half_step hr hf).mpr hlow⟩
      | true =>
          have hseven := (falls_count (i := i) hf).1
          have hquiet : s.samples.Quiet := by
            rcases h.latch with hquiet | ⟨_, hlow⟩
            · exact hquiet
            · omega
          have hmaster : (s.step i2cClockTime i).master = _ := step_master
          rw [hf, if_pos rfl, hquiet.writeLatch, hquiet.readLatch] at hmaster
          by_cases hidle : s.master.i2cState = .idle
          · refine .inr ⟨hport, by rw [hsame]; exact hquiet,
              by rw [hmaster]; exact Master.step_end hidle, fun hl => ?_⟩
            exact absurd (hl.symm.trans hbusy.2) Bool.false_ne_true
          · exact .inl ⟨hport, by rw [hmaster]; exact h.master.step hidle, hbusy,
              by rw [hsame]; exact h.request, .inl (by rw [hsame]; exact hquiet)⟩

theorem Closing.step_busy (h : s.Closing c) (hl : s.i2cBusyLatch = true) :
    (s.step i2cClockTime i).Closing c := by
  have hport : (s.step i2cClockTime i).port.Serves c := by
    rw [step_port, hl]
    exact h.port.step_busy
  refine ⟨hport, quiet_step h.samples hport.write hport.read, waits_step h.master h.samples, ?_⟩
  intro _
  rw [step_busyMeta]
  exact h.master.busy

theorem Closing.step_done (h : s.Closing c) (hl : s.i2cBusyLatch = false) :
    (s.step i2cClockTime i).Rest := by
  have hport : (s.step i2cClockTime i).port.Silent := by
    rw [step_port, hl]
    exact h.port.step_done.1
  refine ⟨hport, quiet_step h.samples hport.write hport.read, waits_step h.master h.samples, ?_⟩
  rw [step_busyMeta, step_busyLatch]
  exact ⟨h.master.busy, h.busy hl⟩

/-- From stage to stage: a command is taken up at rest only, and goes when it is over. -/
theorem Stage.step {o : Option Command} (h : Stage s o) (i2cClockTime : BitVec 32)
    (i : BridgeInput) :
    ∃ o', Stage (s.step i2cClockTime i) o' ∧
      (∀ c, s.port.takes s.i2cBusyLatch i = some c → o' = some c) ∧
      (s.port.takes s.i2cBusyLatch i = none → o' = none ∨ o' = o) := by
  cases h with
  | rest h =>
      cases ht : s.port.takes s.i2cBusyLatch i with
      | none => exact ⟨none, .rest (h.step_none ht), nofun, fun _ => .inl rfl⟩
      | some c =>
          exact ⟨some c, .asked c (h.step_take ht), fun _ he => he, nofun⟩
  | asked c h =>
      rw [h.port.takes_none]
      rcases h.step (i := i) with hnext | hnext
      · exact ⟨some c, .asked c hnext, nofun, fun _ => .inr rfl⟩
      · exact ⟨some c, .begun c hnext, nofun, fun _ => .inr rfl⟩
  | begun c h =>
      rw [h.port.takes_none]
      rcases h.step (i := i) with hnext | hnext
      · exact ⟨some c, .begun c hnext, nofun, fun _ => .inr rfl⟩
      · exact ⟨some c, .opening c hnext, nofun, fun _ => .inr rfl⟩
  | opening c h =>
      have hnone : s.port.takes s.i2cBusyLatch i = none := by
        rcases h.port with hreq | ⟨hser, _⟩
        · exact hreq.takes_none _
        · exact hser.takes_none _
      rw [hnone]
      rcases h.step (i := i) with hnext | hnext
      · exact ⟨some c, .opening c hnext, nofun, fun _ => .inr rfl⟩
      · exact ⟨some c, .running c hnext, nofun, fun _ => .inr rfl⟩
  | running c h =>
      rw [h.port.takes_none]
      rcases h.step (i := i) with hnext | hnext
      · exact ⟨some c, .running c hnext, nofun, fun _ => .inr rfl⟩
      · exact ⟨some c, .closing c hnext, nofun, fun _ => .inr rfl⟩
  | closing c h =>
      rw [h.port.takes_none]
      cases hl : s.i2cBusyLatch with
      | true => exact ⟨some c, .closing c (h.step_busy hl), nofun, fun _ => .inr rfl⟩
      | false => exact ⟨none, .rest (h.step_done hl), nofun, fun _ => .inl rfl⟩

end BridgeRegs

end Mfi.AmsI2c
