import Mfi.Core.Words
import Mfi.Pu.Host

/-!
# The moves of the scan machine

An observer of the bus sees the commands that the bridge accepts and the responses it
gives. Here is what it keeps of them, what they are to be by the tables, and what a cycle
of the machine does to the bus.
-/

namespace Mfi.Pu

open Core

/-! ## What is seen on the bus -/

structure BusCommand where
  operation : Operation
  address : BitVec 32
  data : BitVec 8
deriving DecidableEq

/-- The command of a table entry, with the upper half of the address. -/
def command (base : BitVec 16) (e : OpEntry) : BusCommand :=
  ⟨e.operation, base ++ e.device ++ e.register, if e.operation = .write then e.data else 0⟩

def ScanBus.accepted (b : ScanBus) (i : AmmInput) : Option BusCommand :=
  if i.ammWaitrequest then none
  else if b.ammWrite then some ⟨.write, b.ammAddress, b.ammWritedata⟩
  else if b.ammRead then some ⟨.read, b.ammAddress, 0⟩
  else none

def schedule (base : BitVec 32) (k : Nat) : BusCommand :=
  if k < 12 then command (base.extractLsb' 16 16) (initArray.getD k statusRead)
  else command 0 (workArray.getD ((k - 12) % 44) statusRead)

/-- What an observer keeps: the read that waits for its response, the last write, and the
last read with its byte. -/
structure Observer where
  pending : Option BusCommand
  lastWrite : Option BusCommand
  lastRead : Option (BusCommand × BitVec 8)

namespace Observer

def init : Observer := ⟨none, none, none⟩

def response (o : Observer) (i : AmmInput) : Option (BusCommand × BitVec 8) :=
  if i.ammReaddatavalid then o.pending.map fun c => (c, i.ammReaddata) else none

def step (o : Observer) (b : ScanBus) (i : AmmInput) : Observer :=
  let p := match o.response i with
    | some r => { o with pending := none, lastRead := some r }
    | none => o
  match b.accepted i with
  | some c =>
      if c.operation = .write then { p with lastWrite := some c } else { p with pending := some c }
  | none => p

end Observer

/-! ## What the registers are to sample -/

/-- The writes that select a column of buttons, with the place of its buttons. -/
def columns : List (OpEntry × Nat) := [
  (⟨.write, puBtnAddr, puBtnSelV1V2V3, 0x03⟩, 35),
  (⟨.write, puBtnAddr, puBtnSelV1V2V3, 0x05⟩, 30),
  (⟨.write, puBtnAddr, puBtnSelV1V2V3, 0x06⟩, 25),
  (⟨.write, puBtnAddr, puBtnSelV4V5V6V7V8, 0x1E⟩, 20),
  (⟨.write, puBtnAddr, puBtnSelV4V5V6V7V8, 0x1D⟩, 15),
  (⟨.write, puBtnAddr, puBtnSelV4V5V6V7V8, 0x1B⟩, 10),
  (⟨.write, puBtnAddr, puBtnSelV4V5V6V7V8, 0x17⟩, 5),
  (⟨.write, puBtnAddr, puBtnSelV4V5V6V7V8, 0x0F⟩, 0)]

/-- The place of the buttons of the column selected by a write. -/
def columnOf (w : Option BusCommand) : Option Nat :=
  (columns.find? fun c => w = some (command 0 c.1)).map Prod.snd

def ownRegisters : List (OpEntry × Target) := [
  (⟨.read, puTypeAddr, puTypeValue, 0⟩, .puTypeReg),
  (⟨.read, puEncAddr, puEncValue, 0⟩, .encoders),
  (⟨.read, puLightLeftAddr, puLightE3E2E1E0M7M6M5M4, 0⟩, .illuminanceLeftHigh),
  (⟨.read, puLightLeftAddr, puLightM3M2M1M0, 0⟩, .illuminanceLeftLow),
  (⟨.read, puLightRightAddr, puLightE3E2E1E0M7M6M5M4, 0⟩, .illuminanceRightHigh),
  (⟨.read, puLightRightAddr, puLightM3M2M1M0, 0⟩, .illuminanceRightLow),
  (⟨.read, mcuAddr, mcuPowerStatus, 0⟩, .pwrStatusMcu),
  (⟨.read, mcuAddr, mcuExtLightMsb, 0⟩, .lightMcuHigh),
  (⟨.read, mcuAddr, mcuExtLightLsb, 0⟩, .lightMcuLow)]

/-- What the byte of a read belongs to, when `w` was the last write. -/
def readTarget (c : BusCommand) (w : Option BusCommand) : Option Target :=
  if c = command 0 buttonRead then (columnOf w).map .buttonsState
  else (ownRegisters.find? fun r => c = command 0 r.1).map Prod.snd

/-- The registers change only with the response to a status read that tells of no error,
and then take the bits of the byte of the read that was answered before it. -/
def Sampled.observe (s : Sampled) (o : Observer) (i : AmmInput) : Sampled :=
  match o.response i, o.lastRead with
  | some (c, status), some (r, d) =>
      if c = command 0 statusRead ∧ status.extractLsb' 0 2 = 0#2 then
        s.sample d (readTarget r o.lastWrite)
      else s
  | _, _ => s

/-! ## The tables -/

def lastWriteBefore (table : List OpEntry) : Nat → Option OpEntry
  | 0 => none
  | k + 1 =>
      if (table.getD k statusRead).operation = .write then some (table.getD k statusRead)
      else lastWriteBefore table k

theorem initArray_writes : ∀ k < 12, (initArray.getD k statusRead).operation = .write := by
  decide

/-- Every status read follows a read. -/
theorem status_after_read : ∀ k < 44, workArray.getD k statusRead = statusRead →
    0 < k ∧ (workArray.getD (k - 1) statusRead).operation = .read := by
  decide

theorem targetAt_status : ∀ k < 44, workArray.getD k statusRead = statusRead →
    targetAt (BitVec.ofNat 8 k) = readTarget (command 0 (workArray.getD (k - 1) statusRead))
      ((lastWriteBefore workArray k).map (command 0)) := by
  decide

theorem targetAt_other : ∀ k < 44, workArray.getD k statusRead ≠ statusRead →
    targetAt (BitVec.ofNat 8 k) = none := by
  decide

theorem lastWriteBefore_none : ∀ k < 44, workArray.getD k statusRead = statusRead →
    lastWriteBefore workArray k = none → k = 1 := by
  decide

theorem command_status : ∀ k < 44, command 0 (workArray.getD k statusRead) = command 0 statusRead →
    workArray.getD k statusRead = statusRead := by
  decide

/-! ## The machine between two tables -/

namespace ScanBus

def table (b : ScanBus) : List OpEntry := if b.ammInitDone then workArray else initArray

def limit (b : ScanBus) : Nat := if b.ammInitDone then 44 else 12

def upper (b : ScanBus) (base : BitVec 32) : BitVec 16 :=
  if b.ammInitDone then 0 else base.extractLsb' 16 16

def entry (b : ScanBus) : OpEntry := entryAt b.table b.ammIndex

structure Carries (b : ScanBus) (base : BitVec 32) (op : Operation) : Prop where
  index : b.ammIndex.toNat < b.limit
  operation : b.entry.operation = op
  address : b.ammAddressD = b.upper base ++ b.entry.device ++ b.entry.register

structure OnBus (base : BitVec 32) (b : ScanBus) : Prop where
  index : b.ammIndex.toNat ≤ b.limit
  quiet : b.ammState ≠ .write → b.ammState ≠ .read → b.ammWrite = false ∧ b.ammRead = false
  write : b.ammState = .write → b.Carries base .write ∧ b.ammDataD = b.entry.data ∧
    b.ammRead = false ∧ b.ammWrite = b.ammTransaction ∧
    (b.ammTransaction = true → b.ammAddress = b.ammAddressD ∧ b.ammWritedata = b.ammDataD)
  read : b.ammState = .read → b.Carries base .read ∧ b.ammWrite = false ∧
    b.ammRead = b.ammTransaction ∧ (b.ammTransaction = true → b.ammAddress = b.ammAddressD)
  ack : b.ammState = .ack → b.Carries base .read

variable {b : ScanBus} {base : BitVec 32} {i : AmmInput}

/-! ## One cycle -/

inductive Moves (base : BitVec 32) (b : ScanBus) (i : AmmInput) : ScanBus → Prop where
  | fetchWrite (hs : b.ammState = .idle) (hi : b.ammIndex.toNat < b.limit)
      (ho : b.entry.operation = .write) :
      Moves base b i
        { b.release with
          ammTransaction := false
          ammAddressD := b.upper base ++ b.entry.device ++ b.entry.register
          ammDataD := b.entry.data, ammState := .write }
  | fetchRead (hs : b.ammState = .idle) (hi : b.ammIndex.toNat < b.limit)
      (ho : b.entry.operation = .read) :
      Moves base b i
        { b.release with
          ammTransaction := false
          ammAddressD := b.upper base ++ b.entry.device ++ b.entry.register
          ammState := .read }
  | wrap (hs : b.ammState = .idle) (hi : b.limit ≤ b.ammIndex.toNat) :
      Moves base b i
        { b.release with ammTransaction := false, ammInitDone := true, ammIndex := 0 }
  | drive (hs : b.ammState = .write) (ha : b.accepts i = false) :
      Moves base b i
        { b with
          ammWrite := true, ammRead := false, ammAddress := b.ammAddressD
          ammWritedata := b.ammDataD, ammTransaction := true }
  | ask (hs : b.ammState = .read) (ha : b.accepts i = false) :
      Moves base b i
        { b with
          ammWrite := false, ammRead := true, ammAddress := b.ammAddressD
          ammWritedata := 0, ammTransaction := true }
  | written (hs : b.ammState = .write) (ha : b.accepts i = true) :
      Moves base b i { b.release with ammIndex := b.ammIndex + 1, ammState := .idle }
  | asked (hs : b.ammState = .read) (ha : b.accepts i = true) :
      Moves base b i { b.release with ammState := .ack }
  | await (hs : b.ammState = .ack) (hv : i.ammReaddatavalid = false) :
      Moves base b i { b.release with ammTransaction := false }
  | answered (hs : b.ammState = .ack) (hv : i.ammReaddatavalid = true) :
      Moves base b i
        { b.release with
          ammTransaction := false, ammDataD := i.ammReaddata, ammIndex := b.ammIndex + 1
          ammState := .idle }
  | start (hs : b.ammState = .reset) :
      Moves base b i
        { b.release with
          ammTransaction := false, ammAddressD := 0, ammDataD := 0, ammInitDone := false
          ammIndex := 0, ammState := .idle }

theorem next_fetch (hi : b.ammIndex.toNat < b.limit) :
    b.next base = b.fetch (b.upper base) b.entry := by
  unfold limit at hi
  unfold next upper entry table
  cases hd : b.ammInitDone with
  | false =>
      rw [hd] at hi
      have hlt : b.ammIndex < 12 := hi
      simp only [Bool.not_false, if_true, if_pos hlt, Bool.false_eq_true, if_false]
  | true =>
      rw [hd] at hi
      have hlt : b.ammIndex < 44 := hi
      simp only [Bool.not_true, Bool.false_eq_true, if_false, if_pos hlt, if_true]

theorem next_wrap (hi : b.limit ≤ b.ammIndex.toNat) :
    b.next base = { b with ammInitDone := true, ammIndex := 0 } := by
  unfold limit at hi
  unfold next
  cases hd : b.ammInitDone with
  | false =>
      rw [hd] at hi
      have hge : ¬ b.ammIndex < 12 := Nat.not_lt.mpr hi
      simp only [Bool.not_false, if_true, if_neg hge]
  | true =>
      rw [hd] at hi
      have hge : ¬ b.ammIndex < 44 := Nat.not_lt.mpr hi
      simp only [Bool.not_true, Bool.false_eq_true, if_false, if_neg hge]

theorem moves_idle (hs : b.ammState = .idle) : Moves base b i (b.step base i) := by
  by_cases hi : b.ammIndex.toNat < b.limit
  · cases ho : b.entry.operation with
    | write =>
        have hmove : Moves base b i _ := Moves.fetchWrite hs hi ho
        simpa only [step, hs, next_fetch hi, fetch, ho, release] using hmove
    | read =>
        have hmove : Moves base b i _ := Moves.fetchRead hs hi ho
        simpa only [step, hs, next_fetch hi, fetch, ho, release] using hmove
  · have hge : b.limit ≤ b.ammIndex.toNat := Nat.not_lt.mp hi
    have hmove : Moves base b i _ := Moves.wrap hs hge
    simpa only [step, hs, next_wrap hge, release] using hmove

theorem moves_step : Moves base b i (b.step base i) := by
  cases hs : b.ammState with
  | idle => exact moves_idle hs
  | write =>
      cases ha : b.accepts i with
      | true => simpa [step, hs, ha] using Moves.written hs ha
      | false => simpa [step, hs, ha] using Moves.drive hs ha
  | read =>
      cases ha : b.accepts i with
      | true => simpa [step, hs, ha] using Moves.asked hs ha
      | false => simpa [step, hs, ha] using Moves.ask hs ha
  | ack =>
      cases hv : i.ammReaddatavalid with
      | true => simpa [step, hs, hv] using Moves.answered hs hv
      | false => simpa [step, hs, hv] using Moves.await hs hv
  | reset => simpa [step, hs] using Moves.start hs

theorem step_refused (hs : b.ammState = .write ∨ b.ammState = .read)
    (ha : b.accepts i = false) : (b.step base i).ammState = b.ammState := by
  rcases hs with hs | hs
  · simp [step, hs, ha]
  · simp [step, hs, ha]

theorem step_ne_reset : (b.step base i).ammState ≠ .reset := by
  generalize hb : b.step base i = b'
  have hmove : Moves base b i b' := by
    rw [← hb]
    exact moves_step
  cases hmove with
  | fetchWrite => nofun
  | fetchRead => nofun
  | wrap hs => exact fun hr => absurd (hs.symm.trans hr) nofun
  | drive hs => exact fun hr => absurd (hs.symm.trans hr) nofun
  | ask hs => exact fun hr => absurd (hs.symm.trans hr) nofun
  | written => nofun
  | asked => nofun
  | await hs => exact fun hr => absurd (hs.symm.trans hr) nofun
  | answered => nofun
  | start => nofun

theorem accepted_of_quiet (hw : b.ammWrite = false) (hr : b.ammRead = false) :
    b.accepted i = none := by
  unfold accepted
  rw [hw, hr]
  cases i.ammWaitrequest <;> rfl

theorem accepts_iff : b.accepts i = true ↔ i.ammWaitrequest = false ∧ b.ammTransaction = true := by
  simp [accepts]

theorem accepted_written (h : b.OnBus base) (hs : b.ammState = .write)
    (ha : b.accepts i = true) : b.accepted i = some (command (b.upper base) b.entry) := by
  obtain ⟨hw, ht⟩ := accepts_iff.mp ha
  obtain ⟨hc, hd, _, hwrite, hlines⟩ := h.write hs
  obtain ⟨haddr, hdata⟩ := hlines ht
  rw [ht] at hwrite
  unfold accepted command
  rw [hw, hwrite, haddr, hdata, hd, hc.address, hc.operation]
  rfl

theorem accepted_asked (h : b.OnBus base) (hs : b.ammState = .read)
    (ha : b.accepts i = true) : b.accepted i = some (command (b.upper base) b.entry) := by
  obtain ⟨hw, ht⟩ := accepts_iff.mp ha
  obtain ⟨hc, hwrite, hread, hlines⟩ := h.read hs
  rw [ht] at hread
  unfold accepted command
  rw [hw, hwrite, hread, hlines ht, hc.address, hc.operation]
  rfl

theorem accepted_refused (h : b.OnBus base) (hs : b.ammState = .write ∨ b.ammState = .read)
    (ha : b.accepts i = false) : b.accepted i = none := by
  cases ht : b.ammTransaction with
  | false =>
      rcases hs with hs | hs
      · obtain ⟨_, _, hr, hw, _⟩ := h.write hs
        exact accepted_of_quiet (by rw [hw, ht]) hr
      · obtain ⟨_, hw, hr, _⟩ := h.read hs
        exact accepted_of_quiet hw (by rw [hr, ht])
  | true =>
      have hw : i.ammWaitrequest = true := by simpa [accepts, ht] using ha
      unfold accepted
      rw [hw, if_pos rfl]

theorem accepted_at_rest (h : b.OnBus base) (hw : b.ammState ≠ .write)
    (hr : b.ammState ≠ .read) : b.accepted i = none := by
  obtain ⟨hwrite, hread⟩ := h.quiet hw hr
  exact accepted_of_quiet hwrite hread

theorem toNat_index_succ (hi : b.ammIndex.toNat < b.limit) :
    (b.ammIndex + 1).toNat = b.ammIndex.toNat + 1 := by
  have hlimit : b.limit ≤ 44 := by
    unfold limit
    cases b.ammInitDone <;> decide
  exact toNat_add_one (by omega)

theorem onBus_init : OnBus base init where
  index := by decide
  quiet := fun _ _ => ⟨rfl, rfl⟩
  write := nofun
  read := nofun
  ack := nofun

theorem onBus_step (h : b.OnBus base) : (b.step base i).OnBus base := by
  generalize hb : b.step base i = b'
  have hmove : Moves base b i b' := by
    rw [← hb]
    exact moves_step
  cases hmove with
  | fetchWrite hs hi ho =>
      exact ⟨Nat.le_of_lt hi, nofun, fun _ => ⟨⟨hi, ho, rfl⟩, rfl, rfl, rfl, nofun⟩, nofun, nofun⟩
  | fetchRead hs hi ho =>
      exact ⟨Nat.le_of_lt hi, nofun, nofun, fun _ => ⟨⟨hi, ho, rfl⟩, rfl, rfl, nofun⟩, nofun⟩
  | wrap hs hi =>
      exact ⟨Nat.zero_le _, fun _ _ => ⟨rfl, rfl⟩, fun hw => absurd hw (ne_of_eq_of_ne hs nofun),
        fun hr => absurd hr (ne_of_eq_of_ne hs nofun),
        fun ha => absurd ha (ne_of_eq_of_ne hs nofun)⟩
  | drive hs ha =>
      obtain ⟨hc, hd, hr, hw, hlines⟩ := h.write hs
      exact ⟨h.index, fun hne => absurd hs hne,
        fun _ => ⟨⟨hc.index, hc.operation, hc.address⟩, hd, rfl, rfl, fun _ => ⟨rfl, rfl⟩⟩,
        fun hr => absurd hr (ne_of_eq_of_ne hs nofun),
        fun ha => absurd ha (ne_of_eq_of_ne hs nofun)⟩
  | ask hs ha =>
      obtain ⟨hc, hw, hr, hlines⟩ := h.read hs
      exact ⟨h.index, fun _ hne => absurd hs hne, fun hw => absurd hw (ne_of_eq_of_ne hs nofun),
        fun _ => ⟨⟨hc.index, hc.operation, hc.address⟩, rfl, rfl, fun _ => rfl⟩,
        fun ha => absurd ha (ne_of_eq_of_ne hs nofun)⟩
  | written hs ha =>
      obtain ⟨hc, _⟩ := h.write hs
      have hindex := toNat_index_succ hc.index
      have hlt := hc.index
      have hle : (b.ammIndex + 1).toNat ≤ b.limit := by omega
      exact ⟨hle, fun _ _ => ⟨rfl, rfl⟩, nofun, nofun, nofun⟩
  | asked hs ha =>
      obtain ⟨hc, _⟩ := h.read hs
      exact ⟨h.index, fun _ _ => ⟨rfl, rfl⟩, nofun, nofun,
        fun _ => ⟨hc.index, hc.operation, hc.address⟩⟩
  | await hs hv =>
      have hc := h.ack hs
      exact ⟨h.index, fun _ _ => ⟨rfl, rfl⟩, fun hw => absurd hw (ne_of_eq_of_ne hs nofun),
        fun hr => absurd hr (ne_of_eq_of_ne hs nofun),
        fun _ => ⟨hc.index, hc.operation, hc.address⟩⟩
  | answered hs hv =>
      have hc := h.ack hs
      have hindex := toNat_index_succ hc.index
      have hlt := hc.index
      have hle : (b.ammIndex + 1).toNat ≤ b.limit := by omega
      exact ⟨hle, fun _ _ => ⟨rfl, rfl⟩, nofun, nofun, nofun⟩
  | start hs =>
      exact ⟨Nat.zero_le _, fun _ _ => ⟨rfl, rfl⟩, nofun, nofun, nofun⟩

end ScanBus

theorem bus_started (base : BitVec 32) (defaultLight : BitVec 5) (byteenable : BitVec 4)
    (inp : Nat → PuInput) (n : Nat) :
    (puRun base defaultLight byteenable inp (n + 1)).bus.ammState ≠ .reset :=
  ScanBus.step_ne_reset

end Mfi.Pu
