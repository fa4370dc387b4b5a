import Mfi.Core.Trace
import Mfi.Pu.Commands

/-!
# The scan machine of the panel unit

The machine takes one table entry after the other. It puts the entry on the bus of the
I2C bridge until it is accepted, and after a read it waits for the response. When the
response to a status read tells of no error, the byte of the read before it is sampled;
which register it belongs to is told by the index alone. Between two entries the machine
looks at the requests of the host.
-/

namespace Mfi.Pu

open Core

inductive AmmState where
  | idle
  | write
  | read
  | ack
  | reset
deriving DecidableEq

structure AmmInput where
  ammWaitrequest : Bool
  ammReaddatavalid : Bool
  ammReaddata : BitVec 8

/-! ## The bus -/

structure ScanBus where
  ammState : AmmState
  ammInitDone : Bool
  ammTransaction : Bool
  ammIndex : BitVec 8
  ammAddressD : BitVec 32
  ammDataD : BitVec 8
  ammWrite : Bool
  ammRead : Bool
  ammAddress : BitVec 32
  ammWritedata : BitVec 8

namespace ScanBus

def init : ScanBus := ⟨.reset, false, false, 0, 0, 0, false, false, 0, 0⟩

def release (b : ScanBus) : ScanBus :=
  { b with ammWrite := false, ammRead := false, ammAddress := 0, ammWritedata := 0 }

def fetch (b : ScanBus) (base : BitVec 16) (e : OpEntry) : ScanBus :=
  match e.operation with
  | .write =>
      { b with
        ammAddressD := base ++ e.device ++ e.register, ammDataD := e.data, ammState := .write }
  | .read => { b with ammAddressD := base ++ e.device ++ e.register, ammState := .read }

/-- The next entry of the tables. The entries of `work_array` come without base address. -/
def next (b : ScanBus) (base : BitVec 32) : ScanBus :=
  if !b.ammInitDone then
    if b.ammIndex < 12 then b.fetch (base.extractLsb' 16 16) (entryAt initArray b.ammIndex)
    else { b with ammInitDone := true, ammIndex := 0 }
  else if b.ammIndex < 44 then b.fetch 0 (entryAt workArray b.ammIndex)
  else { b with ammIndex := 0 }

def accepts (b : ScanBus) (i : AmmInput) : Bool := !i.ammWaitrequest && b.ammTransaction

def step (b : ScanBus) (base : BitVec 32) (i : AmmInput) : ScanBus :=
  match b.ammState with
  | .idle => { (b.next base).release with ammTransaction := false }
  | .write =>
      if b.accepts i then { b.release with ammIndex := b.ammIndex + 1, ammState := .idle }
      else
        { b with
          ammWrite := true, ammRead := false, ammAddress := b.ammAddressD
          ammWritedata := b.ammDataD, ammTransaction := true }
  | .read =>
      if b.accepts i then { b.release with ammState := .ack }
      else
        { b with
          ammWrite := false, ammRead := true, ammAddress := b.ammAddressD
          ammWritedata := 0, ammTransaction := true }
  | .ack =>
      let c := { b.release with ammTransaction := false }
      if i.ammReaddatavalid then
        { c with ammDataD := i.ammReaddata, ammIndex := b.ammIndex + 1, ammState := .idle }
      else c
  | .reset =>
      { b.release with
        ammTransaction := false, ammAddressD := 0, ammDataD := 0, ammInitDone := false
        ammIndex := 0, ammState := .idle }

/-- The byte of the read before is sampled: a response without error bits. -/
def samples (b : ScanBus) (i : AmmInput) : Bool :=
  b.ammState == .ack && i.ammReaddatavalid && b.ammInitDone && i.ammReaddata.extractLsb' 0 2 == 0#2

end ScanBus

/-! ## The sampled registers -/

/-- A word with the bits from `lo` on replaced by those of `v`. -/
def setBits {n w : Nat} (x : BitVec n) (lo : Nat) (v : BitVec w) : BitVec n :=
  (x &&& ~~~((BitVec.allOnes w).setWidth n <<< lo)) ||| (v.setWidth n <<< lo)

structure Sampled where
  puTypeReg : BitVec 2
  buttonsState : BitVec 40
  illuminanceLeft : BitVec 12
  illuminanceRight : BitVec 12
  pwrStatusMcu : BitVec 4
  lightMcu : BitVec 5
deriving DecidableEq

/-- What a byte is sampled to. The buttons of a column have their place in `buttons_state`. -/
inductive Target where
  | puTypeReg
  | buttonsState (lo : Nat)
  | encoders
  | illuminanceLeftHigh
  | illuminanceLeftLow
  | illuminanceRightHigh
  | illuminanceRightLow
  | pwrStatusMcu
  | lightMcuHigh
  | lightMcuLow
deriving DecidableEq

/-- The case on `amm_index`. -/
def targetAt (index : BitVec 8) : Option Target :=
  match index.toNat with
  | 1 => some .puTypeReg
  | 4 => some (.buttonsState 35)
  | 7 => some (.buttonsState 30)
  | 10 => some (.buttonsState 25)
  | 14 => some (.buttonsState 20)
  | 17 => some (.buttonsState 15)
  | 20 => some (.buttonsState 10)
  | 23 => some (.buttonsState 5)
  | 26 => some (.buttonsState 0)
  | 29 => some .encoders
  | 31 => some .illuminanceLeftHigh
  | 33 => some .illuminanceLeftLow
  | 35 => some .illuminanceRightHigh
  | 37 => some .illuminanceRightLow
  | 39 => some .pwrStatusMcu
  | 41 => some .lightMcuHigh
  | 43 => some .lightMcuLow
  | _ => none

namespace Sampled

def init : Sampled := ⟨0, 0, 0, 0, 0, 0⟩

def sample (s : Sampled) (d : BitVec 8) : Option Target → Sampled
  | some .puTypeReg => { s with puTypeReg := d.extractLsb' 6 2 }
  | some (.buttonsState lo) =>
      { s with buttonsState := setBits s.buttonsState lo (d.extractLsb' 3 5) }
  | some .illuminanceLeftHigh => { s with illuminanceLeft := setBits s.illuminanceLeft 4 d }
  | some .illuminanceLeftLow =>
      { s with illuminanceLeft := setBits s.illuminanceLeft 0 (d.extractLsb' 0 4) }
  | some .illuminanceRightHigh => { s with illuminanceRight := setBits s.illuminanceRight 4 d }
  | some .illuminanceRightLow =>
      { s with illuminanceRight := setBits s.illuminanceRight 0 (d.extractLsb' 0 4) }
  | some .pwrStatusMcu => { s with pwrStatusMcu := d.extractLsb' 0 4 }
  | some .lightMcuHigh => { s with lightMcu := setBits s.lightMcu 1 (d.extractLsb' 0 4) }
  | some .lightMcuLow => { s with lightMcu := setBits s.lightMcu 0 (d.extractLsb' 7 1) }
  | some .encoders => s
  | none => s

def step (s : Sampled) (b : ScanBus) (i : AmmInput) : Sampled :=
  match b.ammState with
  | .reset => init
  | _ => if b.samples i then s.sample b.ammDataD (targetAt b.ammIndex) else s

end Sampled

/-! ## The encoders -/

theorem fourEncoders_ne_zero : 4 ≠ 0 := by decide

/-- There are four encoders, counted from 0. -/
scoped instance fourEncoders : @NeZero Nat Zero.ofOfNat0 4 := ⟨fourEncoders_ne_zero⟩

def ScanBus.samplesEncoders (b : ScanBus) (i : AmmInput) : Bool :=
  b.samples i && targetAt b.ammIndex == some .encoders

structure Encoder where
  encState : BitVec 2
  encCnt : BitVec 4
  encClearAck : Bool
deriving DecidableEq

namespace Encoder

def init : Encoder := ⟨0, 0, false⟩

/-- The codes `{enc_state, sample}` of a step forward. -/
def stepsUp (code : BitVec 4) : Bool := code = 0x1 || code = 0x7 || code = 0x8 || code = 0xE

def stepsDown (code : BitVec 4) : Bool := code = 0x2 || code = 0x4 || code = 0xB || code = 0xD

/-- A new sample of the two contacts. A count of four bits ends at 7 and at -7. -/
def sample (e : Encoder) (d : BitVec 2) : Encoder :=
  let code := e.encState ++ d
  { e with
    encState := d
    encCnt :=
      if stepsUp code then (if e.encCnt ≠ 7 then e.encCnt + 1 else 7)
      else if stepsDown code then (if e.encCnt ≠ 9 then e.encCnt - 1 else 9)
      else 0 }

/-- The sample of encoder `k` in a byte. -/
def contacts (d : BitVec 8) (k : Fin 4) : BitVec 2 := d.extractLsb' (2 * k.val) 2

def step (e : Encoder) (k : Fin 4) (b : ScanBus) (i : AmmInput) (encClear : Bool) : Encoder :=
  match b.ammState with
  | .idle =>
      if encClear then { e with encCnt := 0, encClearAck := true }
      else { e with encClearAck := false }
  | .ack => if b.samplesEncoders i then e.sample (contacts b.ammDataD k) else e
  | .reset => init
  | _ => e

end Encoder

/-! ## The brightness -/

structure LightRequest where
  lightCntReq : Bool
  lightManualD : Bool
  lightRemoteD : Bool
  lightCntD : BitVec 5
deriving DecidableEq

structure Light where
  lightCntAck : Bool
  lightManual : Bool
  lightRemote : Bool
  lightCnt : BitVec 5
deriving DecidableEq

namespace Light

def init : Light := ⟨false, false, false, 0⟩

/-- A step of encoder 0, whose code is given, turns the brightness. -/
def turn (l : Light) (code : BitVec 4) : Light :=
  if l.lightRemote then l
  else if Encoder.stepsUp code then
    { l with lightCnt := if l.lightCnt < 31 then l.lightCnt + 1 else 31 }
  else if Encoder.stepsDown code then
    { l with lightCnt := if 1 < l.lightCnt then l.lightCnt - 1 else l.lightCnt }
  else l

def step (l : Light) (defaultLight : BitVec 5) (b : ScanBus) (i : AmmInput) (r : LightRequest)
    (encState : BitVec 2) : Light :=
  match b.ammState with
  | .idle =>
      if r.lightCntReq then ⟨true, r.lightManualD, r.lightRemoteD, r.lightCntD⟩
      else { l with lightCntAck := false }
  | .ack =>
      if b.samplesEncoders i then l.turn (encState ++ Encoder.contacts b.ammDataD 0) else l
  | .reset => ⟨false, false, false, defaultLight⟩
  | _ => l

end Light

end Mfi.Pu
