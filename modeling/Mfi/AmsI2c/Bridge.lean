import Mfi.Core.Trace

/-!
# The I2C bridge

`ams_i2c` takes a command from its Avalon port and plays it on the two lines of an I2C
bus. The port runs on `clock`. A divider gives `i2c_clock`, whose falling edge moves the
master from symbol to symbol and whose rising edge samples the data line, and `i2c_clock_2x`,
whose rising edges, in the middle of the low and of the high half, move the lines. The
edges of the divided clocks come after the registers of `clock` have changed.
-/

namespace Mfi.AmsI2c

open Core

/-- The inputs of one cycle of `clock`. The slaves release a line or pull it down. -/
structure BridgeInput where
  amsWrite : Bool
  amsRead : Bool
  amsAddress : BitVec 16
  amsWritedata : BitVec 8
  sclReleased : Bool
  sdaReleased : Bool

/-! ## The divided clocks -/

structure Divider where
  i2cClocks : BitVec 3
  i2cClockCnt : BitVec 32

namespace Divider

def init : Divider := ⟨0, 0⟩

def i2cClock (d : Divider) : Bool := d.i2cClocks.getLsbD 2

def i2cClock2x (d : Divider) : Bool := d.i2cClocks.getLsbD 1

/-- One cycle; `i2c_clock_time` cycles for each count. -/
def step (d : Divider) (i2cClockTime : BitVec 32) : Divider :=
  if d.i2cClockCnt < i2cClockTime - 1 then { d with i2cClockCnt := d.i2cClockCnt + 1 }
  else ⟨d.i2cClocks + 1, 0⟩

end Divider

/-! ## The Avalon port -/

inductive AmsState where
  | idle
  | wait
  | write
  | read
  | reset
deriving DecidableEq

structure Port where
  amsState : AmsState
  i2cWrite : Bool
  i2cRead : Bool
  i2cAddress : BitVec 16
  i2cWritedata : BitVec 8
  amsWaitrequest : Bool
  amsReaddatavalid : Bool
  amsReaddata : BitVec 8

namespace Port

def init : Port := ⟨.reset, false, false, 0, 0, true, false, 0⟩

/-- One cycle. A read with bit 8 of the address set returns the error bits of the master. -/
def step (p : Port) (i : BridgeInput) (i2cBusyLatch i2cDevError i2cRegError : Bool)
    (i2cReaddata : BitVec 8) : Port :=
  match p.amsState with
  | .idle =>
      let q := { p with amsReaddatavalid := false, amsReaddata := 0 }
      if i2cBusyLatch then q
      else if i.amsWrite then
        { q with
          i2cWrite := true, i2cRead := false, i2cAddress := i.amsAddress
          i2cWritedata := i.amsWritedata, amsWaitrequest := false, amsState := .wait }
      else if i.amsRead then
        { q with
          i2cWrite := false, i2cRead := true, i2cAddress := i.amsAddress
          i2cWritedata := 0, amsWaitrequest := false, amsState := .wait }
      else
        { q with
          i2cWrite := false, i2cRead := false, i2cAddress := 0, i2cWritedata := 0
          amsWaitrequest := true }
  | .wait =>
      let q := { p with amsWaitrequest := true, amsReaddatavalid := false, amsReaddata := 0 }
      if i2cBusyLatch then
        { q with
          amsState := if p.i2cWrite then .write else if p.i2cRead then .read else .reset
          i2cWrite := false, i2cRead := false }
      else q
  | .write =>
      { p with
        amsState := if i2cBusyLatch then .write else .idle
        i2cWrite := false, i2cRead := false, amsWaitrequest := true
        amsReaddatavalid := false, amsReaddata := 0 }
  | .read =>
      let q := { p with i2cWrite := false, i2cRead := false, amsWaitrequest := true }
      if i2cBusyLatch then q
      else
        { q with
          amsReaddatavalid := true
          amsReaddata :=
            if p.i2cAddress.getLsbD 8 then 0#6 ++ BitVec.ofBool i2cRegError ++
              BitVec.ofBool i2cDevError
            else i2cReaddata
          amsState := .idle }
  | .reset =>
      { p with
        i2cWrite := false, i2cRead := false, i2cAddress := 0, i2cWritedata := 0
        amsWaitrequest := true, amsState := .idle }

end Port

/-! ## The samples of the rising edge -/

/-- The request as it is seen by the master, and the data line. -/
structure Samples where
  i2cWriteMeta : Bool
  i2cWriteLatch : Bool
  i2cReadMeta : Bool
  i2cReadLatch : Bool
  i2cDataIn : Bool

namespace Samples

def init : Samples := ⟨false, false, false, false, true⟩

def step (a : Samples) (i2cWrite i2cRead sda : Bool) : Samples :=
  ⟨i2cWrite, a.i2cWriteMeta, i2cRead, a.i2cReadMeta, sda⟩

end Samples

/-! ## The master -/

inductive I2cState where
  | idle
  | start
  | restart
  | data
  | ack
  | stop
  | reset
deriving DecidableEq

inductive WordState where
  | device
  | address
  | write
  | read
  | reset
deriving DecidableEq

structure Master where
  i2cState : I2cState
  i2cWord : WordState
  i2cReadOp : Bool
  i2cReadBit : Bool
  i2cBitCnt : BitVec 3
  i2cShiftData : BitVec 8
  i2cReaddata : BitVec 8
  i2cBusy : Bool
  i2cDevError : Bool
  i2cRegError : Bool

namespace Master

def init : Master := ⟨.reset, .reset, false, false, 0, 0, 0, false, false, false⟩

def ack (m : Master) (i2cAddress : BitVec 16) (i2cWritedata : BitVec 8) (i2cDataIn : Bool) :
    Master :=
  let stop := { m with i2cReadBit := false, i2cWord := .reset, i2cState := .stop, i2cBusy := true }
  match m.i2cWord with
  | .device =>
      if !i2cDataIn then
        { m with
          i2cWord := if m.i2cReadBit then .read else .address
          i2cDevError := false, i2cRegError := false, i2cBitCnt := 7
          i2cShiftData := i2cAddress.extractLsb' 0 8, i2cState := .data, i2cReaddata := 0
          i2cBusy := true }
      else { stop with i2cDevError := true, i2cRegError := false, i2cReaddata := 0 }
  | .address =>
      if !i2cDataIn then
        if m.i2cReadOp then
          { m with
            i2cReadBit := true, i2cWord := .device, i2cState := .restart, i2cReaddata := 0
            i2cBusy := true }
        else
          { m with
            i2cReadBit := false, i2cBitCnt := 7, i2cShiftData := i2cWritedata, i2cWord := .write
            i2cState := .data, i2cReaddata := 0, i2cBusy := true }
      else { stop with i2cDevError := false, i2cRegError := true, i2cReaddata := 0 }
  | .read => { stop with i2cDevError := false, i2cRegError := false, i2cReaddata := m.i2cShiftData }
  | _ => { stop with i2cDevError := false, i2cRegError := false, i2cReaddata := 0 }

/-- A falling edge of `i2c_clock`. -/
def step (m : Master) (i2cAddress : BitVec 16) (i2cWritedata : BitVec 8)
    (i2cWriteLatch i2cReadLatch i2cDataIn i2cWait : Bool) : Master :=
  match m.i2cState with
  | .idle =>
      let q :=
        { m with
          i2cBusy := false, i2cReadBit := false, i2cDevError := false, i2cRegError := false
          i2cBitCnt := 0, i2cShiftData := 0 }
      if i2cWriteLatch || i2cReadLatch then
        { q with i2cReadOp := i2cReadLatch, i2cWord := .device, i2cState := .start }
      else q
  | .start | .restart =>
      { m with
        i2cBitCnt := 7, i2cShiftData := i2cAddress.extractLsb' 9 7 ++ BitVec.ofBool m.i2cReadBit
        i2cReaddata := 0, i2cBusy := true, i2cState := .data }
  | .data =>
      let q :=
        { m with
          i2cReaddata := 0, i2cBusy := true
          i2cShiftData := m.i2cShiftData.extractLsb' 0 7 ++ BitVec.ofBool i2cDataIn }
      if 0 < m.i2cBitCnt then if i2cWait then q else { q with i2cBitCnt := m.i2cBitCnt - 1 }
      else { q with i2cState := .ack }
  | .ack => m.ack i2cAddress i2cWritedata i2cDataIn
  | .stop => { m with i2cBusy := true, i2cWord := .reset, i2cState := .idle }
  | .reset => { init with i2cState := .idle }

end Master

/-! ## The lines -/

structure Lines where
  i2cClockEn : Bool
  i2cData : Bool
  i2cWait : Bool

namespace Lines

/-- After reset. The wait register has no reset value. -/
def init (i2cWait : Bool) : Lines := ⟨false, true, i2cWait⟩

/-- A rising edge of `i2c_clock_2x`, in one of the halves of `i2c_clock`. -/
def step (l : Lines) (m : Master) (i2cClock i2cClockIn : Bool) : Lines :=
  let w := i2cClock && !i2cClockIn
  match m.i2cState with
  | .start | .restart => ⟨l.i2cClockEn || i2cClock, !i2cClock, w⟩
  | .data => ⟨true, if m.i2cWord = .read then true else m.i2cShiftData.getLsbD 7, w⟩
  | .ack => ⟨true, true, w⟩
  | .stop => ⟨l.i2cClockEn && !i2cClock, i2cClock, w⟩
  | _ => ⟨false, true, w⟩

end Lines

/-! ## The bridge -/

structure BridgeRegs where
  divider : Divider
  i2cBusyMeta : Bool
  i2cBusyLatch : Bool
  port : Port
  samples : Samples
  master : Master
  lines : Lines

namespace BridgeRegs

def init (i2cWait : Bool) : BridgeRegs :=
  ⟨.init, false, false, .init, .init, .init, .init i2cWait⟩

def scl (s : BridgeRegs) : Bool := !(s.lines.i2cClockEn && !s.divider.i2cClock)

def sda (s : BridgeRegs) : Bool := s.lines.i2cData

/-- The registers of `clock`. -/
def clocked (s : BridgeRegs) (i2cClockTime : BitVec 32) (i : BridgeInput) : BridgeRegs :=
  { s with
    divider := s.divider.step i2cClockTime
    i2cBusyMeta := s.master.i2cBusy
    i2cBusyLatch := s.i2cBusyMeta
    port := s.port.step i s.i2cBusyLatch s.master.i2cDevError s.master.i2cRegError
      s.master.i2cReaddata }

/-- This cycle makes a rising edge of `i2c_clock`. -/
def rises (s : BridgeRegs) (i2cClockTime : BitVec 32) : Bool :=
  !s.divider.i2cClock && (s.divider.step i2cClockTime).i2cClock

/-- This cycle makes a falling edge of `i2c_clock`. -/
def falls (s : BridgeRegs) (i2cClockTime : BitVec 32) : Bool :=
  s.divider.i2cClock && !(s.divider.step i2cClockTime).i2cClock

/-- This cycle makes a rising edge of `i2c_clock_2x`. -/
def rises2x (s : BridgeRegs) (i2cClockTime : BitVec 32) : Bool :=
  !s.divider.i2cClock2x && (s.divider.step i2cClockTime).i2cClock2x

/-- One cycle of `clock`, with the edges of the divided clocks that it makes. -/
def step (i2cClockTime : BitVec 32) (s : BridgeRegs) (i : BridgeInput) : BridgeRegs :=
  let t := s.clocked i2cClockTime i
  if s.rises i2cClockTime then
    { t with samples := t.samples.step t.port.i2cWrite t.port.i2cRead (t.sda && i.sdaReleased) }
  else if s.falls i2cClockTime then
    { t with
      master := t.master.step t.port.i2cAddress t.port.i2cWritedata t.samples.i2cWriteLatch
        t.samples.i2cReadLatch t.samples.i2cDataIn t.lines.i2cWait }
  else if s.rises2x i2cClockTime then
    { t with lines := t.lines.step t.master t.divider.i2cClock (t.scl && i.sclReleased) }
  else t

end BridgeRegs

def bridgeRun (i2cClockTime : BitVec 32) (i2cWait : Bool) (inp : Nat → BridgeInput) :
    Nat → BridgeRegs :=
  trace (BridgeRegs.step i2cClockTime) (BridgeRegs.init i2cWait) inp

theorem bridgeRun_succ (i2cClockTime : BitVec 32) (i2cWait : Bool) (inp : Nat → BridgeInput)
    (n : Nat) :
    bridgeRun i2cClockTime i2cWait inp (n + 1) =
      (bridgeRun i2cClockTime i2cWait inp n).step i2cClockTime (inp n) := rfl

end Mfi.AmsI2c
