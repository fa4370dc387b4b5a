import Mfi.Arinc429.RxSpacing
import Mfi.Arinc429.TxController

/-!
# The ARINC 429 block on its bus

`arinc429.sv`: sixteen receive and six transmit channels behind an Avalon slave. The
address of an access is held in registers until the next access; the strobes of the
channels are registers as well, set one cycle after the access and cleared only
while the registers still point at their channel.
-/

namespace Mfi.Arinc429

/-! ## Addresses -/

structure Target where
  addr : BitVec 12
  recTransNumber : Fin 16
  recieverTransmitter : Bool
  confBit : Bool
  deriving DecidableEq

namespace Target

def ofAddress (a : BitVec 21) : Target where
  addr := a.extractLsb' 0 12
  recTransNumber := (a.extractLsb' 16 4).toFin
  recieverTransmitter := a.getLsbD 20
  confBit := a.getLsbD 14

/-- The control register with number `k` of a channel. -/
def register (t : Target) (k : BitVec 4) : Bool :=
  t.confBit && t.addr.extractLsb' 4 2 == 0#2 && t.addr.extractLsb' 0 4 == k

/-- The interrupt register of receive channel `c`. -/
def rxIntFlag (t : Target) (c : Fin 16) : Bool :=
  t.register 8#4 && !t.recieverTransmitter && t.recTransNumber == c

/-- The label mask of a channel. The bit for transmitters is not looked at. -/
def maskSpace (t : Target) : Bool :=
  t.confBit && (t.addr.extractLsb' 4 2 == 1#2 || t.addr.extractLsb' 4 2 == 2#2)

def flagsSpace (t : Target) : Bool :=
  t.confBit && (t.addr.extractLsb' 4 2 == 3#2 || t.addr.getLsbD 6)

/-- `mask_addr`. -/
def maskAddr (t : Target) : Nat := 4 * (t.addr.getLsbD 5).toNat + (t.addr.extractLsb' 2 2).toNat

/-- `flags_addr`. -/
def flagsAddr (t : Target) : Nat :=
  8 + 4 * (t.addr.getLsbD 6).toNat + (t.addr.extractLsb' 2 2).toNat

theorem maskAddr_lt (t : Target) : t.maskAddr < 8 := by
  have hlow := (t.addr.extractLsb' 2 2).isLt
  unfold maskAddr
  cases t.addr.getLsbD 5 <;> simp <;> omega

end Target

/-! ## The bus registers -/

structure HostPort where
  amsWrite : Bool
  amsRead : Bool
  amsAddress : BitVec 21
  amsWritedata : Word

namespace HostPort

def accesses (h : HostPort) : Bool := h.amsWrite || h.amsRead

def target (h : HostPort) : Target := .ofAddress h.amsAddress

end HostPort

/-- The registers of the interface; `rd0..rd3` are the bits of `rd`. -/
structure BusRegs where
  target : Target
  wr : Bool
  rd0 : Bool
  rd1 : Bool
  rd2 : Bool
  rd3 : Bool
  wrData : Word
  rxMaskWr : Fin 16 → Bool
  rxBufRd : Fin 16 → Bool
  trBufWr : Fin 6 → Bool
  irqClear : Fin 16 → Bool
  irqClearTx : Fin 6 → Bool

namespace BusRegs

def init : BusRegs where
  target := ⟨0, 0, false, false⟩
  wr := false
  rd0 := false
  rd1 := false
  rd2 := false
  rd3 := false
  wrData := 0
  rxMaskWr := fun _ => false
  rxBufRd := fun _ => false
  trBufWr := fun _ => false
  irqClear := fun _ => false
  irqClearTx := fun _ => false

def step (s : BusRegs) (h : HostPort) : BusRegs where
  target := if h.accesses then h.target else s.target
  wr := h.amsWrite
  rd0 := h.amsRead
  rd1 := s.rd0
  rd2 := s.rd1
  rd3 := s.rd2
  wrData := if h.amsWrite then h.amsWritedata else s.wrData
  rxMaskWr := fun c =>
    if s.target.maskSpace && s.target.recTransNumber == c then s.wr else s.rxMaskWr c
  rxBufRd := fun c =>
    if s.target.recTransNumber = c then
      s.rd0 && !s.target.recieverTransmitter && !s.target.confBit
    else s.rxBufRd c
  -- a number that is no transmit channel selects none
  trBufWr := fun y =>
    if s.target.recTransNumber.val = y.val then
      s.wr && s.target.recieverTransmitter && !s.target.confBit
    else s.trBufWr y
  irqClear := fun c => if s.target.rxIntFlag c then s.rd3 else s.irqClear c
  irqClearTx := fun y =>
    if s.target.register 8#4 && s.target.recieverTransmitter &&
        s.target.recTransNumber.val == y.val then
      s.rd3
    else s.irqClearTx y

end BusRegs

/-! ## The channels -/

/-- A receive channel: `arinc_rx_controller` with its `arinc429_rx`. -/
structure RxChannel where
  receiver : Arinc429Rx
  controller : RxController

/-- The interrupt register of a transmit channel; its other bits are not driven. -/
def TxController.txintflag (s : TxController) : BitVec 27 :=
  0#1 ++ s.txintflagFree ++ 0#13 ++ BitVec.ofBool s.txintflag2 ++ BitVec.ofBool s.txintflag1 ++
    BitVec.ofBool s.txintflag0

structure SlaveInput where
  host : HostPort
  /-- `InputA` and `InputB` of each receive channel. -/
  line : Fin 16 → Line
  fifoDelay : Fin 6 → FifoDelay

structure Slave where
  bus : BusRegs
  rxconfig : Fin 16 → BitVec 27
  rxintmask : Fin 16 → BitVec 6
  txconfig : Fin 6 → BitVec 27
  txintmask : Fin 6 → BitVec 4
  testAB : BitVec 2
  amsReaddata : Word
  rx : Fin 16 → RxChannel
  tx : Fin 6 → TxController

namespace Slave

/-- The registers after power-up and reset, over given contents of the memories. -/
def init (buffer maskFlags : Fin 16 → Nat → Word) : Slave where
  bus := .init
  rxconfig := fun _ => 0
  rxintmask := fun _ => 0
  txconfig := fun _ => 0
  txintmask := fun _ => 0
  testAB := 0
  amsReaddata := 0
  rx := fun c => ⟨.reset 0 false, .reset (buffer c) (maskFlags c)⟩
  tx := fun _ => .reset

/-- The ports of receive controller `c`. -/
def rxInput (s : Slave) (c : Fin 16) : RxInput where
  rxconfig := (s.rxconfig c).extractLsb' 0 8
  irqClear := s.bus.irqClear c
  buferData := s.bus.wrData
  buferAddr := (s.bus.target.addr.extractLsb' 2 10).toNat
  buferRd := s.bus.rxBufRd c
  flagMaskAddr := if s.bus.rxMaskWr c then s.bus.target.maskAddr else s.bus.target.flagsAddr
  flagMaskWe := s.bus.rxMaskWr c
  port := (s.rx c).receiver.port

/-- The ports of transmit controller `y`. -/
def txInput (s : Slave) (i : SlaveInput) (y : Fin 6) : TxInput where
  txconfig :=
    BitVec.ofBool ((s.txconfig y).getLsbD 26) ++ BitVec.ofBool ((s.txconfig y).getLsbD 7) ++
    (s.txconfig y).extractLsb' 0 2
  irqClear := s.bus.irqClearTx y
  buferData := s.bus.wrData
  buferWr := s.bus.trBufWr y
  fifoDelay := i.fifoDelay y

/-- An entry of an array over the transmit channels; there is none for the other numbers. -/
def ofTransmitter {w : Nat} (f : Fin 6 → BitVec w) (c : Fin 16) : BitVec w :=
  if h : c.val < 6 then f ⟨c.val, h⟩ else 0

/-- The interrupt register of receive channel `c`. -/
def rxintflag (s : Slave) (i : SlaveInput) (c : Fin 16) : BitVec 27 :=
  Arinc429.rxintflag (s.rx c).controller ((s.rxconfig c).extractLsb' 0 8) (i.line c).a (i.line c).b

/-- What the next edge loads into `ams_readdata`. -/
def readdata (s : Slave) (i : SlaveInput) : Word :=
  let t := s.bus.target
  let c := t.recTransNumber
  if t.flagsSpace then (s.rx c).controller.ramMask.qA
  else if t.confBit then
    if t.register 0#4 && s.bus.rd2 then
      if t.recieverTransmitter then (ofTransmitter s.txconfig c).setWidth 32
      else (s.rxconfig c).setWidth 32
    else if t.register 8#4 && s.bus.rd2 then
      if t.recieverTransmitter then
        (ofTransmitter (fun y => (s.tx y).txintflag) c).setWidth 32
      else (s.rxintflag i c).setWidth 32
    else 0
  else (s.rx c).controller.ramBuf.qA

/-- One cycle of `clk`. -/
def step (inputFrequency : Nat) (s : Slave) (i : SlaveInput) : Slave :=
  let t := s.bus.target
  let writesRx (k : BitVec 4) (c : Fin 16) : Bool :=
    s.bus.wr && t.register k && !t.recieverTransmitter && t.recTransNumber == c
  let writesTx (k : BitVec 4) (y : Fin 6) : Bool :=
    s.bus.wr && t.register k && t.recieverTransmitter && t.recTransNumber.val == y.val
  { bus := s.bus.step i.host
    rxconfig := fun c =>
      if writesRx 0#4 c then s.bus.wrData.extractLsb' 0 27 else s.rxconfig c
    rxintmask := fun c =>
      if writesRx 4#4 c then s.bus.wrData.extractLsb' 0 6 else s.rxintmask c
    txconfig := fun y =>
      if writesTx 0#4 y then s.bus.wrData.extractLsb' 0 27 else s.txconfig y
    txintmask := fun y =>
      if writesTx 4#4 y then s.bus.wrData.extractLsb' 0 4 else s.txintmask y
    testAB :=
      if s.bus.wr && t.register 0#4 && !t.recieverTransmitter then s.bus.wrData.extractLsb' 4 2
      else s.testAB
    amsReaddata := s.readdata i
    rx := fun c =>
      ⟨(s.rx c).receiver.step inputFrequency ⟨(s.rxconfig c).extractLsb' 0 2, i.line c⟩,
        (s.rx c).controller.step (s.rxInput c)⟩
    tx := fun y => (s.tx y).step inputFrequency (s.txInput i y) }

/-- `ams_readdatavalid`. -/
def amsReaddatavalid (s : Slave) : Bool := s.bus.rd3

/-- `IRQ` of the receive channels. -/
def rxIrq (s : Slave) (c : Fin 16) : Bool :=
  irq (s.rx c).controller ((s.rxintmask c).extractLsb' 0 4)

/-- `IRQ` of the transmit channels. -/
def txIrq (s : Slave) (y : Fin 6) : Bool := (s.tx y).irq (s.txintmask y)

end Slave

end Mfi.Arinc429
