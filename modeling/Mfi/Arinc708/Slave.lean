import Mfi.Arinc708.RxController
import Mfi.Arinc708.TxController

/-!
# The ARINC 708 block on its bus

`arinc708.sv`: two channels, each with a receiver and a transmitter, behind an Avalon slave. The
address of an access is held in registers until the next one; the strobes of a channel are
registers as well, and change only while the registers point at the channel.
-/

namespace Mfi.Arinc708

/-! ## Addresses -/

structure Target where
  addr : BitVec 12
  recTransNumber : Fin 2
  confBit : Bool
  trBufBit : Bool
  deriving DecidableEq

namespace Target

def ofAddress (a : BitVec 17) : Target where
  addr := a.extractLsb' 0 12
  recTransNumber := (a.extractLsb' 16 1).toFin
  confBit := a.getLsbD 14
  trBufBit := a.extractLsb' 11 3 != 0#3

/-- The control register with number `k` of a channel. -/
def register (t : Target) (k : BitVec 4) : Bool :=
  t.confBit && t.addr.extractLsb' 4 2 == 0#2 && t.addr.extractLsb' 0 4 == k

/-- The receive buffer of channel `c`. -/
def rxBuf (t : Target) (c : Fin 2) : Bool := !t.confBit && !t.trBufBit && t.recTransNumber == c

/-- The transmit buffer of channel `y`. -/
def trBuf (t : Target) (y : Fin 2) : Bool := !t.confBit && t.trBufBit && t.recTransNumber == y

end Target

/-! ## The bus registers -/

structure HostPort where
  amsWrite : Bool
  amsRead : Bool
  amsAddress : BitVec 17
  amsWritedata : Word

namespace HostPort

def accesses (h : HostPort) : Bool := h.amsWrite || h.amsRead

def target (h : HostPort) : Target := .ofAddress h.amsAddress

end HostPort

/-- The registers of the interface; `rd0..rd3` are the bits of `rd`. -/
structure BusRegs where
  target : Target
  wr : Bool
  rd0 : Bool
  rd1 : Bool
  rd2 : Bool
  rd3 : Bool
  wrData : Word
  rxBufRd : Fin 2 → Bool
  trBufWr : Fin 2 → Bool
  irqClear : Fin 2 → Bool

namespace BusRegs

def init : BusRegs where
  target := ⟨0, 0, false, false⟩
  wr := false
  rd0 := false
  rd1 := false
  rd2 := false
  rd3 := false
  wrData := 0
  rxBufRd := fun _ => false
  trBufWr := fun _ => false
  irqClear := fun _ => false

def step (s : BusRegs) (h : HostPort) : BusRegs where
  target := if h.accesses then h.target else s.target
  wr := h.amsWrite
  rd0 := h.amsRead
  rd1 := s.rd0
  rd2 := s.rd1
  rd3 := s.rd2
  wrData := if h.amsWrite then h.amsWritedata else s.wrData
  rxBufRd := fun c =>
    if s.target.recTransNumber = c then s.rd0 && !s.target.confBit && !s.target.trBufBit
    else s.rxBufRd c
  trBufWr := fun y =>
    if s.target.recTransNumber = y then s.wr && !s.target.confBit && s.target.trBufBit
    else s.trBufWr y
  irqClear := fun c =>
    if s.target.register 8#4 && s.target.recTransNumber == c then s.rd3 else s.irqClear c

end BusRegs

/-! ## The channels -/

/-- The interrupt register of a transmitter; its other bits are not driven. -/
def TxController.txintflag (s : TxController) : BitVec 27 :=
  0#25 ++ BitVec.ofBool s.txintflag1 ++ 0#1

structure SlaveInput where
  host : HostPort
  /-- `InputA` and `InputB` of each receiver. -/
  line : Fin 2 → Line
  fifoDelay : Fin 2 → FifoDelay

structure Slave where
  bus : BusRegs
  configReg : Fin 2 → BitVec 27
  intmask : Fin 2 → BitVec 6
  rxEn : Fin 2 → Bool
  amsReaddata : Word
  rx : Fin 2 → RxChannel
  tx : Fin 2 → TxController

namespace Slave

/-- The registers after reset, which leaves the configuration and the memories as they are. -/
def init (configReg : Fin 2 → BitVec 27) (buffer : Fin 2 → Nat → Word) (fifo : Fin 2 → DcFifo) :
    Slave where
  bus := .init
  configReg := configReg
  intmask := fun _ => 0
  rxEn := fun _ => false
  amsReaddata := 0
  rx := fun c => .reset (buffer c)
  tx := fun y => .reset (fifo y)

/-- The ports of the receiver of channel `c`. -/
def rxInput (s : Slave) (i : SlaveInput) (c : Fin 2) : ChannelInput where
  rxconfig :=
    0#1 ++ BitVec.ofBool ((s.configReg c).getLsbD 26) ++ BitVec.ofBool ((s.configReg c).getLsbD 0)
  irqClear := s.bus.irqClear c
  buferData := s.bus.wrData
  buferAddr := s.bus.target.addr.extractLsb' 2 10
  buferRd := s.bus.rxBufRd c
  line := i.line c

/-- The ports of the transmitter of channel `y`. -/
def txInput (s : Slave) (i : SlaveInput) (y : Fin 2) : TxInput where
  txconfig :=
    BitVec.ofBool ((s.configReg y).getLsbD 26) ++ BitVec.ofBool ((s.configReg y).getLsbD 7) ++
      BitVec.ofBool ((s.configReg y).getLsbD 2) ++ BitVec.ofBool ((s.configReg y).getLsbD 1)
  irqClear := s.bus.irqClear y
  buferData := s.bus.wrData
  buferWr := s.bus.trBufWr y
  fifoDelay := i.fifoDelay y

/-- What the next edge loads into `ams_readdata`. -/
def readdata (s : Slave) : Word :=
  let t := s.bus.target
  let c := t.recTransNumber
  if t.confBit then
    if t.register 0#4 && s.bus.rd2 then (s.configReg c).setWidth 32
    else if t.register 8#4 && s.bus.rd2 then
      ((s.tx c).txintflag ||| (s.rx c).controller.rxintflag).setWidth 32
    else 0
  else (s.rx c).controller.ramBuf.qA

/-- One cycle of `clk`. -/
def step (inputFrequency : Nat) (s : Slave) (i : SlaveInput) : Slave :=
  let writes (k : BitVec 4) (c : Fin 2) : Bool :=
    s.bus.wr && s.bus.target.register k && s.bus.target.recTransNumber == c
  { bus := s.bus.step i.host
    configReg := fun c =>
      if writes 0#4 c then s.bus.wrData.extractLsb' 0 27 else s.configReg c
    intmask := fun c => if writes 4#4 c then s.bus.wrData.extractLsb' 0 6 else s.intmask c
    rxEn := fun c => if writes 0#4 c then s.bus.wrData.getLsbD 0 else s.rxEn c
    amsReaddata := s.readdata
    rx := fun c => (s.rx c).step inputFrequency (s.rxInput i c)
    tx := fun y => (s.tx y).step inputFrequency (s.txInput i y) }

/-- `ams_readdatavalid`. -/
def amsReaddatavalid (s : Slave) : Bool := s.bus.rd3

/-- `IRQ` of the receivers. -/
def rxIrq (s : Slave) (c : Fin 2) : Bool :=
  (s.rx c).controller.irq (((s.intmask c).extractLsb' 0 3).setWidth 4)

/-- `IRQ` of the transmitters. -/
def txIrq (s : Slave) (y : Fin 2) : Bool :=
  (s.tx y).irq (((s.intmask y).extractLsb' 1 2).setWidth 4)

end Slave

end Mfi.Arinc708
