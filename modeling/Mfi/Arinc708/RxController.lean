import Mfi.Core.Trace
import Mfi.Arinc708.Receiver

/-!
# The ARINC 708 receive controller

`arinc708_rx_controller.sv`: received words go into a RAM of 512 words, used as a
queue by the read pointer `readed_addr` and the offset `diff`; every host read
advances the queue by one word.
-/

namespace Mfi.Arinc708

structure RxPort where
  rxFlag : Bool
  arincDataOut : Word
  parErr : Bool
  packetRecieved : Bool

structure RxInput where
  rxconfig : BitVec 3
  irqClear : Bool
  buferData : Word
  buferAddr : BitVec 10
  buferRd : Bool
  port : RxPort

/-- The registers; `rxintflag0..2` are bits of the register `rxintflag`. -/
structure RxController where
  readedAddr : Nat
  diff : Nat
  buferAddrB : Nat
  buferWeB : Bool
  rxFlagSig : Bool
  buferRdSig : Bool
  rxintflag0 : Bool
  rxintflag1 : Bool
  rxintflag2 : Bool
  ramBuf : DualPortRam

/-- `rxconfig[0]`. -/
def enabled (i : RxInput) : Bool := i.rxconfig.getLsbD 0

namespace RxController

def reset (buffer : Nat → Word) : RxController where
  readedAddr := 0
  diff := 0
  buferAddrB := 0
  buferWeB := false
  rxFlagSig := false
  buferRdSig := false
  rxintflag0 := false
  rxintflag1 := false
  rxintflag2 := false
  ramBuf := .init buffer

/-- The word that was received is free of errors, and is stored. -/
def takes (s : RxController) (i : RxInput) : Bool := s.rxFlagSig && !i.port.parErr

def serves (s : RxController) : Bool := !s.rxFlagSig && s.buferRdSig

/-- One cycle of `clk`. A word comes before a read. -/
def step (s : RxController) (i : RxInput) : RxController where
  readedAddr :=
    if s.serves && decide (s.diff ≠ 0) then (s.readedAddr + 1) % 512
    else if enabled i then s.readedAddr else 0
  diff :=
    if s.takes i then if s.diff = 1023 then s.diff else s.diff + 1
    else if s.serves && decide (s.diff ≠ 0) then s.diff - 1
    else if enabled i then s.diff else 0
  buferAddrB := if s.takes i then (s.readedAddr + s.diff) % 512 else s.buferAddrB
  buferWeB := s.takes i
  rxFlagSig := !s.rxFlagSig && i.port.rxFlag
  buferRdSig := !s.serves && (s.buferRdSig || i.buferRd)
  rxintflag0 := i.port.packetRecieved || (!i.irqClear && s.rxintflag0)
  rxintflag1 := !i.irqClear && s.rxintflag1
  rxintflag2 := (s.rxFlagSig && i.port.parErr) || (!i.irqClear && s.rxintflag2)
  ramBuf := s.ramBuf.clock false (i.buferAddr.toNat % 512) i.buferData
    s.buferWeB s.buferAddrB i.port.arincDataOut

/-- `rxintflag` as the bus reads it; its four upper bits are not driven. -/
def rxintflag (s : RxController) : BitVec 27 :=
  0#4 ++ BitVec.ofNat 10 s.diff ++ BitVec.ofNat 10 s.readedAddr ++ BitVec.ofBool s.rxintflag2 ++
    BitVec.ofBool s.rxintflag1 ++ BitVec.ofBool s.rxintflag0

/-- `IRQ`. -/
def irq (s : RxController) (rxintmask : BitVec 4) : Bool :=
  (s.rxintflag0 && rxintmask.getLsbD 0) || (s.rxintflag1 && rxintmask.getLsbD 1) ||
    (s.rxintflag2 && rxintmask.getLsbD 2)

end RxController

/-! ## The controller with its receiver -/

structure ChannelInput where
  rxconfig : BitVec 3
  irqClear : Bool
  buferData : Word
  buferAddr : BitVec 10
  buferRd : Bool
  line : Line

structure RxChannel where
  receiver : Arinc708Rx
  controller : RxController

namespace RxChannel

def reset (buffer : Nat → Word) : RxChannel := ⟨.reset false, .reset buffer⟩

def pins (i : ChannelInput) : RxPins := ⟨i.rxconfig.getLsbD 0 && !i.rxconfig.getLsbD 1, i.line⟩

def port (inAvsClk : Nat) (s : RxChannel) (i : ChannelInput) : RxPort where
  rxFlag := s.receiver.srcRxValid
  arincDataOut := s.receiver.astWrd
  parErr := s.receiver.rxErrPe
  packetRecieved := s.receiver.rxComplPe inAvsClk i.line

def input (inAvsClk : Nat) (s : RxChannel) (i : ChannelInput) : RxInput where
  rxconfig := i.rxconfig
  irqClear := i.irqClear
  buferData := i.buferData
  buferAddr := i.buferAddr
  buferRd := i.buferRd
  port := s.port inAvsClk i

def step (inAvsClk : Nat) (s : RxChannel) (i : ChannelInput) : RxChannel where
  receiver := s.receiver.step inAvsClk (pins i)
  controller := s.controller.step (s.input inAvsClk i)

end RxChannel

end Mfi.Arinc708
