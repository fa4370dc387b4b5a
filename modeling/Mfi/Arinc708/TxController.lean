import Mfi.Core.Trace
import Mfi.DcFifo
import Mfi.Arinc708.Transmitter

/-!
# The ARINC 708 transmit controller

`arinc708_tx_controller.sv`: host writes go into a show-ahead FIFO. While the
serialiser is idle and a word waits, the controller raises valid; every ready pulse
of the serialiser takes the word at the FIFO output and removes it.
-/

namespace Mfi.Arinc708

structure TxInput where
  txconfig : BitVec 4
  irqClear : Bool
  buferData : Word
  buferWr : Bool
  fifoDelay : FifoDelay

/-- The registers; `txintflag1` is a bit of the register `txintflag`. -/
structure TxController where
  wrEn : Bool
  trReadySig : Bool
  rdreq : Bool
  rdreqSig : Bool
  wrEnSig0 : Bool
  wrEnSig1 : Bool
  fifoWrSig : Bool
  enable0 : Bool
  enable1 : Bool
  txintflag1 : Bool
  fifo : DcFifo
  tx : Arinc708Tx

namespace TxController

/-- The registers after reset. The clear input of the FIFO is not connected, so that
it keeps its words. -/
def reset (fifo : DcFifo) : TxController where
  wrEn := false
  trReadySig := false
  rdreq := false
  rdreqSig := false
  wrEnSig0 := false
  wrEnSig1 := false
  fifoWrSig := false
  enable0 := false
  enable1 := false
  txintflag1 := false
  fifo := fifo
  tx := .reset false

/-- `busy`: the host fills the FIFO. -/
def busy (i : TxInput) : Bool := i.txconfig.getLsbD 3

/-- `q` of the show-ahead FIFO: its oldest word. -/
def qSig (s : TxController) : Word := s.fifo.visible.headD s.fifo.q

def port (s : TxController) (i : TxInput) : TxPort where
  sinkTxValid := s.wrEnSig1
  sinkTxData := s.qSig
  en := i.txconfig.getLsbD 0

def reads (s : TxController) : Bool := s.rdreq && !s.rdreqSig

/-- One cycle of `clk`. -/
def step (inAvsClk : Nat) (s : TxController) (i : TxInput) : TxController where
  wrEn := !busy i && !s.fifo.empty && s.fifoWrSig && !s.tx.txActive
  trReadySig := s.tx.sinkTxReadyPe
  rdreq := s.tx.sinkTxReadyPe && !s.trReadySig
  rdreqSig := s.rdreq
  wrEnSig0 := s.wrEn
  wrEnSig1 := s.wrEnSig0
  fifoWrSig := s.enable0 && s.enable1
  enable0 := i.txconfig.getLsbD 0
  enable1 := s.enable0
  txintflag1 := !i.irqClear && (s.tx.txComplPe || s.txintflag1)
  fifo := s.fifo.step i.buferData i.buferWr s.reads i.fifoDelay
  tx := s.tx.step inAvsClk (s.port i)

/-- `IRQ`. -/
def irq (s : TxController) (txintmask : BitVec 4) : Bool :=
  s.txintflag1 && txintmask.getLsbD 1

end TxController

end Mfi.Arinc708
