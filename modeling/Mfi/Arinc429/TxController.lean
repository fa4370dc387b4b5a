import Mfi.DcFifo
import Mfi.Arinc429.Transmitter

/-!
# The ARINC 429 transmit controller

`arinc_tx_controller.sv`: host writes go into a FIFO; when the serialiser becomes
ready, the controller waits for a word, reads it and hands it over with a valid
strobe two cycles after the read request.
-/

namespace Mfi.Arinc429

structure TxInput where
  txconfig : BitVec 4
  irqClear : Bool
  buferData : Word
  buferWr : Bool
  fifoDelay : FifoDelay

/-- The registers. `txintflag0..2` are bits of the register `txintflag`, and
`txintflagFree` is its field of free places. -/
structure TxController where
  wrEn : Bool
  trReadySig : BitVec 8
  rdreq : Bool
  rdreqSig : Bool
  wrEnSig0 : Bool
  wrEnSig1 : Bool
  fifoWrSig : Bool
  txintflag0 : Bool
  txintflag1 : Bool
  txintflag2 : Bool
  txintflagFree : BitVec 10
  fifo : DcFifo
  tx : Arinc429Tx

namespace TxController

def reset : TxController where
  wrEn := false
  trReadySig := 0#8
  rdreq := false
  rdreqSig := false
  wrEnSig0 := false
  wrEnSig1 := false
  fifoWrSig := false
  txintflag0 := false
  txintflag1 := false
  txintflag2 := false
  txintflagFree := 0#10
  fifo := .init
  tx := .reset 0

def wordToTrancieve (txconfig : BitVec 4) (q : Word) : Word :=
  if txconfig.getLsbD 2 then q else reverseLabel q

def port (s : TxController) (i : TxInput) : TxPort where
  sinkTxValid := s.wrEnSig1
  sinkTxData := wordToTrancieve i.txconfig s.fifo.q
  speed := i.txconfig.extractLsb' 0 2

/-- A word waits and the serialiser has become ready for it. -/
def pops (s : TxController) : Bool := !s.fifo.empty && s.fifoWrSig

def step (inAvsClk : Nat) (s : TxController) (i : TxInput) : TxController where
  wrEn := s.pops
  trReadySig := s.trReadySig.extractLsb' 0 7 ++ BitVec.ofBool s.tx.sinkTxReady
  rdreq := s.pops
  rdreqSig := s.rdreq
  wrEnSig0 := s.wrEn
  wrEnSig1 := s.wrEnSig0
  fifoWrSig :=
    if s.pops then false
    else if s.tx.sinkTxReady && !s.trReadySig.getLsbD 0 then true
    else if s.trReadySig = 0#8 then false
    else s.fifoWrSig
  txintflag0 := s.fifo.empty
  txintflag1 :=
    !i.irqClear && ((s.tx.sinkTxReady && decide (s.trReadySig = 0#8)) || s.txintflag1)
  txintflag2 := s.fifo.full
  txintflagFree := BitVec.ofNat 10 (512 - s.fifo.usedw)
  fifo := s.fifo.step i.buferData i.buferWr (s.rdreq && !s.rdreqSig) i.fifoDelay
  tx := s.tx.step inAvsClk (s.port i)

/-- `IRQ`. -/
def irq (s : TxController) (txintmask : BitVec 4) : Bool :=
  (s.txintflag0 && txintmask.getLsbD 0) || (s.txintflag1 && txintmask.getLsbD 1) ||
    (s.txintflag2 && txintmask.getLsbD 2)

end TxController

end Mfi.Arinc429
