import Mfi.Arinc429.Label
import Mfi.Core.Trace

/-!
# The ARINC 429 serialiser

`arinc429_tx.sv`: a word is shifted out on the lines A and B as return-to-zero
symbols. The bit clock `sig_clk` and its double `clk_2x` are registers divided from
the system clock, and the blocks clocked by them run right after the edge of the
system clock that raised them: one step of the model is one system clock cycle,
with the derived edges that it causes.
-/

namespace Mfi.Arinc429

/-! ## The one-shot synchroniser -/

/-- `SYNC_PE.sv`: a rising input becomes one pulse in another clock domain. -/
structure SyncPe where
  latchedAsync : Bool
  syncReg : Bool
  syncClear : Bool
  syncOut : Bool
  deriving DecidableEq, Repr

namespace SyncPe

def reset : SyncPe := ⟨false, false, false, false⟩

/-- A rising edge of `i_async_in`. -/
def asyncEdge (p : SyncPe) : SyncPe := { p with latchedAsync := !p.syncClear }

/-- A rising edge of `i_clk`. When `sync_clear` rises it resets both latches at once. -/
def clkEdge (p : SyncPe) : SyncPe where
  latchedAsync := p.latchedAsync && !(p.syncReg && !p.syncClear)
  syncReg := !(p.syncReg && !p.syncClear) && !p.syncClear && (p.latchedAsync || p.syncReg)
  syncClear := p.syncReg && !p.syncClear
  syncOut := p.syncReg && !p.syncClear

end SyncPe

/-! ## Registers -/

inductive TxState where
  | idle
  | send
  | done
  deriving DecidableEq, Repr

structure TxPort where
  sinkTxValid : Bool
  sinkTxData : Word
  speed : BitVec 2

structure Line where
  a : Bool
  b : Bool
  deriving DecidableEq, Repr

def Line.null : Line := ⟨false, false⟩

def Line.symbol (bit : Bool) : Line := ⟨bit, !bit⟩

structure Arinc429Tx where
  stateAvlTx : TxState
  clkDevider : Nat
  cntClk : Nat
  clk2x : Bool
  sigClk : Bool
  cntBit : Nat
  sigBusy : Bool
  sigBusyD1 : Bool
  sigData : Word
  sigDataShift : Word
  sigBit : Bool
  sigPar : Bool
  line : Line
  syncPeSigAvs : SyncPe
  syncPeAvsSig : SyncPe
  deriving DecidableEq, Repr

/-- A quarter of the bit time of each speed, in cycles of the system clock, on the 17
bits of the divider. -/
def txDevider (inAvsClk : Nat) (speed : BitVec 2) : Nat :=
  (if speed = 1#2 then inAvsClk / 12500 / 4
  else if speed = 2#2 then inAvsClk / 50000 / 4
  else if speed = 3#2 then inAvsClk / 100000 / 4
  else 0) % 131072

namespace Arinc429Tx

/-- The registers while `rst_n` is low; only the divider is outside this reset. -/
def reset (clkDevider : Nat) : Arinc429Tx where
  stateAvlTx := .idle
  clkDevider := clkDevider
  cntClk := 0
  clk2x := false
  sigClk := false
  cntBit := 0
  sigBusy := false
  sigBusyD1 := false
  sigData := 0xfacedead#32
  sigDataShift := 0xfacedead#32
  sigBit := false
  sigPar := false
  line := .null
  syncPeSigAvs := .reset
  syncPeAvsSig := .reset

/-- `o_sink_tx_ready`. -/
def sinkTxReady (s : Arinc429Tx) : Bool :=
  decide (s.stateAvlTx = .idle) && decide (s.clkDevider ≠ 0)

/-- `o_arinc429_tx_SLP`. -/
def slp (inAvsClk : Nat) (s : Arinc429Tx) : Bool := decide (s.clkDevider ≠ inAvsClk / 12500 / 4)

/-! ## The edges -/

/-- A rising edge of `sig_clk`. -/
def bitEdge (s : Arinc429Tx) : Arinc429Tx :=
  let startSendPe := s.syncPeAvsSig.syncOut
  { s with
    cntBit := if startSendPe then 31 else s.cntBit - 1
    sigBusy := startSendPe || decide (0 < s.cntBit)
    sigBusyD1 := s.sigBusy
    sigDataShift := if 0 < s.cntBit then s.sigDataShift >>> 1 else s.sigData
    sigBit := if 0 < s.cntBit then s.sigDataShift.getLsbD 0 else !s.sigPar
    sigPar := if 0 < s.cntBit then s.sigDataShift.getLsbD 0 ^^ s.sigPar else false
    syncPeAvsSig := s.syncPeAvsSig.clkEdge
    -- `!sig_busy_d1` rises
    syncPeSigAvs :=
      if s.sigBusyD1 && !s.sigBusy then s.syncPeSigAvs.asyncEdge else s.syncPeSigAvs }

/-- A rising edge of `clk_2x`; every second one raises `sig_clk`. -/
def halfEdge (s : Arinc429Tx) : Arinc429Tx :=
  let n :=
    { s with
      sigClk := !s.sigClk
      line := ⟨s.sigBusyD1 && (s.sigBit && s.sigClk), s.sigBusyD1 && (!s.sigBit && s.sigClk)⟩ }
  if s.sigClk then n else n.bitEdge

/-- The registers clocked by `i_avs_clk`. The send state is latched for the bit clock
when it is entered. -/
def avsEdge (s : Arinc429Tx) (i : TxPort) (clkDevider : Nat) : Arinc429Tx :=
  { s with
    stateAvlTx :=
      match s.stateAvlTx with
      | .idle => if i.sinkTxValid then .send else .idle
      | .send => if s.syncPeSigAvs.syncOut then .done else .send
      | .done => .idle
    clkDevider := clkDevider
    cntClk := if s.cntClk < s.clkDevider - 1 then (s.cntClk + 1) % 65536 else 0
    clk2x := if s.cntClk ≥ s.clkDevider - 1 then !s.clk2x else s.clk2x
    sigData := if s.stateAvlTx = .idle then i.sinkTxData else s.sigData
    syncPeSigAvs := s.syncPeSigAvs.clkEdge
    syncPeAvsSig :=
      if s.stateAvlTx = .idle ∧ i.sinkTxValid = true then s.syncPeAvsSig.asyncEdge
      else s.syncPeAvsSig }

/-- One cycle of the system clock. `rst_n` is low while the divider is zero. -/
def step (inAvsClk : Nat) (s : Arinc429Tx) (i : TxPort) : Arinc429Tx :=
  let clkDevider :=
    if s.stateAvlTx ≠ .send then txDevider inAvsClk i.speed else s.clkDevider
  if s.clkDevider = 0 ∨ clkDevider = 0 then .reset clkDevider
  else
    let n := s.avsEdge i clkDevider
    if n.clk2x && !s.clk2x then n.halfEdge else n

end Arinc429Tx

end Mfi.Arinc429
