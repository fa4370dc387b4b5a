import Mfi.Arinc708.Receiver

/-!
# The ARINC 708 serialiser

`arinc708_tx.sv`: a frame is the start sync, fifty words in Manchester code, least
significant bit first, and the inverted sync. The bit clock `clk_a708` is a register
that enables the state machine; half bit times are counted for the syncs.
-/

namespace Mfi.Arinc708

inductive TxState where
  | idle
  | start
  | transmit
  | ending
  deriving DecidableEq, Repr

structure TxPort where
  sinkTxValid : Bool
  sinkTxData : Word
  en : Bool

structure Arinc708Tx where
  rstN : Bool
  currentStateTx : TxState
  bitCnt : Nat
  tmrCntEnQ : Bool
  tmrCnt : Nat
  semiperiodCnt : Nat
  wrdCnt : Nat
  astWrd : Word
  astWrdShift : Word
  sinkTxReadyQ : Bool
  finishQ : Bool
  clkA708 : Bool
  clkA708Q : Bool
  sinkTxValidDel : Bool
  sinkTxValidDelQ : Bool
  deriving DecidableEq, Repr

structure TxComb where
  nextStateTx : TxState
  wrdCntEn : Bool
  bitCntEn : Bool
  sinkTxReady : Bool
  finish : Bool

namespace Arinc708Tx

/-- The registers while `rst_n` is low. -/
def reset (rstN : Bool) : Arinc708Tx where
  rstN := rstN
  currentStateTx := .idle
  bitCnt := 0
  tmrCntEnQ := false
  tmrCnt := 0
  semiperiodCnt := 0
  wrdCnt := 0
  astWrd := 0
  astWrdShift := 0
  sinkTxReadyQ := false
  finishQ := false
  clkA708 := false
  clkA708Q := false
  sinkTxValidDel := false
  sinkTxValidDelQ := false

def comb (s : Arinc708Tx) : TxComb :=
  match s.currentStateTx with
  | .idle =>
      { nextStateTx := if s.sinkTxValidDelQ then .start else .idle
        wrdCntEn := false
        bitCntEn := false
        sinkTxReady := s.sinkTxValidDelQ
        finish := false }
  | .start =>
      { nextStateTx := if s.semiperiodCnt = 5 then .transmit else .start
        wrdCntEn := false
        bitCntEn := false
        sinkTxReady := false
        finish := false }
  | .transmit =>
      let wordEnd := decide (s.bitCnt = 31)
      let frameEnd := wordEnd && decide (s.wrdCnt = dataSize - 1)
      { nextStateTx := if frameEnd then .ending else .transmit
        wrdCntEn := wordEnd
        bitCntEn := !frameEnd
        sinkTxReady := wordEnd && !frameEnd
        finish := false }
  | .ending =>
      { nextStateTx := if s.semiperiodCnt = 5 then .idle else .ending
        wrdCntEn := false
        bitCntEn := false
        sinkTxReady := false
        finish := decide (s.semiperiodCnt = 5) }

/-- `o_sink_tx_ready`. -/
def sinkTxReadyPe (s : Arinc708Tx) : Bool := s.comb.sinkTxReady && !s.sinkTxReadyQ

/-- `o_arinc708_tx_compl_pe`. -/
def txComplPe (s : Arinc708Tx) : Bool := s.comb.finish && !s.finishQ

/-- `o_arinc708_tx_active`. -/
def txActive (s : Arinc708Tx) : Bool := decide (s.currentStateTx ≠ .idle)

def tmrCntEn (inAvsClk : Nat) (s : Arinc708Tx) : Bool :=
  decide (s.tmrCnt ≠ period inAvsClk / 2 - 1)

def clkA708En (s : Arinc708Tx) : Bool := s.clkA708 && !s.clkA708Q

/-- `period_1_5`. -/
def period15 (s : Arinc708Tx) : Bool :=
  !s.tmrCntEnQ && (decide (s.semiperiodCnt = 2) || decide (s.semiperiodCnt = 5))

def line (s : Arinc708Tx) : Line :=
  match s.currentStateTx with
  | .idle => .null
  | .start => .level (decide (s.semiperiodCnt ≤ 2))
  | .transmit => .level (!(s.astWrdShift.getLsbD 0 ^^ s.clkA708Q))
  | .ending => .level (!decide (s.semiperiodCnt ≤ 2))

/-- The registers after an edge with `rst_n` high. -/
def clkEdge (inAvsClk : Nat) (s : Arinc708Tx) (i : TxPort) : Arinc708Tx :=
  let c := s.comb
  { rstN := true
    currentStateTx := if s.clkA708En || s.period15 then c.nextStateTx else s.currentStateTx
    bitCnt :=
      if s.clkA708En then
        if c.bitCntEn then (s.bitCnt + 1) % 32
        else if s.currentStateTx = .idle then 0 else s.bitCnt
      else s.bitCnt
    tmrCntEnQ := s.tmrCntEn inAvsClk
    tmrCnt := if s.tmrCntEn inAvsClk then (s.tmrCnt + 1) % 64 else 0
    semiperiodCnt :=
      if s.tmrCntEnQ then s.semiperiodCnt
      else if s.currentStateTx = .start ∨ s.currentStateTx = .ending then
        (s.semiperiodCnt + 1) % 8
      else 0
    wrdCnt :=
      if s.clkA708En then
        if c.wrdCntEn then (s.wrdCnt + 1) % 64
        else if s.currentStateTx = .idle then 0 else s.wrdCnt
      else s.wrdCnt
    astWrd := if s.sinkTxReadyPe then i.sinkTxData else s.astWrd
    astWrdShift :=
      if s.clkA708En then
        if c.sinkTxReady then s.astWrd
        else if s.currentStateTx = .transmit then s.astWrdShift >>> 1 else s.astWrdShift
      else s.astWrdShift
    sinkTxReadyQ := c.sinkTxReady
    finishQ := c.finish
    clkA708 := if s.tmrCntEn inAvsClk then s.clkA708 else !s.clkA708
    clkA708Q := s.clkA708
    sinkTxValidDel :=
      if i.sinkTxValid then true else if s.sinkTxValidDelQ then false else s.sinkTxValidDel
    sinkTxValidDelQ := if s.clkA708En then s.sinkTxValidDel else s.sinkTxValidDelQ }

/-- One cycle of the system clock. `rst_n` follows the enable by one cycle and resets
the other registers without waiting for the clock. -/
def step (inAvsClk : Nat) (s : Arinc708Tx) (i : TxPort) : Arinc708Tx :=
  if s.rstN && i.en then s.clkEdge inAvsClk i else .reset i.en

end Arinc708Tx

end Mfi.Arinc708
