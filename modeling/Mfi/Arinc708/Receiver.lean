import Mfi.DualPortRam

/-!
# The ARINC 708 receiver

`arinc708_rx.sv`: Manchester-coded frames of fifty words. The state machine waits for
the start sync, then in every bit for the edge in its middle; a missing edge is an
error and the bit is left out of the word.
-/

namespace Mfi.Arinc708

structure Line where
  a : Bool
  b : Bool
  deriving DecidableEq, Repr

def Line.null : Line := ⟨false, false⟩

def Line.level (v : Bool) : Line := ⟨v, !v⟩

/-- The clock of `arinc708.sv`. -/
def inputFrequency : Nat := 62500000

/-- `PERIOD`: the bit time in cycles of the system clock. -/
def period (inAvsClk : Nat) : Nat := inAvsClk / 1000000

theorem period_eq : period inputFrequency = 62 := rfl

/-- `DATA_SIZE`: the words of a frame. -/
def dataSize : Nat := 50

inductive RxState where
  | idle
  | start
  | waitEdge
  | fixBit
  | waitTimer
  | ending
  deriving DecidableEq, Repr

structure RxPins where
  en : Bool
  line : Line

structure Arinc708Rx where
  rstN : Bool
  currentStateRx : RxState
  bitCnt : Nat
  wrdCnt : Nat
  tmrCnt : Nat
  astWrd : Word
  astWrdShift : Word
  astWrdValQ : Bool
  edgeReg : BitVec 4
  edgePos : Bool
  edgeNeg : Bool
  srcRxValid : Bool
  /-- `o_arinc708_rx_err_pe`. -/
  rxErrPe : Bool
  deriving DecidableEq, Repr

structure RxComb where
  nextStateRx : RxState
  wrdCntEn : Bool
  bitCntEn : Bool
  bitCntClr : Bool
  tmrCntEn : Bool
  astWrdVal : Bool
  edgeClr : Bool
  finish : Bool
  syncError : Bool

namespace Arinc708Rx

/-- The registers while `rst_n` is low. -/
def reset (rstN : Bool) : Arinc708Rx where
  rstN := rstN
  currentStateRx := .idle
  bitCnt := 0
  wrdCnt := 0
  tmrCnt := 0
  astWrd := 0
  astWrdShift := 0
  astWrdValQ := false
  edgeReg := 0
  edgePos := false
  edgeNeg := false
  srcRxValid := false
  rxErrPe := false

/-- `jitter_det`: the wires must be inverse. -/
def jitterDet (line : Line) : Bool := line.a == line.b

def comb (inAvsClk : Nat) (s : Arinc708Rx) (line : Line) : RxComb :=
  match s.currentStateRx with
  | .idle =>
      { nextStateRx := if s.edgePos && !jitterDet line then .start else .idle
        wrdCntEn := false
        bitCntEn := false
        bitCntClr := true
        tmrCntEn := false
        astWrdVal := false
        edgeClr := false
        finish := false
        syncError := false }
  | .start =>
      { nextStateRx :=
          if s.bitCnt = 3 ∧ s.tmrCnt = period inAvsClk / 4 then .waitEdge else .start
        wrdCntEn := false
        bitCntEn := decide (s.tmrCnt = period inAvsClk - 1)
        bitCntClr := decide (s.bitCnt = 3 ∧ s.tmrCnt = period inAvsClk / 4)
        tmrCntEn := decide (s.tmrCnt ≠ period inAvsClk - 1)
        astWrdVal := false
        edgeClr := true
        finish := false
        syncError := false }
  | .waitEdge =>
      let edge := (s.edgePos || s.edgeNeg) && !jitterDet line
      { nextStateRx := if edge ∨ s.tmrCnt = period inAvsClk - 1 then .fixBit else .waitEdge
        wrdCntEn := false
        bitCntEn := false
        bitCntClr := false
        tmrCntEn := !edge && decide (s.tmrCnt ≠ period inAvsClk - 1)
        astWrdVal := false
        edgeClr := false
        finish := false
        syncError := !edge && decide (s.tmrCnt = period inAvsClk - 1) }
  | .fixBit =>
      { nextStateRx := .waitTimer
        wrdCntEn := decide (s.bitCnt = 31)
        bitCntEn := true
        bitCntClr := false
        tmrCntEn := true
        astWrdVal := decide (s.bitCnt = 31)
        edgeClr := true
        finish := false
        syncError := false }
  | .waitTimer =>
      let last := decide (s.wrdCnt = dataSize ∧ s.tmrCnt = period inAvsClk / 2)
      let next := decide (s.tmrCnt = 3 * period inAvsClk / 4 - 1)
      { nextStateRx := if last then .ending else if next then .waitEdge else .waitTimer
        wrdCntEn := false
        bitCntEn := false
        bitCntClr := last
        tmrCntEn := !last && !next
        astWrdVal := false
        edgeClr := true
        finish := false
        syncError := false }
  | .ending =>
      { nextStateRx := if s.bitCnt = 4 then .idle else .ending
        wrdCntEn := false
        bitCntEn := decide (s.tmrCnt = period inAvsClk - 1)
        bitCntClr := decide (s.bitCnt = 4)
        tmrCntEn := decide (s.tmrCnt ≠ period inAvsClk - 1)
        astWrdVal := false
        edgeClr := true
        finish := decide (s.bitCnt = 4)
        syncError := false }

/-- The registers after an edge with `rst_n` high. `i_src_rx_ready` is tied high. -/
def clkEdge (inAvsClk : Nat) (s : Arinc708Rx) (line : Line) : Arinc708Rx :=
  let c := s.comb inAvsClk line
  let rises := s.edgeReg == 0b0111#4
  let falls := !rises && s.edgeReg == 0b1000#4
  { rstN := true
    currentStateRx := c.nextStateRx
    bitCnt := if c.bitCntEn then (s.bitCnt + 1) % 32 else if c.bitCntClr then 0 else s.bitCnt
    wrdCnt :=
      if c.wrdCntEn then (s.wrdCnt + 1) % 64
      else if s.currentStateRx = .idle then 0 else s.wrdCnt
    tmrCnt := if c.tmrCntEn then (s.tmrCnt + 1) % 64 else 0
    astWrd := if s.astWrdValQ then s.astWrdShift else s.astWrd
    astWrdShift :=
      if s.currentStateRx = .fixBit then
        if s.edgePos then BitVec.ofBool false ++ s.astWrdShift.extractLsb' 1 31
        else if s.edgeNeg then BitVec.ofBool true ++ s.astWrdShift.extractLsb' 1 31
        else s.astWrdShift
      else s.astWrdShift
    astWrdValQ := c.astWrdVal
    edgeReg := s.edgeReg.extractLsb' 0 3 ++ BitVec.ofBool line.a
    edgePos := if rises then true else if falls then s.edgePos else if c.edgeClr then false
      else s.edgePos
    edgeNeg := if rises then s.edgeNeg else if falls then true else if c.edgeClr then false
      else s.edgeNeg
    srcRxValid := s.astWrdValQ
    rxErrPe := if c.syncError then true else if s.srcRxValid then false else s.rxErrPe }

/-- One cycle of the system clock. `rst_n` follows the enable by one cycle and resets
the other registers without waiting for the clock. -/
def step (inAvsClk : Nat) (s : Arinc708Rx) (i : RxPins) : Arinc708Rx :=
  if s.rstN && i.en then s.clkEdge inAvsClk i.line else .reset i.en

/-- `sync_error`: the edge of a bit is missing. -/
def syncError (s : Arinc708Rx) (line : Line) : Bool := (s.comb inputFrequency line).syncError

/-- `o_arinc708_rx_compl_pe`. -/
def rxComplPe (inAvsClk : Nat) (s : Arinc708Rx) (line : Line) : Bool :=
  (s.comb inAvsClk line).finish

/-- `o_arinc708_rx_active`. -/
def rxActive (s : Arinc708Rx) : Bool := decide (s.currentStateRx ≠ .idle)

end Arinc708Rx

end Mfi.Arinc708
