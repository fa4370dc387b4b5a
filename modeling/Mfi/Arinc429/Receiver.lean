import Mfi.Arinc429.Transmitter

/-!
# The ARINC 429 deserialiser

`arinc429_rx.sv` with `DDIN`, `filter_input` and `PEIN`: the line is sampled by
`clk_16x`, a register divided from the system clock, filtered, and turned into a bit
clock `sig_clk` that rises at the end of each symbol. A gap in this clock resets the
bit counter. One step of the model is one cycle of the system clock, with the
derived edges that it causes; these read the registers as they were before it.
-/

namespace Mfi.Arinc429

/-! ## Sampling -/

/-- `filter_input` on the line, with `cnt_const_T = 3`. -/
structure FilterInput where
  delayIn : Line
  cntTime : Nat
  out : Line
  deriving DecidableEq, Repr

def FilterInput.reset : FilterInput := ⟨.null, 0, .null⟩

def FilterInput.clkEdge (p : FilterInput) (input : Line) : FilterInput where
  delayIn := input
  cntTime := if p.delayIn ≠ input then 0 else if p.cntTime < 3 then p.cntTime + 1 else p.cntTime
  out := if p.cntTime = 2 then p.delayIn else p.out

/-- The registers clocked by `clk_16x`; the two stages are those of `DDIN`. -/
structure RxFront where
  dTrigger0 : Line
  dTrigger1 : Line
  filterInputRx : FilterInput
  sigClk : Bool
  sigBit : Bool
  sigClkState : BitVec 12
  sigRstN : Bool
  deriving DecidableEq, Repr

namespace RxFront

def reset : RxFront where
  dTrigger0 := .null
  dTrigger1 := .null
  filterInputRx := .reset
  sigClk := false
  sigBit := false
  sigClkState := 0#12
  sigRstN := false

/-- A rising edge of `clk_16x`. -/
def tick (r : RxFront) (line : Line) : RxFront where
  dTrigger0 := line
  dTrigger1 := r.dTrigger0
  filterInputRx := r.filterInputRx.clkEdge r.dTrigger1
  sigClk := !(r.filterInputRx.out.a ^^ r.filterInputRx.out.b)
  sigBit :=
    if r.filterInputRx.out.a ^^ r.filterInputRx.out.b then r.filterInputRx.out.a else r.sigBit
  sigClkState := r.sigClkState.extractLsb' 0 11 ++ BitVec.ofBool r.sigClk
  sigRstN := !(r.sigClkState == 0#12 || r.sigClkState == 0xfff#12)

end RxFront

/-! ## Bits -/

/-- The registers clocked by `sig_clk`. -/
structure RxBits where
  cntBit : Nat
  sigValid : Bool
  sigData : Word
  sigPar : Bool
  deriving DecidableEq, Repr

namespace RxBits

def reset : RxBits := ⟨0, false, 0#32, false⟩

/-- A rising edge of `sig_clk`. -/
def shift (b : RxBits) (sigBit : Bool) : RxBits where
  cntBit := if b.cntBit < 31 then b.cntBit + 1 else b.cntBit
  sigValid := decide (31 ≤ b.cntBit)
  sigData := BitVec.ofBool sigBit ++ b.sigData.extractLsb' 1 31
  sigPar := sigBit ^^ b.sigPar

/-- What an edge of `clk_16x` causes: `r` and `r'` are the registers around it. -/
def follow (b : RxBits) (r r' : RxFront) : RxBits :=
  if !r'.sigRstN then .reset
  else if !r.sigClk && r'.sigClk then b.shift r'.sigBit
  else b

end RxBits

/-! ## The receiver -/

structure RxPins where
  speed : BitVec 2
  line : Line

structure Arinc429Rx where
  clkDevider : Nat
  cntClk : Nat
  clk16x : Bool
  front : RxFront
  bits : RxBits
  /-- The register of `PEIN`. -/
  d1Trigger : Bool
  srcRxValid : Bool
  srcRxData : Word
  parErr : Bool
  deriving DecidableEq, Repr

/-- Half the period of `clk_16x` for each speed, in cycles of the system clock, on the
17 bits of the divider. -/
def rxDevider (inAvsClk : Nat) (speed : BitVec 2) : Nat :=
  (if speed = 1#2 then inAvsClk / 12500 / 32
  else if speed = 2#2 then inAvsClk / 50000 / 32
  else if speed = 3#2 then inAvsClk / 100000 / 32
  else 0) % 131072

namespace Arinc429Rx

/-- The registers while `rst_n` is low; the divider and `PEIN` are outside this reset. -/
def reset (clkDevider : Nat) (d1Trigger : Bool) : Arinc429Rx where
  clkDevider := clkDevider
  cntClk := 0
  clk16x := false
  front := .reset
  bits := .reset
  d1Trigger := d1Trigger
  srcRxValid := false
  srcRxData := 0xfacedead#32
  parErr := false

/-- `sig_valid_pe`. -/
def sigValidPe (s : Arinc429Rx) : Bool := s.bits.sigValid && !s.d1Trigger

/-- The registers clocked by `i_avs_clk`; `i_src_rx_ready` is wired to 1. -/
def avsEdge (s : Arinc429Rx) (clkDevider : Nat) : Arinc429Rx :=
  { s with
    clkDevider := clkDevider
    cntClk := if s.cntClk < s.clkDevider - 1 then (s.cntClk + 1) % 65536 else 0
    clk16x := if s.cntClk ≥ s.clkDevider - 1 then !s.clk16x else s.clk16x
    d1Trigger := s.bits.sigValid
    srcRxValid := s.sigValidPe
    srcRxData := if s.sigValidPe then s.bits.sigData else s.srcRxData
    parErr := if s.sigValidPe then !s.bits.sigPar else s.parErr }

/-- A rising edge of `clk_16x`. -/
def tick (s : Arinc429Rx) (line : Line) : Arinc429Rx :=
  { s with
    front := s.front.tick line
    bits := s.bits.follow s.front (s.front.tick line) }

/-- One cycle of the system clock. The speed is looked at between words only. -/
def step (inAvsClk : Nat) (s : Arinc429Rx) (i : RxPins) : Arinc429Rx :=
  let clkDevider := if !s.front.sigRstN then rxDevider inAvsClk i.speed else s.clkDevider
  if s.clkDevider = 0 ∨ clkDevider = 0 then .reset clkDevider s.bits.sigValid
  else
    let n := s.avsEdge clkDevider
    if n.clk16x && !s.clk16x then n.tick i.line else n

end Arinc429Rx

end Mfi.Arinc429
