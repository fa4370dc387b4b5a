import Mathlib.Logic.Function.Basic

/-!
# LVDS transmitter

The video signals pass two registers, are spread over four lanes of seven bits
and shifted out, the high bit first. The parallel registers move with the
parallel clock; a counter of seven serial clocks loads the shift registers.
-/

namespace Mfi.Lvds

structure Video where
  hsync : Bool
  vsync : Bool
  blank : Bool
  red : BitVec 8
  green : BitVec 8
  blue : BitVec 8
  deriving DecidableEq, Repr

namespace Transmitter

/-- The registers. `d` and `q` are the two stages in front of the encoder. -/
structure Regs where
  d : Video
  q : Video
  encodedData : Fin 4 → BitVec 7
  shiftReg : Fin 4 → BitVec 7
  lvdsData : Fin 4 → Bool
  cnt : BitVec 3
  updEn : BitVec 4

def colorModeL (source : BitVec 2) (colorMode : Bool) : Bool :=
  if source.getLsbD 1 then source.getLsbD 0 else colorMode

def encode (colorModeL : Bool) (v : Video) (lane : Fin 4) : BitVec 7 :=
  if colorModeL then
    match lane.val with
    | 3 =>
        0#1 ++ v.blue.extractLsb' 0 2 ++ v.green.extractLsb' 0 2 ++ v.red.extractLsb' 0 2
    | 2 =>
        BitVec.ofBool v.blank ++ BitVec.ofBool v.vsync ++ BitVec.ofBool v.hsync ++
          v.blue.extractLsb' 4 4
    | 1 => v.blue.extractLsb' 2 2 ++ v.green.extractLsb' 3 5
    | _ => v.green.extractLsb' 2 1 ++ v.red.extractLsb' 2 6
  else
    match lane.val with
    | 3 =>
        0#1 ++ v.blue.extractLsb' 6 2 ++ v.green.extractLsb' 6 2 ++ v.red.extractLsb' 6 2
    | 2 =>
        BitVec.ofBool v.blank ++ BitVec.ofBool v.vsync ++ BitVec.ofBool v.hsync ++
          v.blue.extractLsb' 2 4
    | 1 => v.blue.extractLsb' 0 2 ++ v.green.extractLsb' 1 5
    | _ => v.green.extractLsb' 0 1 ++ v.red.extractLsb' 0 6

def cntNext (cnt : BitVec 3) : BitVec 3 := if cnt.toNat < 6 then cnt + 1 else 0#3

/-- One serial clock, with or without an edge of the parallel clock. -/
def step (source : BitVec 2) (colorMode : Bool) (r : Regs) (parallel : Bool) (video : Video) :
    Regs :=
  { d := if parallel then video else r.d
    q := if parallel then r.d else r.q
    encodedData := if parallel then encode (colorModeL source colorMode) r.q else r.encodedData
    shiftReg := fun i =>
      if r.updEn.getLsbD i.val then (r.shiftReg i).extractLsb' 0 6 ++ 0#1 else r.encodedData i
    lvdsData := fun i => (r.shiftReg i).getLsbD 6
    cnt := cntNext r.cnt
    updEn := if r.cnt.toNat < 6 then 15#4 else 0#4 }

end Transmitter

end Mfi.Lvds
