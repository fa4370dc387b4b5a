import Mfi.Core.Trace
import Mathlib.Data.Fintype.Basic
import Mathlib.Logic.Function.Basic

/-!
# The video stream switch

`Switch` connects eight input streams to eight outputs. Each output has a control word
with the bit of its input; one input may feed several outputs. A beat goes from an input
to an output by the combinational valid and ready lines of the same cycle. New control
words are prepared first and taken over in one cycle, in which every changed output shows
an end of packet instead of the beat of its old input.
-/

namespace Mfi.Switch

open Core

/-- What is on a stream in a cycle, with `pix` pixels in parallel. -/
structure Beat (pix : Nat) where
  data : BitVec (24 * pix)
  startofpacket : Bool
  endofpacket : Bool
  empty : BitVec pix
deriving DecidableEq

structure Input (pix : Nat) where
  controlRead : Bool
  controlWrite : Bool
  controlAddress : BitVec 5
  controlWritedata : BitVec 32
  din : Fin 8 → Beat pix
  dinValid : Fin 8 → Bool
  doutReady : Fin 8 → Bool

structure Regs where
  nextOutpControl : Fin 8 → BitVec 8
  outpControl : Fin 8 → BitVec 8
  outChanged : Fin 8 → Bool
  outputSwitch : Bool
  control : Bool
  consumeMode : BitVec 8
  controlReaddata : BitVec 32

variable {pix : Nat}

namespace Regs

def reset (readdata : BitVec 32) : Regs :=
  ⟨fun _ => 0, fun _ => 0, fun _ => false, false, false, 0, readdata⟩

def addressed (address : BitVec 5) : Option (Fin 8) :=
  (List.finRange 8).find? fun y => address == BitVec.ofNat 5 (y.val + 4)

def takeOver (s : Regs) : Regs :=
  if s.outputSwitch then
    { s with outputSwitch := false, outChanged := fun _ => false, outpControl := s.nextOutpControl }
  else s

def write (s : Regs) (address : BitVec 5) (data : BitVec 32) : Regs :=
  if address = 0 then { s with control := data.getLsbD 0 }
  else if address = 3 then { s with outputSwitch := data.getLsbD 0 }
  else if address = 16 then { s with consumeMode := data.setWidth 8 }
  else
    match addressed address with
    | some y =>
        { s with
          nextOutpControl := Function.update s.nextOutpControl y (data.setWidth 8)
          outChanged := Function.update s.outChanged y true }
    | none => s

def read (s : Regs) (address : BitVec 5) : BitVec 32 :=
  if address = 0 then (BitVec.ofBool s.control).setWidth 32
  else if address = 16 then s.consumeMode.setWidth 32
  else
    match addressed address with
    | some y => (s.nextOutpControl y).setWidth 32
    | none => s.controlReaddata

def step (s : Regs) (i : Input pix) : Regs :=
  let t := s.takeOver
  let w := if i.controlWrite then t.write i.controlAddress i.controlWritedata else t
  { w with controlReaddata := if i.controlRead then s.read i.controlAddress else 0 }

/-! ## Outputs -/

def source (control : BitVec 8) : Option (Fin 8) :=
  (List.finRange 8).find? fun x => control.getLsbD x

def ends (s : Regs) (y : Fin 8) : Bool := s.outputSwitch && s.outChanged y

/-- `valid_sig`. -/
def validSig (s : Regs) (i : Input pix) (y : Fin 8) : Bool :=
  s.control &&
    match source (s.outpControl y) with
    | some x => s.ends y || i.dinValid x
    | none => false

/-- `data_sig` and the signals beside it. -/
def beatSig (s : Regs) (i : Input pix) (y : Fin 8) : Beat pix :=
  match s.control, source (s.outpControl y) with
  | true, some x =>
      { i.din x with
        startofpacket := if s.ends y then false else (i.din x).startofpacket
        endofpacket := if s.ends y then true else (i.din x).endofpacket }
  | _, _ => ⟨0, false, false, 0⟩

/-- The control word of the outputs that input `x` feeds. -/
def oneHot (x : Fin 8) : BitVec 8 := 1#8 <<< x.val

def readyCheck (s : Regs) (i : Input pix) (x y : Fin 8) : Bool :=
  s.outpControl y != oneHot x || (s.outpControl y == oneHot x && i.doutReady y)

def inputEnabled (s : Regs) (x : Fin 8) : Bool :=
  (List.finRange 8).any fun y => (s.outpControl y).getLsbD x

/-- `ready_sig`. The second case looks at the changed output of the number of the input. -/
def readySig (s : Regs) (i : Input pix) (x : Fin 8) : Bool :=
  if !s.control then s.consumeMode.getLsbD x
  else if s.outputSwitch && s.outChanged x then false
  else
    (List.finRange 8).all (fun y => s.readyCheck i x y) ||
      (!s.inputEnabled x && s.consumeMode.getLsbD x)

end Regs

def switchRun (readdata : BitVec 32) (inp : Nat → Input pix) : Nat → Regs :=
  trace Regs.step (Regs.reset readdata) inp

end Mfi.Switch
