import Mathlib.Data.Nat.Log
import Mfi.Core.Events
import Mfi.Core.Trace

/-!
# Splash screen generator

A picture in a ROM, four pixels of four bits in a word, is sent again and again
as a video stream: a control packet with the size, then a data packet with the
pixels. A main machine switches between the machines of the two packets, each
of which has its own output registers; an address and a counter of the pixels
in a word move on with the data packet. The stream moves one cycle after
`asoReady`.
-/

namespace Mfi.SplashScreen

open Core

inductive PixelsInParallel where
  | one
  | two
  | four
  deriving DecidableEq, Repr

def PixelsInParallel.count : PixelsInParallel → Nat
  | .one => 1
  | .two => 2
  | .four => 4

structure Params where
  pixelsInParallel : PixelsInParallel
  picWidth : BitVec 16
  picHeight : BitVec 16
  deriving DecidableEq, Repr

def Params.beatWidth (p : Params) : Nat := 24 * p.pixelsInParallel.count

def Params.totalPix (p : Params) : BitVec 16 := p.picWidth * p.picHeight

/-- The width of the address. A range `[-1:0]` has two bits. -/
def Params.romAddrBits (p : Params) : Nat :=
  if Nat.clog 2 (p.totalPix >>> 2).toNat = 0 then 2 else Nat.clog 2 (p.totalPix >>> 2).toNat

/-- The words of the picture, in the 32 bits in which the source subtracts from them. -/
def Params.words (p : Params) : BitVec 32 := (p.totalPix >>> 2).setWidth 32

inductive MainState where
  | control
  | data
  | reset
  deriving DecidableEq, Repr

inductive CtrlState where
  | idle
  | sop
  | data1
  | data2
  | eop
  | reset
  deriving DecidableEq, Repr

inductive DataState where
  | idle
  | sop
  | data
  | eop
  | reset
  deriving DecidableEq, Repr

structure Port (w : Nat) where
  startofpacket : Bool
  valid : Bool
  data : BitVec w
  endofpacket : Bool
  deriving DecidableEq, Repr

structure Regs (p : Params) where
  stateMain : MainState
  stateCtrl : CtrlState
  stateData : DataState
  ctrl : Port p.beatWidth
  data : Port p.beatWidth
  subpixCnt : BitVec 2
  romAddr : BitVec p.romAddrBits
  romData : BitVec 16
  frameTimer : BitVec 23

/-- The registers after the reset, which leaves the ROM and the frame timer as they are. -/
def reset (p : Params) (romData : BitVec 16) (frameTimer : BitVec 23) : Regs p :=
  { stateMain := .reset, stateCtrl := .reset, stateData := .reset,
    ctrl := ⟨false, false, 0, false⟩, data := ⟨false, false, 0, false⟩,
    subpixCnt := 0#2, romAddr := 0, romData := romData, frameTimer := frameTimer }

/-! ## Outputs -/

def aso {p : Params} (r : Regs p) : Port p.beatWidth :=
  match r.stateMain with
  | .control => r.ctrl
  | _ => r.data

/-! ## Contents of the packets -/

/-- Hexadecimal digit `i` of a size, the first one being the highest. -/
def digit (size : BitVec 16) (i : Nat) : BitVec 4 := size.extractLsb' (12 - 4 * i) 4

def palette (code : BitVec 4) : BitVec 24 :=
  match code.toNat with
  | 0 => 0b00000000_00000000_00000000#24
  | 1 => 0b11001110_00000000_00000000#24
  | 2 => 0b00000000_11001110_00000000#24
  | 3 => 0b11001110_11001110_00000000#24
  | 4 => 0b00000000_00000000_11001110#24
  | 5 => 0b11001110_00000000_11001110#24
  | 6 => 0b00000000_11001110_11001110#24
  | 7 => 0b11000000_11000000_11000000#24
  | 8 => 0b11001110_11001110_11001110#24
  | 9 => 0b11111111_00000000_00000000#24
  | 10 => 0b00000000_11111111_00000000#24
  | 11 => 0b11111111_11111111_00000000#24
  | 12 => 0b00000000_00000000_11111111#24
  | 13 => 0b11111111_00000000_11111111#24
  | 14 => 0b00000000_11111111_11111111#24
  | _ => 0b11111111_11111111_11111111#24

/-- Pixel `i` of a ROM word. -/
def pixel8bit (romData : BitVec 16) (i : Nat) : BitVec 24 :=
  palette (romData.extractLsb' (4 * i) 4)

def pixelBeat (p : Params) (romData : BitVec 16) (subpixCnt : BitVec 2) : BitVec p.beatWidth :=
  match p.pixelsInParallel with
  | .one => (pixel8bit romData subpixCnt.toNat).setWidth p.beatWidth
  | .two =>
      if subpixCnt.getLsbD 0 then
        (pixel8bit romData 3 ++ pixel8bit romData 2).setWidth p.beatWidth
      else (pixel8bit romData 1 ++ pixel8bit romData 0).setWidth p.beatWidth
  | .four =>
      (pixel8bit romData 3 ++ pixel8bit romData 2 ++ pixel8bit romData 1 ++
        pixel8bit romData 0).setWidth p.beatWidth

def lastBeat (p : Params) (romAddr : BitVec p.romAddrBits) (subpixCnt : BitVec 2) : Bool :=
  match p.pixelsInParallel with
  | .one => decide ((p.words - 1).toNat ≤ romAddr.toNat) && subpixCnt == 2#2
  | .two => decide ((p.words - 1).toNat ≤ romAddr.toNat) && subpixCnt == 0#2
  | .four => decide ((p.words - 2).toNat ≤ romAddr.toNat)

/-! ## The four machines -/

def mainNext {p : Params} (r : Regs p) : MainState :=
  match r.stateMain with
  | .control => if (aso r).endofpacket && (aso r).valid then .data else .control
  | .data => if (aso r).endofpacket && (aso r).valid then .control else .data
  | .reset => .control

def frameEvent {p : Params} (r : Regs p) : Bool := r.frameTimer.getLsbD 22

def frameTimerNext {p : Params} (r : Regs p) : BitVec 23 :=
  match r.stateCtrl with
  | .idle => if frameEvent r then r.frameTimer else r.frameTimer + 1
  | _ => 0#23

def ctrlNext {p : Params} (r : Regs p) (asoReady : Bool) : CtrlState × Port p.beatWidth :=
  let W := digit p.picWidth
  let H := digit p.picHeight
  match r.stateCtrl with
  | .idle =>
      if r.stateMain == .control && asoReady && frameEvent r then
        (.sop, ⟨true, true, BitVec.ofNat _ 15, false⟩)
      else (.idle, r.ctrl)
  | .sop =>
      if asoReady then
        match p.pixelsInParallel with
        | .one =>
            (.data1, { r.ctrl with
              startofpacket := false
              valid := true
              data := (0#4 ++ W 2 ++ 0#4 ++ W 1 ++ 0#4 ++ W 0).setWidth p.beatWidth })
        | .two =>
            (.data1, { r.ctrl with
              startofpacket := false
              valid := true
              data := (0#4 ++ H 1 ++ 0#4 ++ H 0 ++ 0#4 ++ W 3 ++ 0#4 ++ W 2 ++ 0#4 ++ W 1 ++
                0#4 ++ W 0).setWidth p.beatWidth })
        | .four =>
            (.eop,
            { startofpacket := false
              valid := true
              data := (3#4 ++ 0#4 ++ H 3 ++ 0#4 ++ H 2 ++ 0#4 ++ H 1 ++ 0#4 ++ H 0 ++
                0#4 ++ W 3 ++ 0#4 ++ W 2 ++ 0#4 ++ W 1 ++ 0#4 ++ W 0).setWidth p.beatWidth
              endofpacket := true })
      else (.sop, { r.ctrl with startofpacket := false, valid := false })
  | .data1 =>
      if asoReady then
        match p.pixelsInParallel with
        | .one =>
            (.data2, { r.ctrl with
              valid := true
              data := (0#4 ++ H 1 ++ 0#4 ++ H 0 ++ 0#4 ++ W 3).setWidth p.beatWidth })
        | .two =>
            (.eop, { r.ctrl with
              valid := true
              data := (3#4 ++ 0#4 ++ H 3 ++ 0#4 ++ H 2).setWidth p.beatWidth
              endofpacket := true })
        | .four => (.data1, { r.ctrl with valid := true })
      else (.data1, { r.ctrl with valid := false })
  | .data2 =>
      if asoReady then
        (.eop, { r.ctrl with
          valid := true
          data := (3#4 ++ 0#4 ++ H 3 ++ 0#4 ++ H 2).setWidth p.beatWidth
          endofpacket := true })
      else (.data2, { r.ctrl with valid := false })
  | .eop => (.idle, ⟨false, false, 0, false⟩)
  | .reset => (.idle, ⟨false, false, 0, false⟩)

def dataNext {p : Params} (r : Regs p) (asoReady : Bool) : DataState × Port p.beatWidth :=
  match r.stateData with
  | .idle =>
      if r.stateMain == .data && asoReady then
        (.sop, { r.data with startofpacket := true, valid := true, data := 0 })
      else (.idle, r.data)
  | .sop =>
      if asoReady then
        (.data, { r.data with
          startofpacket := false
          valid := true
          data := pixelBeat p r.romData r.subpixCnt })
      else (.sop, { r.data with startofpacket := false, valid := false })
  | .data =>
      if asoReady then
        (if lastBeat p r.romAddr r.subpixCnt then .eop else .data,
          { r.data with
            valid := true
            data := pixelBeat p r.romData r.subpixCnt
            endofpacket := lastBeat p r.romAddr r.subpixCnt })
      else (.data, { r.data with valid := false })
  | .eop => (.idle, { r.data with valid := false, data := 0, endofpacket := false })
  | .reset => (.idle, ⟨false, false, 0, false⟩)

/-- Address and pixel of the next beat of the data packet. -/
def advance (p : Params) (romAddr : BitVec p.romAddrBits) (subpixCnt : BitVec 2) :
    BitVec p.romAddrBits × BitVec 2 :=
  if (subpixCnt == 3#2 && p.pixelsInParallel == .one) ||
      (subpixCnt == 1#2 && p.pixelsInParallel == .two) || p.pixelsInParallel == .four then
    (if romAddr.toNat < (p.words - 1).toNat then romAddr + 1 else 0, 0#2)
  else (romAddr, subpixCnt + 1)

def addrNext {p : Params} (r : Regs p) (asoReady : Bool) : BitVec p.romAddrBits × BitVec 2 :=
  if r.stateMain = .control then (0, 0#2)
  else if (r.stateData == .sop || r.stateData == .data) && asoReady then
    advance p r.romAddr r.subpixCnt
  else (r.romAddr, r.subpixCnt)

def step (p : Params) (rom : Nat → BitVec 16) (r : Regs p) (asoReady : Bool) : Regs p :=
  { stateMain := mainNext r
    stateCtrl := (ctrlNext r asoReady).1
    stateData := (dataNext r asoReady).1
    ctrl := (ctrlNext r asoReady).2
    data := (dataNext r asoReady).2
    subpixCnt := (addrNext r asoReady).2
    romAddr := (addrNext r asoReady).1
    romData := rom (addrNext r asoReady).1.toNat
    frameTimer := frameTimerNext r }

/-! ## Beats -/

structure Beat (w : Nat) where
  startofpacket : Bool
  endofpacket : Bool
  data : BitVec w
  deriving DecidableEq, Repr

def Port.beat {w : Nat} (q : Port w) : Option (Beat w) :=
  if q.valid then some ⟨q.startofpacket, q.endofpacket, q.data⟩ else none

section Run

variable (p : Params) (rom : Nat → BitVec 16) (romData : BitVec 16) (frameTimer : BitVec 23)
  (inp : Nat → Bool)

/-- The registers before cycle `n` after the reset. -/
def run (n : Nat) : Regs p := trace (step p rom) (reset p romData frameTimer) inp n

/-- The transfers of the cycles before `n`. -/
def beats (n : Nat) : List (Beat p.beatWidth) :=
  events (fun k => (aso (run p rom romData frameTimer inp k)).beat) n

end Run

end Mfi.SplashScreen
