import Mfi.Tmds.Encoder

/-!
# TMDS transmitter

The video signals pass two registers of the slow clock and three encoders. The fast clock,
ten times as fast, takes the encoded words through two registers of its own, finds the rising
edge of the slow clock and then loads the shift registers, which send the low bit first.
-/

namespace Mfi.Tmds

structure Video where
  videoHsync : Bool
  videoVsync : Bool
  videoDe : Bool
  videoData : BitVec 24
  deriving DecidableEq, Repr

/-- What reaches the registers in one fast clock. `edge` says that the slow clock rises with it,
`slowClock` is the level that the fast clock finds. -/
structure Tick where
  resetN : Bool
  edge : Bool
  slowClock : Bool
  video : Video
  deriving DecidableEq, Repr

structure Transmitter where
  videoMeta : Video
  videoLatch : Video
  encoder : Fin 3 → Encoder
  tmdsLoad : BitVec 3
  clockLatch : BitVec 2
  clockMeta : Bool
  tmdsEncodedLatch : Fin 3 → BitVec 10
  tmdsEncodedMeta : Fin 3 → BitVec 10
  dataShift : Fin 3 → BitVec 10

def tmdsCtrl (videoLatch : Video) (lane : Fin 3) : BitVec 2 :=
  match lane with
  | 0 => BitVec.ofBool videoLatch.videoVsync ++ BitVec.ofBool videoLatch.videoHsync
  | 1 => 0b00#2
  | 2 => 0b00#2

def tmdsData (videoLatch : Video) (lane : Fin 3) : BitVec 8 :=
  match lane with
  | 0 => videoLatch.videoData.extractLsb' 0 8
  | 1 => videoLatch.videoData.extractLsb' 8 8
  | 2 => videoLatch.videoData.extractLsb' 16 8

def encoderInput (resetN : Bool) (videoLatch : Video) (lane : Fin 3) : EncoderInput :=
  { iRstN := resetN
    iData := tmdsData videoLatch lane
    iCtrl := tmdsCtrl videoLatch lane
    iDe := videoLatch.videoDe }

def shiftOut (dataShift : BitVec 10) (load : Bool) (data : BitVec 10) : BitVec 10 :=
  if load then data else 0#1 ++ dataShift.extractLsb' 1 9

def serialData (r : Transmitter) (lane : Fin 3) : Bool := (r.dataShift lane).getLsbD 0

def noVideo : Video := ⟨false, false, false, 0#24⟩

/-- One fast clock. The reset of the encoders waits for the slow clock. -/
def Transmitter.step (r : Transmitter) (i : Tick) : Transmitter :=
  { videoMeta := if !i.resetN then noVideo else if i.edge then i.video else r.videoMeta
    videoLatch := if !i.resetN then noVideo else if i.edge then r.videoMeta else r.videoLatch
    encoder := fun lane =>
      if i.edge then (r.encoder lane).step (encoderInput i.resetN r.videoLatch lane)
      else r.encoder lane
    tmdsLoad := if !i.resetN then 0#3 else if r.clockLatch = 0b01#2 then 0b111#3 else 0b000#3
    clockLatch :=
      if !i.resetN then 0#2 else BitVec.ofBool (r.clockLatch.getLsbD 0) ++ BitVec.ofBool r.clockMeta
    clockMeta := if !i.resetN then false else i.slowClock
    tmdsEncodedLatch := fun lane => if !i.resetN then 0#10 else r.tmdsEncodedMeta lane
    tmdsEncodedMeta := fun lane => if !i.resetN then 0#10 else (r.encoder lane).oTmds
    dataShift := fun lane =>
      if !i.resetN then 0#10
      else shiftOut (r.dataShift lane) (r.tmdsLoad.getLsbD lane) (r.tmdsEncodedLatch lane) }

def Video.character (v : Video) (lane : Fin 3) : Character :=
  if v.videoDe then .pixel (tmdsData v lane) else .control (tmdsCtrl v lane)

theorem encoderInput_character (v : Video) (lane : Fin 3) :
    (encoderInput true v lane).character = v.character lane := by
  unfold EncoderInput.character Video.character encoderInput
  cases v.videoDe <;> rfl

end Mfi.Tmds
