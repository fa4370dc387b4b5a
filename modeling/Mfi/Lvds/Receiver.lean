import Mfi.Lvds.Transmitter

/-!
# LVDS receiver

Each of the four lanes has a deserializer: two registers against metastability,
a shift register of seven bits and a register of the parallel clock. Two more
registers take the lanes together, and the colour mode tells which bits are the
high ones of a colour. One pixel at a time, with the single data rate.
-/

namespace Mfi.Lvds.Receiver

structure Deserializer where
  serialDataMeta : Bool
  serialDataLatch : Bool
  dataShift : BitVec 7
  data : BitVec 7
  deriving DecidableEq, Repr

/-- One serial clock of a lane, with or without an edge of the parallel clock. -/
def Deserializer.step (l : Deserializer) (parallel serialData : Bool) : Deserializer :=
  { serialDataMeta := serialData
    serialDataLatch := l.serialDataMeta
    dataShift := l.dataShift.extractLsb' 0 6 ++ BitVec.ofBool l.serialDataLatch
    data := if parallel then l.dataShift else l.data }

structure Regs where
  lanes : Fin 4 → Deserializer
  dataMeta : BitVec 28
  dataLatch : BitVec 28
  colorModeMeta : Bool
  colorModeLatch : Bool

def sideBySide (words : Fin 4 → BitVec 7) : BitVec 28 :=
  words ⟨3, by decide⟩ ++ words ⟨2, by decide⟩ ++ words ⟨1, by decide⟩ ++ words ⟨0, by decide⟩

def gather (lanes : Fin 4 → Deserializer) : BitVec 28 := sideBySide fun i => (lanes i).data

/-- One serial clock, with or without an edge of the parallel clock and of the system clock. -/
def step (r : Regs) (parallel system : Bool) (colorMode : Bool) (ldiData : Fin 4 → Bool) : Regs :=
  { lanes := fun i => (r.lanes i).step parallel (ldiData i)
    dataMeta := if parallel then gather r.lanes else r.dataMeta
    dataLatch := if parallel then r.dataMeta else r.dataLatch
    colorModeMeta := if system then colorMode else r.colorModeMeta
    colorModeLatch := if system then r.colorModeMeta else r.colorModeLatch }

/-! ## Outputs -/

def colorModeSel (source : BitVec 10) (r : Regs) : Bool :=
  if source.getLsbD 9 then source.getLsbD 8 else r.colorModeLatch

def hsyncN (r : Regs) : Bool := r.dataLatch.getLsbD 18

def vsyncN (r : Regs) : Bool := r.dataLatch.getLsbD 19

def de (r : Regs) : Bool := r.dataLatch.getLsbD 20

def data (source : BitVec 10) (r : Regs) : BitVec 24 :=
  if colorModeSel source r then
    r.dataLatch.extractLsb' 0 6 ++ r.dataLatch.extractLsb' 21 2 ++
      r.dataLatch.extractLsb' 6 6 ++ r.dataLatch.extractLsb' 23 2 ++
      r.dataLatch.extractLsb' 12 6 ++ r.dataLatch.extractLsb' 25 2
  else
    r.dataLatch.extractLsb' 21 2 ++ r.dataLatch.extractLsb' 0 6 ++
      r.dataLatch.extractLsb' 23 2 ++ r.dataLatch.extractLsb' 6 6 ++
      r.dataLatch.extractLsb' 25 2 ++ r.dataLatch.extractLsb' 12 6

end Mfi.Lvds.Receiver
