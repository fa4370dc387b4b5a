import Mfi.Pu.Scan

/-!
# The host side of the panel unit

The slave port accepts an access in the cycle after it was seen and serves it there. A
write of the brightness and an access to the encoder counts raise a request to the scan
machine; the request is taken down when the scan machine's acknowledge is seen while no
access is served.
-/

namespace Mfi.Pu

open Core

inductive AmsState where
  | idle
  | write
  | read
  | reset
deriving DecidableEq

/-- The accesses of the host, and what the other blocks of the unit show it. -/
structure HostInput where
  amsWrite : Bool
  amsRead : Bool
  amsByteenable : BitVec 4
  amsAddress : BitVec 3
  amsWritedata : BitVec 32
  puTypeLatch : BitVec 2
  illuminanceRightNorm : BitVec 7
  illuminanceLeftNorm : BitVec 7

structure HostPort where
  amsState : AmsState
  amsByteenableD : BitVec 4
  amsAddressD : BitVec 3
  amsWritedataD : BitVec 32
  amsAccessCounter : BitVec 28
  amsWaitrequest : Bool
  amsReaddatavalid : Bool
  amsReaddata : BitVec 32

/-- All registers of the panel unit that the scan and the host share. -/
structure PuRegs where
  bus : ScanBus
  sampled : Sampled
  encoders : Fin 4 → Encoder
  light : Light
  port : HostPort
  encClear : Fin 4 → Bool
  request : LightRequest

namespace HostPort

def init (byteenable : BitVec 4) : HostPort := ⟨.reset, byteenable, 0, 0, 0, true, false, 0⟩

def readWord (p : HostPort) (i : HostInput) (buttons : BitVec 40) (encCnt : Fin 4 → BitVec 4) :
    BitVec 32 :=
  if p.amsAddressD = 0 then (p.amsAccessCounter ++ 0#6 ++ i.puTypeLatch).setWidth 32
  else if p.amsAddressD = 1 then
    0#9 ++ i.illuminanceRightNorm ++ (0#9 ++ i.illuminanceLeftNorm)
  else if p.amsAddressD = 2 then ~~~(buttons.extractLsb' 0 32)
  else if p.amsAddressD = 3 then 0#24 ++ ~~~(buttons.extractLsb' 32 8)
  else if p.amsAddressD = 6 then
    let byte := fun j : Fin 4 => if p.amsByteenableD.getLsbD j then 0#4 ++ encCnt j else 0#8
    byte 3 ++ byte 2 ++ byte 1 ++ byte 0
  else 0

def step (p : HostPort) (i : HostInput) (buttons : BitVec 40) (encCnt : Fin 4 → BitVec 4) :
    HostPort :=
  match p.amsState with
  | .idle =>
      let q := { p with amsReaddatavalid := false, amsReaddata := 0 }
      if i.amsWrite || i.amsRead then
        { q with
          amsWaitrequest := false, amsByteenableD := i.amsByteenable, amsAddressD := i.amsAddress
          amsWritedataD := if i.amsWrite then i.amsWritedata else 0
          amsAccessCounter := p.amsAccessCounter + 1
          amsState := if i.amsWrite then .write else .read }
      else { q with amsWaitrequest := true, amsAddressD := 0, amsWritedataD := 0 }
  | .write =>
      { p with
        amsWaitrequest := true, amsReaddatavalid := false, amsReaddata := 0, amsState := .idle }
  | .read =>
      { p with
        amsWaitrequest := true, amsReaddatavalid := true
        amsReaddata := p.readWord i buttons encCnt, amsState := .idle }
  | .reset =>
      { p with
        amsWaitrequest := true, amsReaddatavalid := false, amsReaddata := 0, amsAddressD := 0
        amsWritedataD := 0, amsAccessCounter := 0, amsState := .idle }

theorem step_silent {p : HostPort} {i : HostInput} {buttons : BitVec 40}
    {encCnt : Fin 4 → BitVec 4} (hs : p.amsState = .idle) (hw : i.amsWrite = false)
    (hr : i.amsRead = false) : (p.step i buttons encCnt).amsState = .idle := by
  unfold step
  rw [hs]
  simp only [hw, hr, Bool.or_self, Bool.false_eq_true, if_false]

def writesLight (p : HostPort) : Bool := p.amsState == .write && p.amsAddressD == 1

/-- The host reads or writes the count of encoder `k` in this cycle. -/
def clearsCount (p : HostPort) (k : Fin 4) : Bool :=
  (p.amsState == .write || p.amsState == .read) && p.amsAddressD == 6 &&
    p.amsByteenableD.getLsbD k

theorem step_ne_reset (p : HostPort) (i : HostInput) (buttons : BitVec 40)
    (encCnt : Fin 4 → BitVec 4) : (p.step i buttons encCnt).amsState ≠ .reset := by
  unfold step
  cases hs : p.amsState with
  | idle =>
      simp only
      split
      · cases i.amsWrite <;> nofun
      · simp
  | write => nofun
  | read => nofun
  | reset => nofun

end HostPort

def LightRequest.step (r : LightRequest) (p : HostPort) (lightCntAck : Bool) : LightRequest :=
  match p.amsState with
  | .idle => { r with lightCntReq := r.lightCntReq && !lightCntAck }
  | .write =>
      if p.amsAddressD = 1 then
        ⟨true, p.amsWritedataD.getLsbD 6, p.amsWritedataD.getLsbD 5,
          p.amsWritedataD.extractLsb' 0 5⟩
      else r
  | .read => r
  | .reset => ⟨false, false, false, 0⟩

/-- The request of the host to clear the count of encoder `k`. -/
def stepEncClear (encClear : Bool) (p : HostPort) (k : Fin 4) (encClearAck : Bool) : Bool :=
  match p.amsState with
  | .idle => encClear && !encClearAck
  | .write => encClear || p.clearsCount k
  | .read => encClear || p.clearsCount k
  | .reset => false

structure PuInput where
  amm : AmmInput
  host : HostInput

namespace PuRegs

def init (byteenable : BitVec 4) : PuRegs :=
  ⟨.init, .init, fun _ => .init, .init, .init byteenable, fun _ => false,
    ⟨false, false, false, 0⟩⟩

def step (base : BitVec 32) (defaultLight : BitVec 5) (s : PuRegs) (i : PuInput) : PuRegs where
  bus := s.bus.step base i.amm
  sampled := s.sampled.step s.bus i.amm
  encoders := fun k => (s.encoders k).step k s.bus i.amm (s.encClear k)
  light := s.light.step defaultLight s.bus i.amm s.request (s.encoders 0).encState
  port := s.port.step i.host s.sampled.buttonsState fun k => (s.encoders k).encCnt
  encClear := fun k => stepEncClear (s.encClear k) s.port k (s.encoders k).encClearAck
  request := s.request.step s.port s.light.lightCntAck

end PuRegs

def puRun (base : BitVec 32) (defaultLight : BitVec 5) (byteenable : BitVec 4)
    (inp : Nat → PuInput) : Nat → PuRegs :=
  trace (PuRegs.step base defaultLight) (PuRegs.init byteenable) inp

theorem port_started (base : BitVec 32) (defaultLight : BitVec 5) (byteenable : BitVec 4)
    (inp : Nat → PuInput) (n : Nat) :
    (puRun base defaultLight byteenable inp (n + 1)).port.amsState ≠ .reset :=
  HostPort.step_ne_reset _ _ _ _

end Mfi.Pu
