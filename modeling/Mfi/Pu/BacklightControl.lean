import Mfi.Core.Trace

/-!
# The backlight control

`backlight_control` reads the brightness coefficients from a memory: the least and the
greatest value of each channel, once, and then again and again the values for the present
settings. Between two phases it waits. There is a table for the day and one for the night;
when the night input changes, the machine is to start from the beginning.
-/

namespace Mfi.Pu

open Core

inductive BkltState where
  | idle
  | read
  | ack
  | reset
deriving DecidableEq

structure Selectors where
  lightManual : Bool
  lightCnt : BitVec 5
  illuminanceAvg : BitVec 5
  lightMcu : BitVec 5

structure BkltInput where
  night : Bool
  selectors : Selectors
  bkltWaitrequest : Bool
  bkltReaddatavalid : Bool
  bkltReaddata : BitVec 32

/-- What a scan reads; the flags `bklt_read_minimum` and `bklt_read_maximum` tell. -/
inductive BkltPhase where
  | minimum
  | maximum
  | values
deriving DecidableEq

structure BkltControl where
  state : BkltState
  nightMeta : Bool
  nightLatch : Bool
  readMinimum : Bool
  readMaximum : Bool
  load : Bool
  transaction : Bool
  read : Bool
  address : BitVec 32
  page : BitVec 8
  timer : BitVec 32
deriving DecidableEq

structure Coefficients where
  minimum : Fin 3 → BitVec 12
  maximum : Fin 3 → BitVec 12
  values : Fin 6 → BitVec 12
  illuminance : BitVec 12

def bkltPause : BitVec 32 := 20000000#32

def bkltIndex (sel : Selectors) (phase : BkltPhase) (page : BitVec 8) : BitVec 8 :=
  match phase with
  | .minimum => 0x01
  | .maximum => 0x1F
  | .values =>
      if page < 3 then sel.lightCnt.setWidth 8
      else if page < 6 then sel.lightMcu.setWidth 8
      else if sel.lightManual then 0x10 else sel.illuminanceAvg.setWidth 8

/-- `bklt_offset`. -/
def bkltOffset (page index : BitVec 8) : BitVec 8 := (page <<< 5) ||| index

/-- The address of an entry. The day table stands above the night table. -/
def bkltAddress (base : BitVec 32) (night : Bool) (offset : BitVec 8) : BitVec 32 :=
  (base.extractLsb' 9 23 ++ BitVec.ofBool (!night)) ++ offset

namespace BkltControl

def init (timer : BitVec 32) : BkltControl :=
  ⟨.reset, false, false, false, false, false, false, false, 0, 0, timer⟩

def timerEvent (c : BkltControl) : Bool := bkltPause ≤ c.timer

def nightChanges (c : BkltControl) : Bool := c.nightLatch != c.nightMeta

/-- The assignments before the case: a change of the night input starts the scan again. -/
def restart (c : BkltControl) : BkltControl :=
  if c.nightChanges then { c with readMinimum := false, readMaximum := false, state := .idle }
  else c

def phase (c : BkltControl) : BkltPhase :=
  if !c.readMinimum then .minimum else if !c.readMaximum then .maximum else .values

def nextAddress (c : BkltControl) (base : BitVec 32) (sel : Selectors) : BitVec 32 :=
  bkltAddress base c.nightLatch (bkltOffset c.page (bkltIndex sel c.phase c.page))

def accepts (c : BkltControl) (i : BkltInput) : Bool := !i.bkltWaitrequest && c.transaction

/-- A response has come; `d` are the registers after the assignments before the case,
which are overridden here. -/
def respond (c d : BkltControl) : BkltControl :=
  let e := { d with page := c.page + 1, transaction := false, read := false, load := false }
  match c.phase with
  | .minimum =>
      if c.page < 2 then { e with state := .read }
      else { e with readMinimum := true, state := .idle }
  | .maximum =>
      if c.page < 2 then { e with state := .read }
      else { e with readMaximum := true, state := .idle }
  | .values =>
      if c.page < 6 then { e with state := .read }
      else { e with load := true, state := .idle }

def scan (c : BkltControl) (base : BitVec 32) (i : BkltInput) : BkltControl :=
  let d := c.restart
  match c.state with
  | .idle =>
      { d with
        read := false, transaction := false, load := false, address := 0, page := 0
        timer := if c.timerEvent then 0 else c.timer + 1
        state := if c.timerEvent then .read else d.state }
  | .read =>
      if c.accepts i then { d with read := false, address := 0, state := .ack, load := false }
      else
        { d with
          read := true, transaction := true, load := false
          address := c.nextAddress base i.selectors }
  | .ack =>
      if i.bkltReaddatavalid then c.respond d else { d with transaction := false, read := false }
  | .reset =>
      { d with
        readMinimum := false, readMaximum := false, load := false, transaction := false
        read := false, address := 0, page := 0, state := .idle }

def step (c : BkltControl) (base : BitVec 32) (i : BkltInput) : BkltControl :=
  { c.scan base i with nightMeta := i.night, nightLatch := c.nightMeta }

end BkltControl

namespace Coefficients

def zero : Coefficients := ⟨fun _ => 0, fun _ => 0, fun _ => 0, 0⟩

/-- A write to an array, which does nothing outside its bounds. -/
def store {size : Nat} (a : Fin size → BitVec 12) (k : Nat) (x : BitVec 12) :
    Fin size → BitVec 12 :=
  fun j => if j.val = k then x else a j

def step (t : Coefficients) (c : BkltControl) (i : BkltInput) : Coefficients :=
  match c.state with
  | .ack =>
      if i.bkltReaddatavalid then
        let x := i.bkltReaddata.setWidth 12
        match c.phase with
        | .minimum => { t with minimum := store t.minimum c.page.toNat x }
        | .maximum => { t with maximum := store t.maximum c.page.toNat x }
        | .values =>
            if c.page < 6 then { t with values := store t.values c.page.toNat x }
            else { t with illuminance := x }
      else t
  | .reset => zero
  | _ => t

end Coefficients

structure Backlight where
  control : BkltControl
  coefficients : Coefficients

namespace Backlight

def init (timer : BitVec 32) : Backlight := ⟨BkltControl.init timer, Coefficients.zero⟩

def step (base : BitVec 32) (s : Backlight) (i : BkltInput) : Backlight :=
  ⟨s.control.step base i, s.coefficients.step s.control i⟩

end Backlight

def bkltRun (base timer : BitVec 32) (inp : Nat → BkltInput) : Nat → Backlight :=
  trace (Backlight.step base) (Backlight.init timer) inp

end Mfi.Pu
