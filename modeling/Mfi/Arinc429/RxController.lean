import Mfi.Core.Trace
import Mfi.Arinc429.Label

/-!
# The ARINC 429 receive controller

`arinc_rx_controller.sv`: the state machine that files received words in the
buffer RAM, either as a FIFO in the slots 256..1023 or, with `rxconfig[2]` set, as
a mailbox of one slot for each label, and that keeps the label mask and the
new-data flags in the mask/flag RAM. The serial receiver `arinc429_rx` is seen
here through its outputs, an `RxPort`.
-/

namespace Mfi.Arinc429

open Core

/-- The outputs of `arinc429_rx` as the controller sees them in one cycle. -/
structure RxPort where
  rxFlag : Bool
  recievedWord : Word
  parErr : Bool

structure RxInput where
  rxconfig : BitVec 8
  irqClear : Bool
  buferData : Word
  buferAddr : Nat
  buferRd : Bool
  flagMaskAddr : Nat
  flagMaskWe : Bool
  port : RxPort

inductive RxState where
  | waiting
  | arincEvent
  | flagCheck
  deriving DecidableEq, Repr

/-- The registers. `rxintflag0..3` and `rxintflag26` are the bits of the register
`rxintflag`; its other bits are wired to counters, see `rxintflag`. -/
structure RxController where
  state : RxState
  cnt : Nat
  readedAddr : Nat
  diff : Nat
  lastAddr : Nat
  rxFlagSig : Bool
  buferRdSig : Bool
  buferAddrB : Nat
  buferWeB : Bool
  maskFlagsAddr : Nat
  flagWe : Bool
  flagsData : Fin 4 → BitVec 8
  rxintflag26 : Bool
  rxintflag3 : Bool
  rxintflag2 : Bool
  rxintflag1 : Bool
  rxintflag0 : Bool
  ramBuf : DualPortRam
  ramMask : DualPortRam

/-! ## Wires -/

def arincDataOut (i : RxInput) : Word :=
  if i.rxconfig.getLsbD 7 then i.port.recievedWord else reverseLabel i.port.recievedWord

/-- `arincDataOut[7:0]`. -/
def label (w : Word) : Nat := (w.extractLsb' 0 8).toNat

def wordLabel (i : RxInput) : Nat := label (arincDataOut i)

def parityFails (i : RxInput) : Bool := !i.rxconfig.getLsbD 6 && i.port.parErr

/-- `rxconfig[2]`. -/
def mailbox (i : RxInput) : Bool := i.rxconfig.getLsbD 2

/-- `rxconfig[1:0]`. -/
def speed (i : RxInput) : BitVec 2 := i.rxconfig.extractLsb' 0 2

/-- The byte `k` of the mask/flag word that port B shows. -/
def maskArr (q : Word) (k : Fin 4) : BitVec 8 := q.extractLsb' (8 * k.val) 8

/-- Byte of a mask/flag word in which a label has its bit: `label[4:3]`. -/
def byteIndex (l : Nat) : Fin 4 := ⟨l / 8 % 4, Nat.mod_lt _ (by decide)⟩

def maskAccepted (q : Word) (l : Nat) : Bool := (maskArr q (byteIndex l)).getLsbD (l % 8)

def flagClearBuf (addr : Nat) : BitVec 8 := ~~~((1 : BitVec 8) <<< (addr % 8))

/-- `{flags_data[3], flags_data[2], flags_data[1], flags_data[0]}`. -/
def flagsDataB (d : Fin 4 → BitVec 8) : Word := d 3 ++ d 2 ++ d 1 ++ d 0

/-- `addr_to_write[9:0] + cout` on ten bits. -/
def fifoWriteAddr (readedAddr diff : Nat) : Nat :=
  let addrToWrite := readedAddr + diff
  (addrToWrite % 1024 + addrToWrite / 1024 * 256) % 1024

def rxintflag (s : RxController) (rxconfig : BitVec 8) (inputA inputB : Bool) : BitVec 27 :=
  BitVec.ofBool s.rxintflag26 ++
    BitVec.ofNat 10 (if rxconfig.getLsbD 2 then s.lastAddr else s.diff) ++
    BitVec.ofNat 10 (s.readedAddr + 1024 - 256) ++ BitVec.ofBool inputA ++ BitVec.ofBool inputB ++
    BitVec.ofBool s.rxintflag3 ++ BitVec.ofBool s.rxintflag2 ++ BitVec.ofBool s.rxintflag1 ++
    BitVec.ofBool s.rxintflag0

def irq (s : RxController) (rxintmask : BitVec 4) : Bool :=
  (s.rxintflag0 && rxintmask.getLsbD 0) || (s.rxintflag1 && rxintmask.getLsbD 1) ||
    (s.rxintflag2 && rxintmask.getLsbD 2) || (s.rxintflag3 && rxintmask.getLsbD 3)

namespace RxController

/-- The registers after reset, over given contents of the two memories. -/
def reset (buffer maskFlags : Nat → Word) : RxController where
  state := .waiting
  cnt := 0
  readedAddr := 256
  diff := 0
  lastAddr := 0
  rxFlagSig := false
  buferRdSig := false
  buferAddrB := 0
  buferWeB := false
  maskFlagsAddr := 0
  flagWe := false
  flagsData := fun _ => 0
  rxintflag26 := false
  rxintflag3 := false
  rxintflag2 := false
  rxintflag1 := false
  rxintflag0 := false
  ramBuf := .init buffer
  ramMask := .init maskFlags

/-! ## The clock edge -/

/-- The assignments in front of the `case`, and the two memories. -/
def beforeCase (s : RxController) (i : RxInput) : RxController :=
  { s with
    rxFlagSig := s.rxFlagSig || i.port.rxFlag
    buferRdSig := s.buferRdSig || i.buferRd
    flagsData := maskArr s.ramMask.qB
    rxintflag0 := !i.irqClear && s.rxintflag0
    rxintflag1 := !i.irqClear && s.rxintflag1
    rxintflag2 := !i.irqClear && decide (s.diff = 1023)
    rxintflag3 := !i.irqClear && s.rxintflag3
    flagWe := false
    buferWeB := false
    rxintflag26 := false
    ramBuf := s.ramBuf.clock false (if mailbox i then i.buferAddr else s.readedAddr)
      i.buferData s.buferWeB s.buferAddrB (arincDataOut i)
    ramMask := s.ramMask.clock i.flagMaskWe i.flagMaskAddr i.buferData
      s.flagWe s.maskFlagsAddr (flagsDataB s.flagsData) }

/-- State `waiting`. A later assignment overrides an earlier one, also where both
request latches are set. -/
def waitingStep (s : RxController) (i : RxInput) (n : RxController) : RxController :=
  let n := { n with cnt := 0 }
  let n := if speed i = 0#2 then { n with readedAddr := 256, diff := 0 } else n
  let n :=
    if s.rxFlagSig then
      let n := if parityFails i then { n with rxintflag0 := true }
        else { n with state := .arincEvent }
      { n with rxFlagSig := false }
    else n
  let n :=
    if !mailbox i && s.buferRdSig && decide (s.diff ≠ 0) then
      { n with
        readedAddr := if s.readedAddr = 1023 then 256 else s.readedAddr + 1
        diff := s.diff - 1
        buferRdSig := false }
    else n
  if mailbox i && s.buferRdSig then { n with state := .flagCheck, buferRdSig := false } else n

def arincEventStep (s : RxController) (i : RxInput) (n : RxController) : RxController :=
  let l := label (arincDataOut i)
  let q := s.ramMask.qB
  let n :=
    { n with
      rxintflag26 := true
      flagsData := fun k => if k = byteIndex l then maskArr q k ||| (1 : BitVec 8) <<< (l % 8)
        else n.flagsData k
      cnt := (s.cnt + 1) % 8 }
  match s.cnt with
  | 0 => { n with maskFlagsAddr := l / 32 }
  | 5 =>
      if maskAccepted q l then
        let n :=
          { n with
            buferAddrB := if mailbox i then l else fifoWriteAddr s.readedAddr s.diff
            buferWeB := true }
        let n := if mailbox i then { n with lastAddr := l }
          else { n with diff := if s.diff = 1023 then s.diff else s.diff + 1 }
        { n with rxintflag3 := true }
      else n
  | 6 => { n with maskFlagsAddr := 8 + l / 32 }
  | 7 => { n with state := .waiting, flagWe := maskAccepted q l && mailbox i }
  | _ => n

def flagCheckStep (s : RxController) (i : RxInput) (n : RxController) : RxController :=
  let q := s.ramMask.qB
  let n :=
    { n with
      flagsData := fun k => if k = byteIndex i.buferAddr then
          maskArr q k &&& flagClearBuf i.buferAddr
        else n.flagsData k
      cnt := (s.cnt + 1) % 8 }
  match s.cnt with
  | 0 => { n with maskFlagsAddr := 8 + i.buferAddr / 32 % 8 }
  | 3 => { n with flagWe := true, state := .waiting }
  | _ => n

def step (s : RxController) (i : RxInput) : RxController :=
  let n := s.beforeCase i
  match s.state with
  | .waiting => waitingStep s i n
  | .arincEvent => arincEventStep s i n
  | .flagCheck => flagCheckStep s i n

/-! ## What one edge does in each state

The three lemmas below give every register after the edge; later modules use
these and never unfold the step. -/

def pops (s : RxController) (i : RxInput) : Bool :=
  !mailbox i && s.buferRdSig && decide (s.diff ≠ 0)

/-- The label mask accepts the word being filed, as seen in the mask word on port B. -/
def labelPasses (s : RxController) (i : RxInput) : Bool :=
  maskAccepted s.ramMask.qB (wordLabel i)

/-- The cycle in which the controller decides to store a word. -/
def accepts (s : RxController) (i : RxInput) : Bool :=
  decide (s.state = .arincEvent) && decide (s.cnt = 5) && s.labelPasses i

variable {s : RxController} {i : RxInput}

theorem step_waiting (h : s.state = .waiting) :
    s.step i =
      { s.beforeCase i with
        cnt := 0
        state :=
          if mailbox i && s.buferRdSig then .flagCheck
          else if s.rxFlagSig && !parityFails i then .arincEvent else .waiting
        rxFlagSig := !s.rxFlagSig && i.port.rxFlag
        buferRdSig :=
          if s.pops i || (mailbox i && s.buferRdSig) then false else s.buferRdSig || i.buferRd
        readedAddr :=
          if s.pops i then if s.readedAddr = 1023 then 256 else s.readedAddr + 1
          else if speed i = 0#2 then 256 else s.readedAddr
        diff := if s.pops i then s.diff - 1 else if speed i = 0#2 then 0 else s.diff
        rxintflag0 := (s.rxFlagSig && parityFails i) || (!i.irqClear && s.rxintflag0) } := by
  unfold step waitingStep pops
  rw [h]
  cases hm : mailbox i <;> cases hr : s.buferRdSig <;> cases hf : s.rxFlagSig <;>
    cases hp : parityFails i <;> by_cases hs : speed i = 0#2 <;>
    by_cases hd : s.diff = 0 <;> simp [hs, hd, beforeCase, h, hr, hf]

theorem step_arincEvent (h : s.state = .arincEvent) (hc : s.cnt < 8) :
    s.step i =
      { s.beforeCase i with
        cnt := (s.cnt + 1) % 8
        state := if s.cnt = 7 then .waiting else .arincEvent
        rxintflag26 := true
        flagsData := fun k =>
          if k = byteIndex (wordLabel i) then
            maskArr s.ramMask.qB k ||| (1 : BitVec 8) <<< (wordLabel i % 8)
          else maskArr s.ramMask.qB k
        maskFlagsAddr :=
          if s.cnt = 0 then wordLabel i / 32
          else if s.cnt = 6 then 8 + wordLabel i / 32 else s.maskFlagsAddr
        buferAddrB :=
          if s.accepts i then
            if mailbox i then wordLabel i else fifoWriteAddr s.readedAddr s.diff
          else s.buferAddrB
        buferWeB := s.accepts i
        lastAddr := if s.accepts i && mailbox i then wordLabel i else s.lastAddr
        diff :=
          if s.accepts i && !mailbox i then if s.diff = 1023 then s.diff else s.diff + 1
          else s.diff
        rxintflag3 := s.accepts i || (!i.irqClear && s.rxintflag3)
        flagWe := decide (s.cnt = 7) && s.labelPasses i && mailbox i } := by
  unfold step arincEventStep accepts labelPasses wordLabel
  rw [h]
  have hcases : s.cnt = 0 ∨ s.cnt = 1 ∨ s.cnt = 2 ∨ s.cnt = 3 ∨ s.cnt = 4 ∨ s.cnt = 5 ∨
      s.cnt = 6 ∨ s.cnt = 7 := by omega
  cases hm : mailbox i <;>
    cases ha : maskAccepted s.ramMask.qB (label (arincDataOut i)) <;>
    rcases hcases with hc | hc | hc | hc | hc | hc | hc | hc <;>
    simp [hc, beforeCase, h, ha]

theorem step_flagCheck (h : s.state = .flagCheck) (hc : s.cnt < 4) :
    s.step i =
      { s.beforeCase i with
        cnt := s.cnt + 1
        state := if s.cnt = 3 then .waiting else .flagCheck
        flagsData := fun k =>
          if k = byteIndex i.buferAddr then
            maskArr s.ramMask.qB k &&& flagClearBuf i.buferAddr
          else maskArr s.ramMask.qB k
        maskFlagsAddr := if s.cnt = 0 then 8 + i.buferAddr / 32 % 8 else s.maskFlagsAddr
        flagWe := decide (s.cnt = 3) } := by
  unfold step flagCheckStep
  rw [h]
  have hcases : s.cnt = 0 ∨ s.cnt = 1 ∨ s.cnt = 2 ∨ s.cnt = 3 := by omega
  rcases hcases with hc | hc | hc | hc <;> simp [hc, beforeCase, h]

theorem filing_of_step (hlt : s.cnt < 8) (hcheck : s.state = .flagCheck → s.cnt < 4)
    (h : (s.step i).state = .arincEvent) :
    s.state = .waiting ∧ s.rxFlagSig = true ∧ (s.step i).cnt = 0 ∨
      s.state = .arincEvent ∧ (s.step i).cnt = s.cnt + 1 := by
  cases hs : s.state with
  | waiting =>
      rw [step_waiting hs] at h ⊢
      cases hsig : s.rxFlagSig with
      | true => exact Or.inl ⟨rfl, rfl, rfl⟩
      | false =>
          rw [hsig] at h
          simp only [Bool.false_and, Bool.false_eq_true, if_false] at h
          split at h <;> cases h
  | arincEvent =>
      rw [step_arincEvent hs hlt] at h ⊢
      have h7 : s.cnt ≠ 7 := by
        intro h7
        dsimp only at h
        rw [if_pos h7] at h
        cases h
      exact Or.inr ⟨rfl, Nat.mod_eq_of_lt (by omega)⟩
  | flagCheck =>
      rw [step_flagCheck hs (hcheck hs)] at h
      dsimp only at h
      split at h <;> cases h

end RxController

end Mfi.Arinc429
