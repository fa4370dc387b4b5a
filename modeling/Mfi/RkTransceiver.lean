import Mathlib.Logic.Function.Basic
import Mfi.Core.Trace

/-!
# Discrete transceiver

Eight inputs and five outputs with fault signals, behind a file of eight
registers. The slave samples the inputs into one register, compares it with
its previous value to raise flags in another, and clears the flags when the
host reads them. The timers are outside; what they put out is an input here.
-/

namespace Mfi.RkTransceiver

open Core

/-! ## Addresses and bits of the register file -/

def rkInStateRegAddr : BitVec 3 := 0#3

def rkOutStateRegAddr : BitVec 3 := 1#3

def rkIntmaskRegAddr : BitVec 3 := 2#3

def rkIntflagRegAddr : BitVec 3 := 3#3

def testEnBit : Nat := 9

def vwetBit : Nat := 8

def thsBit : Nat := 7

def senseBit : Nat := 6

def inSetBit : Nat := 5

def rkOut27v0v : Nat := 4

/-! ## Registers -/

inductive SlaveState where
  | reset
  | idle
  | write
  | read
  deriving DecidableEq, Repr

/-- The inputs of one clock cycle, the pulses of the timers among them. -/
structure Input where
  avsAddress : BitVec 3
  avsRead : Bool
  avsWrite : Bool
  avsWritedata : BitVec 32
  rkInput : BitVec 8
  rkInputAddr : BitVec 5
  rkFault : BitVec 4
  rk27v0vFault : Bool
  timerReady : Bool
  timerTurnOff : Bool
  rkOutEnPulse : Bool
  deriving DecidableEq, Repr

structure Slave where
  state : SlaveState
  registers : BitVec 3 → BitVec 32
  prevIntFlagsReg : BitVec 32
  address : BitVec 3
  data : BitVec 32
  avsWaitrequest : Bool
  avsReaddatavalid : Bool
  avsReaddata : BitVec 32

structure Outputs where
  rx1 : Bool
  rx2 : Bool
  rxEn : Bool
  rkTurnOn : Bool
  rkOutEn : Bool
  locOut : BitVec 4
  loc0vOut : Bool
  rk27vOutput : Bool
  rkVwetSel : Bool
  rkThsSel : Bool
  rkSenseSel : Bool
  rkInSet : Bool
  rkTest : Bool
  deriving DecidableEq, Repr

structure Regs where
  slave : Slave
  outputs : Outputs

def resetRegisters (address : BitVec 3) : BitVec 32 :=
  if address = 0#3 then 0x00000000#32
  else if address = 1#3 then 0x00000001#32
  else if address = 3#3 then 0x00000000#32
  else 0xFFFFFFFF#32

/-- The registers after the reset. The registers that it leaves out come from `o`, `address` and
`data`; the previous value starts equal to the input state. -/
def reset (o : Outputs) (address : BitVec 3) (data : BitVec 32) : Regs :=
  { slave :=
      { state := .reset, registers := resetRegisters,
        prevIntFlagsReg := resetRegisters rkInStateRegAddr, address := address, data := data,
        avsWaitrequest := true, avsReaddatavalid := false, avsReaddata := 0#32 }
    outputs :=
      { o with
        rkTurnOn := false, rkOutEn := false, locOut := 0#4, loc0vOut := false,
        rk27vOutput := false } }

def Slave.inState (s : Slave) : BitVec 32 := s.registers rkInStateRegAddr

def Slave.outState (s : Slave) : BitVec 32 := s.registers rkOutStateRegAddr

def Slave.intFlag (s : Slave) : BitVec 32 := s.registers rkIntflagRegAddr

/-! ## Outputs -/

def rkOutput (r : Regs) : BitVec 4 :=
  r.outputs.locOut &&& ~~~(r.slave.inState.extractLsb' 8 4)

def rk0vOutput (r : Regs) : Bool := r.outputs.loc0vOut && !r.slave.inState.getLsbD 12

def interrupt (r : Regs) : Bool :=
  r.slave.registers rkIntflagRegAddr &&& r.slave.registers rkIntmaskRegAddr != 0#32

def avmActive (i : Input) : Bool := i.avsRead || i.avsWrite

def selfTest (s : Slave) : Bool := s.outState.getLsbD testEnBit

def outputsNext (s : Slave) (o : Outputs) (i : Input) : Outputs :=
  let on := o.rkTurnOn && o.rkOutEn
  { rx1 := i.timerReady
    rx2 := o.rx1
    rxEn := o.rx1 && !o.rx2
    rkTurnOn :=
      if selfTest s then true
      else if avmActive i then true
      else if i.timerTurnOff then false else o.rkTurnOn
    rkOutEn := if i.rkOutEnPulse then true else o.rkOutEn
    locOut :=
      if o.rxEn then (if on then s.outState.extractLsb' 0 4 else 0#4) else o.locOut
    loc0vOut :=
      if o.rxEn then (if on then s.outState.getLsbD rkOut27v0v else false) else o.loc0vOut
    rk27vOutput := if o.rxEn then false else o.rk27vOutput
    rkVwetSel := if o.rxEn && on then s.outState.getLsbD vwetBit else o.rkVwetSel
    rkThsSel := if o.rxEn && on then s.outState.getLsbD thsBit else o.rkThsSel
    rkSenseSel := if o.rxEn && on then s.outState.getLsbD senseBit else o.rkSenseSel
    rkInSet := if o.rxEn && on then s.outState.getLsbD inSetBit else o.rkInSet
    rkTest := if o.rxEn && on then s.outState.getLsbD testEnBit else o.rkTest }

/-! ## The slave -/

/-- The input state after a sample. A fault bit stays once it is set. -/
def sampled (inState : BitVec 32) (i : Input) : BitVec 32 :=
  i.rkInputAddr ++ 0#14 ++ BitVec.ofBool (inState.getLsbD 12 || i.rk27v0vFault) ++
    (inState.extractLsb' 8 4 ||| i.rkFault) ++ i.rkInput

def inStateNext (s : Slave) (o : Outputs) (i : Input) : BitVec 32 :=
  if o.rxEn && o.rkOutEn then sampled s.inState i else s.inState

/-- The flags with those of the inputs that differ from the previous value. -/
def intFlagNext (s : Slave) : BitVec 32 :=
  (s.intFlag ||| (s.inState ^^^ s.prevIntFlagsReg)) &&& 0x000000FF#32

def slaveNext (s : Slave) (o : Outputs) (i : Input) : Slave :=
  match s.state with
  | .idle =>
      { state := if i.avsWrite then .write else if i.avsRead then .read else .idle
        registers :=
          Function.update (Function.update s.registers rkInStateRegAddr (inStateNext s o i))
            rkIntflagRegAddr (intFlagNext s)
        prevIntFlagsReg := s.inState
        address := i.avsAddress
        data := i.avsWritedata
        avsWaitrequest := !(i.avsWrite || i.avsRead)
        avsReaddatavalid := false
        avsReaddata := 0#32 }
  | .write =>
      { s with
        avsWaitrequest := true
        avsReaddatavalid := false
        avsReaddata := 0#32
        registers := Function.update s.registers s.address s.data
        state := .idle }
  | .read =>
      { s with
        registers :=
          if s.address = rkIntflagRegAddr then
            Function.update s.registers rkIntflagRegAddr 0#32
          else s.registers
        avsWaitrequest := true
        avsReaddatavalid := true
        avsReaddata := s.registers s.address
        state := .idle }
  | .reset =>
      { s with
        avsWaitrequest := true
        avsReaddatavalid := false
        avsReaddata := 0#32
        state := .idle }

def step (r : Regs) (i : Input) : Regs :=
  { slave := slaveNext r.slave r.outputs i
    outputs := outputsNext r.slave r.outputs i }

/-! ## One cycle of the slave -/

section Step

variable {s : Slave} {o : Outputs} {i : Input}

theorem idle_of_read (h : (slaveNext s o i).state = .read) : s.state = .idle := by
  cases hstate : s.state with
  | idle => rfl
  | write => rw [slaveNext, hstate] at h; cases h
  | read => rw [slaveNext, hstate] at h; cases h
  | reset => rw [slaveNext, hstate] at h; cases h

theorem idle_next (h : s.state ≠ .idle) : (slaveNext s o i).state = .idle := by
  cases hstate : s.state with
  | idle => exact absurd hstate h
  | write => rw [slaveNext, hstate]
  | read => rw [slaveNext, hstate]
  | reset => rw [slaveNext, hstate]

theorem idle_fields (h : s.state = .idle) :
    (slaveNext s o i).inState = inStateNext s o i ∧
      (slaveNext s o i).intFlag = intFlagNext s ∧
      (slaveNext s o i).prevIntFlagsReg = s.inState := by
  have hregisters : (slaveNext s o i).registers =
      Function.update (Function.update s.registers rkInStateRegAddr (inStateNext s o i))
        rkIntflagRegAddr (intFlagNext s) := by
    rw [slaveNext, h]
  refine ⟨?_, ?_, by rw [slaveNext, h]⟩
  · rw [Slave.inState, hregisters, Function.update_of_ne (by decide), Function.update_self]
  · rw [Slave.intFlag, hregisters, Function.update_self]

theorem busy_fields (h : s.state ≠ .idle)
    (hwrite : s.state = .write → s.address ≠ rkInStateRegAddr) :
    (slaveNext s o i).inState = s.inState ∧
      (slaveNext s o i).prevIntFlagsReg = s.prevIntFlagsReg := by
  cases hstate : s.state with
  | idle => exact absurd hstate h
  | write =>
      rw [slaveNext, hstate]
      exact ⟨Function.update_of_ne (hwrite hstate).symm _ _, rfl⟩
  | read =>
      rw [slaveNext, hstate]
      refine ⟨?_, rfl⟩
      by_cases haddr : s.address = rkIntflagRegAddr
      · simp only [Slave.inState, if_pos haddr]
        exact Function.update_of_ne (by decide) _ _
      · simp only [Slave.inState, if_neg haddr]
  | reset => rw [slaveNext, hstate]; exact ⟨rfl, rfl⟩

theorem flags_read (h : s.state = .read) (haddr : s.address = rkIntflagRegAddr) :
    (slaveNext s o i).intFlag = 0#32 ∧ (slaveNext s o i).avsReaddata = s.intFlag := by
  rw [slaveNext, h]
  refine ⟨?_, ?_⟩
  · simp only [Slave.intFlag, if_pos haddr]
    exact Function.update_self ..
  · rw [Slave.intFlag, ← haddr]

theorem busy_flags (h : s.state ≠ .idle)
    (hwrite : s.state = .write → s.address ≠ rkIntflagRegAddr)
    (hread : ¬ (s.state = .read ∧ s.address = rkIntflagRegAddr)) :
    (slaveNext s o i).intFlag = s.intFlag := by
  cases hstate : s.state with
  | idle => exact absurd hstate h
  | write =>
      rw [slaveNext, hstate]
      exact Function.update_of_ne (hwrite hstate).symm _ _
  | read =>
      rw [slaveNext, hstate]
      simp only [Slave.intFlag, if_neg (fun haddr => hread ⟨hstate, haddr⟩)]
  | reset => rw [slaveNext, hstate]; rfl

theorem getLsbD_intFlagNext (s : Slave) {k : Nat} (hk : k < 8) :
    (intFlagNext s).getLsbD k = (s.intFlag.getLsbD k ||
      (s.inState.getLsbD k ^^ s.prevIntFlagsReg.getLsbD k)) := by
  have hmask : ∀ k < 8, (0x000000FF#32).getLsbD k = true := by decide
  rw [intFlagNext, BitVec.getLsbD_and, hmask k hk, Bool.and_true, BitVec.getLsbD_or,
    BitVec.getLsbD_xor]

theorem fault_sampled {inState : BitVec 32} {k : Nat} (hlow : 8 ≤ k) (hhigh : k ≤ 12)
    (h : inState.getLsbD k = true) : (sampled inState i).getLsbD k = true := by
  have hk : k = 12 ∨ k < 12 := by omega
  rcases hk with rfl | hlt
  · simp only [sampled, BitVec.getLsbD_append, BitVec.getLsbD_ofBool, h, Bool.true_or]
    rfl
  · have hfour : k - 8 < 4 := by omega
    have hidx : 8 + (k - 8) = k := by omega
    simp only [sampled, BitVec.getLsbD_append, if_neg (show ¬ k < 8 by omega), if_pos hfour,
      BitVec.getLsbD_or, BitVec.getLsbD_extractLsb', decide_eq_true hfour, Bool.true_and, hidx, h,
      Bool.true_or]

end Step

/-! ## Runs -/

/-- The registers before cycle `n` after the reset. -/
def run (r0 : Regs) (inp : Nat → Input) (n : Nat) : Regs := trace step r0 inp n

def HostSpares (r0 : Regs) (inp : Nat → Input) : Prop :=
  ∀ n, (run r0 inp n).slave.state = .write →
    (run r0 inp n).slave.address ≠ rkInStateRegAddr ∧
      (run r0 inp n).slave.address ≠ rkIntflagRegAddr

/-- Bit `k` of the input state changes at the end of cycle `n`. -/
def Changes (r0 : Regs) (inp : Nat → Input) (k n : Nat) : Prop :=
  (run r0 inp (n + 1)).slave.inState.getLsbD k ≠ (run r0 inp n).slave.inState.getLsbD k

/-- In cycle `n` the flags are read. -/
def FlagsRead (r0 : Regs) (inp : Nat → Input) (n : Nat) : Prop :=
  (run r0 inp n).slave.state = .read ∧ (run r0 inp n).slave.address = rkIntflagRegAddr

/-- The word that the host gets from the read of cycle `n`. -/
def readResult (r0 : Regs) (inp : Nat → Input) (n : Nat) : BitVec 32 :=
  (run r0 inp (n + 1)).slave.avsReaddata

/-- A change of cycle `n` is not yet reported in cycle `r`: no flags were read from two cycles
after it on. A read one cycle after it was accepted before the change. -/
def Open (r0 : Regs) (inp : Nat → Input) (n r : Nat) : Prop :=
  ∀ k, n + 2 ≤ k → k < r → ¬ FlagsRead r0 inp k

section Flags

variable {r0 : Regs} {inp : Nat → Input}

theorem run_succ (n : Nat) : run r0 inp (n + 1) = step (run r0 inp n) (inp n) := rfl

theorem slave_succ (n : Nat) :
    (run r0 inp (n + 1)).slave =
      slaveNext (run r0 inp n).slave (run r0 inp n).outputs (inp n) := rfl

/-- The bit of the input state differs from its previous value. -/
def differs (s : Slave) (k : Nat) : Bool :=
  s.inState.getLsbD k ^^ s.prevIntFlagsReg.getLsbD k

theorem differs_idle {n : Nat} (h : (run r0 inp n).slave.state = .idle) (k : Nat) :
    differs (run r0 inp (n + 1)).slave k = true ↔ Changes r0 inp k n := by
  have hprev : (run r0 inp (n + 1)).slave.prevIntFlagsReg = (run r0 inp n).slave.inState :=
    (idle_fields h).2.2
  rw [differs, hprev, Changes]
  cases (run r0 inp (n + 1)).slave.inState.getLsbD k <;>
    cases (run r0 inp n).slave.inState.getLsbD k <;> decide

theorem busy_keeps (hhost : HostSpares r0 inp) {n : Nat}
    (h : (run r0 inp n).slave.state ≠ .idle) (k : Nat) :
    differs (run r0 inp (n + 1)).slave k = differs (run r0 inp n).slave k ∧
      ¬ Changes r0 inp k n := by
  obtain ⟨hin, hprev⟩ : (run r0 inp (n + 1)).slave.inState = (run r0 inp n).slave.inState ∧
      (run r0 inp (n + 1)).slave.prevIntFlagsReg = (run r0 inp n).slave.prevIntFlagsReg :=
    busy_fields h (fun hwrite => (hhost n hwrite).1)
  refine ⟨by rw [differs, differs, hin, hprev], ?_⟩
  intro hchange
  exact hchange (by rw [hin])

theorem flag_idle {n : Nat} (h : (run r0 inp n).slave.state = .idle) {k : Nat} (hk : k < 8) :
    (run r0 inp (n + 1)).slave.intFlag.getLsbD k =
      ((run r0 inp n).slave.intFlag.getLsbD k || differs (run r0 inp n).slave k) := by
  rw [slave_succ, (idle_fields h).2.1, getLsbD_intFlagNext _ hk, differs]

theorem idle_before_read {n : Nat} (h : (run r0 inp (n + 1)).slave.state = .read) :
    (run r0 inp n).slave.state = .idle := idle_of_read h

theorem not_flagsRead_idle {n : Nat} (h : (run r0 inp n).slave.state = .idle) :
    ¬ FlagsRead r0 inp n := by
  rintro ⟨hread, _⟩
  rw [h] at hread
  cases hread

theorem open_succ {n r : Nat} (h : Open r0 inp n r) (hread : ¬ FlagsRead r0 inp r) :
    Open r0 inp n (r + 1) := by
  intro k hlow hhigh
  by_cases heq : k = r
  · rw [heq]
    exact hread
  · exact h k hlow (by omega)

theorem changes_lt {k m n : Nat} (hno : ¬Changes r0 inp k n) (hm : m < n + 1)
    (hchange : Changes r0 inp k m) : m < n := by
  by_cases heq : m = n
  · rw [heq] at hchange
    exact absurd hchange hno
  · omega

theorem flag_or_differs_read (hhost : HostSpares r0 inp) {k p : Nat}
    (hbusy : (run r0 inp (p + 1)).slave.state ≠ .idle) (hread : FlagsRead r0 inp (p + 1)) :
    ((run r0 inp (p + 2)).slave.intFlag.getLsbD k || differs (run r0 inp (p + 2)).slave k) =
        true ↔
      ∃ m < p + 2, Changes r0 inp k m ∧ Open r0 inp m (p + 2) := by
  obtain ⟨hkeep, hno⟩ := busy_keeps hhost hbusy k
  have hbefore := idle_before_read hread.1
  have hzero : (run r0 inp (p + 1 + 1)).slave.intFlag = 0#32 := (flags_read hread.1 hread.2).1
  rw [hzero, BitVec.getLsbD_zero, Bool.false_or, hkeep, differs_idle hbefore]
  constructor
  · intro hchange
    exact ⟨p, by omega, hchange, fun j hlow hhigh => by omega⟩
  · rintro ⟨m, hm, hchange, hopen⟩
    have hmp := changes_lt hno hm hchange
    by_cases heq : m = p
    · rwa [heq] at hchange
    · exact absurd hread (hopen (p + 1) (by omega) (by omega))

/-- A flag is up, or about to come up, exactly if a change is not reported yet. -/
theorem flag_or_differs (hhost : HostSpares r0 inp) {k : Nat} (hk : k < 8)
    (hreset : (run r0 inp 0).slave.state = .reset)
    (hflag : (run r0 inp 0).slave.intFlag.getLsbD k = false)
    (hprev : differs (run r0 inp 0).slave k = false) (n : Nat) :
    ((run r0 inp n).slave.intFlag.getLsbD k || differs (run r0 inp n).slave k) = true ↔
      ∃ m < n, Changes r0 inp k m ∧ Open r0 inp m n := by
  induction n with
  | zero =>
      rw [hflag, hprev]
      constructor
      · intro h
        cases h
      · rintro ⟨m, hm, _⟩
        omega
  | succ n ih =>
      by_cases hidle : (run r0 inp n).slave.state = .idle
      · -- An idle cycle takes the difference over and may sample a new one.
        rw [flag_idle hidle hk, Bool.or_eq_true, ih, differs_idle hidle]
        constructor
        · rintro (⟨m, hm, hchange, hopen⟩ | hchange)
          · exact ⟨m, by omega, hchange, open_succ hopen (not_flagsRead_idle hidle)⟩
          · exact ⟨n, by omega, hchange, fun j hlow hhigh => by omega⟩
        · rintro ⟨m, hm, hchange, hopen⟩
          by_cases heq : m = n
          · rw [heq] at hchange
            exact Or.inr hchange
          · exact Or.inl ⟨m, by omega, hchange, fun j hlow hhigh => hopen j hlow (by omega)⟩
      · obtain ⟨hkeep, hno⟩ := busy_keeps hhost hidle k
        by_cases hread : FlagsRead r0 inp n
        · cases n with
          | zero =>
              obtain ⟨hstate, _⟩ := hread
              rw [hreset] at hstate
              cases hstate
          | succ p => exact flag_or_differs_read hhost hidle hread
        · have hsame : (run r0 inp (n + 1)).slave.intFlag = (run r0 inp n).slave.intFlag :=
            busy_flags hidle (fun hwrite => (hhost n hwrite).2) hread
          rw [hsame, hkeep, ih]
          constructor
          · rintro ⟨m, hm, hchange, hopen⟩
            exact ⟨m, by omega, hchange, open_succ hopen hread⟩
          · rintro ⟨m, hm, hchange, hopen⟩
            exact ⟨m, changes_lt hno hm hchange, hchange,
              fun j hlow hhigh => hopen j hlow (by omega)⟩

end Flags

section Transceiver

variable {o : Outputs} {address : BitVec 3} {data : BitVec 32} {inp : Nat → Input}

theorem flag_or_differs_reset (hhost : HostSpares (reset o address data) inp) {k : Nat}
    (hk : k < 8) (n : Nat) :
    ((run (reset o address data) inp n).slave.intFlag.getLsbD k ||
        differs (run (reset o address data) inp n).slave k) = true ↔
      ∃ m < n, Changes (reset o address data) inp k m ∧ Open (reset o address data) inp m n := by
  apply flag_or_differs hhost hk rfl
  · exact BitVec.getLsbD_zero
  · exact Bool.xor_self _

/-- A read of the flags returns the changes that are open. -/
theorem readResult_iff (hhost : HostSpares (reset o address data) inp) {k : Nat} (hk : k < 8)
    {r : Nat} (hread : FlagsRead (reset o address data) inp r) :
    (readResult (reset o address data) inp r).getLsbD k = true ↔
      ∃ n, n + 2 ≤ r ∧ Changes (reset o address data) inp k n ∧
        Open (reset o address data) inp n r := by
  have hresult : readResult (reset o address data) inp r =
      (run (reset o address data) inp r).slave.intFlag := (flags_read hread.1 hread.2).2
  cases r with
  | zero => cases hread.1
  | succ p =>
      have hidle := idle_before_read hread.1
      rw [hresult, flag_idle hidle hk, flag_or_differs_reset hhost hk]
      constructor
      · rintro ⟨n, hn, hchange, hopen⟩
        exact ⟨n, by omega, hchange, open_succ hopen (not_flagsRead_idle hidle)⟩
      · rintro ⟨n, hn, hchange, hopen⟩
        exact ⟨n, by omega, hchange, fun j hlow hhigh => hopen j hlow (by omega)⟩

/-- The flag of a bit that changes is up three cycles later at most. -/
theorem flag_after_change (hhost : HostSpares (reset o address data) inp) {k : Nat} (hk : k < 8)
    {n : Nat} (hchange : Changes (reset o address data) inp k n) :
    ∃ m, n < m ∧ m ≤ n + 3 ∧
      (run (reset o address data) inp m).slave.intFlag.getLsbD k = true := by
  have hidle : (run (reset o address data) inp n).slave.state = .idle := by
    cases hstate : (run (reset o address data) inp n).slave.state with
    | idle => rfl
    | write => exact absurd hchange (busy_keeps hhost (by rw [hstate]; decide) k).2
    | read => exact absurd hchange (busy_keeps hhost (by rw [hstate]; decide) k).2
    | reset => exact absurd hchange (busy_keeps hhost (by rw [hstate]; decide) k).2
  have hdiff := (differs_idle hidle k).mpr hchange
  by_cases hnext : (run (reset o address data) inp (n + 1)).slave.state = .idle
  · refine ⟨n + 2, by omega, by omega, ?_⟩
    rw [flag_idle hnext hk, hdiff, Bool.or_true]
  · have hthen : (run (reset o address data) inp (n + 2)).slave.state = .idle := idle_next hnext
    refine ⟨n + 3, by omega, by omega, ?_⟩
    rw [flag_idle hthen hk, (busy_keeps hhost hnext k).1, hdiff, Bool.or_true]

theorem fault_kept (hhost : HostSpares (reset o address data) inp) {k : Nat} (hlow : 8 ≤ k)
    (hhigh : k ≤ 12) {n m : Nat} (hnm : n ≤ m)
    (h : (run (reset o address data) inp n).slave.inState.getLsbD k = true) :
    (run (reset o address data) inp m).slave.inState.getLsbD k = true := by
  induction m with
  | zero =>
      rw [Nat.le_zero.mp hnm] at h
      exact h
  | succ m ih =>
      by_cases heq : n = m + 1
      · rw [← heq]
        exact h
      · have hbefore := ih (by omega)
        by_cases hidle : (run (reset o address data) inp m).slave.state = .idle
        · rw [slave_succ, (idle_fields hidle).1, inStateNext]
          split
          · exact fault_sampled hlow hhigh hbefore
          · exact hbefore
        · have hno := (busy_keeps hhost hidle k).2
          rw [Changes, ne_eq, Decidable.not_not] at hno
          rw [hno]
          exact hbefore

/-- In every run in which the host spares the two registers: a change of an input raises its
flag; a read of the flags returns a bit exactly if the input has changed since the last one,
where a change is open until the first read that begins after it; and a fault bit stays, with its
output at 0. -/
theorem flags_and_faults (hhost : HostSpares (reset o address data) inp) :
    (∀ k < 8, ∀ n, Changes (reset o address data) inp k n → ∃ m, n < m ∧ m ≤ n + 3 ∧
      (run (reset o address data) inp m).slave.intFlag.getLsbD k = true) ∧
    (∀ k < 8, ∀ r, FlagsRead (reset o address data) inp r →
      ((readResult (reset o address data) inp r).getLsbD k = true ↔
        ∃ n, n + 2 ≤ r ∧ Changes (reset o address data) inp k n ∧
          Open (reset o address data) inp n r)) ∧
    (∀ k < 4, ∀ n m, n ≤ m →
      (run (reset o address data) inp n).slave.inState.getLsbD (8 + k) = true →
      (run (reset o address data) inp m).slave.inState.getLsbD (8 + k) = true ∧
        (rkOutput (run (reset o address data) inp m)).getLsbD k = false) ∧
    (∀ n m, n ≤ m → (run (reset o address data) inp n).slave.inState.getLsbD 12 = true →
      (run (reset o address data) inp m).slave.inState.getLsbD 12 = true ∧
        rk0vOutput (run (reset o address data) inp m) = false) := by
  refine ⟨?_, ?_, ?_, ?_⟩
  · intro k hk n hchange
    exact flag_after_change hhost hk hchange
  · intro k hk r hread
    exact readResult_iff hhost hk hread
  · intro k hk n m hnm h
    have hkept := fault_kept hhost (by omega) (by omega) hnm h
    refine ⟨hkept, ?_⟩
    rw [rkOutput, BitVec.getLsbD_and, BitVec.getLsbD_not, BitVec.getLsbD_extractLsb', hkept,
      decide_eq_true hk]
    exact Bool.and_false _
  · intro n m hnm h
    have hkept := fault_kept hhost (by omega) (by omega) hnm h
    refine ⟨hkept, ?_⟩
    rw [rk0vOutput, hkept]
    exact Bool.and_false _

end Transceiver

/-! ## A run with one change -/

def someOutputs : Outputs :=
  { rx1 := false, rx2 := false, rxEn := false, rkTurnOn := false, rkOutEn := false, locOut := 0#4,
    loc0vOut := false, rk27vOutput := false, rkVwetSel := false, rkThsSel := false,
    rkSenseSel := false, rkInSet := false, rkTest := false }

/-- Input 0 is high and sampled once; the flags are read later on. -/
def oneSample (n : Nat) : Input :=
  { avsAddress := 3#3, avsRead := 5 ≤ n, avsWrite := false, avsWritedata := 0#32,
    rkInput := 1#8, rkInputAddr := 0#5, rkFault := 0#4, rk27v0vFault := false, timerReady := true,
    timerTurnOff := false, rkOutEnPulse := n == 0 }

theorem write_of_avsWrite {s : Slave} {o : Outputs} {i : Input}
    (h : (slaveNext s o i).state = .write) : i.avsWrite = true := by
  cases hstate : s.state with
  | idle =>
      rw [slaveNext, hstate] at h
      cases hwrite : i.avsWrite with
      | true => rfl
      | false => cases hread : i.avsRead <;> simp [hwrite, hread] at h
  | write => rw [slaveNext, hstate] at h; cases h
  | read => rw [slaveNext, hstate] at h; cases h
  | reset => rw [slaveNext, hstate] at h; cases h

/-- The change of cycle 2 is returned by the read of cycle 6. -/
theorem one_sample_reported :
    (readResult (reset someOutputs 0#3 0#32) oneSample 6).getLsbD 0 = true := by
  have hhost : HostSpares (reset someOutputs 0#3 0#32) oneSample := by
    intro n hwrite
    cases n with
    | zero => cases hwrite
    | succ n => cases write_of_avsWrite hwrite
  have hopen : Open (reset someOutputs 0#3 0#32) oneSample 2 6 := by
    rintro k hlow hhigh ⟨hread, _⟩
    obtain rfl | rfl : k = 4 ∨ k = 5 := by omega
    · cases hread
    · cases hread
  exact ((flags_and_faults hhost).2.1 0 (by omega) 6 ⟨rfl, rfl⟩).mpr
    ⟨2, by omega, by unfold Changes; decide, hopen⟩

end Mfi.RkTransceiver
