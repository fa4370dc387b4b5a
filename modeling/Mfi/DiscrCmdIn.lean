import Mfi.Core.Trace

/-!
# Discrete inputs with change interrupts

A host reads the inputs, their settings and a register of flags that tells
which inputs have changed. The flags are collected by one process and read by
another, which asks for them to be cleared and waits for the answer. While
this goes on changes are not collected.
-/

namespace Mfi.DiscrCmdIn

open Core

/-- The number of inputs, which fit into a word of the host. -/
structure Params where
  count : Nat
  countLe : count ≤ 32

inductive AmsState where
  | idle
  | write
  | read
  | reset
  deriving DecidableEq, Repr

structure Input (p : Params) where
  amsWrite : Bool
  amsRead : Bool
  amsAddress : BitVec 2
  amsWritedata : BitVec 32
  addr : BitVec 5
  dcIn : BitVec p.count

structure Host (p : Params) where
  dcVwet : Bool
  dcThsInt : Bool
  dcThsSel : Bool
  dcSense : Bool
  dcIntClear : Bool
  dcMask : BitVec p.count
  amsWaitrequest : Bool
  amsReaddatavalid : Bool
  amsReaddata : BitVec 32
  amsAddressD : BitVec 2
  amsWritedataD : BitVec 32
  amsState : AmsState

structure Inputs (p : Params) where
  dcIntAck : Bool
  dcInt : BitVec p.count
  dcIntD : BitVec p.count
  irq : Bool
  addrLatch : BitVec 5
  addrMeta : BitVec 5
  dcStatus : BitVec p.count
  dcStatusD : BitVec p.count
  vwet : Bool
  thsInt : Bool
  thsSel : Bool
  sense : Bool

structure Regs (p : Params) where
  host : Host p
  inputs : Inputs p

/-- The registers after the reset, which leaves the interrupt line as it is. -/
def reset (p : Params) (irq : Bool) : Regs p :=
  { host :=
      { dcVwet := false, dcThsInt := false, dcThsSel := false, dcSense := false,
        dcIntClear := false, dcMask := 0#p.count, amsWaitrequest := true,
        amsReaddatavalid := false, amsReaddata := 0#32, amsAddressD := 0#2,
        amsWritedataD := 0#32, amsState := .reset }
    inputs :=
      { dcIntAck := false, dcInt := 0#p.count, dcIntD := 0#p.count, irq := irq,
        addrLatch := 0#5, addrMeta := 0#5, dcStatus := 0#p.count, dcStatusD := 0#p.count,
        vwet := false, thsInt := false, thsSel := false, sense := false } }

section Step

variable {p : Params}

def readWord (h : Host p) (s : Inputs p) : BitVec 32 :=
  match h.amsAddressD.toNat with
  | 0 =>
      s.addrLatch ++ 0#23 ++ BitVec.ofBool h.dcSense ++ BitVec.ofBool h.dcThsSel ++
        BitVec.ofBool h.dcThsInt ++ BitVec.ofBool h.dcVwet
  | 1 => s.addrLatch ++ s.dcStatus.setWidth 27
  | 2 => s.dcInt.setWidth 32
  | _ => h.dcMask.setWidth 32

def hostNext (h : Host p) (s : Inputs p) (i : Input p) : Host p :=
  match h.amsState with
  | .idle =>
      { h with
        amsWaitrequest := !(i.amsWrite || i.amsRead)
        amsAddressD := if i.amsWrite || i.amsRead then i.amsAddress else 0#2
        amsWritedataD := if i.amsWrite then i.amsWritedata else 0#32
        amsState := if i.amsWrite then .write else if i.amsRead then .read else .idle
        dcIntClear := if s.dcIntAck then false else h.dcIntClear
        amsReaddatavalid := false
        amsReaddata := 0#32 }
  | .write =>
      { h with
        dcSense := if h.amsAddressD = 0#2 then h.amsWritedataD.getLsbD 3 else h.dcSense
        dcThsSel := if h.amsAddressD = 0#2 then h.amsWritedataD.getLsbD 2 else h.dcThsSel
        dcThsInt := if h.amsAddressD = 0#2 then h.amsWritedataD.getLsbD 1 else h.dcThsInt
        dcVwet := if h.amsAddressD = 0#2 then h.amsWritedataD.getLsbD 0 else h.dcVwet
        dcMask :=
          if h.amsAddressD = 3#2 then h.amsWritedataD.setWidth p.count else h.dcMask
        amsWaitrequest := true
        amsReaddatavalid := false
        amsReaddata := 0#32
        amsState := .idle }
  | .read =>
      { h with
        amsReaddata := readWord h s
        dcIntClear := if h.amsAddressD = 2#2 then true else h.dcIntClear
        amsWaitrequest := true
        amsReaddatavalid := true
        amsState := .idle }
  | .reset =>
      { h with
        dcVwet := false
        dcThsInt := false
        dcThsSel := false
        dcSense := false
        dcIntClear := false
        dcMask := 0#p.count
        amsWaitrequest := true
        amsReaddatavalid := false
        amsReaddata := 0#32
        amsState := .idle }

/-- The masked inputs that change at the end of the cycle. -/
def changes (h : Host p) (s : Inputs p) : BitVec p.count :=
  (s.dcStatus ^^^ s.dcStatusD) &&& h.dcMask

def inputsNext (h : Host p) (s : Inputs p) (i : Input p) : Inputs p :=
  { dcIntAck := h.dcIntClear
    dcInt := if h.dcIntClear then 0#p.count else s.dcInt ||| changes h s
    dcIntD := if h.dcIntClear then 0#p.count else s.dcInt
    irq := s.dcInt ^^^ s.dcIntD != 0#p.count
    addrLatch := s.addrMeta
    addrMeta := i.addr
    dcStatus := s.dcStatusD
    dcStatusD := i.dcIn
    vwet :=
      if h.dcThsInt then h.dcVwet && !h.dcSense
      else if !h.dcThsSel then h.dcVwet else false
    sense := if h.dcThsInt then h.dcSense else h.dcThsSel
    thsSel := h.dcThsSel
    thsInt := h.dcThsInt }

def step (r : Regs p) (i : Input p) : Regs p :=
  { host := hostNext r.host r.inputs i
    inputs := inputsNext r.host r.inputs i }

end Step

section Run

variable (p : Params) (irq : Bool) (inp : Nat → Input p)

/-- The registers before cycle `n` after the reset. -/
def run (n : Nat) : Regs p := trace step (reset p irq) inp n

/-- The masked input `b` changes at the end of cycle `n`. -/
def Changes (n b : Nat) : Prop :=
  (changes (run p irq inp n).host (run p irq inp n).inputs).getLsbD b = true

/-- In cycle `n` the flags are read. -/
def FlagsRead (n : Nat) : Prop :=
  (run p irq inp n).host.amsState = .read ∧ (run p irq inp n).host.amsAddressD = 2#2

/-- The word that the host gets from the read of cycle `n`. -/
def readResult (n : Nat) : BitVec 32 := (run p irq inp (n + 1)).host.amsReaddata

/-- The read of cycle `r` is the first one of the flags after cycle `n`. -/
structure NextRead (n r : Nat) : Prop where
  after : n < r
  reads : FlagsRead p irq inp r
  first : ∀ k, n < k → k < r → ¬ FlagsRead p irq inp k

/-- The cycles in which a change is not collected for good: the flags are being cleared, or
read and cleared in the next cycle. -/
def Deaf (n : Nat) : Prop :=
  (run p irq inp n).host.dcIntClear = true ∨ FlagsRead p irq inp n

end Run

section Flags

variable {p : Params} {irq : Bool} {inp : Nat → Input p}

theorem run_succ (n : Nat) : run p irq inp (n + 1) = step (run p irq inp n) (inp n) := rfl

/-! ## One cycle -/

theorem dcInt_succ (n : Nat) :
    (run p irq inp (n + 1)).inputs.dcInt =
      if (run p irq inp n).host.dcIntClear then 0#p.count
      else (run p irq inp n).inputs.dcInt |||
        changes (run p irq inp n).host (run p irq inp n).inputs := rfl

theorem dcIntClear_succ_false {n : Nat} (hclear : (run p irq inp n).host.dcIntClear = false)
    (hread : ¬ FlagsRead p irq inp n) : (run p irq inp (n + 1)).host.dcIntClear = false := by
  show (hostNext (run p irq inp n).host (run p irq inp n).inputs (inp n)).dcIntClear = false
  unfold hostNext
  cases hstate : (run p irq inp n).host.amsState with
  | idle =>
      dsimp only
      split
      · rfl
      · exact hclear
  | write => exact hclear
  | read =>
      dsimp only
      rw [if_neg (fun haddr => hread ⟨hstate, haddr⟩), hclear]
  | reset => rfl

theorem readResult_eq {n : Nat} (h : FlagsRead p irq inp n) :
    readResult p irq inp n = (run p irq inp n).inputs.dcInt.setWidth 32 := by
  show (hostNext (run p irq inp n).host (run p irq inp n).inputs (inp n)).amsReaddata = _
  rw [hostNext, h.1]
  dsimp only
  rw [readWord, h.2]
  rfl

theorem flagsRead_succ {n : Nat} (h : FlagsRead p irq inp n) :
    (run p irq inp (n + 1)).host.amsState = .idle ∧
      (run p irq inp (n + 1)).host.amsReaddatavalid = true ∧
      (run p irq inp (n + 1)).host.dcIntClear = true := by
  have hnext : (run p irq inp (n + 1)).host =
      hostNext (run p irq inp n).host (run p irq inp n).inputs (inp n) := rfl
  rw [hnext, hostNext, h.1]
  exact ⟨rfl, rfl, if_pos h.2⟩

theorem not_flagsRead_succ {n : Nat} (h : FlagsRead p irq inp n) :
    ¬ FlagsRead p irq inp (n + 1) := by
  intro hnext
  have hidle := (flagsRead_succ h).1
  rw [hnext.1] at hidle
  cases hidle

theorem dcInt_cleared {n : Nat} (h : FlagsRead p irq inp n) :
    (run p irq inp (n + 2)).inputs.dcInt = 0#p.count := by
  rw [dcInt_succ, (flagsRead_succ h).2.2]
  rfl

theorem getLsbD_readResult {n b : Nat} (h : FlagsRead p irq inp n) :
    (readResult p irq inp n).getLsbD b = (run p irq inp n).inputs.dcInt.getLsbD b := by
  rw [readResult_eq h, BitVec.getLsbD_setWidth]
  by_cases hb : b < 32
  · rw [decide_eq_true hb, Bool.true_and]
  · have hcount := p.countLe
    rw [decide_eq_false hb, Bool.false_and, BitVec.getLsbD_of_ge _ _ (by omega)]

/-! ## Runs -/

/-- A change that is collected stays until the flags are read. -/
theorem flag_kept {n b : Nat} (hchange : Changes p irq inp n b) (hdeaf : ¬ Deaf p irq inp n) :
    ∀ j, (∀ k, n < k → k < n + 1 + j → ¬ FlagsRead p irq inp k) →
      (run p irq inp (n + 1 + j)).host.dcIntClear = false ∧
        (run p irq inp (n + 1 + j)).inputs.dcInt.getLsbD b = true := by
  have hclear : (run p irq inp n).host.dcIntClear = false := by
    cases h : (run p irq inp n).host.dcIntClear with
    | false => rfl
    | true => exact absurd (Or.inl h) hdeaf
  intro j
  induction j with
  | zero =>
      intro _
      refine ⟨dcIntClear_succ_false hclear (fun h => hdeaf (Or.inr h)), ?_⟩
      rw [Nat.add_zero, dcInt_succ, hclear]
      simp only [Bool.false_eq_true, if_false, BitVec.getLsbD_or]
      rw [show (changes _ _).getLsbD b = true from hchange, Bool.or_true]
  | succ j ih =>
      intro hno
      obtain ⟨hfalse, hbit⟩ := ih (fun k hk hlt => hno k hk (by omega))
      have hread := hno (n + 1 + j) (by omega) (by omega)
      refine ⟨dcIntClear_succ_false hfalse hread, ?_⟩
      rw [← Nat.add_assoc, dcInt_succ, hfalse]
      simp only [Bool.false_eq_true, if_false, BitVec.getLsbD_or]
      rw [hbit, Bool.true_or]

/-- A flag that was down is up later only because its input has changed. -/
theorem changes_of_flag {m b : Nat} (hdown : (run p irq inp m).inputs.dcInt.getLsbD b = false) :
    ∀ j, (run p irq inp (m + j)).inputs.dcInt.getLsbD b = true →
      ∃ n, m ≤ n ∧ n < m + j ∧ Changes p irq inp n b := by
  intro j
  induction j with
  | zero =>
      intro hup
      rw [Nat.add_zero, hdown] at hup
      cases hup
  | succ j ih =>
      intro hup
      rw [← Nat.add_assoc, dcInt_succ] at hup
      cases hclear : (run p irq inp (m + j)).host.dcIntClear with
      | true =>
          rw [hclear, if_pos rfl, BitVec.getLsbD_zero] at hup
          cases hup
      | false =>
          rw [hclear] at hup
          simp only [Bool.false_eq_true, if_false, BitVec.getLsbD_or, Bool.or_eq_true] at hup
          rcases hup with hbefore | hnow
          · obtain ⟨n, hn, hlt, hchange⟩ := ih hbefore
            exact ⟨n, hn, by omega, hchange⟩
          · exact ⟨m + j, by omega, by omega, hnow⟩

/-- If no masked input changes in the cycles in which flags are read or cleared, every change is
reported by the next read of the flags, and a flag that is reported again has changed again. -/
theorem changes_reported (hquiet : ∀ n b, Deaf p irq inp n → ¬ Changes p irq inp n b) :
    (∀ n b r, Changes p irq inp n b → NextRead p irq inp n r →
      (readResult p irq inp r).getLsbD b = true) ∧
    (∀ q r b, FlagsRead p irq inp q → FlagsRead p irq inp r → q < r →
      (readResult p irq inp r).getLsbD b = true →
      ∃ n, q ≤ n ∧ n < r ∧ Changes p irq inp n b) := by
  constructor
  · intro n b r hchange hnext
    have hdeaf : ¬ Deaf p irq inp n := fun h => hquiet n b h hchange
    obtain ⟨j, rfl⟩ := Nat.exists_eq_add_of_le (show n + 1 ≤ r from hnext.after)
    rw [getLsbD_readResult hnext.reads]
    exact (flag_kept hchange hdeaf j hnext.first).2
  · intro q r b hq hr hlt hbit
    have hne : r ≠ q + 1 := by
      intro heq
      rw [heq] at hr
      exact not_flagsRead_succ hq hr
    obtain ⟨j, rfl⟩ := Nat.exists_eq_add_of_le (show q + 2 ≤ r by omega)
    rw [getLsbD_readResult hr] at hbit
    have hdown : (run p irq inp (q + 2)).inputs.dcInt.getLsbD b = false := by
      rw [dcInt_cleared hq, BitVec.getLsbD_zero]
    obtain ⟨n, hn, hnlt, hchange⟩ := changes_of_flag hdown j hbit
    exact ⟨n, by omega, hnlt, hchange⟩

end Flags

/-! ## Inputs that change once -/

/-- One input is enabled by a write of the mask. From cycle `read` on the flags are asked for
again and again, and from cycle `rise` on the input is high. -/
def stimulus (rise read n : Nat) : Input ⟨1, by decide⟩ :=
  { amsWrite := n == 1
    amsRead := read ≤ n
    amsAddress := if n = 1 then 3#2 else 2#2
    amsWritedata := 1#32
    addr := 0#5
    dcIn := if rise ≤ n then 1#1 else 0#1 }

theorem stimulus_dcStatusD (rise read n : Nat) :
    (run _ false (stimulus rise read) (n + 1)).inputs.dcStatusD =
      if rise ≤ n then 1#1 else 0#1 := rfl

theorem stimulus_dcStatus (rise read n : Nat) :
    (run _ false (stimulus rise read) (n + 2)).inputs.dcStatus =
      if rise ≤ n then 1#1 else 0#1 := rfl

theorem stimulus_changes {rise read n b : Nat}
    (h : Changes _ false (stimulus rise read) n b) : n = rise + 1 := by
  have hne : (run _ false (stimulus rise read) n).inputs.dcStatus ≠
      (run _ false (stimulus rise read) n).inputs.dcStatusD := by
    intro heq
    rw [Changes, changes, heq, BitVec.xor_self, BitVec.zero_and, BitVec.getLsbD_zero] at h
    cases h
  match n with
  | 0 => exact absurd rfl hne
  | 1 =>
      rw [stimulus_dcStatusD] at hne
      by_cases hrise : rise ≤ 0
      · omega
      · rw [if_neg hrise] at hne
        exact absurd rfl hne
  | n + 2 =>
      rw [stimulus_dcStatus, stimulus_dcStatusD] at hne
      by_cases hrise : rise ≤ n
      · rw [if_pos hrise, if_pos (by omega)] at hne
        exact absurd rfl hne
      · by_cases hnext : rise ≤ n + 1
        · omega
        · rw [if_neg hrise, if_neg hnext] at hne
          exact absurd rfl hne

theorem stimulus_reads (rise : Nat) {read n : Nat} (hread : read ≤ n) (hpos : 1 ≤ n)
    (h : FlagsRead _ false (stimulus rise read) n) (k : Nat) :
    FlagsRead _ false (stimulus rise read) (n + 2 * k) := by
  induction k with
  | zero => exact h
  | succ k ih =>
      have hidle := (flagsRead_succ ih).1
      have hhost : (run _ false (stimulus rise read) (n + 2 * (k + 1))).host =
          hostNext (run _ false (stimulus rise read) (n + 2 * k + 1)).host
            (run _ false (stimulus rise read) (n + 2 * k + 1)).inputs
            (stimulus rise read (n + 2 * k + 1)) := rfl
      have hwrite : (stimulus rise read (n + 2 * k + 1)).amsWrite = false :=
        beq_eq_false_iff_ne.mpr (by omega)
      have hask : (stimulus rise read (n + 2 * k + 1)).amsRead = true := decide_eq_true (by omega)
      have haddr : (stimulus rise read (n + 2 * k + 1)).amsAddress = 2#2 := if_neg (by omega)
      constructor
      · rw [hhost, hostNext, hidle]
        simp [hwrite, hask]
      · rw [hhost, hostNext, hidle]
        simp [hwrite, hask, haddr]

/-- An input that has changed before the first read is reported by it. -/
theorem early_change_reported :
    (readResult _ false (stimulus 5 9) 10).getLsbD 0 = true :=
  (changes_reported (by
    intro n b hdeaf hchange
    obtain rfl := stimulus_changes hchange
    rcases hdeaf with hclear | hread
    · cases hclear
    · cases hread.1)).1 6 0 10 rfl
    { after := by decide
      reads := ⟨rfl, rfl⟩
      first := by
        intro k hlow hhigh hread
        have hcases : k = 7 ∨ k = 8 ∨ k = 9 := by omega
        rcases hcases with rfl | rfl | rfl
        · cases hread.1
        · cases hread.1
        · cases hread.1 }

/-- A change in the cycle of a read is never reported, however often the flags are read. -/
theorem change_at_read_lost :
    Changes _ false (stimulus 3 3) 4 0 ∧
      (∀ m, ∃ r ≥ m, FlagsRead _ false (stimulus 3 3) r) ∧
      ∀ r > 4, FlagsRead _ false (stimulus 3 3) r →
        (readResult _ false (stimulus 3 3) r).getLsbD 0 = false := by
  have hread : FlagsRead _ false (stimulus 3 3) 4 := ⟨rfl, rfl⟩
  refine ⟨rfl, fun m => ⟨4 + 2 * m, by omega, ?_⟩, ?_⟩
  · exact stimulus_reads 3 (by omega) (by omega) hread m
  · intro r hr hreads
    have hne : r ≠ 5 := by
      intro heq
      rw [heq] at hreads
      exact not_flagsRead_succ hread hreads
    obtain ⟨j, rfl⟩ := Nat.exists_eq_add_of_le (show 6 ≤ r by omega)
    rw [getLsbD_readResult hreads]
    have hdown : (run _ false (stimulus 3 3) 6).inputs.dcInt.getLsbD 0 = false := by
      rw [dcInt_cleared hread, BitVec.getLsbD_zero]
    cases hup : (run _ false (stimulus 3 3) (6 + j)).inputs.dcInt.getLsbD 0 with
    | false => rfl
    | true =>
        obtain ⟨n, hn, _, hchange⟩ := changes_of_flag hdown j hup
        have heq := stimulus_changes hchange
        omega

end Mfi.DiscrCmdIn
