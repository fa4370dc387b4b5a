import Mathlib.Data.Nat.Log
import Mfi.Core.Trace
import Mfi.Core.Words

/-!
# Discrete outputs with a dead man's switch

A host writes the outputs. Each access starts a timer anew, and when the timer has run out
the outputs are off until the next access. An output with a fault is off too. The outputs
come out of a pipeline of two registers.
-/

namespace Mfi.DiscrCmdOut

open Core

/-- The parameters of the instance as numbers of 32 bits with sign. The outputs fit into a word of
the host. -/
structure Params where
  clockFreq : BitVec 32
  timeoutMs : BitVec 32
  count : Nat
  countLe : count ≤ 32

def Params.periodMs (p : Params) : BitVec 32 := p.clockFreq.sdiv 1000#32

def Params.timeout (p : Params) : BitVec 32 := p.timeoutMs * p.periodMs

def Params.timerWidth (p : Params) : Nat := Nat.clog 2 p.timeout.toNat

inductive AmsState where
  | idle
  | write
  | read
  | reset
  deriving DecidableEq, Repr

structure Input (p : Params) where
  amsWrite : Bool
  amsRead : Bool
  amsAddress : BitVec 2
  amsWritedata : BitVec 32
  fault : BitVec p.count

structure Host (p : Params) where
  dcControl : BitVec p.count
  dcTimer : BitVec p.timerWidth
  dcTimeout : Bool
  amsWaitrequest : Bool
  amsReaddatavalid : Bool
  amsReaddata : BitVec 32
  amsAddressD : BitVec 2
  amsWritedataD : BitVec p.count
  amsState : AmsState

structure Outputs (p : Params) where
  dcStatus : BitVec p.count
  dcStatusD : BitVec p.count
  dcControlD : BitVec p.count
  out : BitVec p.count
  irq : Bool

structure Regs (p : Params) where
  host : Host p
  outputs : Outputs p

/-- The registers after the reset, which leaves the interrupt line as it is. -/
def reset (p : Params) (irq : Bool) : Regs p :=
  { host :=
      { dcControl := 0#p.count, dcTimer := 0#p.timerWidth, dcTimeout := false,
        amsWaitrequest := true, amsReaddatavalid := false, amsReaddata := 0#32,
        amsAddressD := 0#2, amsWritedataD := 0#p.count, amsState := .reset }
    outputs :=
      { dcStatus := 0#p.count, dcStatusD := 0#p.count, dcControlD := 0#p.count, out := 0#p.count,
        irq := irq } }

section Step

variable {p : Params}

def timerNext (h : Host p) : Host p :=
  if 0 < p.timeout.toInt then
    if h.dcTimer.toNat < (p.timeout - 1#32).toNat then
      { h with dcTimer := h.dcTimer + 1, dcTimeout := false }
    else { h with dcTimeout := true }
  else { h with dcTimer := 0, dcTimeout := false }

def readWord (h : Host p) (s : Outputs p) : BitVec 32 :=
  match h.amsAddressD.toNat with
  | 0 => h.dcControl.setWidth 32
  | 1 => s.dcStatus.setWidth 32
  | _ => 0xDEADC0DE#32

def hostNext (h : Host p) (s : Outputs p) (i : Input p) : Host p :=
  match h.amsState with
  | .idle =>
      let t : Host p :=
        if i.amsWrite then
          { h with
            amsWaitrequest := false
            amsAddressD := i.amsAddress
            amsWritedataD := i.amsWritedata.setWidth p.count
            dcTimer := 0
            dcTimeout := false
            amsState := .write }
        else if i.amsRead then
          { h with
            amsWaitrequest := false
            amsAddressD := i.amsAddress
            amsWritedataD := 0#p.count
            dcTimer := 0
            dcTimeout := false
            amsState := .read }
        else
          { timerNext h with
            amsWaitrequest := true, amsAddressD := 0#2, amsWritedataD := 0#p.count }
      { t with amsReaddatavalid := false, amsReaddata := 0#32 }
  | .write =>
      { h with
        dcControl := if h.amsAddressD = 0#2 then h.amsWritedataD else h.dcControl
        amsWaitrequest := true
        amsReaddatavalid := false
        amsReaddata := 0#32
        amsState := .idle }
  | .read =>
      { h with
        amsReaddata := readWord h s
        amsWaitrequest := true
        amsReaddatavalid := true
        amsState := .idle }
  | .reset =>
      { h with
        dcControl := 0#p.count
        dcTimer := 0
        dcTimeout := false
        amsWaitrequest := true
        amsReaddatavalid := false
        amsReaddata := 0#32
        amsState := .idle }

def outputsNext (h : Host p) (s : Outputs p) (i : Input p) : Outputs p :=
  { dcStatus := i.fault
    dcStatusD := s.dcStatus
    irq := s.dcStatus ^^^ s.dcStatusD != 0#p.count
    dcControlD := h.dcControl &&& ~~~s.dcStatus
    out := if !h.dcTimeout then s.dcControlD else 0#p.count }

def step (r : Regs p) (i : Input p) : Regs p :=
  { host := hostNext r.host r.outputs i
    outputs := outputsNext r.host r.outputs i }

end Step

/-- The registers before cycle `n` after the reset. -/
def run (p : Params) (irq : Bool) (inp : Nat → Input p) (n : Nat) : Regs p :=
  trace step (reset p irq) inp n

theorem run_succ (p : Params) (irq : Bool) (inp : Nat → Input p) (n : Nat) :
    run p irq inp (n + 1) = step (run p irq inp n) (inp n) := rfl

section Cycles

variable {p : Params} (irq : Bool) (inp : Nat → Input p)

/-- The host asks for something in cycle `n`. -/
def Access (n : Nat) : Prop := (inp n).amsWrite = true ∨ (inp n).amsRead = true

/-- In cycle `n` a write to register 0 is taken. It is complete two cycles later. -/
def Writes (n : Nat) : Prop :=
  (run p irq inp n).host.amsState = .idle ∧ (inp n).amsWrite = true ∧ (inp n).amsAddress = 0#2

end Cycles

/-! ## The timer -/

section Timer

variable {p : Params} {irq : Bool} {inp : Nat → Input p} {h : Host p} {s : Outputs p} {i : Input p}

theorem timeout_toNat (hT : 2 ≤ p.timeout.toInt) :
    0 < p.timeout.toInt ∧ 2 ≤ p.timeout.toNat ∧
      (p.timeout - 1#32).toNat = p.timeout.toNat - 1 := by
  have hnat : 2 ≤ p.timeout.toNat := by
    have hle := BitVec.toInt_le (x := p.timeout)
    rw [BitVec.toInt_eq_toNat_cond] at hT
    split at hT <;> omega
  constructor
  · omega
  constructor
  · exact hnat
  · exact toNat_sub_one (by omega)

theorem timerNext_toNat (hT : 2 ≤ p.timeout.toInt) :
    min (h.dcTimer.toNat + 1) (p.timeout.toNat - 1) ≤ (timerNext h).dcTimer.toNat ∧
      (p.timeout.toNat - 1 ≤ h.dcTimer.toNat → (timerNext h).dcTimeout = true) := by
  rcases timeout_toNat hT with ⟨hpos, hnat, hsub⟩
  have hwidth : p.timeout.toNat ≤ 2 ^ p.timerWidth := Nat.le_pow_clog (by omega) _
  unfold timerNext
  rw [if_pos hpos, hsub]
  split
  · constructor
    · rw [toNat_add_one (by omega)]
      exact Nat.min_le_left _ _
    · omega
  · constructor
    · show _ ≤ h.dcTimer.toNat
      omega
    · exact fun _ => rfl

theorem hostNext_quiet (hw : i.amsWrite = false) (hr : i.amsRead = false) :
    (hostNext h s i).amsState = .idle ∧
      (h.amsState = .idle → (hostNext h s i).dcTimer = (timerNext h).dcTimer ∧
        (hostNext h s i).dcTimeout = (timerNext h).dcTimeout ∧
        (hostNext h s i).dcControl = h.dcControl) := by
  have hkept : (timerNext h).amsState = h.amsState ∧ (timerNext h).dcControl = h.dcControl := by
    unfold timerNext
    split
    · split <;> exact ⟨rfl, rfl⟩
    · exact ⟨rfl, rfl⟩
  unfold hostNext
  cases hs : h.amsState with
  | idle =>
      simp only [hw, hr, Bool.false_eq_true, if_false, true_and]
      exact ⟨hkept.1.trans hs, fun _ => hkept.2⟩
  | write => exact ⟨rfl, nofun⟩
  | read => exact ⟨rfl, nofun⟩
  | reset => exact ⟨rfl, nofun⟩

theorem quiet_of_not_access {n : Nat} (h : ¬Access inp n) :
    (inp n).amsWrite = false ∧ (inp n).amsRead = false := by
  unfold Access at h
  rw [not_or, Bool.not_eq_true, Bool.not_eq_true] at h
  exact h

theorem timer_run (hT : 2 ≤ p.timeout.toInt) {n j : Nat}
    (hquiet : ∀ k, n ≤ k → k ≤ n + j → ¬Access inp k) :
    (run p irq inp (n + j + 1)).host.amsState = .idle ∧
      min j (p.timeout.toNat - 1) ≤ (run p irq inp (n + j + 1)).host.dcTimer.toNat := by
  have hidle : ∀ k, n ≤ k → k ≤ n + j →
      (run p irq inp (k + 1)).host.amsState = .idle := by
    intro k hk hk'
    have hnone := quiet_of_not_access (hquiet k hk hk')
    exact (hostNext_quiet hnone.1 hnone.2).1
  constructor
  · exact hidle (n + j) (by omega) (Nat.le_refl _)
  · induction j with
    | zero => exact Nat.le_trans (Nat.min_le_left _ _) (Nat.zero_le _)
    | succ j ih =>
        have hbefore := ih (fun k hk hk' => hquiet k hk (by omega))
          fun k hk hk' => hidle k hk (by omega)
        have hnone := quiet_of_not_access (hquiet (n + j + 1) (by omega) (by omega))
        have hnow := hidle (n + j) (by omega) (by omega)
        have htimer := (timerNext_toNat (h := (run p irq inp (n + j + 1)).host) hT).1
        show _ ≤ (step (run p irq inp (n + j + 1)) (inp (n + j + 1))).host.dcTimer.toNat
        unfold step
        rw [((hostNext_quiet hnone.1 hnone.2).2 hnow).1]
        omega

theorem out_of_timeout {n : Nat} (h : (run p irq inp n).host.dcTimeout = true) :
    (run p irq inp (n + 1)).outputs.out = 0#p.count := by
  rw [run_succ]
  simp only [step, outputsNext, h, Bool.not_true, Bool.false_eq_true, if_false]

theorem out_after_quiet (hT : 2 ≤ p.timeout.toInt) {n : Nat}
    (hquiet : ∀ k, n ≤ k → k ≤ n + p.timeout.toNat → ¬Access inp k) :
    (run p irq inp (n + p.timeout.toNat + 2)).outputs.out = 0#p.count := by
  rcases timeout_toNat hT with ⟨_, hnat, _⟩
  have htimes : (run p irq inp (n + (p.timeout.toNat - 1) + 1)).host.amsState = .idle ∧ _ :=
    timer_run hT (fun k hk hk' => hquiet k hk (by omega))
  rcases htimes with ⟨hidle, htimer⟩
  rw [show n + (p.timeout.toNat - 1) + 1 = n + p.timeout.toNat by omega] at hidle htimer
  have hnone := quiet_of_not_access (hquiet (n + p.timeout.toNat) (by omega) (by omega))
  apply out_of_timeout
  rw [run_succ]
  unfold step
  rw [((hostNext_quiet hnone.1 hnone.2).2 hidle).2.1]
  exact (timerNext_toNat hT).2 (by omega)

end Timer

/-! ## What the outputs show -/

section Control

variable {p : Params} {irq : Bool} {inp : Nat → Input p} {h : Host p} {s : Outputs p} {i : Input p}

theorem hostNext_write (hwrite : (hostNext h s i).amsState = .write) :
    h.amsState = .idle ∧ i.amsWrite = true ∧ (hostNext h s i).amsAddressD = i.amsAddress ∧
      (hostNext h s i).amsWritedataD = i.amsWritedata.setWidth p.count := by
  cases hw : i.amsWrite with
  | true =>
      unfold hostNext at hwrite ⊢
      cases hs : h.amsState with
      | idle => simp [hw]
      | write => simp [hs] at hwrite
      | read => simp [hs] at hwrite
      | reset => simp [hs] at hwrite
  | false =>
      cases hr : i.amsRead with
      | true =>
          unfold hostNext at hwrite
          cases hs : h.amsState <;> simp [hs, hw, hr] at hwrite
      | false =>
          have hidle := (hostNext_quiet (s := s) (h := h) hw hr).1
          exact absurd (hidle.symm.trans hwrite) nofun

theorem hostNext_of_write (hs : h.amsState = .idle) (hw : i.amsWrite = true) :
    (hostNext h s i).amsState = .write ∧ (hostNext h s i).amsAddressD = i.amsAddress := by
  unfold hostNext
  simp [hs, hw]

theorem hostNext_control :
    (hostNext h s i).dcControl =
      if h.amsState = .write ∧ h.amsAddressD = 0#2 then h.amsWritedataD
      else if h.amsState = .reset then 0#p.count else h.dcControl := by
  cases hs : h.amsState with
  | idle =>
      rw [if_neg (by simp), if_neg (by simp)]
      unfold hostNext
      rw [hs]
      cases hw : i.amsWrite with
      | true => rfl
      | false =>
          cases hr : i.amsRead with
          | true => rfl
          | false =>
              unfold timerNext
              simp only [Bool.false_eq_true, if_false]
              split
              · split <;> rfl
              · rfl
  | write =>
      unfold hostNext
      simp [hs]
  | read =>
      unfold hostNext
      simp [hs]
  | reset =>
      unfold hostNext
      simp [hs]

/-- A bit is wanted only if the last write that is complete has set it. -/
theorem control_written (n b : Nat) (hb : (run p irq inp n).host.dcControl.getLsbD b = true) :
    ∃ k, k + 2 ≤ n ∧ Writes irq inp k ∧
      ((inp k).amsWritedata.setWidth p.count).getLsbD b = true ∧
      ∀ j, k < j → j + 2 ≤ n → ¬Writes irq inp j := by
  induction n with
  | zero =>
      simp [run, reset] at hb
  | succ n ih =>
      rw [run_succ] at hb
      simp only [step, hostNext_control] at hb
      by_cases hwrite : (run p irq inp n).host.amsState = .write ∧
          (run p irq inp n).host.amsAddressD = 0#2
      · rw [if_pos hwrite] at hb
        cases n with
        | zero => exact absurd hwrite.1 nofun
        | succ k =>
            rcases hwrite with ⟨hstate, haddress⟩
            rcases hostNext_write (show (hostNext _ _ (inp k)).amsState = .write from hstate) with
              ⟨hidle, hw, ha, hd⟩
            refine ⟨k, Nat.le_refl _, ⟨hidle, hw, ?_⟩, ?_, fun j hj hj' => by omega⟩
            · exact ha.symm.trans haddress
            · rw [← hd]
              exact hb
      · rw [if_neg hwrite] at hb
        split at hb
        · simp at hb
        · rcases ih hb with ⟨k, hk, hwrites, hbit, hlast⟩
          refine ⟨k, by omega, hwrites, hbit, fun j hj hj' hw => ?_⟩
          rcases Nat.eq_or_lt_of_le hj' with heq | hlt
          · -- a write taken one cycle ago is in the write state now
            have hn : n = j + 1 := by omega
            rcases hw with ⟨hidle, hwr, haddr⟩
            have hnext := hostNext_of_write (s := (run p irq inp j).outputs) hidle hwr
            apply hwrite
            rw [hn]
            exact ⟨hnext.1, hnext.2.trans haddr⟩
          · exact hlast j hj (by omega) hw

/-- The pipeline: an output shows what was wanted two cycles before, unless there was a fault
then or the timer has run out. -/
theorem out_bit {n b : Nat} (hb : (run p irq inp (n + 2)).outputs.out.getLsbD b = true) :
    (run p irq inp n).host.dcControl.getLsbD b = true ∧
      (run p irq inp n).outputs.dcStatus.getLsbD b = false := by
  rw [run_succ] at hb
  simp only [step, outputsNext] at hb
  split at hb
  · rw [run_succ] at hb
    simp only [step, outputsNext, BitVec.getLsbD_and, BitVec.getLsbD_not, Bool.and_eq_true] at hb
    exact ⟨hb.1, by simpa using hb.2.2⟩
  · simp at hb

theorem out_early {n b : Nat} (hn : n < 2) :
    (run p irq inp n).outputs.out.getLsbD b = false := by
  have hcases : n = 0 ∨ n = 1 := by omega
  rcases hcases with rfl | rfl
  · simp [run, reset]
  · rw [run_succ]
    simp [step, outputsNext, run, reset]

theorem out_written (n b : Nat) (hb : (run p irq inp n).outputs.out.getLsbD b = true) :
    ∃ k, k + 4 ≤ n ∧ Writes irq inp k ∧
      ((inp k).amsWritedata.setWidth p.count).getLsbD b = true ∧
      ∀ j, k < j → j + 4 ≤ n → ¬Writes irq inp j := by
  rcases Nat.lt_or_ge n 2 with hn | hn
  · rw [out_early hn] at hb
    exact absurd hb nofun
  · rcases Nat.exists_eq_add_of_le' hn with ⟨m, hm⟩
    subst hm
    rcases control_written m b (out_bit hb).1 with ⟨k, hk, hwrites, hbit, hlast⟩
    exact ⟨k, by omega, hwrites, hbit, fun j hj hj' => hlast j hj (by omega)⟩

theorem out_of_fault {n b : Nat} (hf : (inp n).fault.getLsbD b = true) :
    (run p irq inp (n + 3)).outputs.out.getLsbD b = false := by
  rw [← Bool.not_eq_true]
  intro hb
  have hstatus := (out_bit (n := n + 1) hb).2
  exact absurd (hf.symm.trans hstatus) nofun

theorem out_of_untouched {n : Nat} (hquiet : ∀ k, k < n → ¬Access inp k) :
    (run p irq inp n).outputs.out = 0#p.count := by
  apply BitVec.eq_of_getLsbD_eq
  intro b _
  rw [BitVec.getLsbD_zero, ← Bool.not_eq_true]
  intro hb
  rcases out_written n b hb with ⟨k, hk, hwrites, _⟩
  exact hquiet k (by omega) (.inl hwrites.2.1)

end Control

/-- The switch for every timeout from two cycles on: after so many cycles and four more without an
access the outputs are off, and they stay off until the next access; a fault turns an output off
three edges later; and an output is on only if the last write to register 0 that was complete two
edges before has set its bit. -/
theorem dead_man_switch (p : Params) (hT : 2 ≤ p.timeout.toInt) (irq : Bool)
    (inp : Nat → Input p) :
    (∀ n m, n ≤ m → (∀ k, n ≤ k + (p.timeout.toNat + 4) → k < m → ¬Access inp k) →
        (run p irq inp m).outputs.out = 0#p.count) ∧
      (∀ n b, (inp n).fault.getLsbD b = true →
        (run p irq inp (n + 3)).outputs.out.getLsbD b = false) ∧
      ∀ n b, (run p irq inp n).outputs.out.getLsbD b = true →
        ∃ k, k + 4 ≤ n ∧ Writes irq inp k ∧
          ((inp k).amsWritedata.setWidth p.count).getLsbD b = true ∧
          ∀ j, k < j → j + 4 ≤ n → ¬Writes irq inp j := by
  constructor
  · intro n m hnm hquiet
    rcases Nat.lt_or_ge m (p.timeout.toNat + 2) with hearly | hlate
    · exact out_of_untouched fun k hk => hquiet k (by omega) hk
    · rcases Nat.exists_eq_add_of_le' hlate with ⟨k, hk⟩
      rw [hk, ← Nat.add_assoc]
      exact out_after_quiet hT fun j hj hj' => hquiet j (by omega) (by omega)
  constructor
  · exact fun n b => out_of_fault
  · exact out_written

/-! ## One output -/

def tenCycles : Params :=
  { clockFreq := 1000#32, timeoutMs := 10#32, count := 1, countLe := Nat.le_of_ble_eq_true rfl }

/-- The output is switched on in the cycles 1 and 2 and off in the cycles 5 and 6. -/
def onOff (off : Bool) (n : Nat) : Input tenCycles :=
  { amsWrite := n = 1 ∨ n = 2 ∨ off = true ∧ (n = 5 ∨ n = 6), amsRead := false, amsAddress := 0#2
    amsWritedata := if n < 5 then 1#32 else 0#32, fault := 0#1 }

/-- The output goes on and, without a further access, off. -/
theorem dead_man_switch_ten :
    (run tenCycles false (onOff false) 5).outputs.out = 1#1 ∧
      (run tenCycles false (onOff false) 20).outputs.out = 0#1 := by
  constructor
  · rfl
  · apply (dead_man_switch tenCycles (by decide) false (onOff false)).1 20 20 (Nat.le_refl 20)
    intro k hk _ haccess
    have htimeout : tenCycles.timeout.toNat = 10 := by decide
    simp [Access, onOff] at haccess
    omega

/-- When the write that switches the output off is complete, the output is still on. -/
theorem out_lags_write :
    ¬∀ n b, (run tenCycles false (onOff true) n).outputs.out.getLsbD b = true →
      ∃ k, k + 2 ≤ n ∧ Writes false (onOff true) k ∧
        ((onOff true k).amsWritedata.setWidth tenCycles.count).getLsbD b = true ∧
        ∀ j, k < j → j + 2 ≤ n → ¬Writes false (onOff true) j := by
  intro hclaim
  rcases hclaim 7 0 (by decide) with ⟨k, hk, _, hbit, hlast⟩
  have hoff : Writes false (onOff true) 5 := ⟨by decide, by decide, by decide⟩
  rcases Nat.lt_or_ge k 5 with hlt | hge
  · exact hlast 5 hlt (by omega) hoff
  · rw [show k = 5 by omega] at hbit
    exact absurd hbit (by decide)

end Mfi.DiscrCmdOut
