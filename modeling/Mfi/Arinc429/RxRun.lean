import Mfi.Arinc429.WordPort

/-!
# Timing facts of the receive controller

Facts that hold in both modes: which registers are meaningful in which state, how
the eight cycles of `arinc_event` and the four of `flag_check` follow each other,
and the cycle of latency between the address of the mask/flag RAM and the word
that port B shows.
-/

namespace Mfi.Arinc429

open Core

theorem label_lt (w : Word) : label w < 256 := (w.extractLsb' 0 8).isLt

theorem wordLabel_lt (i : RxInput) : wordLabel i < 256 := label_lt _

namespace RxController

def FlagsAddressed (s : RxController) : Prop := 8 ≤ s.maskFlagsAddr ∧ s.maskFlagsAddr < 16

structure Control (s : RxController) : Prop where
  cnt_lt : s.cnt < 8
  checking : s.state = .flagCheck → s.cnt < 4
  /-- The buffer RAM is written in the cycle after the store was decided. -/
  writing : s.buferWeB = true → s.state = .arincEvent ∧ s.cnt = 6
  /-- The flag word is written in the first waiting cycle. -/
  flagging : s.flagWe = true → s.state = .waiting ∧ s.FlagsAddressed
  eventAddr : s.state = .arincEvent → s.cnt = 7 → s.FlagsAddressed
  checkAddr : s.state = .flagCheck → 0 < s.cnt → s.FlagsAddressed

variable {s : RxController} {i : RxInput}

theorem Control.reset (buffer maskFlags : Nat → Word) :
    Control (RxController.reset buffer maskFlags) := by
  constructor <;> simp [RxController.reset]

theorem accepts_cnt (ha : s.accepts i = true) : s.state = .arincEvent ∧ s.cnt = 5 := by
  simp only [accepts, Bool.and_eq_true, decide_eq_true_eq] at ha
  exact ha.1

theorem accepts_eq_labelPasses (hs : s.state = .arincEvent) (hc : s.cnt = 5) :
    s.accepts i = s.labelPasses i := by
  simp [accepts, hs, hc]

theorem Control.step (h : Control s) : Control (s.step i) := by
  have hl := wordLabel_lt i
  cases hs : s.state with
  | waiting =>
      rw [step_waiting hs]
      constructor <;> simp [beforeCase]
  | arincEvent =>
      have hlt := h.cnt_lt
      rw [step_arincEvent hs hlt]
      refine ⟨by dsimp only; omega, ?_, ?_, ?_, ?_, ?_⟩
      · dsimp only
        split <;> simp
      · intro ha
        simp [(accepts_cnt ha).2]
      · intro hf
        simp only [Bool.and_eq_true, decide_eq_true_eq] at hf
        simpa [FlagsAddressed, hf.1.1] using h.eventAddr hs hf.1.1
      · intro _ hc
        dsimp only at hc
        have h6 : s.cnt = 6 := by omega
        simp only [FlagsAddressed, if_neg (show s.cnt ≠ 0 by omega), if_pos h6]
        omega
      · intro hst
        dsimp only at hst
        split at hst <;> cases hst
  | flagCheck =>
      have hlt := h.checking hs
      rw [step_flagCheck hs hlt]
      have haddr : ∀ a : Nat, 8 ≤ 8 + a / 32 % 8 ∧ 8 + a / 32 % 8 < 16 := by
        intro a
        omega
      refine ⟨by dsimp only; omega, ?_, ?_, ?_, ?_, ?_⟩
      · dsimp only
        split
        · simp
        · intro _
          omega
      · simp [beforeCase]
      · intro hf
        simp only [decide_eq_true_eq] at hf
        simpa [FlagsAddressed, hf] using h.checkAddr hs (by omega)
      · intro hst
        dsimp only at hst
        split at hst <;> cases hst
      · intro _ _
        by_cases h0 : s.cnt = 0
        · simpa [FlagsAddressed, h0] using haddr i.buferAddr
        · simpa [FlagsAddressed, h0] using h.checkAddr hs (by omega)

theorem Control.not_writing (h : Control s) (hs : s.state = .arincEvent → s.cnt ≠ 6) :
    s.buferWeB = false := by
  cases hw : s.buferWeB with
  | false => rfl
  | true => exact absurd (h.writing hw).2 (hs (h.writing hw).1)

theorem Control.not_flagging (h : Control s) (hs : s.state ≠ .waiting) : s.flagWe = false := by
  cases hf : s.flagWe with
  | false => rfl
  | true => exact absurd (h.flagging hf).1 hs

/-! ## The mask/flag RAM -/

theorem step_ramMask (h : Control s) :
    (s.step i).ramMask = s.ramMask.clock i.flagMaskWe i.flagMaskAddr i.buferData
      s.flagWe s.maskFlagsAddr (flagsDataB s.flagsData) := by
  cases hs : s.state with
  | waiting => rw [step_waiting hs]; rfl
  | arincEvent => rw [step_arincEvent hs h.cnt_lt]; rfl
  | flagCheck => rw [step_flagCheck hs (h.checking hs)]; rfl

theorem step_ramBuf (h : Control s) :
    (s.step i).ramBuf = s.ramBuf.clock false (if mailbox i then i.buferAddr else s.readedAddr)
      i.buferData s.buferWeB s.buferAddrB (arincDataOut i) := by
  cases hs : s.state with
  | waiting => rw [step_waiting hs]; rfl
  | arincEvent => rw [step_arincEvent hs h.cnt_lt]; rfl
  | flagCheck => rw [step_flagCheck hs (h.checking hs)]; rfl

theorem step_qB (h : Control s) (hs : s.state ≠ .waiting) :
    (s.step i).ramMask.qB = s.ramMask.ram s.maskFlagsAddr := by
  rw [step_ramMask h, h.not_flagging hs, DualPortRam.clock_qB]

theorem step_mask (h : Control s) {a : Nat} (ha : a < 8) :
    (s.step i).ramMask.ram a =
      if i.flagMaskWe = true ∧ a = i.flagMaskAddr then i.buferData else s.ramMask.ram a := by
  rw [step_ramMask h]
  exact DualPortRam.clock_ram_of_ne _ _ _ _ _ _ (fun hf => by
    have haddr := (h.flagging hf).2.1
    omega)

end RxController

/-! ## Runs -/

section Run

variable {s : RxController} {inp : Nat → RxInput}

theorem control_run (h : RxController.Control s) (n : Nat) :
    RxController.Control (trace RxController.step s inp n) :=
  trace_invariant (fun _ => RxController.Control) h (fun _ hc => hc.step) n

theorem event_advance {k : Nat} (hs : (trace RxController.step s inp k).state = .arincEvent)
    {c : Nat} (hc : (trace RxController.step s inp k).cnt = c) (h7 : c < 7) :
    (trace RxController.step s inp (k + 1)).state = .arincEvent ∧
      (trace RxController.step s inp (k + 1)).cnt = c + 1 := by
  rw [trace_succ, RxController.step_arincEvent hs (by omega)]
  refine ⟨?_, ?_⟩
  · dsimp only
    rw [if_neg (by omega)]
  · dsimp only
    omega

theorem event_run {k : Nat} (hs : (trace RxController.step s inp k).state = .arincEvent)
    (hc : (trace RxController.step s inp k).cnt = 0) (j : Nat) (hj : j ≤ 7) :
    (trace RxController.step s inp (k + j)).state = .arincEvent ∧
      (trace RxController.step s inp (k + j)).cnt = j := by
  induction j with
  | zero => exact ⟨hs, hc⟩
  | succ j ih =>
      obtain ⟨hsj, hcj⟩ := ih (by omega)
      exact event_advance hsj hcj (by omega)

theorem event_maskAddr {k : Nat} (hs : (trace RxController.step s inp k).state = .arincEvent)
    (hc : (trace RxController.step s inp k).cnt = 0) (j : Nat) (hj : j ≤ 5) :
    (trace RxController.step s inp (k + 1 + j)).maskFlagsAddr = wordLabel (inp k) / 32 := by
  induction j with
  | zero =>
      rw [Nat.add_zero, trace_succ, RxController.step_arincEvent hs (by omega)]
      simp [hc]
  | succ j ih =>
      obtain ⟨hsj, hcj⟩ := event_run hs hc (j + 1) (by omega)
      rw [← Nat.add_assoc, Nat.add_right_comm] at hsj hcj
      rw [← Nat.add_assoc, trace_succ, RxController.step_arincEvent hsj (by omega)]
      dsimp only
      rw [if_neg (by omega), if_neg (by omega)]
      exact ih (by omega)

/-- In the cycles 3..7 of `arinc_event` port B shows the mask word of the label as
it was one cycle before. -/
theorem event_maskWord (h : RxController.Control s) {k : Nat}
    (hs : (trace RxController.step s inp k).state = .arincEvent)
    (hc : (trace RxController.step s inp k).cnt = 0) (j : Nat) (hj : j ≤ 5) :
    (trace RxController.step s inp (k + 2 + j)).ramMask.qB =
      (trace RxController.step s inp (k + 1 + j)).ramMask.ram (wordLabel (inp k) / 32) := by
  obtain ⟨hsj, _⟩ := event_run hs hc (j + 1) (by omega)
  rw [← Nat.add_assoc, Nat.add_right_comm] at hsj
  have haddr := event_maskAddr hs hc j hj
  rw [show k + 2 + j = (k + 1 + j) + 1 by omega, trace_succ,
    RxController.step_qB (control_run h _) (by rw [hsj]; decide), haddr]

end Run

/-! ## The idle controller -/

/-- Waiting, with no word, no read request and no RAM write pending. -/
def RxController.Quiet (s : RxController) : Prop :=
  s.state = .waiting ∧ s.rxFlagSig = false ∧ s.buferRdSig = false ∧ s.buferWeB = false

theorem RxController.Quiet.step {s : RxController} {i : RxInput} (h : s.Quiet)
    (hw : i.port.rxFlag = false) (hr : i.buferRd = false) : (s.step i).Quiet := by
  obtain ⟨hs, hsig, hrd, _⟩ := h
  rw [RxController.step_waiting hs]
  refine ⟨?_, ?_, ?_, rfl⟩ <;> simp [hsig, hrd, hw, hr]

def acceptAll : RxController := .reset (fun _ => 0) (fun _ => BitVec.allOnes 32)

/-- One received word, of label 0, and one host read of slot 0, at given cycles. -/
def wordAndRead (rxconfig : BitVec 8) (wordAt readAt n : Nat) : RxInput where
  rxconfig := rxconfig
  irqClear := false
  buferData := 0
  buferAddr := 0
  buferRd := n == readAt
  flagMaskAddr := 0
  flagMaskWe := false
  port := ⟨n == wordAt, 0, false⟩

theorem wordAndRead_port (rxconfig : BitVec 8) (wordAt readAt : Nat) :
    WordPort fun n => (wordAndRead rxconfig wordAt readAt n).port := by
  refine ⟨?_, fun _ _ => rfl, fun _ _ => rfl⟩
  intro n k hn hk _
  simp only [wordAndRead, beq_iff_eq] at hn ⊢
  rw [beq_eq_false_iff_ne]
  omega

theorem quiet_after_last (rxconfig : BitVec 8) {s : RxController} {wordAt readAt m : Nat}
    (h : (trace RxController.step s (wordAndRead rxconfig wordAt readAt) m).Quiet)
    (hword : wordAt < m) (hread : readAt < m) (n : Nat) (hn : m ≤ n) :
    (trace RxController.step s (wordAndRead rxconfig wordAt readAt) n).Quiet := by
  induction n with
  | zero => rwa [show m = 0 by omega] at h
  | succ n ih =>
      by_cases heq : n + 1 = m
      · rwa [heq]
      · refine (ih (by omega)).step ?_ ?_
        · simp only [wordAndRead, beq_eq_false_iff_ne]
          omega
        · simp only [wordAndRead, beq_eq_false_iff_ne]
          omega

end Mfi.Arinc429
