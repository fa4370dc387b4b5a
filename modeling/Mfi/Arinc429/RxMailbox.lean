import Mfi.Arinc429.RxRun

/-!
# Mailbox delivery

With `rxconfig[2]` set a received word belongs in the slot of its label before the
next word arrives. A received word and a host read request are latched separately
and both are looked at in the waiting state, the read request last: when both
latches are set the machine goes to `flag_check` and the word is forgotten. The
word is delivered on every run that avoids this one cycle.
-/

namespace Mfi.Arinc429

open Core

structure MailboxMode (rxconfig : BitVec 8) (inp : Nat → RxInput) : Prop where
  selected : rxconfig.getLsbD 2 = true
  config : ∀ n, (inp n).rxconfig = rxconfig

theorem MailboxMode.mailbox {rxconfig : BitVec 8} {inp : Nat → RxInput}
    (h : MailboxMode rxconfig inp) (n : Nat) : mailbox (inp n) = true := by
  unfold Arinc429.mailbox
  rw [h.config n]
  exact h.selected

def RxController.labelEnabled (s : RxController) (l : Nat) : Bool :=
  maskAccepted (s.ramMask.ram (l / 32)) l

/-- Every received word that passes the parity check, with its label enabled for
the time of the filing, is written to the slot of its label before the next. -/
def MailboxDelivers (s : RxController) (inp : Nat → RxInput) : Prop :=
  ∀ n, (inp n).port.rxFlag = true → parityFails (inp n) = false →
    (∀ k ≤ wordGap,
      (trace RxController.step s inp (n + k)).labelEnabled (wordLabel (inp n)) = true) →
    ∃ m, n < m ∧ m < n + wordGap ∧ (trace RxController.step s inp m).buferWeB = true ∧
      (trace RxController.step s inp m).buferAddrB = wordLabel (inp n) ∧
      (trace RxController.step s inp (m + 1)).ramBuf.ram (wordLabel (inp n)) =
        arincDataOut (inp n)

/-- No word that is due to be stored meets a latched read request in the cycle in
which the waiting state takes it. -/
def MailboxStepOk (s : RxController) (i : RxInput) : Prop :=
  s.state = .waiting → s.rxFlagSig = true → s.buferRdSig = true → parityFails i = false →
    s.labelEnabled (wordLabel i) = false

instance (s : RxController) (i : RxInput) : Decidable (MailboxStepOk s i) :=
  inferInstanceAs (Decidable (_ → _ → _ → _ → _))

section Mailbox

variable {rxconfig : BitVec 8} {s : RxController} {inp : Nat → RxInput}

/-! ## The port during the filing of a word -/

theorem word_kept (hmode : MailboxMode rxconfig inp) (hport : WordPort fun n => (inp n).port)
    {n k : Nat} (hn : (inp n).port.rxFlag = true) (hk : k ≤ wordGap) :
    arincDataOut (inp (n + k)) = arincDataOut (inp n) := by
  unfold arincDataOut
  rw [hmode.config, hmode.config, hport.word_held hn hk]

theorem label_kept (hmode : MailboxMode rxconfig inp) (hport : WordPort fun n => (inp n).port)
    {n k : Nat} (hn : (inp n).port.rxFlag = true) (hk : k ≤ wordGap) :
    wordLabel (inp (n + k)) = wordLabel (inp n) := by
  unfold wordLabel
  rw [word_kept hmode hport hn hk]

theorem parity_kept (hmode : MailboxMode rxconfig inp) (hport : WordPort fun n => (inp n).port)
    {n k : Nat} (hn : (inp n).port.rxFlag = true) (hk : k ≤ wordGap) :
    parityFails (inp (n + k)) = parityFails (inp n) := by
  unfold parityFails
  rw [hmode.config, hmode.config, hport.err_held hn hk]

/-! ## Where a word can be -/

/-- A latched word waits at most for one `flag_check`, then it is filed. -/
structure PendingWord (inp : Nat → RxInput) (n : Nat) (c : RxController) : Prop where
  control : c.Control
  pending : c.rxFlagSig = true → ∃ m, (inp m).port.rxFlag = true ∧ m < n ∧
    ((c.state = .waiting ∧ n ≤ m + 5) ∨ (c.state = .flagCheck ∧ n ≤ m + 1 + c.cnt))
  event : c.state = .arincEvent → ∃ m, (inp m).port.rxFlag = true ∧
    m + 2 + c.cnt ≤ n ∧ n ≤ m + 6 + c.cnt

theorem PendingWord.reset (buffer maskFlags : Nat → Word) :
    PendingWord inp 0 (RxController.reset buffer maskFlags) :=
  ⟨RxController.Control.reset buffer maskFlags, fun h => absurd h Bool.false_ne_true,
    fun h => absurd h (by simp [RxController.reset])⟩

theorem PendingWord.no_clash {n : Nat} {c : RxController} (h : PendingWord inp n c)
    (hport : WordPort fun n => (inp n).port) (hs : c.state = .arincEvent) :
    c.rxFlagSig = false ∧ (inp n).port.rxFlag = false := by
  obtain ⟨m, hflag, hlo, hhi⟩ := h.event hs
  have hlt := h.control.cnt_lt
  constructor
  · cases hsig : c.rxFlagSig with
    | false => rfl
    | true =>
        obtain ⟨_, _, _, hw | hw⟩ := h.pending hsig
        · rw [hs] at hw
          exact absurd hw.1 (by decide)
        · rw [hs] at hw
          exact absurd hw.1 (by decide)
  · cases hn : (inp n).port.rxFlag with
    | false => rfl
    | true =>
        have hfar := hport.far hflag hn (by omega)
        unfold wordGap at hfar
        omega

theorem PendingWord.no_second {n : Nat} {c : RxController} (h : PendingWord inp n c)
    (hport : WordPort fun n => (inp n).port) (hn : (inp n).port.rxFlag = true) :
    c.rxFlagSig = false := by
  cases hsig : c.rxFlagSig with
  | false => rfl
  | true =>
      obtain ⟨m, hflag, hm, hw⟩ := h.pending hsig
      have hfar := hport.far hflag hn hm
      have hlt := h.control.cnt_lt
      unfold wordGap at hfar
      omega

theorem PendingWord.step {n : Nat} {c : RxController} (h : PendingWord inp n c)
    (hport : WordPort fun n => (inp n).port) : PendingWord inp (n + 1) (c.step (inp n)) := by
  refine ⟨h.control.step, ?_, ?_⟩
  · intro hsig
    cases hs : c.state with
    | waiting =>
        rw [RxController.step_waiting hs] at hsig ⊢
        simp only [Bool.and_eq_true, Bool.not_eq_true'] at hsig
        refine ⟨n, hsig.2, by omega, ?_⟩
        simp only [hsig.1, Bool.false_and, Bool.false_eq_true, if_false]
        split
        · exact Or.inr ⟨rfl, by omega⟩
        · exact Or.inl ⟨rfl, by omega⟩
    | arincEvent =>
        have hclash := h.no_clash hport hs
        rw [RxController.step_arincEvent hs h.control.cnt_lt] at hsig
        simp [RxController.beforeCase, hclash] at hsig
    | flagCheck =>
        have hlt := h.control.checking hs
        rw [RxController.step_flagCheck hs hlt] at hsig ⊢
        simp only [RxController.beforeCase, Bool.or_eq_true] at hsig
        -- the word waited already, or it arrives in this cycle
        have hsince : ∃ m, (inp m).port.rxFlag = true ∧ m ≤ n ∧ n ≤ m + 1 + c.cnt := by
          rcases hsig with hold | hnew
          · obtain ⟨m, hflag, hm, hw | hw⟩ := h.pending hold
            · rw [hs] at hw
              exact absurd hw.1 (by decide)
            · exact ⟨m, hflag, by omega, hw.2⟩
          · exact ⟨n, hnew, Nat.le_refl n, by omega⟩
        obtain ⟨m, hflag, hm, hle⟩ := hsince
        refine ⟨m, hflag, by omega, ?_⟩
        by_cases h3 : c.cnt = 3
        · exact Or.inl ⟨if_pos h3, by omega⟩
        · refine Or.inr ⟨if_neg h3, ?_⟩
          dsimp only
          omega
  · intro hev
    rcases RxController.filing_of_step h.control.cnt_lt h.control.checking hev with
      ⟨hs, hsig, hcnt⟩ | ⟨hs, hcnt⟩
    · obtain ⟨m, hflag, hm, hw | hw⟩ := h.pending hsig
      · exact ⟨m, hflag, by omega, by omega⟩
      · rw [hs] at hw
        exact absurd hw.1 (by decide)
    · obtain ⟨m, hflag, hlo, hhi⟩ := h.event hs
      exact ⟨m, hflag, by omega, by omega⟩

theorem pending_run (h : PendingWord inp 0 s) (hport : WordPort fun n => (inp n).port) (n : Nat) :
    PendingWord inp n (trace RxController.step s inp n) :=
  trace_invariant (PendingWord inp) h (fun _ hc => hc.step hport) n

/-! ## From the flag to the slot -/

theorem latched_next {n : Nat} (h : PendingWord inp n (trace RxController.step s inp n))
    (hport : WordPort fun n => (inp n).port) (hn : (inp n).port.rxFlag = true) :
    (trace RxController.step s inp (n + 1)).rxFlagSig = true := by
  rw [trace_succ]
  have hsig := h.no_second hport hn
  cases hs : (trace RxController.step s inp n).state with
  | waiting =>
      rw [RxController.step_waiting hs]
      simp [hsig, hn]
  | arincEvent =>
      have hno := (h.no_clash hport hs).2
      rw [hn] at hno
      cases hno
  | flagCheck =>
      rw [RxController.step_flagCheck hs (h.control.checking hs)]
      simp [RxController.beforeCase, hn]

theorem waiting_after_check (hc : RxController.Control s) {k : Nat} (left : Nat)
    (hs : (trace RxController.step s inp k).state = .flagCheck)
    (hcnt : (trace RxController.step s inp k).cnt + left = 3)
    (hsig : (trace RxController.step s inp k).rxFlagSig = true) :
    (trace RxController.step s inp (k + 1 + left)).state = .waiting ∧
      (trace RxController.step s inp (k + 1 + left)).rxFlagSig = true := by
  induction left generalizing k with
  | zero =>
      rw [Nat.add_zero, trace_succ,
        RxController.step_flagCheck hs ((control_run hc k).checking hs)]
      exact ⟨if_pos (by omega), by simp [RxController.beforeCase, hsig]⟩
  | succ left ih =>
      have hstep := RxController.step_flagCheck (i := inp k) hs ((control_run hc k).checking hs)
      rw [show k + 1 + (left + 1) = (k + 1) + 1 + left by omega]
      apply ih
      · rw [trace_succ, hstep]
        exact if_neg (by omega)
      · rw [trace_succ, hstep]
        dsimp only
        omega
      · rw [trace_succ, hstep]
        simp [RxController.beforeCase, hsig]

/-- A received word is found by the waiting state at most five cycles later. -/
theorem waiting_with_word (h : PendingWord inp 0 s) (hport : WordPort fun n => (inp n).port)
    {n : Nat} (hn : (inp n).port.rxFlag = true) :
    ∃ w, n < w ∧ w ≤ n + 5 ∧ (trace RxController.step s inp w).state = .waiting ∧
      (trace RxController.step s inp w).rxFlagSig = true := by
  have hsig := latched_next (pending_run h hport n) hport hn
  obtain ⟨m, _, _, hw | hw⟩ := (pending_run h hport (n + 1)).pending hsig
  · exact ⟨n + 1, by omega, by omega, hw.1, hsig⟩
  · have hlt := (control_run h.control (n + 1)).checking hw.1
    obtain ⟨hs', hsig'⟩ := waiting_after_check h.control
      (3 - (trace RxController.step s inp (n + 1)).cnt) hw.1 (by omega) hsig
    exact ⟨_, by omega, by omega, hs', hsig'⟩

/-- A word taken without a read request is filed: eight cycles later it is on its
way into the slot of its label, if the mask has the label enabled. -/
theorem filed_word (hc : RxController.Control s) {w : Nat}
    (hmail : ∀ n, mailbox (inp n) = true)
    (hs : (trace RxController.step s inp w).state = .waiting)
    (hsig : (trace RxController.step s inp w).rxFlagSig = true)
    (hrd : (trace RxController.step s inp w).buferRdSig = false)
    (hpar : parityFails (inp w) = false)
    (hlabel : wordLabel (inp (w + 6)) = wordLabel (inp (w + 1)))
    (henabled : (trace RxController.step s inp (w + 5)).labelEnabled (wordLabel (inp (w + 1)))
      = true) :
    (trace RxController.step s inp (w + 7)).buferWeB = true ∧
      (trace RxController.step s inp (w + 7)).buferAddrB = wordLabel (inp (w + 1)) := by
  have hev : (trace RxController.step s inp (w + 1)).state = .arincEvent ∧
      (trace RxController.step s inp (w + 1)).cnt = 0 := by
    rw [trace_succ, RxController.step_waiting hs]
    simp [hsig, hrd, hpar]
  obtain ⟨hs5, hc5⟩ := event_run hev.1 hev.2 5 (by decide)
  have hword := event_maskWord hc hev.1 hev.2 3 (by decide)
  have haccept : (trace RxController.step s inp (w + 6)).accepts (inp (w + 6)) = true := by
    rw [RxController.accepts_eq_labelPasses hs5 hc5]
    unfold RxController.labelPasses
    rw [hlabel, hword]
    exact henabled
  rw [trace_succ, RxController.step_arincEvent (RxController.accepts_cnt haccept).1
    (control_run hc (w + 6)).cnt_lt]
  refine ⟨haccept, ?_⟩
  dsimp only
  rw [if_pos haccept, if_pos (hmail (w + 6)), hlabel]

/-- In mailbox mode every word that is due to be stored is stored, on every run
whose steps meet `MailboxStepOk`. -/
theorem mailbox_delivers (buffer maskFlags : Nat → Word) (hmode : MailboxMode rxconfig inp)
    (hport : WordPort fun n => (inp n).port)
    (hok : ∀ n,
      MailboxStepOk (trace RxController.step (.reset buffer maskFlags) inp n) (inp n)) :
    MailboxDelivers (.reset buffer maskFlags) inp := by
  intro n hn hpar henabled
  have h0 : PendingWord inp 0 (.reset buffer maskFlags) := PendingWord.reset buffer maskFlags
  obtain ⟨w, hnw, hwn, hs, hsig⟩ := waiting_with_word h0 hport hn
  have hlabel : ∀ k, n ≤ k → k ≤ n + wordGap → wordLabel (inp k) = wordLabel (inp n) := by
    intro k hlo hhi
    have hkept := label_kept hmode hport hn (k := k - n) (by omega)
    rwa [show n + (k - n) = k by omega] at hkept
  have henabled' : ∀ k, n ≤ k → k ≤ n + wordGap →
      (trace RxController.step (.reset buffer maskFlags) inp k).labelEnabled
        (wordLabel (inp n)) = true := by
    intro k hlo hhi
    have hen := henabled (k - n) (by omega)
    rwa [show n + (k - n) = k by omega] at hen
  have hparw : parityFails (inp w) = false := by
    have hkept := parity_kept hmode hport hn (k := w - n) (by unfold wordGap; omega)
    rw [show n + (w - n) = w by omega] at hkept
    rw [hkept, hpar]
  have hgap : wordGap = 16 := rfl
  have hrd : (trace RxController.step (.reset buffer maskFlags) inp w).buferRdSig = false := by
    cases hrd : (trace RxController.step (.reset buffer maskFlags) inp w).buferRdSig with
    | false => rfl
    | true =>
        have hoff := hok w hs hsig hrd hparw
        rw [hlabel w (by omega) (by omega), henabled' w (by omega) (by omega)] at hoff
        cases hoff
  have hlab1 := hlabel (w + 1) (by omega) (by omega)
  obtain ⟨hwe, haddr⟩ := filed_word h0.control hmode.mailbox hs hsig hrd hparw
    (by rw [hlabel (w + 6) (by omega) (by omega), hlab1])
    (by rw [hlab1]; exact henabled' (w + 5) (by omega) (by omega))
  rw [hlab1] at haddr
  refine ⟨w + 7, by omega, by omega, hwe, haddr, ?_⟩
  have hkept := word_kept hmode hport hn (k := w + 7 - n) (by omega)
  rw [show n + (w + 7 - n) = w + 7 by omega] at hkept
  rw [trace_succ, RxController.step_ramBuf (control_run h0.control (w + 7)), hwe, haddr, hkept]
  exact DualPortRam.clock_ram_self _ _ _ _ _ _

end Mailbox

/-! ## Two runs -/

theorem wordAndRead_mailbox (wordAt readAt : Nat) :
    MailboxMode 0x47#8 (wordAndRead 0x47#8 wordAt readAt) := ⟨by decide, fun _ => rfl⟩

/-- A word and a read strobe in the same cycle: the word is never written. -/
theorem simultaneous_read_cancels_word :
    MailboxMode 0x47#8 (wordAndRead 0x47#8 5 5) ∧
      (WordPort fun n => (wordAndRead 0x47#8 5 5 n).port) ∧
      ¬ MailboxDelivers acceptAll (wordAndRead 0x47#8 5 5) := by
  refine ⟨wordAndRead_mailbox 5 5, wordAndRead_port 0x47#8 5 5, fun h => ?_⟩
  obtain ⟨m, _, hm, hwe, _⟩ := h 5 (by decide) (by decide) (by decide)
  have hnever : ∀ k < 21,
      (trace RxController.step acceptAll (wordAndRead 0x47#8 5 5) k).buferWeB = false := by decide
  rw [hnever m hm] at hwe
  cases hwe

theorem read_after_filing_ok (n : Nat) :
    MailboxStepOk (trace RxController.step acceptAll (wordAndRead 0x47#8 5 20) n)
      (wordAndRead 0x47#8 5 20 n) := by
  by_cases hn : n < 30
  · have hall : ∀ k < 30, MailboxStepOk (trace RxController.step acceptAll
        (wordAndRead 0x47#8 5 20) k) (wordAndRead 0x47#8 5 20 k) := by decide
    exact hall n hn
  · have hquiet : (trace RxController.step acceptAll (wordAndRead 0x47#8 5 20) 30).Quiet := by
      unfold RxController.Quiet
      decide
    obtain ⟨_, hsig, _⟩ := quiet_after_last 0x47#8 hquiet (by decide) (by decide) n (by omega)
    intro _ hsig'
    rw [hsig] at hsig'
    cases hsig'

theorem mailbox_delivers_read_after_filing :
    MailboxDelivers acceptAll (wordAndRead 0x47#8 5 20) :=
  mailbox_delivers (fun _ => 0) (fun _ => BitVec.allOnes 32) (wordAndRead_mailbox 5 20)
    (wordAndRead_port 0x47#8 5 20) read_after_filing_ok

end Mfi.Arinc429
