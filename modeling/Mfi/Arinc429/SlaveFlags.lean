import Mfi.Arinc429.SlaveWrites

/-!
# Interrupt flags over the bus

A read of the interrupt register of a receive channel is sampled three cycles after
the access, returned one cycle later, and clears the flags one more cycle later. With
the rule `ClearReadOk` for each such read, every event stays latched until a read of
its own channel has returned it.
-/

namespace Mfi.Arinc429

open Core

/-! ## The events -/

namespace RxController

def parityEvent (s : RxController) (i : RxInput) : Bool :=
  decide (s.state = .waiting) && s.rxFlagSig && parityFails i

end RxController

/-- Bit `bit` of the interrupt register is a latch: an event sets it, and wins over the
clear strobe. -/
structure Latched (bit : Nat) (flag : RxController → Bool)
    (event : RxController → RxInput → Bool) : Prop where
  step : ∀ s i, s.Control → flag (s.step i) = (event s i || (!i.irqClear && flag s))
  read : ∀ s rxconfig inputA inputB, (rxintflag s rxconfig inputA inputB).getLsbD bit = flag s

theorem latched_parity : Latched 0 RxController.rxintflag0 RxController.parityEvent := by
  refine ⟨fun s i h => ?_, fun s rxconfig inputA inputB => ?_⟩
  · cases hs : s.state with
    | waiting =>
        rw [RxController.step_waiting hs]
        simp [RxController.parityEvent, hs]
    | arincEvent =>
        rw [RxController.step_arincEvent hs h.cnt_lt]
        simp [RxController.parityEvent, hs, RxController.beforeCase]
    | flagCheck =>
        rw [RxController.step_flagCheck hs (h.checking hs)]
        simp [RxController.parityEvent, hs, RxController.beforeCase]
  · simp only [rxintflag, BitVec.getLsbD_append]
    cases s.rxintflag0 <;> rfl

theorem latched_word : Latched 3 RxController.rxintflag3 RxController.accepts := by
  refine ⟨fun s i h => ?_, fun s rxconfig inputA inputB => ?_⟩
  · cases hs : s.state with
    | waiting =>
        rw [RxController.step_waiting hs]
        simp [RxController.accepts, hs, RxController.beforeCase]
    | arincEvent => rw [RxController.step_arincEvent hs h.cnt_lt]
    | flagCheck =>
        rw [RxController.step_flagCheck hs (h.checking hs)]
        simp [RxController.accepts, hs, RxController.beforeCase]
  · simp only [rxintflag, BitVec.getLsbD_append]
    cases s.rxintflag3 <;> rfl

/-! ## What the host may do, and what it may expect -/

namespace HostPort

/-- A read that makes the block clear the flags of receive channel `c`. -/
def clearRead (h : HostPort) (c : Fin 16) : Bool := h.amsRead && h.target.rxIntFlag c

/-- A read of the interrupt register of receive channel `c`. -/
def flagsRead (h : HostPort) (c : Fin 16) : Bool := h.clearRead c && !h.target.flagsSpace

end HostPort

/-- One read pending at most: no access until the cycle of `readdatavalid`. -/
def OneReadPending (host : Nat → HostPort) : Prop :=
  ∀ n, (host n).amsRead = true → ∀ k, 0 < k → k ≤ 3 → (host (n + k)).accesses = false

section Spec

variable (host : Nat → HostPort) (run : Nat → Slave)

/-- The receive controller of channel `c`, and what comes to it. -/
def Slave.event (s : Slave) (c : Fin 16) (event : RxController → RxInput → Bool) : Bool :=
  event (s.rx c).controller (s.rxInput c)

structure FlagReported (bit : Nat) (flag : RxController → Bool)
    (event : RxController → RxInput → Bool) : Prop where
  /-- An event stays latched until a read that was sampled after it has returned it. -/
  kept : ∀ c e n, e < n → (run e).event c event = true →
    flag ((run n).rx c).controller = true ∨
      ∃ t, (host t).flagsRead c = true ∧ e < t + 3 ∧ t + 4 < n ∧
        (run (t + 4)).amsReaddata.getLsbD bit = true
  /-- A flag falls only with the clear strobe of a read of its own channel. -/
  own : ∀ c n, flag ((run n).rx c).controller = true →
    flag ((run (n + 1)).rx c).controller = false →
    ∃ t, n = t + 5 ∧ (host t).flagsRead c = true

structure FlagsReported : Prop where
  parity : FlagReported host run 0 RxController.rxintflag0 RxController.parityEvent
  word : FlagReported host run 3 RxController.rxintflag3 RxController.accepts
  back : ∀ c t, (host t).flagsRead c = true → (run (t + 6)).bus.irqClear c = false

/-- The rule for a read at cycle `t` that clears the flags of channel `c`. -/
structure ClearReadOk (c : Fin 16) (t : Nat) : Prop where
  /-- An access in the cycle of `readdatavalid` goes to the same register. -/
  same : (host (t + 4)).accesses = true → (host (t + 4)).target.rxIntFlag c = true
  /-- No event comes between the sample and the clear strobe. -/
  quiet : ∀ k, 3 ≤ k → k ≤ 4 → (run (t + k)).event c RxController.parityEvent = false ∧
    (run (t + k)).event c RxController.accepts = false
  /-- The flag word at the same offset is read with no flag set. -/
  flagsWord : (host t).target.flagsSpace = true →
    ((run (t + 3)).rx c).controller.rxintflag0 = false ∧
      ((run (t + 3)).rx c).controller.rxintflag3 = false

end Spec

/-! ## The registers of a read -/

section Bus

variable {f : Nat} {inp : Nat → SlaveInput} {s : Slave}

theorem target_succ (n : Nat) : (trace (Slave.step f) s inp (n + 1)).bus.target =
    if (inp n).host.accesses then (inp n).host.target
    else (trace (Slave.step f) s inp n).bus.target := rfl

theorem target_held {n j : Nat} (hacc : (inp n).host.accesses = true)
    (hno : ∀ k, 0 < k → k ≤ j → (inp (n + k)).host.accesses = false) :
    (trace (Slave.step f) s inp (n + 1 + j)).bus.target = (inp n).host.target := by
  induction j with
  | zero => rw [Nat.add_zero, target_succ, if_pos hacc]
  | succ j ih =>
      have hquiet := hno (j + 1) (by omega) (Nat.le_refl _)
      rw [show n + (j + 1) = n + 1 + j by omega] at hquiet
      rw [← ih fun k hk hkj => hno k hk (by omega)]
      rw [← Nat.add_assoc, target_succ, hquiet, if_neg Bool.false_ne_true]

theorem HostPort.accesses_of_read {h : HostPort} (hr : h.amsRead = true) : h.accesses = true := by
  simp [HostPort.accesses, hr]

variable (buffer maskFlags : Fin 16 → Nat → Word)

theorem rd3_init {n : Nat} (hn : n < 4) :
    (trace (Slave.step f) (.init buffer maskFlags) inp n).bus.rd3 = false := by
  rcases n with _ | _ | _ | _ | n
  · rfl
  · rfl
  · rfl
  · rfl
  · omega

theorem irqClear_succ (c : Fin 16) (n : Nat) :
    (trace (Slave.step f) s inp (n + 1)).bus.irqClear c =
      if (trace (Slave.step f) s inp n).bus.target.rxIntFlag c then
        (trace (Slave.step f) s inp n).bus.rd3
      else (trace (Slave.step f) s inp n).bus.irqClear c := rfl

theorem irqClear_init (c : Fin 16) {n : Nat} (hn : n < 5) :
    (trace (Slave.step f) (.init buffer maskFlags) inp n).bus.irqClear c = false := by
  induction n with
  | zero => rfl
  | succ n ih =>
      rw [irqClear_succ, rd3_init buffer maskFlags (by omega), ih (by omega), ite_self]

/-- After a read that clears the flags there is no read, and the address is that of the read or of
a write to the same flags. -/
theorem target_after_clear (hone : OneReadPending fun n => (inp n).host) {c : Fin 16} {n : Nat}
    (hok : ClearReadOk (fun n => (inp n).host)
      (trace (Slave.step f) (.init buffer maskFlags) inp) c n)
    (hclear : (inp n).host.clearRead c = true) :
    (trace (Slave.step f) (.init buffer maskFlags) inp (n + 5)).bus.target.rxIntFlag c = true ∧
      (inp (n + 1)).host.amsRead = false := by
  have hread := hclear
  simp only [HostPort.clearRead, Bool.and_eq_true] at hread
  have hnext := hone n hread.1
  constructor
  · cases hacc : (inp (n + 4)).host.accesses with
    | true =>
        have htarget := target_held (f := f) (s := .init buffer maskFlags) (n := n + 4)
          (j := 0) hacc (by omega)
        simp only [Nat.add_zero] at htarget
        rw [htarget]
        exact hok.same hacc
    | false =>
        have htarget := target_held (f := f) (s := .init buffer maskFlags) (n := n)
          (j := 4) (HostPort.accesses_of_read hread.1) (fun k hk hk4 => by
            by_cases h4 : k = 4
            · rw [h4, hacc]
            · exact hnext k hk (by omega))
        rw [show n + 5 = n + 1 + 4 by omega, htarget]
        exact hread.2
  · have hquiet := hnext 1 (by omega) (by omega)
    simp only [HostPort.accesses, Bool.or_eq_false_iff] at hquiet
    exact hquiet.2

/-- The clear strobe is one cycle long, five cycles after the read. -/
theorem irqClear_eq (hone : OneReadPending fun n => (inp n).host)
    (hok : ∀ c t, (inp t).host.clearRead c = true →
      ClearReadOk (fun n => (inp n).host) (trace (Slave.step f) (.init buffer maskFlags) inp) c t)
    (c : Fin 16) (n : Nat) :
    (trace (Slave.step f) (.init buffer maskFlags) inp (n + 5)).bus.irqClear c =
      (inp n).host.clearRead c := by
  have hrd3 : (trace (Slave.step f) (.init buffer maskFlags) inp (n + 4)).bus.rd3 =
      (inp n).host.amsRead := rfl
  -- a strobe that is on is not left on
  have hoff : (trace (Slave.step f) (.init buffer maskFlags) inp (n + 4)).bus.irqClear c = true →
      (trace (Slave.step f) (.init buffer maskFlags) inp (n + 4)).bus.target.rxIntFlag c = true ∧
        (inp n).host.amsRead = false := by
    intro hon
    cases n with
    | zero =>
        rw [irqClear_init buffer maskFlags c (by omega)] at hon
        cases hon
    | succ n =>
        rw [show n + 1 + 4 = n + 5 by omega, irqClear_eq hone hok c n] at hon
        exact target_after_clear buffer maskFlags hone (hok c n hon) hon
  rw [irqClear_succ, hrd3]
  cases hread : (inp n).host.amsRead with
  | false =>
      have hnone : (inp n).host.clearRead c = false := by simp [HostPort.clearRead, hread]
      rw [hnone]
      split
      · rfl
      · rename_i hmiss
        cases hon : (trace (Slave.step f) (.init buffer maskFlags) inp (n + 4)).bus.irqClear c with
        | false => rfl
        | true => exact absurd (hoff hon).1 hmiss
  | true =>
      have htarget := target_held (f := f) (s := .init buffer maskFlags) (n := n) (j := 3)
        (HostPort.accesses_of_read hread) (hone n hread)
      rw [htarget]
      cases hhit : (inp n).host.target.rxIntFlag c with
      | true => simp [HostPort.clearRead, hread, hhit]
      | false =>
          have hnone : (inp n).host.clearRead c = false := by simp [HostPort.clearRead, hhit]
          rw [hnone, if_neg Bool.false_ne_true]
          cases hon :
              (trace (Slave.step f) (.init buffer maskFlags) inp (n + 4)).bus.irqClear c with
          | false => rfl
          | true =>
              rw [(hoff hon).2] at hread
              cases hread

end Bus

/-! ## The run -/

section Run

variable {f : Nat} {inp : Nat → SlaveInput} (buffer maskFlags : Fin 16 → Nat → Word)
  {bit : Nat} {flag : RxController → Bool} {event : RxController → RxInput → Bool}

theorem flag_succ (hl : Latched bit flag event) (c : Fin 16) (n : Nat) :
    flag ((trace (Slave.step f) (.init buffer maskFlags) inp (n + 1)).rx c).controller =
      ((trace (Slave.step f) (.init buffer maskFlags) inp n).event c event ||
        (!(trace (Slave.step f) (.init buffer maskFlags) inp n).bus.irqClear c &&
          flag ((trace (Slave.step f) (.init buffer maskFlags) inp n).rx c).controller)) :=
  hl.step _ _ (slave_control inp buffer maskFlags c n)

theorem flag_before (hl : Latched bit flag event) {c : Fin 16} {n : Nat}
    (hno : (trace (Slave.step f) (.init buffer maskFlags) inp n).event c event = false)
    (h : flag
      ((trace (Slave.step f) (.init buffer maskFlags) inp (n + 1)).rx c).controller = true) :
    flag ((trace (Slave.step f) (.init buffer maskFlags) inp n).rx c).controller = true := by
  rw [flag_succ buffer maskFlags hl, hno, Bool.false_or, Bool.and_eq_true] at h
  exact h.2

theorem flags_returned (hl : Latched bit flag event) (hbit : bit < 27)
    (hone : OneReadPending fun n => (inp n).host) {c : Fin 16} {t : Nat}
    (hread : (inp t).host.flagsRead c = true) :
    (trace (Slave.step f) (.init buffer maskFlags) inp (t + 4)).amsReaddata.getLsbD bit =
      flag ((trace (Slave.step f) (.init buffer maskFlags) inp (t + 3)).rx c).controller := by
  have hhit := hread
  simp only [HostPort.flagsRead, HostPort.clearRead, Target.rxIntFlag, Bool.and_eq_true,
    beq_iff_eq, Bool.not_eq_true'] at hhit
  obtain ⟨⟨hr, ⟨hreg, hrt⟩, rfl⟩, hword⟩ := hhit
  have htarget := target_held (f := f) (s := .init buffer maskFlags) (n := t) (j := 2)
    (HostPort.accesses_of_read hr) (fun k hk hk2 => hone t hr k hk (by omega))
  have hrd2 : (trace (Slave.step f) (.init buffer maskFlags) inp (t + 3)).bus.rd2 = true := hr
  have hconf : (inp t).host.target.confBit = true := by
    simp only [Target.register, Bool.and_eq_true] at hreg
    exact hreg.1.1
  have hother : (inp t).host.target.register 0#4 = false := by
    simp only [Target.register, Bool.and_eq_true, beq_iff_eq] at hreg
    simp [Target.register, hreg.2]
  change
    ((trace (Slave.step f) (.init buffer maskFlags) inp (t + 3)).readdata (inp (t + 3))).getLsbD
    bit = _
  simp only [Slave.readdata, htarget, hword, hconf, hother, hreg, hrt, hrd2, Bool.false_and,
    Bool.true_and, if_true, Bool.false_eq_true, if_false, BitVec.getLsbD_setWidth, Slave.rxintflag]
  rw [hl.read, decide_eq_true (by omega), Bool.true_and]

/-- An event stays latched until a read has returned it. -/
theorem event_kept (hl : Latched bit flag event) (hbit : bit < 27)
    (hone : OneReadPending fun n => (inp n).host) {c : Fin 16}
    (hquiet : ∀ t, (inp t).host.clearRead c = true → ∀ k, 3 ≤ k → k ≤ 4 →
      (trace (Slave.step f) (.init buffer maskFlags) inp (t + k)).event c event = false)
    (hread : ∀ n, (trace (Slave.step f) (.init buffer maskFlags) inp n).bus.irqClear c = true →
      flag ((trace (Slave.step f) (.init buffer maskFlags) inp n).rx c).controller = true →
      ∃ t, n = t + 5 ∧ (inp t).host.flagsRead c = true ∧
        flag ((trace (Slave.step f) (.init buffer maskFlags) inp (t + 3)).rx c).controller = true)
    {e n : Nat} (hn : e < n)
    (hevent : (trace (Slave.step f) (.init buffer maskFlags) inp e).event c event = true) :
    flag ((trace (Slave.step f) (.init buffer maskFlags) inp n).rx c).controller = true ∨
      ∃ t, (inp t).host.flagsRead c = true ∧ e < t + 3 ∧ t + 4 < n ∧
        (trace (Slave.step f) (.init buffer maskFlags) inp (t + 4)).amsReaddata.getLsbD bit =
          true := by
  induction n with
  | zero => omega
  | succ n ih =>
      cases hnow : (trace (Slave.step f) (.init buffer maskFlags) inp n).event c event with
      | true =>
          left
          rw [flag_succ buffer maskFlags hl, hnow, Bool.true_or]
      | false =>
          have hlater : e < n := by
            by_cases heq : e = n
            · rw [heq, hnow] at hevent
              cases hevent
            · omega
          rcases ih hlater with hset | ⟨t, hflags, het, htn, hbit⟩
          · cases hclear :
                (trace (Slave.step f) (.init buffer maskFlags) inp n).bus.irqClear c with
            | false =>
                left
                rw [flag_succ buffer maskFlags hl, hclear, hset]
                simp
            | true =>
                right
                rcases hread n hclear hset with ⟨t, rfl, hflags, h3⟩
                have hclearRead : (inp t).host.clearRead c = true := by
                  simp only [HostPort.flagsRead, Bool.and_eq_true] at hflags
                  exact hflags.1
                -- the event is none of those between sample and strobe
                have hne : ∀ k, 3 ≤ k → k ≤ 4 → e ≠ t + k := by
                  intro k hk hk4 heq
                  rw [heq, hquiet t hclearRead k hk hk4] at hevent
                  cases hevent
                have hne3 := hne 3 (by omega) (by omega)
                have hne4 := hne 4 (by omega) (by omega)
                refine ⟨t, hflags, by omega, by omega, ?_⟩
                rw [flags_returned buffer maskFlags hl hbit hone hflags, h3]
          · exact Or.inr ⟨t, hflags, het, by omega, hbit⟩

variable (hone : OneReadPending fun n => (inp n).host)
  (hok : ∀ c t, (inp t).host.clearRead c = true →
    ClearReadOk (fun n => (inp n).host) (trace (Slave.step f) (.init buffer maskFlags) inp) c t)

include hone hok

/-- A clear strobe that meets a set flag belongs to a read that returned the flag. -/
theorem clear_of_read (hl : Latched bit flag event) {c : Fin 16} {n : Nat}
    (hquiet : ∀ t, (inp t).host.clearRead c = true → ∀ k, 3 ≤ k → k ≤ 4 →
      (trace (Slave.step f) (.init buffer maskFlags) inp (t + k)).event c event = false)
    (hword : ∀ t, (inp t).host.clearRead c = true → (inp t).host.target.flagsSpace = true →
      flag ((trace (Slave.step f) (.init buffer maskFlags) inp (t + 3)).rx c).controller = false)
    (hclear : (trace (Slave.step f) (.init buffer maskFlags) inp n).bus.irqClear c = true)
    (hset : flag ((trace (Slave.step f) (.init buffer maskFlags) inp n).rx c).controller = true) :
    ∃ t, n = t + 5 ∧ (inp t).host.flagsRead c = true ∧
      flag
        ((trace (Slave.step f) (.init buffer maskFlags) inp (t + 3)).rx c).controller = true := by
  by_cases hearly : n < 5
  · rw [irqClear_init buffer maskFlags c hearly] at hclear
    cases hclear
  · obtain ⟨t, rfl⟩ : ∃ t, n = t + 5 := ⟨n - 5, by omega⟩
    rw [irqClear_eq buffer maskFlags hone hok] at hclear
    have h4 := flag_before buffer maskFlags hl (hquiet t hclear 4 (by omega) (Nat.le_refl 4)) hset
    have h3 := flag_before buffer maskFlags hl (hquiet t hclear 3 (Nat.le_refl 3) (by omega)) h4
    refine ⟨t, rfl, ?_, h3⟩
    cases hspace : (inp t).host.target.flagsSpace with
    | false => simp [HostPort.flagsRead, hclear, hspace]
    | true =>
        rw [hword t hclear hspace] at h3
        cases h3

theorem flag_reported (hl : Latched bit flag event) (hbit : bit < 27)
    (hquiet : ∀ c t, (inp t).host.clearRead c = true → ∀ k, 3 ≤ k → k ≤ 4 →
      (trace (Slave.step f) (.init buffer maskFlags) inp (t + k)).event c event = false)
    (hword : ∀ c t, (inp t).host.clearRead c = true → (inp t).host.target.flagsSpace = true →
      flag ((trace (Slave.step f) (.init buffer maskFlags) inp (t + 3)).rx c).controller = false) :
    FlagReported (fun n => (inp n).host) (trace (Slave.step f) (.init buffer maskFlags) inp)
      bit flag event := by
  constructor
  · intro c e n hn hevent
    exact event_kept buffer maskFlags hl hbit hone (hquiet c)
      (fun _ => clear_of_read buffer maskFlags hone hok hl (hquiet c) (hword c)) hn hevent
  · intro c n hset hfell
    cases hclear : (trace (Slave.step f) (.init buffer maskFlags) inp n).bus.irqClear c with
    | false =>
        rw [flag_succ buffer maskFlags hl, hclear, hset] at hfell
        simp at hfell
    | true =>
        rcases clear_of_read buffer maskFlags hone hok hl (hquiet c) (hword c) hclear hset with
          ⟨t, hn, hflags, _⟩
        exact ⟨t, hn, hflags⟩

/-- On every run whose reads meet `ClearReadOk` the events are reported before they
are cleared. -/
theorem flags_reported :
    FlagsReported (fun n => (inp n).host)
      (trace (Slave.step f) (.init buffer maskFlags) inp) := by
  refine ⟨flag_reported buffer maskFlags hone hok latched_parity (by omega) ?_ ?_,
    flag_reported buffer maskFlags hone hok latched_word (by omega) ?_ ?_, ?_⟩
  · exact fun c t hread k hk hk4 => ((hok c t hread).quiet k hk hk4).1
  · exact fun c t hread hspace => ((hok c t hread).flagsWord hspace).1
  · exact fun c t hread k hk hk4 => ((hok c t hread).quiet k hk hk4).2
  · exact fun c t hread hspace => ((hok c t hread).flagsWord hspace).2
  · intro c t hread
    have hr : (inp t).host.amsRead = true := by
      simp only [HostPort.flagsRead, HostPort.clearRead, Bool.and_eq_true] at hread
      exact hread.1.1
    have hnext := hone t hr 1 (by omega) (by omega)
    have hnone : (inp (t + 1)).host.amsRead = false := by
      simp only [HostPort.accesses, Bool.or_eq_false_iff] at hnext
      exact hnext.2
    rw [show t + 6 = t + 1 + 5 by omega, irqClear_eq buffer maskFlags hone hok]
    simp [HostPort.clearRead, hnone]

end Run

/-! ## Two hosts -/

/-- The host sets channel 0 to 100 kbit/s and reads its interrupt register in cycle 1140. -/
def flagsHost : Nat → HostPort
  | 0 => ⟨true, false, 0x004000#21, 0x83#32⟩
  | 1140 => ⟨false, true, 0x004008#21, 0⟩
  | _ => .idle

def wordInput (n : Nat) : SlaveInput where
  host := flagsHost n
  line := fun _ =>
    if 100 ≤ n ∧ n < 1124 then frameLine 8 0x12345678#32 (n - 100) else .null
  fifoDelay := fun _ => ⟨1, 1⟩

def wordRun : Nat → Slave :=
  trace (Slave.step 3200000) (.init (fun _ _ => 0) fun _ _ => 0xFFFFFFFF) wordInput

theorem flagsHost_reads {n : Nat} (h : (flagsHost n).amsRead = true) : n = 1140 := by
  unfold flagsHost at h
  split at h
  · cases h
  · rfl
  · cases h

theorem flagsHost_pending : OneReadPending flagsHost := by
  intro n hn k hk hk3
  obtain rfl := flagsHost_reads hn
  have hcases : k = 1 ∨ k = 2 ∨ k = 3 := by omega
  rcases hcases with rfl | rfl | rfl <;> rfl

theorem wordRun_event :
    (wordRun 1130).event 0 RxController.accepts = true ∧
      (wordRun 1144).amsReaddata.getLsbD 3 = true ∧
      ∀ k ∈ [3, 4], (wordRun (1140 + k)).event 0 RxController.parityEvent = false ∧
        (wordRun (1140 + k)).event 0 RxController.accepts = false := by
  decide +kernel

/-- The word is stored, and the read returns its flag. -/
theorem word_reported :
    FlagsReported flagsHost wordRun ∧ (wordRun 1130).event 0 RxController.accepts = true ∧
      (wordRun 1144).amsReaddata.getLsbD 3 = true := by
  obtain ⟨hevent, hreturned, hquiet⟩ := wordRun_event
  refine ⟨?_, hevent, hreturned⟩
  have hone : OneReadPending fun n => (wordInput n).host := flagsHost_pending
  refine flags_reported (f := 3200000) (fun _ _ => 0) (fun _ _ => 0xFFFFFFFF) hone ?_
  intro c t hread
  obtain ⟨hr, htarget⟩ := Bool.and_eq_true_iff.mp hread
  obtain rfl := flagsHost_reads hr
  have hc : ∀ c : Fin 16, (flagsHost 1140).target.rxIntFlag c = true → c = 0 := by decide
  obtain rfl := hc c htarget
  refine ⟨fun hacc => absurd hacc (by decide), fun k hk hk4 => ?_, fun hspace => ?_⟩
  · have hcases : k = 3 ∨ k = 4 := by omega
    exact hquiet k (by simpa using hcases)
  · exact absurd hspace (by decide)

/-- A read of the interrupt register of channel 0, and one for channel 1 in the cycle of
`readdatavalid`. -/
def readThenOther : Nat → HostPort
  | 0 => ⟨false, true, 0x004008#21, 0⟩
  | 4 => ⟨false, true, 0x010000#21, 0⟩
  | _ => .idle

/-- The clear strobe stays on. -/
theorem clear_left_on : ¬ FlagsReported readThenOther (busRun readThenOther) := by
  intro h
  exact absurd (h.back 0 0 (by decide)) (by decide +kernel)

end Mfi.Arinc429
