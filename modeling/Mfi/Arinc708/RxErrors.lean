import Mfi.Arinc708.RxBuffer

/-!
# Words with a missing edge

The receiver remembers a missing edge in `rx_err_pe` until the word is delivered; the
controller looks at it one cycle after that. By then it is cleared, so that every word
is stored as free of errors: the words received without an error are the ones that
are handled as intended.
-/

namespace Mfi.Arinc708

open Core

/-! ## The receiver from word to word -/

namespace Arinc708Rx

/-- The last bit of a word is fixed in this cycle. -/
def completes (s : Arinc708Rx) : Bool :=
  decide (s.currentStateRx = .fixBit) && decide (s.bitCnt = 31)

def Timed (s : Arinc708Rx) : Prop := s.currentStateRx = .fixBit → s.tmrCnt = 0

variable {s : Arinc708Rx} {i : RxPins}

theorem step_enabled (hrst : s.rstN = true) (hen : i.en = true) :
    s.step inputFrequency i = s.clkEdge inputFrequency i.line := by
  unfold step
  rw [hrst, hen]
  rfl

theorem Timed.step (s : Arinc708Rx) (i : RxPins) : (s.step inputFrequency i).Timed := by
  unfold Arinc708Rx.step
  split
  · intro hfix
    cases hs : s.currentStateRx with
    | waitEdge =>
        simp only [clkEdge, comb, hs] at hfix ⊢
        split at hfix
        · rename_i hedge
          rw [if_neg]
          rcases hedge with hedge | htmr
          · simp [hedge]
          · simp [htmr]
        · cases hfix
    | idle =>
        simp only [clkEdge, comb, hs] at hfix
        split at hfix <;> cases hfix
    | start =>
        simp only [clkEdge, comb, hs] at hfix
        split at hfix <;> cases hfix
    | fixBit =>
        simp only [clkEdge, comb, hs] at hfix
        cases hfix
    | waitTimer =>
        simp only [clkEdge, comb, hs] at hfix
        split at hfix
        · cases hfix
        · split at hfix <;> cases hfix
    | ending =>
        simp only [clkEdge, comb, hs] at hfix
        split at hfix <;> cases hfix
  · intro hfix
    cases hfix

/-- Waiting for the next bit, some cycles after the last one. -/
def After (k : Nat) (s : Arinc708Rx) : Prop := s.currentStateRx = .waitTimer ∧ s.tmrCnt = k

theorem fixBit_next (h : s.Timed) (hfix : s.currentStateRx = .fixBit) (line : Line) :
    (s.clkEdge inputFrequency line).After 1 := by
  have htmr := h hfix
  constructor
  · simp [clkEdge, comb, hfix]
  · simp [clkEdge, comb, hfix, htmr]

theorem After.next {k : Nat} (h : s.After k) (hk : k < 31) (line : Line) :
    (s.clkEdge inputFrequency line).After (k + 1) := by
  obtain ⟨hs, htmr⟩ := h
  have hlast : k ≠ 31 := by omega
  have hnext : k ≠ 45 := by omega
  constructor
  · simp [clkEdge, comb, hs, htmr, period_eq, hlast, hnext]
  · simp only [clkEdge, comb, hs, htmr, period_eq]
    simp [hlast, hnext]
    omega

theorem After.no_error {k : Nat} (h : s.After k) (line : Line) : s.syncError line = false := by
  simp [syncError, comb, h.1]

theorem After.no_fix {k : Nat} (h : s.After k) : s.completes = false := by
  simp [completes, h.1]

theorem clkEdge_astWrdValQ (s : Arinc708Rx) (line : Line) :
    (s.clkEdge inputFrequency line).astWrdValQ = s.completes := by
  cases hs : s.currentStateRx <;> simp [clkEdge, comb, hs, completes]

theorem clkEdge_rxErrPe (s : Arinc708Rx) (line : Line) :
    (s.clkEdge inputFrequency line).rxErrPe =
      if s.syncError line then true else if s.srcRxValid then false else s.rxErrPe := rfl

theorem completes_fixBit (h : s.completes = true) : s.currentStateRx = .fixBit := by
  simp only [completes, Bool.and_eq_true, decide_eq_true_eq] at h
  exact h.1

/-- Before a bit is fixed the receiver waited for it: no word is on its way. -/
theorem quiet_at_fixBit (h : (s.step inputFrequency i).currentStateRx = .fixBit) :
    (s.step inputFrequency i).astWrdValQ = false := by
  unfold Arinc708Rx.step at h ⊢
  split at h
  · rename_i hen
    rw [if_pos hen, clkEdge_astWrdValQ]
    cases hword : s.completes with
    | false => rfl
    | true =>
        have hfix := completes_fixBit hword
        simp [clkEdge, comb, hfix] at h
  · cases h

theorem rstN_of_busy (h : (s.step inputFrequency i).currentStateRx ≠ .idle) :
    (s.step inputFrequency i).rstN = true := by
  unfold Arinc708Rx.step at h ⊢
  split at h
  · rename_i hen
    rw [if_pos hen]
    rfl
  · exact absurd rfl h

end Arinc708Rx

/-! ## The channel -/

section Channel

variable (inp : Nat → ChannelInput) (buffer : Nat → Word)

/-- The receiver is enabled in cycle `n`. -/
def EnabledAt (n : Nat) : Prop := (RxChannel.pins (inp n)).en = true

def channel : Nat → RxChannel := trace (RxChannel.step inputFrequency) (.reset buffer) inp

theorem channel_receiver (n : Nat) : (channel inp buffer n).receiver =
    trace (Arinc708Rx.step inputFrequency) (.reset false) (fun k => RxChannel.pins (inp k)) n := by
  induction n with
  | zero => rfl
  | succ n ih =>
      rw [trace_succ, ← ih]
      rfl

variable {inp}

theorem receiver_next {n : Nat} (hbusy : (channel inp buffer n).receiver.currentStateRx ≠ .idle)
    (hen : EnabledAt inp n) : (channel inp buffer (n + 1)).receiver =
      (channel inp buffer n).receiver.clkEdge inputFrequency (inp n).line := by
  have hrst : (channel inp buffer n).receiver.rstN = true := by
    cases n with
    | zero => exact absurd rfl hbusy
    | succ n => exact Arinc708Rx.rstN_of_busy hbusy
  exact Arinc708Rx.step_enabled hrst hen

end Channel

/-! ## What happens to a word -/

section Word

variable (inp : Nat → ChannelInput) (run : Nat → RxChannel)

/-- The word completed in cycle `n` had a missing edge: an error since the last word. -/
def Erred (n : Nat) : Prop :=
  ∃ e < n, (run e).receiver.syncError (inp e).line = true ∧
    ∀ k, e ≤ k → k < n → EnabledAt inp k ∧ (run k).receiver.completes = false

/-- The word completed in cycle `n` is written to the buffer. -/
def Stored (n : Nat) : Prop :=
  (run (n + 4)).controller.buferWeB = true ∧
    (run (n + 5)).controller.ramBuf.ram (run (n + 4)).controller.buferAddrB =
      (run (n + 1)).receiver.astWrdShift

/-- The word completed in cycle `n` is handled: with a missing edge it is not written
and sets the error flag, else it is stored and leaves the flag alone. -/
structure Handled (n : Nat) : Prop where
  bad : Erred inp run n →
    (run (n + 4)).controller.buferWeB = false ∧ (run (n + 4)).controller.rxintflag2 = true
  good : ¬ Erred inp run n → Stored run n ∧ (run (n + 4)).controller.rxintflag2 =
    (!(inp (n + 3)).irqClear && (run (n + 3)).controller.rxintflag2)

end Word

section Run

variable {inp : Nat → ChannelInput} (buffer : Nat → Word)

theorem after_word {n : Nat} (hen : ∀ k < 4, EnabledAt inp (n + k))
    (hword : (channel inp buffer n).receiver.completes = true) {k : Nat} (hk : k < 4) :
    (channel inp buffer (n + k + 1)).receiver =
        (channel inp buffer (n + k)).receiver.clkEdge inputFrequency (inp (n + k)).line ∧
      (channel inp buffer (n + k + 1)).receiver.After (k + 1) := by
  have hfix := Arinc708Rx.completes_fixBit hword
  induction k with
  | zero =>
      have htimed : (channel inp buffer n).receiver.Timed := by
        cases n with
        | zero => cases hfix
        | succ n => exact Arinc708Rx.Timed.step _ _
      have hnext : (channel inp buffer (n + 1)).receiver =
          (channel inp buffer n).receiver.clkEdge inputFrequency (inp n).line :=
        receiver_next buffer (by rw [hfix]; decide) (hen 0 hk)
      refine ⟨hnext, ?_⟩
      rw [Nat.add_zero, hnext]
      exact Arinc708Rx.fixBit_next htimed hfix _
  | succ k ih =>
      have hafter : (channel inp buffer (n + (k + 1))).receiver.After (k + 1) := (ih (by omega)).2
      have hnext := receiver_next buffer (by rw [hafter.1]; decide) (hen (k + 1) hk)
      refine ⟨hnext, ?_⟩
      rw [hnext]
      exact hafter.next (by omega) _

/-- The receiver and the flag of the controller in the cycles after a word. -/
structure Delivers (run : Nat → RxChannel) (n : Nat) : Prop where
  timed : ∀ k, 1 ≤ k → k ≤ 4 → (run (n + k)).receiver.After k
  flag : (run (n + 3)).controller.rxFlagSig = true
  noError : (run (n + 3)).receiver.rxErrPe = false
  word : (run (n + 4)).receiver.astWrd = (run (n + 1)).receiver.astWrdShift

theorem word_delivered {n : Nat} (hen : ∀ k < 4, EnabledAt inp (n + k))
    (hword : (channel inp buffer n).receiver.completes = true) :
    Delivers (channel inp buffer) n := by
  have hfix := Arinc708Rx.completes_fixBit hword
  obtain ⟨hr1, h1⟩ := after_word buffer hen hword (show 0 < 4 by decide)
  obtain ⟨hr2, h2⟩ := after_word buffer hen hword (show 1 < 4 by decide)
  obtain ⟨hr3, _⟩ := after_word buffer hen hword (show 2 < 4 by decide)
  obtain ⟨hr4, _⟩ := after_word buffer hen hword (show 3 < 4 by decide)
  simp only [Nat.add_zero, Nat.zero_add] at hr1 h1
  have hquiet : (channel inp buffer n).receiver.astWrdValQ = false := by
    cases n with
    | zero => cases hfix
    | succ n => exact Arinc708Rx.quiet_at_fixBit hfix
  have hvalQ1 : (channel inp buffer (n + 1)).receiver.astWrdValQ = true := by
    rw [hr1, Arinc708Rx.clkEdge_astWrdValQ, hword]
  have hvalQ2 : (channel inp buffer (n + 2)).receiver.astWrdValQ = false := by
    rw [hr2, Arinc708Rx.clkEdge_astWrdValQ, h1.no_fix]
  have hvalQ3 : (channel inp buffer (n + 3)).receiver.astWrdValQ = false := by
    rw [hr3, Arinc708Rx.clkEdge_astWrdValQ, h2.no_fix]
  have hvalid1 : (channel inp buffer (n + 1)).receiver.srcRxValid = false := by
    rw [hr1]
    exact hquiet
  have hvalid2 : (channel inp buffer (n + 2)).receiver.srcRxValid = true := by
    rw [hr2]
    exact hvalQ1
  refine ⟨?_, ?_, ?_, ?_⟩
  · intro k hk hk4
    obtain ⟨j, rfl⟩ : ∃ j, k = j + 1 := ⟨k - 1, by omega⟩
    exact (after_word buffer hen hword (by omega)).2
  · have hlow : (channel inp buffer (n + 2)).controller.rxFlagSig = false := by
      change (!(channel inp buffer (n + 1)).controller.rxFlagSig &&
        (channel inp buffer (n + 1)).receiver.srcRxValid) = false
      rw [hvalid1, Bool.and_false]
    change (!(channel inp buffer (n + 2)).controller.rxFlagSig &&
      (channel inp buffer (n + 2)).receiver.srcRxValid) = true
    rw [hlow, hvalid2]
    rfl
  · -- the word's own valid pulse clears the error, a cycle before it is looked at
    rw [hr3, Arinc708Rx.clkEdge_rxErrPe, h2.no_error, hvalid2]
    rfl
  · have hkeep4 : (channel inp buffer (n + 4)).receiver.astWrd =
        (channel inp buffer (n + 3)).receiver.astWrd := by
      rw [hr4]
      simp [Arinc708Rx.clkEdge, hvalQ3]
    have hkeep3 : (channel inp buffer (n + 3)).receiver.astWrd =
        (channel inp buffer (n + 2)).receiver.astWrd := by
      rw [hr3]
      simp [Arinc708Rx.clkEdge, hvalQ2]
    have hload : (channel inp buffer (n + 2)).receiver.astWrd =
        (channel inp buffer (n + 1)).receiver.astWrdShift := by
      rw [hr2]
      simp [Arinc708Rx.clkEdge, hvalQ1]
    exact (hkeep4.trans hkeep3).trans hload

/-- Every word is stored, and none sets the error flag. -/
theorem every_word_stored {n : Nat} (hen : ∀ k < 4, EnabledAt inp (n + k))
    (hword : (channel inp buffer n).receiver.completes = true) :
    Stored (channel inp buffer) n ∧ (channel inp buffer (n + 4)).controller.rxintflag2 =
      (!(inp (n + 3)).irqClear && (channel inp buffer (n + 3)).controller.rxintflag2) := by
  have hd := word_delivered buffer hen hword
  have htakes : (channel inp buffer (n + 4)).controller.buferWeB = true := by
    change ((channel inp buffer (n + 3)).controller.rxFlagSig &&
      !(channel inp buffer (n + 3)).receiver.rxErrPe) = true
    rw [hd.flag, hd.noError]
    rfl
  refine ⟨⟨htakes, ?_⟩, ?_⟩
  · rw [← hd.word]
    change ((channel inp buffer (n + 4)).controller.step _).ramBuf.ram _ = _
    rw [step_ram, htakes, if_pos rfl, Function.update_self]
    rfl
  · change ((channel inp buffer (n + 3)).controller.rxFlagSig &&
      (channel inp buffer (n + 3)).receiver.rxErrPe || _) = _
    rw [hd.noError, Bool.and_false, Bool.false_or]
    rfl

/-- A completed word is handled as intended if and only if no edge was missing. -/
theorem handled_iff_not_erred {n : Nat} (hen : ∀ k < 4, EnabledAt inp (n + k))
    (hword : (channel inp buffer n).receiver.completes = true) :
    Handled inp (channel inp buffer) n ↔ ¬ Erred inp (channel inp buffer) n := by
  obtain ⟨hstored, hflag⟩ := every_word_stored buffer hen hword
  constructor
  · intro h hbad
    have hnone := (h.bad hbad).1
    rw [hstored.1] at hnone
    cases hnone
  · exact fun hgood => ⟨fun hbad => absurd hbad hgood, fun _ => ⟨hstored, hflag⟩⟩

end Run

/-! ## The receiver at its controller -/

section Port

variable {inp : Nat → ChannelInput} (buffer : Nat → Word)

theorem receiver_clkEdge (hen : ∀ n, EnabledAt inp n) (n : Nat) :
    (channel inp buffer (n + 2)).receiver =
      (channel inp buffer (n + 1)).receiver.clkEdge inputFrequency (inp (n + 1)).line := by
  refine Arinc708Rx.step_enabled ?_ (hen (n + 1))
  change ((channel inp buffer n).receiver.step inputFrequency (RxChannel.pins (inp n))).rstN = true
  unfold Arinc708Rx.step
  split
  · rfl
  · exact hen n

theorem valid_completes (hen : ∀ n, EnabledAt inp n) {n : Nat}
    (hvalid : (channel inp buffer n).receiver.srcRxValid = true) :
    ∃ m, n = m + 2 ∧ (channel inp buffer m).receiver.completes = true := by
  rcases n with _ | _ | _ | n
  · cases hvalid
  · cases hvalid
  · rw [receiver_clkEdge buffer hen 0] at hvalid
    cases hvalid
  · refine ⟨n + 1, rfl, ?_⟩
    rw [receiver_clkEdge buffer hen (n + 1)] at hvalid
    change (channel inp buffer (n + 2)).receiver.astWrdValQ = true at hvalid
    rwa [receiver_clkEdge buffer hen n, Arinc708Rx.clkEdge_astWrdValQ] at hvalid

/-- An enabled receiver keeps to the rules of the port: the words are apart, and each
stays until the next. -/
theorem receiver_port (hen : ∀ n, EnabledAt inp n) :
    WordPort fun n => (channel inp buffer n).port inputFrequency (inp n) := by
  constructor
  · intro n hvalid
    obtain ⟨m, rfl, hword⟩ := valid_completes buffer hen hvalid
    have hafter := (word_delivered buffer (fun k _ => hen (m + k)) hword).timed
    -- the receiver waits for the next bit, and completes no word
    have hquiet : ∀ k, k = 1 ∨ k = 2 →
        (channel inp buffer (m + k + 2)).receiver.srcRxValid = false := by
      intro k hk
      cases hnext : (channel inp buffer (m + k + 2)).receiver.srcRxValid with
      | false => rfl
      | true =>
          obtain ⟨m', hm', hword'⟩ := valid_completes buffer hen hnext
          obtain rfl : m + k = m' := by omega
          rw [(hafter k (by omega) (by omega)).no_fix] at hword'
          cases hword'
    exact ⟨hquiet 1 (Or.inl rfl), hquiet 2 (Or.inr rfl)⟩
  · intro n hvalid
    cases n with
    | zero =>
        change ((Arinc708Rx.reset false).step inputFrequency (RxChannel.pins (inp 0))).astWrd = 0
        rfl
    | succ n =>
        change (channel inp buffer (n + 2)).receiver.srcRxValid = false at hvalid
        change (channel inp buffer (n + 2)).receiver.astWrd =
          (channel inp buffer (n + 1)).receiver.astWrd
        rw [receiver_clkEdge buffer hen n] at hvalid ⊢
        change (channel inp buffer (n + 1)).receiver.astWrdValQ = false at hvalid
        simp [Arinc708Rx.clkEdge, hvalid]

end Port

/-! ## A line without edges -/

/-- The receiver is enabled, and the line stays high from the first cycle on. -/
def highLine (_ : Nat) : ChannelInput where
  rxconfig := 1#3
  irqClear := false
  buferData := 0
  buferAddr := 0
  buferRd := false
  line := .level true

/-- The last cycle of the wait for the edge of bit `b`. -/
def edgeMissed (b : Nat) : Arinc708Rx where
  rstN := true
  currentStateRx := .waitEdge
  bitCnt := b
  wrdCnt := 0
  tmrCnt := 61
  astWrd := 0
  astWrdShift := 0
  astWrdValQ := false
  edgeReg := 0b1111#4
  edgePos := false
  edgeNeg := false
  srcRxValid := false
  rxErrPe := decide (b ≠ 0)

theorem highLine_pins (n : Nat) : RxChannel.pins (highLine n) = ⟨true, .level true⟩ := by
  simp [highLine, RxChannel.pins]

/-- Every bit without an edge takes 108 cycles. -/
theorem highLine_receiver {b : Nat} (hb : b ≤ 31) :
    (channel highLine (fun _ => 0) (253 + 108 * b)).receiver = edgeMissed b := by
  have hfirst : trace (Arinc708Rx.step inputFrequency) (.reset false)
      (fun _ => ⟨true, .level true⟩) 253 = edgeMissed 0 := by
    decide +kernel
  have hbit : ∀ b < 31, trace (Arinc708Rx.step inputFrequency) (edgeMissed b)
      (fun _ => ⟨true, .level true⟩) 108 = edgeMissed (b + 1) := by
    decide +kernel
  rw [channel_receiver]
  simp only [highLine_pins]
  induction b with
  | zero =>
      rw [Nat.mul_zero, Nat.add_zero]
      exact hfirst
  | succ b ih =>
      rw [Nat.mul_succ, ← Nat.add_assoc, trace_add, ih (by omega)]
      exact hbit b (by omega)

theorem highLine_enabled (n : Nat) : EnabledAt highLine n := by
  rw [EnabledAt, highLine_pins]

theorem highLine_word {n : Nat} (hn : n = 253 + 108 * 31) :
    (channel highLine (fun _ => 0) (n + 1)).receiver.completes = true ∧
      Erred highLine (channel highLine fun _ => 0) (n + 1) := by
  have hwait : (channel highLine (fun _ => 0) n).receiver = edgeMissed 31 := by
    rw [hn]
    exact highLine_receiver (Nat.le_refl 31)
  constructor
  · change ((channel highLine (fun _ => 0) n).receiver.step inputFrequency
      (RxChannel.pins (highLine n))).completes = true
    rw [hwait, highLine_pins]
    decide
  · refine ⟨n, by omega, ?_, fun k hk hk' => ?_⟩
    · rw [hwait]
      change (edgeMissed 31).syncError (.level true) = true
      decide
    · obtain rfl : k = n := by omega
      rw [hwait]
      exact ⟨highLine_enabled k, by decide⟩

theorem handled_iff_not_erred_high_line :
    Handled highLine (channel highLine fun _ => 0) 3602 ↔
      ¬ Erred highLine (channel highLine fun _ => 0) 3602 :=
  handled_iff_not_erred _ (fun _ _ => highLine_enabled _) (highLine_word rfl).1

/-- The word of 32 missing edges is written to the buffer. -/
theorem erroneous_word_stored :
    (∀ n, EnabledAt highLine n) ∧ (channel highLine (fun _ => 0) 3602).receiver.completes = true ∧
      ¬ Handled highLine (channel highLine fun _ => 0) 3602 := by
  obtain ⟨hword, herred⟩ := highLine_word rfl
  refine ⟨highLine_enabled, hword, fun h => ?_⟩
  have hnone := (h.bad herred).1
  rw [(every_word_stored _ (fun _ _ => highLine_enabled _) hword).1.1] at hnone
  cases hnone

end Mfi.Arinc708
