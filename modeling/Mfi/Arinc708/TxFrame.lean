import Mathlib.Tactic.SplitIfs
import Mfi.Core.Trace
import Mfi.Arinc708.Transmitter

/-!
# A frame of the ARINC 708 serialiser

The bit clock runs on from reset with a period of 62 cycles; the state machine moves at
its last cycle, and the half periods are counted in the syncs. From the cycle in which
the first word is asked for, the control of the serialiser is a function of the bit
slot and of the phase in it.
-/

namespace Mfi.Arinc708

namespace Arinc708Tx

/-! ## The bit clock -/

/-- The bit clock in phase `φ`: it is high up to phase 29, and rises in phase 61. -/
structure Clocked (φ : Nat) (s : Arinc708Tx) : Prop where
  rstN : s.rstN = true
  tmrCnt : s.tmrCnt = (φ + 1) % 31
  tmrCntEnQ : s.tmrCntEnQ = decide (φ ≠ 30 ∧ φ ≠ 61)
  clkA708 : s.clkA708 = decide (φ < 30 ∨ φ = 61)
  clkA708Q : s.clkA708Q = decide (φ < 31)

variable {φ q : Nat} {s : Arinc708Tx} {i : TxPort} {ws : Nat → Word}

theorem Clocked.tmrCntEn_eq (h : s.Clocked φ) (hφ : φ < 62) :
    s.tmrCntEn inputFrequency = decide (φ ≠ 29 ∧ φ ≠ 60) := by
  unfold tmrCntEn
  rw [h.tmrCnt, period_eq]
  apply decide_eq_decide.mpr
  omega

theorem Clocked.clkA708En_eq (h : s.Clocked φ) (hφ : φ < 62) : s.clkA708En = decide (φ = 61) := by
  unfold clkA708En
  rw [h.clkA708, h.clkA708Q, ← decide_not, ← Bool.decide_and]
  apply decide_eq_decide.mpr
  omega

theorem Clocked.next (h : s.Clocked φ) (hφ : φ < 62) :
    (s.clkEdge inputFrequency i).Clocked ((φ + 1) % 62) := by
  have hen := h.tmrCntEn_eq hφ
  refine ⟨rfl, ?_, ?_, ?_, ?_⟩
  · simp only [clkEdge, hen, h.tmrCnt, decide_eq_true_eq]
    split <;> omega
  · simp only [clkEdge, hen]
    apply decide_eq_decide.mpr
    omega
  · simp only [clkEdge, hen, h.clkA708, decide_eq_true_eq]
    split
    · apply decide_eq_decide.mpr
      omega
    · rw [← decide_not]
      apply decide_eq_decide.mpr
      omega
  · simp only [clkEdge, h.clkA708]
    apply decide_eq_decide.mpr
    omega

/-! ## The slots of a frame -/

/-- The state in bit slot `q`: slot 0 asks for the first word. -/
def slotState (q : Nat) : TxState :=
  if q = 0 then .idle else if q < 4 then .start else if q < 1604 then .transmit else .ending

/-- The half periods counted in phase `φ` of slot `q`; the count of the start sync stays
for one more half period. -/
def slotSemiperiod (q φ : Nat) : Nat :=
  if q = 0 then 0
  else if q < 4 then 2 * (q - 1) + φ / 31
  else if q < 1604 then if q = 4 ∧ φ < 31 then 6 else 0
  else 2 * (q - 1604) + φ / 31

def slotBit (q : Nat) : Nat := if q < 1604 then (q - 4) % 32 else 31

def slotWord (q : Nat) : Nat := if q < 1604 then (q - 4) / 32 else 50

/-- The slots in which the serialiser asks for a word: word `(q - 3) / 32`. -/
def Fetches (q : Nat) : Prop := q = 0 ∨ 3 < q ∧ q < 1600 ∧ (q - 3) % 32 = 0

instance : DecidablePred Fetches := fun q => inferInstanceAs (Decidable (q = 0 ∨ _))

/-- Phase `φ` of slot `q` in the frame of the words `ws`. -/
structure InFrame (ws : Nat → Word) (q φ : Nat) (s : Arinc708Tx) : Prop where
  clock : s.Clocked φ
  state : s.currentStateTx = slotState q
  semiperiod : s.semiperiodCnt = slotSemiperiod q φ
  bit : s.bitCnt = slotBit q
  word : s.wrdCnt = slotWord q
  valid : q = 0 → s.sinkTxValidDelQ = true
  readyQ : Fetches q → s.sinkTxReadyQ = decide (φ ≠ 0)
  fetched : Fetches q → φ ≠ 0 → s.astWrd = ws ((q - 3) / 32)
  shift : 0 < q → q < 1604 → s.astWrdShift = ws ((q - 4) / 32) >>> ((q - 4) % 32)

theorem InFrame.idle (h : s.InFrame ws q φ) (hq : q = 0) : s.currentStateTx = .idle := by
  rw [h.state, slotState, if_pos hq]

theorem InFrame.start (h : s.InFrame ws q φ) (hlo : 0 < q) (hhi : q < 4) :
    s.currentStateTx = .start := by
  rw [h.state, slotState, if_neg (by omega), if_pos hhi]

theorem InFrame.transmit (h : s.InFrame ws q φ) (hlo : 4 ≤ q) (hhi : q < 1604) :
    s.currentStateTx = .transmit := by
  rw [h.state, slotState, if_neg (by omega), if_neg (by omega), if_pos hhi]

theorem InFrame.ending (h : s.InFrame ws q φ) (hlo : 1604 ≤ q) : s.currentStateTx = .ending := by
  rw [h.state, slotState, if_neg (by omega), if_neg (by omega), if_neg (by omega)]

theorem slot_cases (q : Nat) : q = 0 ∨ (0 < q ∧ q < 4) ∨ (4 ≤ q ∧ q < 1604) ∨ 1604 ≤ q := by
  omega

theorem InFrame.ready_eq (h : s.InFrame ws q φ) : s.comb.sinkTxReady = decide (Fetches q) := by
  rcases slot_cases q with hq | ⟨hlo, hhi⟩ | ⟨hlo, hhi⟩ | hlo
  · have hvalid := h.valid hq
    simp [comb, h.idle hq, hvalid, Fetches, hq]
  · have hnone : ¬ Fetches q := by
      unfold Fetches
      omega
    rw [decide_eq_false hnone]
    simp only [comb, h.start hlo hhi]
  · have hbit := h.bit
    have hword := h.word
    rw [slotBit, if_pos hhi] at hbit
    rw [slotWord, if_pos hhi] at hword
    simp only [comb, h.transmit hlo hhi, hbit, hword, dataSize, Fetches]
    rw [← Bool.decide_and, ← decide_not, ← Bool.decide_and]
    apply decide_eq_decide.mpr
    omega
  · have hnone : ¬ Fetches q := by
      unfold Fetches
      omega
    rw [decide_eq_false hnone]
    simp only [comb, h.ending hlo]

theorem InFrame.readyPe_eq (h : s.InFrame ws q φ) :
    s.sinkTxReadyPe = decide (Fetches q ∧ φ = 0) := by
  unfold sinkTxReadyPe
  rw [h.ready_eq]
  by_cases hf : Fetches q
  · rw [h.readyQ hf]
    simp [hf]
  · simp [hf]

theorem InFrame.state_keeps (h : s.InFrame ws q φ) (hφ : φ < 61) :
    (s.clkEdge inputFrequency i).currentStateTx = slotState q := by
  have hclk : s.clkA708En = false := by
    rw [h.clock.clkA708En_eq (by omega), decide_eq_false_iff_not]
    omega
  have hsemi := h.semiperiod
  have hnext : s.period15 = true → s.comb.nextStateTx = s.currentStateTx := by
    intro hperiod
    simp only [period15, h.clock.tmrCntEnQ, Bool.and_eq_true, Bool.not_eq_true',
      decide_eq_false_iff_not, Bool.or_eq_true, decide_eq_true_eq] at hperiod
    rw [hsemi] at hperiod
    unfold slotSemiperiod at hperiod hsemi
    rcases slot_cases q with hq | ⟨hlo, hhi⟩ | ⟨hlo, hhi⟩ | hlo
    · rw [if_pos hq] at hperiod
      omega
    · rw [if_neg (by omega), if_pos hhi] at hperiod hsemi
      have hfive : s.semiperiodCnt ≠ 5 := by omega
      simp [comb, h.start hlo hhi, hfive]
    · rw [if_neg (by omega), if_neg (by omega), if_pos hhi] at hperiod
      split at hperiod <;> omega
    · rw [if_neg (by omega), if_neg (by omega), if_neg (by omega)] at hperiod hsemi
      have hfive : s.semiperiodCnt ≠ 5 := by omega
      simp [comb, h.ending hlo, hfive]
  rw [← h.state]
  simp only [clkEdge, hclk, Bool.false_or]
  split
  · rename_i hperiod
    exact hnext hperiod
  · rfl

theorem InFrame.state_next (h : s.InFrame ws q 61) (hq : q < 1607) :
    (s.clkEdge inputFrequency i).currentStateTx =
      if q = 1606 then .idle else slotState (q + 1) := by
  have hclk : s.clkA708En = true := by rw [h.clock.clkA708En_eq (by omega)]; rfl
  have hsemi := h.semiperiod
  have hbit := h.bit
  have hword := h.word
  simp only [clkEdge, hclk, Bool.true_or, if_true]
  unfold slotSemiperiod at hsemi
  rcases slot_cases q with hq0 | ⟨hlo, hhi⟩ | ⟨hlo, hhi⟩ | hlo
  · simp [comb, h.idle hq0, h.valid hq0, hq0, slotState]
  · rw [if_neg (by omega), if_pos hhi] at hsemi
    simp only [comb, h.start hlo hhi, slotState]
    rw [hsemi, if_neg (by omega : q ≠ 1606), if_neg (by omega : q + 1 ≠ 0)]
    by_cases hlast : q = 3
    · rw [if_pos (by omega), if_neg (by omega), if_pos (by omega)]
    · rw [if_neg (by omega), if_pos (by omega)]
  · rw [slotBit, if_pos hhi] at hbit
    rw [slotWord, if_pos hhi] at hword
    simp only [comb, h.transmit hlo hhi, hbit, hword, slotState, dataSize]
    rw [if_neg (by omega : q ≠ 1606), if_neg (by omega : q + 1 ≠ 0),
      if_neg (by omega : ¬ q + 1 < 4),
      ← Bool.decide_and]
    by_cases hlast : q = 1603
    · rw [if_neg (by omega : ¬ q + 1 < 1604), if_pos (decide_eq_true (by omega))]
    · rw [if_pos (by omega : q + 1 < 1604), if_neg (by rw [decide_eq_true_eq]; omega)]
  · rw [if_neg (by omega), if_neg (by omega), if_neg (by omega)] at hsemi
    simp only [comb, h.ending hlo, slotState]
    rw [hsemi]
    by_cases hlast : q = 1606
    · rw [if_pos (by omega), if_pos hlast]
    · rw [if_neg (by omega), if_neg hlast, if_neg (by omega), if_neg (by omega), if_neg (by omega)]

/-! ## One cycle -/

theorem InFrame.semiperiod_eq (h : s.InFrame ws q φ) (hφ : φ < 62) (hq : q < 1607) :
    (s.clkEdge inputFrequency i).semiperiodCnt =
      if φ = 30 ∨ φ = 61 then
        if 0 < q ∧ (q < 4 ∨ 1604 ≤ q) then slotSemiperiod q φ + 1 else 0
      else slotSemiperiod q φ := by
  simp only [clkEdge, h.clock.tmrCntEnQ, h.semiperiod, decide_eq_true_eq]
  by_cases hhalf : φ = 30 ∨ φ = 61
  · rw [if_neg (by omega), if_pos hhalf]
    have hfits : 0 < q ∧ (q < 4 ∨ 1604 ≤ q) → slotSemiperiod q φ < 7 := by
      unfold slotSemiperiod
      split_ifs <;> omega
    rcases slot_cases q with hq0 | ⟨hlo, hhi⟩ | ⟨hlo, hhi⟩ | hlo
    · rw [h.idle hq0, if_neg (by decide), if_neg (by omega)]
    · have hsync : 0 < q ∧ (q < 4 ∨ 1604 ≤ q) := ⟨hlo, Or.inl hhi⟩
      have hlt := hfits hsync
      rw [h.start hlo hhi, if_pos (by decide), if_pos hsync, Nat.mod_eq_of_lt (by omega)]
    · rw [h.transmit hlo hhi, if_neg (by decide), if_neg (by omega)]
    · have hsync : 0 < q ∧ (q < 4 ∨ 1604 ≤ q) := ⟨by omega, Or.inr hlo⟩
      have hlt := hfits hsync
      rw [h.ending hlo, if_pos (by decide), if_pos hsync, Nat.mod_eq_of_lt (by omega)]
  · rw [if_pos (by omega), if_neg hhalf]

theorem slotSemiperiod_sync (hlo : 0 < q) (hhi : q < 4) :
    slotSemiperiod q φ = 2 * (q - 1) + φ / 31 := by
  rw [slotSemiperiod, if_neg (by omega), if_pos hhi]

theorem slotSemiperiod_data (hlo : 4 ≤ q) (hhi : q < 1604) :
    slotSemiperiod q φ = if q = 4 ∧ φ < 31 then 6 else 0 := by
  rw [slotSemiperiod, if_neg (by omega), if_neg (by omega), if_pos hhi]

theorem slotSemiperiod_ending (hlo : 1604 ≤ q) : slotSemiperiod q φ = 2 * (q - 1604) + φ / 31 := by
  rw [slotSemiperiod, if_neg (by omega), if_neg (by omega), if_neg (by omega)]

theorem slotSemiperiod_next (hφ : φ < 61) : slotSemiperiod q (φ + 1) =
    if φ = 30 then
      if 0 < q ∧ (q < 4 ∨ 1604 ≤ q) then slotSemiperiod q φ + 1 else 0
    else slotSemiperiod q φ := by
  by_cases hhalf : φ = 30
  · rw [if_pos hhalf, hhalf]
    rcases slot_cases q with hq | ⟨hlo, hhi⟩ | ⟨hlo, hhi⟩ | hlo
    · rw [slotSemiperiod, if_pos hq, if_neg (by omega)]
    · rw [slotSemiperiod_sync hlo hhi, slotSemiperiod_sync hlo hhi, if_pos ⟨hlo, .inl hhi⟩]
    · rw [slotSemiperiod_data hlo hhi, if_neg (by omega), if_neg (by omega)]
    · rw [slotSemiperiod_ending hlo, slotSemiperiod_ending hlo, if_pos ⟨by omega, .inr hlo⟩]
  · rw [if_neg hhalf]
    rcases slot_cases q with hq | ⟨hlo, hhi⟩ | ⟨hlo, hhi⟩ | hlo
    · rw [slotSemiperiod, slotSemiperiod, if_pos hq, if_pos hq]
    · rw [slotSemiperiod_sync hlo hhi, slotSemiperiod_sync hlo hhi]
      omega
    · have hsame : (q = 4 ∧ φ + 1 < 31) ↔ q = 4 ∧ φ < 31 := by omega
      rw [slotSemiperiod_data hlo hhi, slotSemiperiod_data hlo hhi]
      simp only [hsame]
    · rw [slotSemiperiod_ending hlo, slotSemiperiod_ending hlo]
      omega

theorem slotSemiperiod_slot (hq : q < 1606) : slotSemiperiod (q + 1) 0 =
    if 0 < q ∧ (q < 4 ∨ 1604 ≤ q) then slotSemiperiod q 61 + 1 else 0 := by
  rcases slot_cases q with hq0 | ⟨hlo, hhi⟩ | ⟨hlo, hhi⟩ | hlo
  · rw [if_neg (by omega), slotSemiperiod_sync (by omega) (by omega), hq0]
  · rw [if_pos ⟨hlo, .inl hhi⟩, slotSemiperiod_sync hlo hhi]
    by_cases hlast : q = 3
    · rw [slotSemiperiod_data (by omega) (by omega), if_pos (by omega), hlast]
    · rw [slotSemiperiod_sync (by omega) (by omega)]
      omega
  · rw [if_neg (by omega)]
    by_cases hlast : q = 1603
    · rw [slotSemiperiod_ending (by omega), hlast]
    · rw [slotSemiperiod_data (by omega) (by omega), if_neg (by omega)]
  · rw [if_pos ⟨by omega, .inr hlo⟩, slotSemiperiod_ending hlo, slotSemiperiod_ending (by omega)]
    omega

theorem InFrame.next (h : s.InFrame ws q φ) (hφ : φ < 61) (hq : q < 1607)
    (hdata : Fetches q → φ = 0 → i.sinkTxData = ws ((q - 3) / 32)) :
    (s.clkEdge inputFrequency i).InFrame ws q (φ + 1) := by
  have hclk : s.clkA708En = false := by
    rw [h.clock.clkA708En_eq (by omega), decide_eq_false_iff_not]
    omega
  have hclock := h.clock.next (i := i) (by omega)
  rw [Nat.mod_eq_of_lt (by omega)] at hclock
  refine ⟨hclock, h.state_keeps hφ, ?_, ?_, ?_, fun hq0 => ?_, fun hf => ?_, fun hf _ => ?_,
    fun hlo hhi => ?_⟩
  · rw [h.semiperiod_eq (by omega) hq, slotSemiperiod_next hφ]
    by_cases hhalf : φ = 30
    · rw [if_pos (Or.inl hhalf), if_pos hhalf]
    · rw [if_neg (by omega), if_neg hhalf]
  · simp only [clkEdge, hclk]
    exact h.bit
  · simp only [clkEdge, hclk]
    exact h.word
  · simp only [clkEdge, hclk]
    exact h.valid hq0
  · simp only [clkEdge, h.ready_eq]
    simp [hf]
  · simp only [clkEdge, h.readyPe_eq]
    by_cases hzero : φ = 0
    · simp [hf, hzero, hdata hf hzero]
    · simp [hzero, h.fetched hf hzero]
  · simp only [clkEdge, hclk]
    exact h.shift hlo hhi

theorem InFrame.bit_next (h : s.InFrame ws q 61) (hclk : s.clkA708En = true) :
    (s.clkEdge inputFrequency i).bitCnt = slotBit (q + 1) := by
  have hbit := h.bit
  have hword := h.word
  unfold slotBit at hbit ⊢
  unfold slotWord at hword
  simp only [clkEdge, hclk, if_true]
  rcases slot_cases q with hq0 | ⟨hlo, hhi⟩ | ⟨hlo, hhi⟩ | hlo
  · simp [comb, h.idle hq0, hq0]
  · rw [if_pos (by omega)] at hbit
    simp only [comb, h.start hlo hhi, hbit, if_pos (show q + 1 < 1604 by omega)]
    rw [if_neg Bool.false_ne_true, if_neg (by decide)]
    omega
  · rw [if_pos hhi] at hbit hword
    simp only [comb, h.transmit hlo hhi, hbit, hword, dataSize]
    rw [← Bool.decide_and, ← decide_not]
    by_cases hlast : q = 1603
    · rw [if_neg (by rw [decide_eq_true_eq]; omega), if_neg (by decide), if_neg (by omega)]
      omega
    · rw [if_pos (by rw [decide_eq_true_eq]; omega), if_pos (by omega)]
      omega
  · rw [if_neg (by omega)] at hbit
    simp only [comb, h.ending hlo, hbit]
    rw [if_neg Bool.false_ne_true, if_neg (by decide), if_neg (by omega)]

theorem InFrame.word_next (h : s.InFrame ws q 61) (hclk : s.clkA708En = true) :
    (s.clkEdge inputFrequency i).wrdCnt = slotWord (q + 1) := by
  have hbit := h.bit
  have hword := h.word
  unfold slotBit at hbit
  unfold slotWord at hword ⊢
  simp only [clkEdge, hclk, if_true]
  rcases slot_cases q with hq0 | ⟨hlo, hhi⟩ | ⟨hlo, hhi⟩ | hlo
  · simp [comb, h.idle hq0, hq0]
  · rw [if_pos (by omega)] at hword
    simp only [comb, h.start hlo hhi, hword, if_pos (show q + 1 < 1604 by omega)]
    rw [if_neg Bool.false_ne_true, if_neg (by decide)]
    omega
  · rw [if_pos hhi] at hbit hword
    simp only [comb, h.transmit hlo hhi, hbit, hword]
    by_cases hword : (q - 4) % 32 = 31
    · rw [if_pos (decide_eq_true hword)]
      split <;> omega
    · rw [if_neg (by rw [decide_eq_true_eq]; exact hword), if_neg (by decide)]
      split <;> omega
  · rw [if_neg (by omega)] at hword
    simp only [comb, h.ending hlo, hword]
    rw [if_neg Bool.false_ne_true, if_neg (by decide), if_neg (by omega)]

theorem InFrame.shift_next (h : s.InFrame ws q 61) (hclk : s.clkA708En = true)
    (hhi : q + 1 < 1604) :
    (s.clkEdge inputFrequency i).astWrdShift = ws ((q + 1 - 4) / 32) >>> ((q + 1 - 4) % 32) := by
  simp only [clkEdge, hclk, if_true, h.ready_eq, decide_eq_true_eq]
  by_cases hf : Fetches q
  · rw [if_pos hf, h.fetched hf (by omega)]
    unfold Fetches at hf
    rw [show (q + 1 - 4) % 32 = 0 by omega, show (q + 1 - 4) / 32 = (q - 3) / 32 by omega]
    simp
  · rw [if_neg hf]
    unfold Fetches at hf
    have hshift := h.shift (by omega) (by omega)
    by_cases hdata : 4 ≤ q
    · rw [h.transmit hdata (by omega), if_pos rfl, hshift,
        show (q + 1 - 4) / 32 = (q - 4) / 32 by omega,
        show (q + 1 - 4) % 32 = (q - 4) % 32 + 1 by omega, BitVec.shiftRight_add]
    · rw [h.start (by omega) (by omega), if_neg (by decide), hshift,
        show q + 1 - 4 = 0 by omega, show q - 4 = 0 by omega]

/-- From the last cycle of a slot to the next slot. -/
theorem InFrame.next_slot (h : s.InFrame ws q 61) (hq : q < 1606) :
    (s.clkEdge inputFrequency i).InFrame ws (q + 1) 0 := by
  have hclk : s.clkA708En = true := by rw [h.clock.clkA708En_eq (by omega)]; rfl
  have hclock := h.clock.next (i := i) (by omega)
  have hstate := h.state_next (i := i) (by omega)
  rw [if_neg (by omega)] at hstate
  refine ⟨hclock, hstate, ?_, h.bit_next hclk, h.word_next hclk, fun hq0 => ?_, fun hf => ?_,
    fun _ hne => absurd rfl hne, fun _ hhi => h.shift_next hclk hhi⟩
  · rw [h.semiperiod_eq (by omega) (by omega), if_pos (Or.inr rfl), slotSemiperiod_slot hq]
  · omega
  · simp only [clkEdge, h.ready_eq]
    unfold Fetches at hf ⊢
    apply decide_eq_false
    omega

/-! ## Between frames -/

structure Rest (φ : Nat) (s : Arinc708Tx) : Prop where
  clock : s.Clocked φ
  state : s.currentStateTx = .idle
  valid : s.sinkTxValidDelQ = false
  readyQ : s.sinkTxReadyQ = false

theorem Rest.ready_eq (h : s.Rest φ) : s.comb.sinkTxReady = false := by
  simp [comb, h.state, h.valid]

theorem Rest.readyPe_eq (h : s.Rest φ) : s.sinkTxReadyPe = false := by
  simp [sinkTxReadyPe, h.ready_eq]

theorem Rest.line_eq (h : s.Rest φ) : s.line = .null := by
  simp [line, h.state]

theorem Rest.state_keeps (h : s.Rest φ) :
    (s.clkEdge inputFrequency i).currentStateTx = .idle := by
  simp [clkEdge, comb, h.state, h.valid]

theorem Rest.next (h : s.Rest φ) (hφ : φ < 61) : (s.clkEdge inputFrequency i).Rest (φ + 1) := by
  have hclk : s.clkA708En = false := by
    rw [h.clock.clkA708En_eq (by omega), decide_eq_false_iff_not]
    omega
  have hclock := h.clock.next (i := i) (by omega)
  rw [Nat.mod_eq_of_lt (by omega)] at hclock
  refine ⟨hclock, h.state_keeps, ?_, h.ready_eq⟩
  simp only [clkEdge, hclk]
  exact h.valid

/-- With the next rising edge of the bit clock a valid strobe starts a frame. -/
theorem Rest.next_slot (h : s.Rest 61) (ws : Nat → Word) :
    if s.sinkTxValidDel then (s.clkEdge inputFrequency i).InFrame ws 0 0
    else (s.clkEdge inputFrequency i).Rest 0 := by
  have hclk : s.clkA708En = true := by rw [h.clock.clkA708En_eq (by omega)]; rfl
  have hclock := h.clock.next (i := i) (by omega)
  have hvalid : (s.clkEdge inputFrequency i).sinkTxValidDelQ = s.sinkTxValidDel := by
    simp [clkEdge, hclk]
  have hsemi : (s.clkEdge inputFrequency i).semiperiodCnt = 0 := by
    simp [clkEdge, h.clock.tmrCntEnQ, h.state]
  have hcounters : (s.clkEdge inputFrequency i).bitCnt = 0 ∧
      (s.clkEdge inputFrequency i).wrdCnt = 0 := by
    simp [clkEdge, hclk, comb, h.state]
  cases hdel : s.sinkTxValidDel with
  | true =>
      rw [if_pos rfl]
      exact ⟨hclock, h.state_keeps, hsemi, hcounters.1, hcounters.2, fun _ => hvalid.trans hdel,
        fun _ => h.ready_eq, fun _ hne => absurd rfl hne, fun hpos => absurd hpos (by omega)⟩
  | false =>
      rw [if_neg Bool.false_ne_true]
      exact ⟨hclock, h.state_keeps, hvalid.trans hdel, h.ready_eq⟩

theorem InFrame.next_rest (h : s.InFrame ws 1606 61) (hdel : s.sinkTxValidDel = false) :
    (s.clkEdge inputFrequency i).Rest 0 := by
  have hclk : s.clkA708En = true := by rw [h.clock.clkA708En_eq (by omega)]; rfl
  have hstate := h.state_next (i := i) (by omega)
  refine ⟨h.clock.next (i := i) (by omega), hstate, ?_, ?_⟩
  · simp [clkEdge, hclk, hdel]
  · change s.comb.sinkTxReady = false
    rw [h.ready_eq]
    decide

theorem Rest.boot (i : TxPort) : ((reset true).clkEdge inputFrequency i).Rest 31 := by
  refine ⟨⟨rfl, ?_, ?_, rfl, rfl⟩, rfl, rfl, rfl⟩
  · simp [clkEdge, tmrCntEn, reset, period_eq]
  · simp [clkEdge, tmrCntEn, reset, period_eq]

end Arinc708Tx

/-! ## The line -/

/-- Bit `i` of a frame: the words in their order, least significant bit first. -/
def frameBit (ws : Nat → Word) (i : Nat) : Bool := (ws (i / 32)).getLsbD (i % 32)

/-- The line in cycle `x` of a frame. The start sync is high for 1.5 bit times and low for
1.5, a bit shows its value and then its inverse, and the end sync is the start sync
inverted. -/
def frameLine (ws : Nat → Word) (x : Nat) : Line :=
  if x < 93 then .level true
  else if x < 186 then .level false
  else if x < 186 + 62 * 1600 then
    .level (if (x - 186) % 62 < 31 then frameBit ws ((x - 186) / 62)
      else !frameBit ws ((x - 186) / 62))
  else if x < 186 + 62 * 1600 + 93 then .level false
  else .level true

def frameLength : Nat := 62 * 1606

theorem frameLine_bit (ws : Nat → Word) {i r : Nat} (hi : i < 1600) (hr : r < 62) :
    frameLine ws (186 + 62 * i + r) =
      .level (if r < 31 then frameBit ws i else !frameBit ws i) := by
  unfold frameLine
  rw [if_neg (by omega), if_neg (by omega), if_pos (by omega),
    show (186 + 62 * i + r - 186) / 62 = i by omega,
    show (186 + 62 * i + r - 186) % 62 = r by omega]

namespace Arinc708Tx

variable {φ q : Nat} {s : Arinc708Tx} {ws : Nat → Word}

theorem InFrame.line_null (h : s.InFrame ws q φ) (hq : q = 0) : s.line = .null := by
  simp [line, h.idle hq]

/-- The line of the serialiser in slot `q + 1`. -/
theorem InFrame.line_eq (h : s.InFrame ws (q + 1) φ) (hφ : φ < 62) :
    s.line = frameLine ws (62 * q + φ) := by
  have hsemi := h.semiperiod
  unfold slotSemiperiod at hsemi
  rcases slot_cases (q + 1) with hq0 | ⟨hlo, hhi⟩ | ⟨hlo, hhi⟩ | hlo
  · omega
  · rw [if_neg (by omega), if_pos hhi] at hsemi
    simp only [line, h.start hlo hhi, hsemi, frameLine]
    by_cases hfirst : 62 * q + φ < 93
    · rw [if_pos hfirst, decide_eq_true (by omega)]
    · rw [if_neg hfirst, if_pos (by omega), decide_eq_false (by omega)]
  · have hshift := h.shift (by omega) hhi
    obtain ⟨i, rfl⟩ : ∃ i, q = i + 3 := ⟨q - 3, by omega⟩
    rw [show i + 3 + 1 - 4 = i by omega] at hshift
    rw [show 62 * (i + 3) + φ = 186 + 62 * i + φ by omega, frameLine_bit ws (by omega) hφ]
    have hbit : s.astWrdShift.getLsbD 0 = frameBit ws i := by
      rw [hshift, BitVec.getLsbD_ushiftRight, Nat.add_zero, frameBit]
    simp only [line, h.transmit hlo hhi, hbit, h.clock.clkA708Q]
    by_cases hhalf : φ < 31
    · simp [hhalf]
    · simp [hhalf]
  · rw [if_neg (by omega), if_neg (by omega), if_neg (by omega)] at hsemi
    unfold frameLine
    rw [if_neg (by omega), if_neg (by omega), if_neg (by omega)]
    simp only [line, h.ending hlo, hsemi]
    by_cases hfirst : 62 * q + φ < 186 + 62 * 1600 + 93
    · rw [if_pos hfirst, decide_eq_true (by omega)]
      rfl
    · rw [if_neg hfirst, decide_eq_false (by omega)]
      rfl

end Arinc708Tx

end Mfi.Arinc708
