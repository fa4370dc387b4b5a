import Mfi.Core.Trace
import Mfi.Arinc708.TxFrame

/-!
# The ARINC 708 receiver from bit to bit

The receiver is followed from the cycle in which it fixes a bit to that of the next.
Its state machine and edge detector see only the levels of the two bits, so that the
62 cycles are evaluated once for each pair of levels; the counters and the shift
register are carried along for any bit of any frame.
-/

namespace Mfi.Arinc708

open Core

namespace Arinc708Rx

/-- The state machine, its timer and the edge detector; the other registers are cleared. -/
def detector (s : Arinc708Rx) : Arinc708Rx :=
  { reset true with
    currentStateRx := s.currentStateRx
    tmrCnt := s.tmrCnt
    edgeReg := s.edgeReg
    edgePos := s.edgePos
    edgeNeg := s.edgeNeg }

variable {s : Arinc708Rx} {line : Line} {ws : Nat → Word} {i o : Nat}

theorem detector_clkEdge
    (hs : s.currentStateRx = .waitEdge ∨ s.currentStateRx = .fixBit ∨ s.currentStateRx = .waitTimer)
    (hwrd : s.wrdCnt ≠ 50) : (s.clkEdge inputFrequency line).detector =
      (s.detector.clkEdge inputFrequency line).detector := by
  rcases hs with hs | hs | hs
  · simp [detector, clkEdge, comb, hs]
  · simp [detector, clkEdge, comb, hs]
  · simp [detector, clkEdge, comb, hs, hwrd, dataSize, reset]

theorem detector_syncError (s : Arinc708Rx) (line : Line) :
    s.detector.syncError line = s.syncError line := by
  cases hs : s.currentStateRx <;> simp [syncError, detector, comb, hs, reset]

/-- The detector in the cycle in which a bit is fixed: the edge in its middle was seen. -/
def atFix (b : Bool) : Arinc708Rx :=
  { reset true with
    currentStateRx := .fixBit
    edgeReg := if b then 0b0000#4 else 0b1111#4
    edgePos := !b
    edgeNeg := b }

/-- The line from the cycle in which bit `p` is fixed to that of the next bit `b`. -/
def cellLine (p b : Bool) (o : Nat) : Line :=
  .level (if o < 26 then !p else if o < 57 then b else !b)

def cellStep (s : Arinc708Rx) (line : Line) : Arinc708Rx :=
  (s.clkEdge inputFrequency line).detector

def cellRun (p b : Bool) : Nat → Arinc708Rx := trace cellStep (atFix p) (cellLine p b)

theorem cellRun_next : ∀ p b, cellRun p b 62 = atFix b := by
  decide +kernel

/-- After a bit the receiver waits for the next; its edge is never missed. -/
def waits (o : Nat) (s : Arinc708Rx) (line : Line) : Bool :=
  (decide (o = 0) || decide (s.currentStateRx = .waitEdge) ||
    decide (s.currentStateRx = .waitTimer)) && !s.syncError line

theorem cellRun_checked :
    ∀ p b, holdsAlong cellStep waits (cellLine p b) 0 62 (atFix p) = true := by
  decide +kernel

theorem cellRun_waits (p b : Bool) (hpos : 0 < o) (ho : o < 62) :
    ((cellRun p b o).currentStateRx = .waitEdge ∨ (cellRun p b o).currentStateRx = .waitTimer) ∧
      (cellRun p b o).syncError (cellLine p b o) = false := by
  have hnow := holdsAlong_trace (cellRun_checked p b) ho
  simp only [waits, Bool.and_eq_true, Bool.or_eq_true, decide_eq_true_eq, Bool.not_eq_true'] at hnow
  obtain ⟨(hzero | hedge) | htimer, hsync⟩ := hnow
  · omega
  · exact ⟨Or.inl hedge, hsync⟩
  · exact ⟨Or.inr htimer, hsync⟩

/-! ## The whole receiver -/

/-- Bit `i` of a frame is fixed in this cycle; the earlier bits of its word are in the
shift register. -/
structure AtFix (ws : Nat → Word) (i : Nat) (s : Arinc708Rx) : Prop where
  detector : s.detector = atFix (frameBit ws i)
  rstN : s.rstN = true
  bit : s.bitCnt = i % 32
  wrd : s.wrdCnt = i / 32
  valQ : s.astWrdValQ = false
  valid : s.srcRxValid = false
  noError : s.rxErrPe = false
  shift : ∀ j < i % 32, s.astWrdShift.getLsbD (32 - i % 32 + j) = (ws (i / 32)).getLsbD j

/-- Bit `i` of a frame was fixed `o` cycles ago; the word is delivered if it was its last. -/
structure InCell (ws : Nat → Word) (i o : Nat) (s : Arinc708Rx) : Prop where
  detector : s.detector = cellRun (frameBit ws i) (frameBit ws (i + 1)) o
  rstN : s.rstN = true
  bit : s.bitCnt = (i + 1) % 32
  wrd : s.wrdCnt = (i + 1) / 32
  valQ : s.astWrdValQ = decide (o = 1 ∧ i % 32 = 31)
  valid : s.srcRxValid = decide (o = 2 ∧ i % 32 = 31)
  noError : s.rxErrPe = false
  shift : ∀ j ≤ i % 32, s.astWrdShift.getLsbD (31 - i % 32 + j) = (ws (i / 32)).getLsbD j

theorem AtFix.state (h : AtFix ws i s) : s.currentStateRx = .fixBit :=
  congrArg currentStateRx h.detector

theorem AtFix.edges (h : AtFix ws i s) :
    s.edgePos = !frameBit ws i ∧ s.edgeNeg = frameBit ws i :=
  ⟨congrArg edgePos h.detector, congrArg edgeNeg h.detector⟩

theorem AtFix.shift_next (h : AtFix ws i s) (line : Line) : ∀ j ≤ i % 32,
    (s.clkEdge inputFrequency line).astWrdShift.getLsbD (31 - i % 32 + j) =
      (ws (i / 32)).getLsbD j := by
  intro j hj
  have hshift : (s.clkEdge inputFrequency line).astWrdShift =
      BitVec.ofBool (frameBit ws i) ++ s.astWrdShift.extractLsb' 1 31 := by
    simp only [clkEdge, h.state, h.edges.1, h.edges.2, if_true]
    cases frameBit ws i <;> rfl
  rw [hshift, BitVec.getLsbD_append]
  by_cases hnew : j = i % 32
  · rw [if_neg (by omega), hnew, show 31 - i % 32 + i % 32 - 31 = 0 by omega]
    simp [frameBit]
  · rw [if_pos (by omega), BitVec.getLsbD_extractLsb', decide_eq_true (by omega), Bool.true_and,
      ← h.shift j (by omega)]
    congr 1
    omega

theorem AtFix.next (h : AtFix ws i s) (hi : i < 1600)
    (hline : line = cellLine (frameBit ws i) (frameBit ws (i + 1)) 0) :
    InCell ws i 1 (s.clkEdge inputFrequency line) := by
  have hs := h.state
  have hbit := h.bit
  have hwrd := h.wrd
  refine ⟨?_, rfl, ?_, ?_, ?_, ?_, ?_, h.shift_next line⟩
  · rw [detector_clkEdge (Or.inr (Or.inl hs)) (by omega), h.detector, hline]
    rfl
  · simp only [clkEdge, comb, hs, hbit, if_true]
    omega
  · simp only [clkEdge, comb, hs, hbit, hwrd, decide_eq_true_eq]
    split
    · omega
    · rw [if_neg (by decide)]
      omega
  · simp [clkEdge, comb, hs, hbit]
  · simp [clkEdge, h.valQ]
  · simp [clkEdge, comb, hs, h.valid, h.noError]

theorem InCell.next (h : InCell ws i o s) (hi : i < 1599) (hpos : 0 < o) (ho : o < 62)
    (hline : line = cellLine (frameBit ws i) (frameBit ws (i + 1)) o) :
    InCell ws i (o + 1) (s.clkEdge inputFrequency line) := by
  have hwrd : s.wrdCnt ≠ 50 := by
    have hword := h.wrd
    omega
  obtain ⟨hstate, hsync⟩ := cellRun_waits (frameBit ws i) (frameBit ws (i + 1)) hpos ho
  rw [← h.detector] at hstate hsync
  change s.currentStateRx = .waitEdge ∨ s.currentStateRx = .waitTimer at hstate
  rw [detector_syncError, ← hline, syncError] at hsync
  have hdetector : (s.clkEdge inputFrequency line).detector =
      (s.detector.clkEdge inputFrequency line).detector :=
    detector_clkEdge (hstate.imp_right Or.inr) hwrd
  rw [h.detector, hline] at hdetector
  have hkeeps : (s.clkEdge inputFrequency line).bitCnt = s.bitCnt ∧
      (s.clkEdge inputFrequency line).wrdCnt = s.wrdCnt ∧
      (s.clkEdge inputFrequency line).astWrdShift = s.astWrdShift ∧
      (s.clkEdge inputFrequency line).astWrdValQ = false := by
    rcases hstate with hs | hs
    · simp [clkEdge, comb, hs]
    · simp [clkEdge, comb, hs, hwrd, dataSize]
  obtain ⟨hbit, hwrd', hshift, hvalQ⟩ := hkeeps
  refine ⟨?_, rfl, hbit.trans h.bit, hwrd'.trans h.wrd, ?_, ?_, ?_, by rw [hshift]; exact h.shift⟩
  · rw [hline, hdetector]
    rfl
  · rw [hvalQ]
    symm
    rw [decide_eq_false_iff_not]
    omega
  · change s.astWrdValQ = _
    rw [h.valQ]
    apply decide_eq_decide.mpr
    omega
  · simp [clkEdge, hsync, h.noError]

theorem InCell.last (h : InCell ws i 62 s) : AtFix ws (i + 1) s := by
  refine ⟨h.detector.trans (cellRun_next _ _), h.rstN, h.bit, h.wrd, ?_, ?_, h.noError,
    fun j hj => ?_⟩
  · rw [h.valQ, decide_eq_false_iff_not]
    omega
  · rw [h.valid, decide_eq_false_iff_not]
    omega
  · rw [show 32 - (i + 1) % 32 + j = 31 - i % 32 + j by omega, show (i + 1) / 32 = i / 32 by omega]
    exact h.shift j (by omega)

/-- With its last bit a word is complete, and is at the output two cycles later. -/
theorem AtFix.word (h : AtFix ws i s) (hi : i % 32 = 31) (line line' : Line) :
    ((s.clkEdge inputFrequency line).clkEdge inputFrequency line').astWrd = ws (i / 32) := by
  have hvalQ : (s.clkEdge inputFrequency line).astWrdValQ = true := by
    simp [clkEdge, comb, h.state, h.bit, hi]
  have hword : (s.clkEdge inputFrequency line).astWrdShift = ws (i / 32) := by
    apply BitVec.eq_of_getLsbD_eq
    intro j hj
    have hbit := h.shift_next line j (by omega)
    rwa [hi, show 31 - 31 + j = j by omega] at hbit
  rw [← hword]
  generalize s.clkEdge inputFrequency line = n at hvalQ
  simp [clkEdge, hvalQ]

end Arinc708Rx

end Mfi.Arinc708
