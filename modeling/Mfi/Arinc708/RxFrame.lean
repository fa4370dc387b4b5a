import Mfi.Arinc708.RxCell

/-!
# The ARINC 708 receiver on a frame

The start of a frame up to its first bit, and its end from the last bit on, are
evaluated as a whole; the words are carried through by the bits between.
-/

namespace Mfi.Arinc708

open Core

namespace Arinc708Rx

def control (s : Arinc708Rx) : Arinc708Rx := { s with astWrd := 0, astWrdShift := 0 }

variable {s : Arinc708Rx} {line : Line} {ws : Nat → Word} {i o : Nat}

/-- The data do not matter for the control. -/
theorem control_clkEdge (s : Arinc708Rx) (line : Line) : (s.clkEdge inputFrequency line).control =
    (s.control.clkEdge inputFrequency line).control := by
  cases hs : s.currentStateRx <;> simp [control, clkEdge, comb, hs, jitterDet]

def controlStep (s : Arinc708Rx) (line : Line) : Arinc708Rx :=
  (s.clkEdge inputFrequency line).control

theorem control_run {lines lines' : Nat → Line} {n : Nat} (h : ∀ k < n, lines k = lines' k) :
    (trace (clkEdge inputFrequency) s lines n).control =
      trace controlStep s.control lines' n := by
  induction n with
  | zero => rfl
  | succ n ih =>
      rw [trace_succ, trace_succ, ← ih fun k hk => h k (by omega), ← h n (by omega),
        control_clkEdge]
      rfl

theorem control_rxComplPe (s : Arinc708Rx) (line : Line) :
    s.control.rxComplPe inputFrequency line = s.rxComplPe inputFrequency line := by
  cases hs : s.currentStateRx <;> simp [rxComplPe, control, comb, hs]

theorem control_eq (s : Arinc708Rx) : s.control =
    { s.detector with
      rstN := s.rstN
      bitCnt := s.bitCnt
      wrdCnt := s.wrdCnt
      astWrdValQ := s.astWrdValQ
      srcRxValid := s.srcRxValid
      rxErrPe := s.rxErrPe } := rfl

/-- The receiver waits for a frame, on a line that was null. -/
def Idle (s : Arinc708Rx) : Prop := s.control = reset true

theorem Idle.null (h : s.Idle) : (s.clkEdge inputFrequency .null).Idle := by
  unfold Idle at h ⊢
  rw [control_clkEdge, h]
  decide

/-! ## The start sync -/

/-- The line up to the cycle in which the first bit is fixed. -/
def startLine (b : Bool) (x : Nat) : Line :=
  if x < 93 then .level true
  else if x < 186 then .level false
  else .level (if x < 217 then b else !b)

def quiet (_ : Nat) (s : Arinc708Rx) (line : Line) : Bool :=
  !s.srcRxValid && !s.rxErrPe && !s.rxComplPe inputFrequency line

theorem startLine_checked :
    ∀ b, holdsAlong controlStep quiet (startLine b) 0 222 (reset true) = true := by
  decide +kernel

theorem startLine_end : ∀ b, trace controlStep (reset true) (startLine b) 222 = atFix b := by
  decide +kernel

/-! ## The end sync -/

/-- The control in the cycle in which the last bit is fixed. -/
def lastFix (b : Bool) : Arinc708Rx := { atFix b with bitCnt := 31, wrdCnt := 49 }

def tailLine (b : Bool) (o : Nat) : Line :=
  if o < 26 then .level (!b)
  else if o < 119 then .level false
  else if o < 212 then .level true
  else .null

def ends (o : Nat) (s : Arinc708Rx) (line : Line) : Bool :=
  (s.srcRxValid == decide (o = 2)) && !s.rxErrPe &&
    (s.rxComplPe inputFrequency line == decide (o = 280))

theorem tailLine_checked :
    ∀ b, holdsAlong controlStep ends (tailLine b) 0 282 (lastFix b) = true := by
  decide +kernel

theorem tailLine_end : ∀ b, trace controlStep (lastFix b) (tailLine b) 282 = reset true := by
  decide +kernel

/-! ## The frame -/

/-- The cycle of a frame in which bit `i` is fixed. -/
def fixAt (i : Nat) : Nat := 222 + 62 * i

/-- The cycle of a frame in which word `k` is valid. -/
def wordAt (k : Nat) : Nat := fixAt (32 * k + 31) + 2

def complAt : Nat := fixAt 1599 + 280

/-- The cycles after which the receiver waits for the next frame. -/
def receiveTime : Nat := fixAt 1599 + 282

def HasFrame (ws : Nat → Word) (lines : Nat → Line) : Prop :=
  ∀ x < receiveTime, lines x = if x < frameLength then frameLine ws x else .null

section Frame

variable {lines : Nat → Line} {x : Nat}

theorem HasFrame.bit (h : HasFrame ws lines) {r : Nat} (hi : i < 1600) (hr : r < 62) :
    lines (186 + 62 * i + r) = .level (if r < 31 then frameBit ws i else !frameBit ws i) := by
  rw [h _ (by unfold receiveTime fixAt; omega), if_pos (by unfold frameLength; omega),
    frameLine_bit ws hi hr]

theorem HasFrame.start (h : HasFrame ws lines) (hx : x < 222) :
    lines x = startLine (frameBit ws 0) x := by
  unfold startLine
  by_cases hsync : x < 186
  · rw [h x (by unfold receiveTime fixAt; omega), if_pos (by unfold frameLength; omega), frameLine,
      if_pos hsync, if_pos hsync]
  · obtain ⟨r, rfl⟩ : ∃ r, x = 186 + 62 * 0 + r := ⟨x - 186, by omega⟩
    have hhigh : ¬ 186 + 62 * 0 + r < 93 := by omega
    rw [h.bit (by omega) (by omega), if_neg hhigh, if_neg hsync]
    by_cases hhalf : r < 31
    · rw [if_pos hhalf, if_pos (by omega)]
    · rw [if_neg hhalf, if_neg (by omega)]

theorem HasFrame.cell (h : HasFrame ws lines) (hi : i < 1599) (ho : o < 62) :
    lines (fixAt i + o) = cellLine (frameBit ws i) (frameBit ws (i + 1)) o := by
  unfold cellLine fixAt
  by_cases hold : o < 26
  · rw [show 222 + 62 * i + o = 186 + 62 * i + (36 + o) by omega, h.bit (by omega) (by omega),
      if_neg (by omega), if_pos hold]
  · rw [show 222 + 62 * i + o = 186 + 62 * (i + 1) + (o - 26) by omega,
      h.bit (by omega) (by omega), if_neg hold]
    by_cases hhalf : o < 57
    · rw [if_pos (by omega), if_pos hhalf]
    · rw [if_neg (by omega), if_neg hhalf]

theorem HasFrame.tail (h : HasFrame ws lines) (ho : o < 282) :
    lines (fixAt 1599 + o) = tailLine (frameBit ws 1599) o := by
  unfold tailLine fixAt
  by_cases hold : o < 26
  · rw [show 222 + 62 * 1599 + o = 186 + 62 * 1599 + (36 + o) by omega,
      h.bit (by omega) (by omega), if_neg (by omega), if_pos hold]
  · rw [h _ (by unfold receiveTime fixAt; omega), if_neg hold]
    by_cases hin : o < 212
    · rw [if_pos (by unfold frameLength; omega)]
      unfold frameLine
      rw [if_neg (by omega), if_neg (by omega), if_neg (by omega)]
      by_cases hlow : o < 119
      · rw [if_pos (by omega), if_pos hlow]
      · rw [if_neg (by omega), if_neg hlow, if_pos hin]
    · rw [if_neg (by unfold frameLength; omega), if_neg (by omega), if_neg hin]

/-- The run of a receiver that waits, with a frame on its line. -/
structure Receives (ws : Nat → Word) (lines : Nat → Line) (s : Arinc708Rx) : Prop where
  idle : s.Idle
  frame : HasFrame ws lines

theorem Receives.first (h : Receives ws lines s) :
    AtFix ws 0 (trace (clkEdge inputFrequency) s lines (fixAt 0)) := by
  have hend : (trace (clkEdge inputFrequency) s lines (fixAt 0)).control =
      trace controlStep s.control (startLine (frameBit ws 0)) (fixAt 0) :=
    control_run fun k hk => h.frame.start hk
  rw [h.idle, show fixAt 0 = 222 from rfl, startLine_end] at hend
  rw [show fixAt 0 = 222 from rfl]
  generalize trace (clkEdge inputFrequency) s lines 222 = n at hend
  exact ⟨congrArg detector hend, congrArg rstN hend, congrArg bitCnt hend, congrArg wrdCnt hend,
    congrArg astWrdValQ hend, congrArg srcRxValid hend, congrArg rxErrPe hend,
    fun j hj => absurd hj (by omega)⟩

theorem Receives.cell_of_fix (h : Receives ws lines s) (hi : i < 1599)
    (hfix : AtFix ws i (trace (clkEdge inputFrequency) s lines (fixAt i))) (ho : o < 62) :
    InCell ws i (o + 1) (trace (clkEdge inputFrequency) s lines (fixAt i + (o + 1))) := by
  induction o with
  | zero => exact hfix.next (by omega) (h.frame.cell hi (by omega))
  | succ o ih => exact (ih (by omega)).next hi (by omega) (by omega) (h.frame.cell hi (by omega))

theorem Receives.fix (h : Receives ws lines s) (hi : i < 1600) :
    AtFix ws i (trace (clkEdge inputFrequency) s lines (fixAt i)) := by
  induction i with
  | zero => exact h.first
  | succ i ih => exact (h.cell_of_fix (by omega) (ih (by omega)) (o := 61) (by omega)).last

theorem Receives.cell (h : Receives ws lines s) (hi : i < 1599) (hpos : 0 < o) (ho : o ≤ 62) :
    InCell ws i o (trace (clkEdge inputFrequency) s lines (fixAt i + o)) := by
  obtain ⟨o, rfl⟩ : ∃ o', o = o' + 1 := ⟨o - 1, by omega⟩
  exact h.cell_of_fix hi (h.fix (by omega)) (by omega)

theorem Receives.tail (h : Receives ws lines s) (ho : o ≤ 282) :
    (trace (clkEdge inputFrequency) s lines (fixAt 1599 + o)).control =
      trace controlStep (lastFix (frameBit ws 1599)) (tailLine (frameBit ws 1599)) o := by
  have hfix := h.fix (i := 1599) (by omega)
  have hcontrol : (trace (clkEdge inputFrequency) s lines (fixAt 1599)).control =
      lastFix (frameBit ws 1599) := by
    rw [control_eq, hfix.detector, hfix.rstN, hfix.bit, hfix.wrd, hfix.valQ, hfix.valid,
      hfix.noError]
    rfl
  rw [trace_add, control_run fun k hk => h.frame.tail (show k < 282 by omega), hcontrol]

/-! ### The outputs -/

def strobes (s : Arinc708Rx) (line : Line) : Bool × Bool × Bool :=
  (s.srcRxValid, s.rxErrPe, s.rxComplPe inputFrequency line)

theorem control_strobes (s : Arinc708Rx) (line : Line) :
    s.control.strobes line = s.strobes line := by
  simp only [strobes, control_rxComplPe]
  rfl

theorem Idle.strobes (h : s.Idle) (line : Line) : s.strobes line = (false, false, false) := by
  rw [← control_strobes, h]
  rfl

theorem Receives.strobes_start (h : Receives ws lines s) (hx : x < 222) :
    (trace (clkEdge inputFrequency) s lines x).strobes (lines x) = (false, false, false) := by
  have hrun := control_run (s := s) fun k (hk : k < x) => h.frame.start (show k < 222 by omega)
  have hquiet := holdsAlong_trace (startLine_checked (frameBit ws 0)) hx
  rw [← control_strobes, hrun, h.idle, h.frame.start hx]
  simp only [quiet, Bool.and_eq_true, Bool.not_eq_true'] at hquiet
  simp only [strobes, hquiet]

theorem Receives.strobes_cell (h : Receives ws lines s) (hi : i < 1599) (ho : o < 62) :
    (trace (clkEdge inputFrequency) s lines (fixAt i + o)).strobes (lines (fixAt i + o)) =
      (decide (o = 2 ∧ i % 32 = 31), false, false) := by
  by_cases hpos : 0 < o
  · have hcell := h.cell hi hpos (by omega)
    have hstate := (cellRun_waits (frameBit ws i) (frameBit ws (i + 1)) hpos ho).1
    rw [← hcell.detector] at hstate
    change (trace (clkEdge inputFrequency) s lines (fixAt i + o)).currentStateRx = .waitEdge ∨
      (trace (clkEdge inputFrequency) s lines (fixAt i + o)).currentStateRx = .waitTimer at hstate
    rcases hstate with hs | hs
    · simp [strobes, hcell.valid, hcell.noError, rxComplPe, comb, hs]
    · simp [strobes, hcell.valid, hcell.noError, rxComplPe, comb, hs]
  · obtain rfl : o = 0 := by omega
    have hfix := h.fix (i := i) (by omega)
    rw [Nat.add_zero]
    simp [strobes, hfix.valid, hfix.noError, rxComplPe, comb, hfix.state]

theorem Receives.strobes_tail (h : Receives ws lines s) (ho : o < 282) :
    (trace (clkEdge inputFrequency) s lines (fixAt 1599 + o)).strobes (lines (fixAt 1599 + o)) =
      (decide (o = 2), false, decide (o = 280)) := by
  have hends := holdsAlong_trace (tailLine_checked (frameBit ws 1599)) ho
  rw [← control_strobes, h.tail (by omega), h.frame.tail ho]
  simp only [ends, Bool.and_eq_true, beq_iff_eq, Bool.not_eq_true'] at hends
  simp only [strobes, hends]

/-- A frame of the words `ws` is received: every word once and in its order, no error and
one completion; then the receiver waits again. -/
structure Received (ws : Nat → Word) (lines : Nat → Line) (run : Nat → Arinc708Rx) : Prop where
  valid : ∀ x < receiveTime, (run x).srcRxValid = true ↔ ∃ k < 50, x = wordAt k
  word : ∀ x, ∀ k < 50, x = wordAt k → (run x).astWrd = ws k
  noError : ∀ x < receiveTime, (run x).rxErrPe = false
  compl : ∀ x < receiveTime, (run x).rxComplPe inputFrequency (lines x) = true ↔ x = complAt
  idle : (run receiveTime).Idle

theorem wordAt_iff (hx : x < receiveTime) :
    (∃ k < 50, x = wordAt k) ↔ 224 ≤ x ∧ (x - 224) % 1984 = 1922 := by
  unfold receiveTime fixAt at hx
  unfold wordAt fixAt
  constructor
  · rintro ⟨k, hk, rfl⟩
    omega
  · intro h
    exact ⟨(x - 224) / 1984, by omega, by omega⟩

theorem Receives.strobes_eq (h : Receives ws lines s) (hx : x < receiveTime) :
    (trace (clkEdge inputFrequency) s lines x).strobes (lines x) =
      (decide (224 ≤ x ∧ (x - 224) % 1984 = 1922), false, decide (x = complAt)) := by
  unfold receiveTime at hx
  unfold complAt
  by_cases hstart : x < 222
  · have hbefore : x ≠ fixAt 1599 + 280 := by
      unfold fixAt
      omega
    rw [h.strobes_start hstart, decide_eq_false (by omega), decide_eq_false hbefore]
  · by_cases hcell : x < fixAt 1599
    · obtain ⟨i, o, hi, ho, rfl⟩ : ∃ i o, i < 1599 ∧ o < 62 ∧ x = fixAt i + o := by
        unfold fixAt at hcell ⊢
        exact ⟨(x - 222) / 62, (x - 222) % 62, by omega, by omega, by omega⟩
      rw [h.strobes_cell hi ho, decide_eq_false (show ¬ fixAt i + o = fixAt 1599 + 280 by omega)]
      congr 1
      apply decide_eq_decide.mpr
      unfold fixAt
      omega
    · obtain ⟨o, rfl⟩ : ∃ o, x = fixAt 1599 + o := ⟨x - fixAt 1599, by omega⟩
      rw [h.strobes_tail (by omega)]
      have hvalid : o = 2 ↔ 224 ≤ fixAt 1599 + o ∧ (fixAt 1599 + o - 224) % 1984 = 1922 := by
        unfold fixAt
        omega
      have hcompl : o = 280 ↔ fixAt 1599 + o = fixAt 1599 + 280 := by omega
      rw [decide_eq_decide.mpr hvalid, decide_eq_decide.mpr hcompl]

/-- A receiver that waits receives every frame. -/
theorem Receives.received (h : Receives ws lines s) :
    Received ws lines (trace (clkEdge inputFrequency) s lines) := by
  refine ⟨fun x hx => ?_, fun x k hk hx => ?_, fun x hx => ?_, fun x hx => ?_, ?_⟩
  · rw [wordAt_iff hx]
    exact Bool.eq_iff_iff.mp (congrArg Prod.fst (h.strobes_eq hx)) |>.trans decide_eq_true_iff
  · have hfix := h.fix (i := 32 * k + 31) (by omega)
    have hword := hfix.word (by omega) (lines (fixAt (32 * k + 31)))
      (lines (fixAt (32 * k + 31) + 1))
    rw [show (32 * k + 31) / 32 = k by omega] at hword
    rw [hx]
    exact hword
  · exact congrArg (fun o => o.2.1) (h.strobes_eq hx)
  · exact Bool.eq_iff_iff.mp (congrArg (fun o => o.2.2) (h.strobes_eq hx)) |>.trans
      decide_eq_true_iff
  · have htail := h.tail (Nat.le_refl 282)
    rwa [tailLine_end] at htail

end Frame

end Arinc708Rx

end Mfi.Arinc708
