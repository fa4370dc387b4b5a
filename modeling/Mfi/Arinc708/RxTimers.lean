import Mathlib.Data.Nat.Log
import Mathlib.Tactic.ByContra
import Mfi.Arinc708.Receiver
import Mfi.Core.Divider
import Mfi.Core.History
import Mfi.Core.Trace

/-!
# The timer of the receiver

Every state of the receiver that lasts for more than a cycle is left when the timer has a
certain value. The values come from the clock frequency, and so does the width of the
timer, which is the logarithm of one less than the bit time: there are frequencies for
which it is too narrow by one bit.
-/

namespace Mfi.Arinc708

open Core

/-- The width of `tmr_cnt`. -/
def tmrWidth (inAvsClk : Nat) : Nat := Nat.clog 2 (period inAvsClk - 1)

/-- `TIMER_CNT`. -/
def timerCnt (inAvsClk : Nat) : Nat := 3 * period inAvsClk / 4

namespace Arinc708Rx

/-- An edge with `rst_n` high, with the timer as wide as it is for the clock. -/
def clkEdgeAt (inAvsClk : Nat) (s : Arinc708Rx) (line : Line) : Arinc708Rx :=
  { s.clkEdge inAvsClk line with
    tmrCnt :=
      if (s.comb inAvsClk line).tmrCntEn then (s.tmrCnt + 1) % 2 ^ tmrWidth inAvsClk else 0 }

def stepAt (inAvsClk : Nat) (s : Arinc708Rx) (i : RxPins) : Arinc708Rx :=
  if s.rstN && i.en then s.clkEdgeAt inAvsClk i.line else .reset i.en

/-- The registers before cycle `n`. -/
def runAt (inAvsClk : Nat) (pins : Nat → RxPins) (n : Nat) : Arinc708Rx :=
  trace (stepAt inAvsClk) (.reset false) pins n

theorem stepAt_inputFrequency : stepAt inputFrequency = step inputFrequency := by
  have hwidth : 2 ^ tmrWidth inputFrequency = 64 := by decide
  funext s i
  unfold stepAt step clkEdgeAt
  rw [hwidth]
  rfl

/-! ## What the timer is meant to do -/

def awaits (inAvsClk : Nat) (s : Arinc708Rx) : Option Nat :=
  match s.currentStateRx with
  | .idle => none
  | .start => some (if s.bitCnt = 3 then period inAvsClk / 4 else period inAvsClk - 1)
  | .waitEdge => some (period inAvsClk - 1)
  | .fixBit => none
  | .waitTimer =>
      some (if s.wrdCnt = dataSize then period inAvsClk / 2 else timerCnt inAvsClk - 1)
  | .ending => if s.bitCnt = 4 then none else some (period inAvsClk - 1)

/-- The edge that `WAIT_EDGE` waits for. -/
def edge (s : Arinc708Rx) (line : Line) : Bool := (s.edgePos || s.edgeNeg) && !jitterDet line

/-- The state is left before its time, for the enable falls or the edge is there. -/
def cut (s : Arinc708Rx) (i : RxPins) : Bool :=
  !(s.rstN && i.en) || (decide (s.currentStateRx = .waitEdge) && s.edge i.line)

/-- The values fit the timer, a state goes on until the timer has the value or it is cut short, no
state goes on for ever, and the receiver gets back to `IDLE`. -/
structure TimersServe (inAvsClk : Nat) : Prop where
  fits : ∀ v ∈ [period inAvsClk - 1, period inAvsClk / 4, period inAvsClk / 2,
    timerCnt inAvsClk - 1], v < 2 ^ tmrWidth inAvsClk
  reaches : ∀ (pins : Nat → RxPins) (n v : Nat), (runAt inAvsClk pins n).awaits inAvsClk = some v →
    ∃ m, (∀ j ≤ m, (runAt inAvsClk pins (n + j)).currentStateRx =
        (runAt inAvsClk pins n).currentStateRx) ∧
      ((runAt inAvsClk pins (n + m)).tmrCnt = v ∨
        (runAt inAvsClk pins (n + m)).cut (pins (n + m)) = true)
  leaves : ∃ bound, ∀ (pins : Nat → RxPins) (n : Nat),
    (runAt inAvsClk pins n).currentStateRx ≠ .idle →
      ∃ m ≤ bound, (runAt inAvsClk pins (n + m)).currentStateRx ≠
        (runAt inAvsClk pins n).currentStateRx
  returns : ∀ (pins : Nat → RxPins) (n : Nat),
    (runAt inAvsClk pins n).currentStateRx ≠ .idle →
      ∃ m, (runAt inAvsClk pins (n + m)).currentStateRx = .idle

/-! ## One edge -/

section Edge

variable {f : Nat} {s : Arinc708Rx} (line : Line)

theorem awaits_next {v : Nat} (hP : 8 ≤ period f) (hv : s.awaits f = some v)
    (hless : s.tmrCnt < v)
    (hedge : s.currentStateRx = .waitEdge → s.edge line = false) :
    (s.clkEdgeAt f line).currentStateRx = s.currentStateRx ∧
      (s.clkEdgeAt f line).bitCnt = s.bitCnt ∧ (s.clkEdgeAt f line).wrdCnt = s.wrdCnt ∧
      (s.clkEdgeAt f line).tmrCnt = (s.tmrCnt + 1) % 2 ^ tmrWidth f := by
  unfold awaits timerCnt at hv
  cases hs : s.currentStateRx with
  | idle =>
      rw [hs] at hv
      cases hv
  | start =>
      rw [hs] at hv
      have hvalue := Option.some.inj hv
      have hfull : s.tmrCnt ≠ period f - 1 := by
        split at hvalue <;> omega
      have hgo : ¬ (s.bitCnt = 3 ∧ s.tmrCnt = period f / 4) := by
        split at hvalue <;> omega
      simp [clkEdgeAt, clkEdge, comb, hs, hfull, hgo]
  | waitEdge =>
      rw [hs] at hv
      have hvalue := Option.some.inj hv
      have hfull : s.tmrCnt ≠ period f - 1 := by omega
      have hquiet := hedge hs
      unfold edge at hquiet
      simp [clkEdgeAt, clkEdge, comb, hs, hfull, hquiet]
  | fixBit =>
      rw [hs] at hv
      cases hv
  | waitTimer =>
      rw [hs] at hv
      have hvalue := Option.some.inj hv
      have hlast : ¬ (s.wrdCnt = dataSize ∧ s.tmrCnt = period f / 2) := by
        split at hvalue <;> omega
      have hnext : s.tmrCnt ≠ 3 * period f / 4 - 1 := by
        split at hvalue <;> omega
      simp [clkEdgeAt, clkEdge, comb, hs, hlast, hnext]
  | ending =>
      rw [hs] at hv
      dsimp only at hv
      split at hv
      · cases hv
      · next hbit =>
          have hvalue := Option.some.inj hv
          have hfull : s.tmrCnt ≠ period f - 1 := by omega
          simp [clkEdgeAt, clkEdge, comb, hs, hfull, hbit]

theorem idle_next (hs : s.currentStateRx = .idle)
    (hstart : (s.clkEdgeAt f line).currentStateRx ≠ .idle) :
    (s.clkEdgeAt f line).currentStateRx = .start ∧ (s.clkEdgeAt f line).bitCnt = 0 ∧
      (s.clkEdgeAt f line).wrdCnt = 0 ∧ (s.clkEdgeAt f line).tmrCnt = 0 := by
  have hnext : (s.clkEdgeAt f line).currentStateRx =
      if s.edgePos && !jitterDet line then .start else .idle := by
    simp only [clkEdgeAt, clkEdge, comb, hs]
  constructor
  · by_cases hseen : (s.edgePos && !jitterDet line) = true
    · rw [hnext, if_pos hseen]
    · rw [hnext, if_neg hseen] at hstart
      exact absurd rfl hstart
  · simp [clkEdgeAt, clkEdge, comb, hs]

theorem start_bit (hP : 8 ≤ period f) (hs : s.currentStateRx = .start)
    (hfull : s.tmrCnt = period f - 1) :
    (s.clkEdgeAt f line).currentStateRx = .start ∧
      (s.clkEdgeAt f line).bitCnt = (s.bitCnt + 1) % 32 ∧
      (s.clkEdgeAt f line).wrdCnt = s.wrdCnt ∧ (s.clkEdgeAt f line).tmrCnt = 0 := by
  have hgo : ¬ period f - 1 = period f / 4 := by omega
  simp [clkEdgeAt, clkEdge, comb, hs, hfull, hgo]

/-- The timer is not cleared on the way from `START` to `WAIT_EDGE`. -/
theorem start_end (hP : 8 ≤ period f) (hs : s.currentStateRx = .start) (hbit : s.bitCnt = 3)
    (hgo : s.tmrCnt = period f / 4) :
    (s.clkEdgeAt f line).currentStateRx = .waitEdge ∧ (s.clkEdgeAt f line).bitCnt = 0 ∧
      (s.clkEdgeAt f line).wrdCnt = s.wrdCnt ∧
      (s.clkEdgeAt f line).tmrCnt = (s.tmrCnt + 1) % 2 ^ tmrWidth f := by
  have hfull : ¬ period f / 4 = period f - 1 := by omega
  simp [clkEdgeAt, clkEdge, comb, hs, hbit, hgo, hfull]

theorem waitEdge_end (hs : s.currentStateRx = .waitEdge)
    (hend : s.edge line = true ∨ s.tmrCnt = period f - 1) :
    (s.clkEdgeAt f line).currentStateRx = .fixBit ∧
      (s.clkEdgeAt f line).bitCnt = s.bitCnt ∧ (s.clkEdgeAt f line).wrdCnt = s.wrdCnt ∧
      (s.clkEdgeAt f line).tmrCnt = 0 := by
  unfold edge at hend
  cases hseen : (s.edgePos || s.edgeNeg) && !jitterDet line with
  | true => simp [clkEdgeAt, clkEdge, comb, hs, hseen]
  | false =>
      have hfull : s.tmrCnt = period f - 1 := hend.resolve_left (by rw [hseen]; decide)
      simp [clkEdgeAt, clkEdge, comb, hs, hseen, hfull]

theorem fixBit_end (hs : s.currentStateRx = .fixBit) :
    (s.clkEdgeAt f line).currentStateRx = .waitTimer ∧
      (s.clkEdgeAt f line).bitCnt = (s.bitCnt + 1) % 32 ∧
      (s.clkEdgeAt f line).wrdCnt =
        (if s.bitCnt = 31 then (s.wrdCnt + 1) % 64 else s.wrdCnt) ∧
      (s.clkEdgeAt f line).tmrCnt = (s.tmrCnt + 1) % 2 ^ tmrWidth f := by
  simp [clkEdgeAt, clkEdge, comb, hs]

theorem waitTimer_last (hs : s.currentStateRx = .waitTimer) (hwrd : s.wrdCnt = dataSize)
    (hhalf : s.tmrCnt = period f / 2) :
    (s.clkEdgeAt f line).currentStateRx = .ending ∧ (s.clkEdgeAt f line).bitCnt = 0 ∧
      (s.clkEdgeAt f line).tmrCnt = 0 := by
  simp [clkEdgeAt, clkEdge, comb, hs, hwrd, hhalf]

theorem waitTimer_next (hs : s.currentStateRx = .waitTimer) (hwrd : s.wrdCnt ≠ dataSize)
    (hnext : s.tmrCnt = timerCnt f - 1) :
    (s.clkEdgeAt f line).currentStateRx = .waitEdge ∧
      (s.clkEdgeAt f line).bitCnt = s.bitCnt ∧ (s.clkEdgeAt f line).wrdCnt = s.wrdCnt ∧
      (s.clkEdgeAt f line).tmrCnt = 0 := by
  unfold timerCnt at hnext
  simp [clkEdgeAt, clkEdge, comb, hs, hwrd, hnext]

theorem ending_bit (hs : s.currentStateRx = .ending) (hbit : s.bitCnt ≠ 4)
    (hfull : s.tmrCnt = period f - 1) :
    (s.clkEdgeAt f line).currentStateRx = .ending ∧
      (s.clkEdgeAt f line).bitCnt = (s.bitCnt + 1) % 32 ∧
      (s.clkEdgeAt f line).tmrCnt = 0 := by
  simp [clkEdgeAt, clkEdge, comb, hs, hbit, hfull]

theorem ending_end (hs : s.currentStateRx = .ending) (hbit : s.bitCnt = 4) :
    (s.clkEdgeAt f line).currentStateRx = .idle := by
  simp [clkEdgeAt, clkEdge, comb, hs, hbit]

end Edge

/-! ## What is left to do -/

def bitsLeft (s : Arinc708Rx) : Nat := 1600 - (32 * s.wrdCnt + s.bitCnt)

/-- A bound on the cycles that the present state still lasts. -/
def stay (f : Nat) (s : Arinc708Rx) : Nat :=
  match s.currentStateRx with
  | .idle => 0
  | .start => 4 * period f - (s.bitCnt * period f + s.tmrCnt)
  | .waitEdge => period f - s.tmrCnt
  | .fixBit => 1
  | .waitTimer => period f - s.tmrCnt
  | .ending => 5 * period f - (s.bitCnt * period f + s.tmrCnt)

/-- A bound on the cycles from the end of the present state on: each bit takes at most three bit
times, with an edge that comes late or not at all. -/
def later (f : Nat) (s : Arinc708Rx) : Nat :=
  match s.currentStateRx with
  | .idle => 0
  | .start => 3 * period f * 1600 + 5 * period f
  | .waitEdge => 3 * period f * s.bitsLeft + 4 * period f
  | .fixBit => 3 * period f * s.bitsLeft + 3 * period f
  | .waitTimer => 3 * period f * s.bitsLeft + 5 * period f
  | .ending => 0

def InRange (f : Nat) (s : Arinc708Rx) : Prop :=
  match s.currentStateRx with
  | .idle => True
  | .start => s.bitCnt ≤ 3 ∧ s.wrdCnt = 0
  | .waitEdge => s.bitCnt < 32 ∧ s.wrdCnt < dataSize
  | .fixBit => s.bitCnt < 32 ∧ s.wrdCnt < dataSize ∧ s.tmrCnt = 0
  | .waitTimer => s.bitCnt < 32 ∧ (s.wrdCnt < dataSize ∨ s.wrdCnt = dataSize ∧ s.bitCnt = 0)
  | .ending => s.bitCnt ≤ 4 ∧ s.tmrCnt < period f

/-- The timer has not passed the value that is waited for. -/
structure InTime (f : Nat) (s : Arinc708Rx) : Prop where
  timer : ∀ v, s.awaits f = some v → s.tmrCnt ≤ v
  range : s.InRange f

section Falls

variable {f : Nat} {s t : Arinc708Rx} {line : Line}

/-- A step within the time: what is left gets less, and so does what is left of the state. -/
structure Falls (f : Nat) (s t : Arinc708Rx) : Prop where
  inTime : t.InTime f
  total : t.later f + t.stay f < s.later f + s.stay f
  here : t.currentStateRx = s.currentStateRx → t.stay f < s.stay f

theorem InTime.of_start (hs : s.currentStateRx = .start) (hbit : s.bitCnt ≤ 3)
    (hwrd : s.wrdCnt = 0) (htmr : s.tmrCnt = 0) : s.InTime f := by
  constructor
  · intro v _
    rw [htmr]
    exact Nat.zero_le v
  · unfold InRange
    rw [hs]
    exact ⟨hbit, hwrd⟩

theorem InTime.of_waitEdge (hs : s.currentStateRx = .waitEdge) (hbit : s.bitCnt < 32)
    (hwrd : s.wrdCnt < dataSize) (htmr : s.tmrCnt ≤ period f - 1) : s.InTime f := by
  constructor
  · intro v hv
    unfold awaits at hv
    rw [hs] at hv
    cases hv
    exact htmr
  · unfold InRange
    rw [hs]
    exact ⟨hbit, hwrd⟩

theorem InTime.of_waitTimer (hP : 8 ≤ period f) (hs : s.currentStateRx = .waitTimer)
    (hbit : s.bitCnt < 32)
    (hwrd : s.wrdCnt < dataSize ∨ s.wrdCnt = dataSize ∧ s.bitCnt = 0) (htmr : s.tmrCnt = 1) :
    s.InTime f := by
  constructor
  · intro v hv
    unfold awaits timerCnt at hv
    rw [hs] at hv
    have hvalue := Option.some.inj hv
    rw [htmr]
    split at hvalue <;> omega
  · unfold InRange
    rw [hs]
    exact ⟨hbit, hwrd⟩

theorem InTime.of_ending (hP : 8 ≤ period f) (hs : s.currentStateRx = .ending)
    (hbit : s.bitCnt ≤ 4) (htmr : s.tmrCnt = 0) : s.InTime f := by
  constructor
  · intro v _
    rw [htmr]
    exact Nat.zero_le v
  · unfold InRange
    rw [hs]
    exact ⟨hbit, by omega⟩

theorem InTime.of_idle (hs : s.currentStateRx = .idle) : s.InTime f := by
  constructor
  · intro v hv
    unfold awaits at hv
    rw [hs] at hv
    cases hv
  · unfold InRange
    rw [hs]
    trivial

/-- No value that is waited for is a whole bit time. -/
theorem awaits_lt (hP : 8 ≤ period f) {v : Nat} (hv : s.awaits f = some v) : v < period f := by
  unfold awaits timerCnt at hv
  cases hs : s.currentStateRx <;> rw [hs] at hv <;> dsimp only at hv
  · cases hv
  · have hvalue := Option.some.inj hv
    split at hvalue <;> omega
  · have hvalue := Option.some.inj hv
    omega
  · cases hv
  · have hvalue := Option.some.inj hv
    split at hvalue <;> omega
  · split at hv
    · cases hv
    · have hvalue := Option.some.inj hv
      omega

theorem Falls.of_tick {v : Nat} (hP : 8 ≤ period f) (h : s.InTime f) (hv : s.awaits f = some v)
    (hless : s.tmrCnt < v) (hstate : t.currentStateRx = s.currentStateRx)
    (hbit : t.bitCnt = s.bitCnt) (hwrd : t.wrdCnt = s.wrdCnt)
    (htmr : t.tmrCnt = s.tmrCnt + 1) : s.Falls f t := by
  have hlt := awaits_lt hP hv
  have hawaits : t.awaits f = s.awaits f := by
    unfold awaits
    rw [hstate, hbit, hwrd]
  have hlater : t.later f = s.later f := by
    unfold later bitsLeft
    rw [hstate, hbit, hwrd]
  have hrange := h.range
  have hstay : t.stay f + 1 = s.stay f ∧ t.InRange f := by
    unfold awaits at hv
    unfold stay InRange
    unfold InRange at hrange
    rw [hstate, hbit, hwrd, htmr]
    cases hs : s.currentStateRx <;> rw [hs] at hrange hv <;> dsimp only at hrange hv ⊢
    · cases hv
    · have hmul : s.bitCnt * period f ≤ 3 * period f := Nat.mul_le_mul_right _ hrange.1
      exact ⟨by omega, hrange⟩
    · exact ⟨by omega, hrange⟩
    · cases hv
    · exact ⟨by omega, hrange⟩
    · have hmul : s.bitCnt * period f ≤ 4 * period f := Nat.mul_le_mul_right _ hrange.1
      exact ⟨by omega, hrange.1, by omega⟩
  constructor
  · constructor
    · intro u hu
      rw [hawaits, hv] at hu
      cases hu
      omega
    · exact hstay.2
  · omega
  · intro _
    omega

theorem Falls.of_change (hinTime : t.InTime f) (hstate : t.currentStateRx ≠ s.currentStateRx)
    (htotal : t.later f + t.stay f < s.later f + s.stay f) : s.Falls f t :=
  { inTime := hinTime, total := htotal, here := fun hsame => absurd hsame hstate }

theorem InTime.tmrCnt_lt (hP : 8 ≤ period f) (h : s.InTime f) (hs : s.currentStateRx ≠ .idle) :
    s.tmrCnt < period f := by
  have hrange := h.range
  cases hv : s.awaits f with
  | some v =>
      have hle := h.timer v hv
      have hlt := awaits_lt hP hv
      omega
  | none =>
      unfold awaits at hv
      unfold InRange at hrange
      cases hstate : s.currentStateRx <;> rw [hstate] at hrange hv <;> dsimp only at hrange hv
      · exact absurd hstate hs
      · cases hv
      · cases hv
      · omega
      · cases hv
      · exact hrange.2

theorem InTime.stay_pos (hP : 8 ≤ period f) (h : s.InTime f) (hs : s.currentStateRx ≠ .idle) :
    0 < s.stay f := by
  have hrange := h.range
  have hlt := h.tmrCnt_lt hP hs
  unfold InRange at hrange
  unfold stay
  cases hstate : s.currentStateRx <;> rw [hstate] at hrange <;> dsimp only at hrange ⊢
  · exact absurd hstate hs
  · have hmul : s.bitCnt * period f ≤ 3 * period f := Nat.mul_le_mul_right _ hrange.1
    omega
  · omega
  · omega
  · omega
  · have hmul : s.bitCnt * period f ≤ 4 * period f := Nat.mul_le_mul_right _ hrange.1
    omega

theorem Falls.of_idle (hP : 8 ≤ period f) (h : s.InTime f) (hs : s.currentStateRx ≠ .idle)
    (hidle : t.currentStateRx = .idle) : s.Falls f t := by
  have hpos := h.stay_pos hP hs
  have hzero : t.later f + t.stay f = 0 := by
    simp only [later, stay, hidle]
  apply Falls.of_change (InTime.of_idle hidle)
  · intro hsame
    rw [hidle] at hsame
    exact hs hsame.symm
  · omega

theorem Falls.of_bit (limit : Nat) (hinTime : t.InTime f) (hlater : t.later f = s.later f)
    (hs : s.stay f = limit * period f - (s.bitCnt * period f + (period f - 1)))
    (ht : t.stay f = limit * period f - ((s.bitCnt + 1) * period f + 0))
    (hbit : s.bitCnt + 1 ≤ limit) (hP : 8 ≤ period f) : s.Falls f t := by
  have hmul : (s.bitCnt + 1) * period f ≤ limit * period f := Nat.mul_le_mul_right _ hbit
  have hsucc : (s.bitCnt + 1) * period f = s.bitCnt * period f + period f := Nat.succ_mul _ _
  constructor
  · exact hinTime
  · omega
  · intro _
    omega

theorem falls_tick {v : Nat} (hP : 8 ≤ period f) (hwidth : period f - 1 < 2 ^ tmrWidth f)
    (h : s.InTime f) (hv : s.awaits f = some v) (hless : s.tmrCnt < v)
    (hedge : s.currentStateRx = .waitEdge → s.edge line = false) :
    s.Falls f (s.clkEdgeAt f line) := by
  have hlt := awaits_lt hP hv
  have hnext := awaits_next line hP hv hless hedge
  apply Falls.of_tick hP h hv hless hnext.1 hnext.2.1 hnext.2.2.1
  rw [hnext.2.2.2, Nat.mod_eq_of_lt (by omega)]

theorem falls_start (hP : 8 ≤ period f) (hwidth : period f - 1 < 2 ^ tmrWidth f)
    (h : s.InTime f) (hs : s.currentStateRx = .start) : s.Falls f (s.clkEdgeAt f line) := by
  have hrange := h.range
  have hedge : s.currentStateRx = .waitEdge → s.edge line = false := by
    simp [hs]
  unfold InRange at hrange
  rw [hs] at hrange
  by_cases hbit : s.bitCnt = 3
  · have hv : s.awaits f = some (period f / 4) := by
      simp only [awaits, hs, if_pos hbit]
    rcases Nat.lt_or_eq_of_le (h.timer _ hv) with hless | hgo
    · exact falls_tick hP hwidth h hv hless hedge
    · have hnext := start_end line hP hs hbit hgo
      have hwrd : (s.clkEdgeAt f line).wrdCnt = 0 := hnext.2.2.1.trans hrange.2
      have htmr : (s.clkEdgeAt f line).tmrCnt = s.tmrCnt + 1 := by
        rw [hnext.2.2.2, Nat.mod_eq_of_lt (by omega)]
      apply Falls.of_change
      · apply InTime.of_waitEdge hnext.1
        · omega
        · rw [hwrd]
          exact Nat.succ_pos 49
        · omega
      · simp [hnext.1, hs]
      · simp only [later, stay, bitsLeft, hnext.1, hs, hnext.2.1, hwrd, htmr, hbit]
        omega
  · have hv : s.awaits f = some (period f - 1) := by
      simp only [awaits, hs, if_neg hbit]
    rcases Nat.lt_or_eq_of_le (h.timer _ hv) with hless | hfull
    · exact falls_tick hP hwidth h hv hless hedge
    · have hnext := start_bit line hP hs hfull
      have hbit' : (s.clkEdgeAt f line).bitCnt = s.bitCnt + 1 := by
        rw [hnext.2.1, Nat.mod_eq_of_lt (by omega)]
      apply Falls.of_bit 4
      · apply InTime.of_start hnext.1
        · omega
        · exact hnext.2.2.1.trans hrange.2
        · exact hnext.2.2.2
      · simp only [later, hnext.1, hs]
      · simp only [stay, hs, hfull]
      · simp only [stay, hnext.1, hbit', hnext.2.2.2]
      · omega
      · exact hP

theorem falls_waitEdge (hP : 8 ≤ period f) (hwidth : period f - 1 < 2 ^ tmrWidth f)
    (h : s.InTime f) (hs : s.currentStateRx = .waitEdge) : s.Falls f (s.clkEdgeAt f line) := by
  have hrange := h.range
  have hpos := h.stay_pos hP (by simp [hs])
  unfold InRange at hrange
  rw [hs] at hrange
  have hv : s.awaits f = some (period f - 1) := by
    simp only [awaits, hs]
  by_cases hend : s.edge line = true ∨ s.tmrCnt = period f - 1
  · have hnext := waitEdge_end line hs hend
    apply Falls.of_change
    · constructor
      · intro v _
        rw [hnext.2.2.2]
        exact Nat.zero_le v
      · simp only [InRange, hnext.1, hnext.2.1, hnext.2.2.1, hnext.2.2.2]
        exact ⟨hrange.1, hrange.2, trivial⟩
    · simp [hnext.1, hs]
    · simp only [later, stay, bitsLeft, hnext.1, hs, hnext.2.1, hnext.2.2.1] at hpos ⊢
      omega
  · have hle := h.timer _ hv
    apply falls_tick hP hwidth h hv (by omega)
    intro _
    exact Bool.eq_false_of_not_eq_true fun hseen => hend (Or.inl hseen)

theorem falls_fixBit (hP : 8 ≤ period f) (hwidth : period f - 1 < 2 ^ tmrWidth f)
    (h : s.InTime f) (hs : s.currentStateRx = .fixBit) : s.Falls f (s.clkEdgeAt f line) := by
  have hrange := h.range
  have hsize : dataSize = 50 := rfl
  unfold InRange at hrange
  rw [hs] at hrange
  have hnext := fixBit_end (f := f) line hs
  have htmr : (s.clkEdgeAt f line).tmrCnt = 1 := by
    rw [hnext.2.2.2, hrange.2.2, Nat.zero_add, Nat.mod_eq_of_lt (by omega)]
  have hleft : s.bitsLeft = (s.clkEdgeAt f line).bitsLeft + 1 ∧
      (s.clkEdgeAt f line).bitCnt < 32 ∧
      ((s.clkEdgeAt f line).wrdCnt < dataSize ∨
        (s.clkEdgeAt f line).wrdCnt = dataSize ∧ (s.clkEdgeAt f line).bitCnt = 0) := by
    unfold bitsLeft
    rw [hnext.2.1, hnext.2.2.1]
    split <;> omega
  have hmul : 3 * period f * s.bitsLeft =
      3 * period f * (s.clkEdgeAt f line).bitsLeft + 3 * period f := by
    rw [hleft.1, Nat.mul_succ]
  apply Falls.of_change
  · exact InTime.of_waitTimer hP hnext.1 hleft.2.1 hleft.2.2 htmr
  · simp [hnext.1, hs]
  · simp only [later, stay, hnext.1, hs, htmr]
    omega

theorem falls_waitTimer (hP : 8 ≤ period f) (hwidth : period f - 1 < 2 ^ tmrWidth f)
    (h : s.InTime f) (hs : s.currentStateRx = .waitTimer) :
    s.Falls f (s.clkEdgeAt f line) := by
  have hrange := h.range
  have hpos := h.stay_pos hP (by simp [hs])
  have hedge : s.currentStateRx = .waitEdge → s.edge line = false := by
    simp [hs]
  unfold InRange at hrange
  rw [hs] at hrange
  by_cases hwrd : s.wrdCnt = dataSize
  · have hv : s.awaits f = some (period f / 2) := by
      simp only [awaits, hs, if_pos hwrd]
    rcases Nat.lt_or_eq_of_le (h.timer _ hv) with hless | hhalf
    · exact falls_tick hP hwidth h hv hless hedge
    · have hnext := waitTimer_last line hs hwrd hhalf
      apply Falls.of_change
      · exact InTime.of_ending hP hnext.1 (by omega) hnext.2.2
      · simp [hnext.1, hs]
      · simp only [later, stay, hnext.1, hs, hnext.2.1, hnext.2.2] at hpos ⊢
        omega
  · have hv : s.awaits f = some (timerCnt f - 1) := by
      simp only [awaits, hs, if_neg hwrd]
    rcases Nat.lt_or_eq_of_le (h.timer _ hv) with hless | hend
    · exact falls_tick hP hwidth h hv hless hedge
    · have hnext := waitTimer_next line hs hwrd hend
      apply Falls.of_change
      · apply InTime.of_waitEdge hnext.1
        · omega
        · omega
        · omega
      · simp [hnext.1, hs]
      · simp only [later, stay, bitsLeft, hnext.1, hs, hnext.2.1, hnext.2.2.1,
          hnext.2.2.2] at hpos ⊢
        omega

theorem falls_ending (hP : 8 ≤ period f) (hwidth : period f - 1 < 2 ^ tmrWidth f)
    (h : s.InTime f) (hs : s.currentStateRx = .ending) : s.Falls f (s.clkEdgeAt f line) := by
  have hrange := h.range
  have hedge : s.currentStateRx = .waitEdge → s.edge line = false := by
    simp [hs]
  unfold InRange at hrange
  rw [hs] at hrange
  by_cases hbit : s.bitCnt = 4
  · exact Falls.of_idle hP h (by simp [hs]) (ending_end line hs hbit)
  · have hv : s.awaits f = some (period f - 1) := by
      simp only [awaits, hs, if_neg hbit]
    rcases Nat.lt_or_eq_of_le (h.timer _ hv) with hless | hfull
    · exact falls_tick hP hwidth h hv hless hedge
    · have hnext := ending_bit line hs hbit hfull
      have hbit' : (s.clkEdgeAt f line).bitCnt = s.bitCnt + 1 := by
        rw [hnext.2.1, Nat.mod_eq_of_lt (by omega)]
      apply Falls.of_bit 5
      · exact InTime.of_ending hP hnext.1 (by omega) hnext.2.2
      · simp only [later, hnext.1, hs]
      · simp only [stay, hs, hfull]
      · simp only [stay, hnext.1, hbit', hnext.2.2]
      · omega
      · exact hP

/-- Every cycle out of `IDLE` brings the receiver nearer to it. -/
theorem falls_step (hP : 8 ≤ period f) (hwidth : period f - 1 < 2 ^ tmrWidth f)
    (h : s.InTime f) (hs : s.currentStateRx ≠ .idle) (i : RxPins) : s.Falls f (s.stepAt f i) := by
  unfold stepAt
  split
  · cases hstate : s.currentStateRx with
    | idle => exact absurd hstate hs
    | start => exact falls_start hP hwidth h hstate
    | waitEdge => exact falls_waitEdge hP hwidth h hstate
    | fixBit => exact falls_fixBit hP hwidth h hstate
    | waitTimer => exact falls_waitTimer hP hwidth h hstate
    | ending => exact falls_ending hP hwidth h hstate
  · exact Falls.of_idle hP h hs rfl

theorem inTime_step (hP : 8 ≤ period f) (hwidth : period f - 1 < 2 ^ tmrWidth f)
    (h : s.InTime f) (i : RxPins) : (s.stepAt f i).InTime f := by
  by_cases hs : s.currentStateRx = .idle
  · unfold stepAt
    split
    · by_cases hnext : (s.clkEdgeAt f i.line).currentStateRx = .idle
      · exact InTime.of_idle hnext
      · have hstart := idle_next i.line hs hnext
        apply InTime.of_start hstart.1
        · omega
        · exact hstart.2.2.1
        · exact hstart.2.2.2
    · exact InTime.of_idle rfl
  · exact (falls_step hP hwidth h hs i).inTime

end Falls

/-! ## Along a run -/

section Run

variable {f : Nat} {pins : Nat → RxPins}

theorem runAt_succ (n : Nat) : runAt f pins (n + 1) = (runAt f pins n).stepAt f (pins n) := rfl

theorem inTime_run (hP : 8 ≤ period f) (hwidth : period f - 1 < 2 ^ tmrWidth f) (n : Nat) :
    (runAt f pins n).InTime f := by
  induction n with
  | zero => exact InTime.of_idle rfl
  | succ n ih => exact inTime_step hP hwidth ih (pins n)

theorem run_returns (hP : 8 ≤ period f) (hwidth : period f - 1 < 2 ^ tmrWidth f) (n : Nat) :
    ∃ m ≥ n, (runAt f pins m).currentStateRx = .idle := by
  apply exists_of_rank fun k => (runAt f pins k).later f + (runAt f pins k).stay f
  intro k _ hk
  exact (falls_step hP hwidth (inTime_run hP hwidth k) hk (pins k)).total

theorem stay_le (s : Arinc708Rx) : s.stay f ≤ 5 * period f + 1 := by
  unfold stay
  cases s.currentStateRx <;> dsimp only <;> omega

theorem run_leaves (hP : 8 ≤ period f) (hwidth : period f - 1 < 2 ^ tmrWidth f) {n : Nat}
    (hn : (runAt f pins n).currentStateRx ≠ .idle) :
    ∃ m ≤ 5 * period f + 2,
      (runAt f pins (n + m)).currentStateRx ≠ (runAt f pins n).currentStateRx := by
  have hstep : ∀ k, (runAt f pins k).currentStateRx = (runAt f pins n).currentStateRx →
      (runAt f pins (k + 1)).currentStateRx ≠ (runAt f pins n).currentStateRx ∨
      ((runAt f pins (k + 1)).currentStateRx = (runAt f pins n).currentStateRx ∧
        (runAt f pins (k + 1)).stay f < (runAt f pins k).stay f) := by
    intro k hk
    have hfalls := falls_step hP hwidth (inTime_run hP hwidth k) (by rw [hk]; exact hn) (pins k)
    by_cases hsame : (runAt f pins (k + 1)).currentStateRx = (runAt f pins n).currentStateRx
    · exact Or.inr ⟨hsame, hfalls.here (hsame.trans hk.symm)⟩
    · exact Or.inl hsame
  obtain ⟨k, hk, hle, hleft⟩ := leads_within (fun k => (runAt f pins k).stay f) hstep rfl
  have hbound := stay_le (f := f) (runAt f pins n)
  apply Exists.intro (k + 1 - n)
  constructor
  · omega
  · rwa [show n + (k + 1 - n) = k + 1 by omega]

theorem awaits_step (hP : 8 ≤ period f) (hwidth : period f - 1 < 2 ^ tmrWidth f) {k v : Nat}
    (hv : (runAt f pins k).awaits f = some v) (hne : (runAt f pins k).tmrCnt ≠ v)
    (hcut : (runAt f pins k).cut (pins k) = false) :
    (runAt f pins (k + 1)).currentStateRx = (runAt f pins k).currentStateRx ∧
      (runAt f pins (k + 1)).awaits f = some v ∧
      v - (runAt f pins (k + 1)).tmrCnt < v - (runAt f pins k).tmrCnt := by
  have hle : (runAt f pins k).tmrCnt ≤ v := (inTime_run hP hwidth k).timer v hv
  have hlt := awaits_lt hP hv
  unfold cut at hcut
  rw [Bool.or_eq_false_iff, Bool.not_eq_false'] at hcut
  have hedge : (runAt f pins k).currentStateRx = .waitEdge →
      (runAt f pins k).edge (pins k).line = false := by
    intro hstate
    have hquiet := hcut.2
    rw [decide_eq_true hstate, Bool.true_and] at hquiet
    exact hquiet
  have hstep : runAt f pins (k + 1) = (runAt f pins k).clkEdgeAt f (pins k).line := by
    rw [runAt_succ, stepAt, if_pos hcut.1]
  have hnext := awaits_next (pins k).line hP hv (by omega) hedge
  rw [← hstep] at hnext
  have hawaits : (runAt f pins (k + 1)).awaits f = (runAt f pins k).awaits f := by
    unfold awaits
    rw [hnext.1, hnext.2.1, hnext.2.2.1]
  constructor
  · exact hnext.1
  constructor
  · rw [hawaits, hv]
  · rw [hnext.2.2.2, Nat.mod_eq_of_lt (by omega)]
    omega

theorem run_reaches (hP : 8 ≤ period f) (hwidth : period f - 1 < 2 ^ tmrWidth f) {n v : Nat}
    (hv : (runAt f pins n).awaits f = some v) :
    ∃ m, (∀ j ≤ m, (runAt f pins (n + j)).currentStateRx = (runAt f pins n).currentStateRx) ∧
      ((runAt f pins (n + m)).tmrCnt = v ∨
        (runAt f pins (n + m)).cut (pins (n + m)) = true) := by
  let waits := fun k => (∀ j ≤ k, (runAt f pins (n + j)).currentStateRx =
    (runAt f pins n).currentStateRx) ∧ (runAt f pins (n + k)).awaits f = some v
  have hstep : ∀ k, waits k →
      (waits k ∧ ((runAt f pins (n + k)).tmrCnt = v ∨
        (runAt f pins (n + k)).cut (pins (n + k)) = true)) ∨
      (waits (k + 1) ∧
        v - (runAt f pins (n + (k + 1))).tmrCnt < v - (runAt f pins (n + k)).tmrCnt) := by
    rintro k ⟨hsame, hawaits⟩
    by_cases hend : (runAt f pins (n + k)).tmrCnt = v ∨
        (runAt f pins (n + k)).cut (pins (n + k)) = true
    · exact Or.inl ⟨⟨hsame, hawaits⟩, hend⟩
    · have hnext := awaits_step hP hwidth hawaits (fun h => hend (Or.inl h))
        (Bool.eq_false_of_not_eq_true fun h => hend (Or.inr h))
      right
      constructor
      · constructor
        · intro j hj
          rcases Nat.lt_or_eq_of_le hj with hless | heq
          · exact hsame j (by omega)
          · rw [heq]
            exact hnext.1.trans (hsame k (Nat.le_refl k))
        · exact hnext.2.1
      · exact hnext.2.2
  have hstart : waits 0 := by
    constructor
    · intro j hj
      rw [Nat.le_zero.1 hj]
      rfl
    · exact hv
  obtain ⟨m, _, hwaits, hend⟩ := leads_of_rank
    (fun k => v - (runAt f pins (n + k)).tmrCnt) hstep hstart
  exact ⟨m, hwaits.1, hend⟩

/-! ## A timer that is too narrow -/

def startPins (_ : Nat) : RxPins := { en := true, line := .level true }

/-- In the first bit of the start, with a timer that does not get to the end of it. -/
structure Stands (f : Nat) (s : Arinc708Rx) : Prop where
  rstN : s.rstN = true
  state : s.currentStateRx = .start
  bitCnt : s.bitCnt = 0
  tmrCnt : s.tmrCnt < 2 ^ tmrWidth f

theorem Stands.step (hP : 8 ≤ period f) (hnarrow : 2 ^ tmrWidth f ≤ period f - 1)
    {s : Arinc708Rx} (h : s.Stands f) (n : Nat) : (s.stepAt f (startPins n)).Stands f := by
  have hv : s.awaits f = some (period f - 1) := by
    simp only [awaits, h.state]
    rw [if_neg (by rw [h.bitCnt]; decide)]
  have hlt := h.tmrCnt
  have hstep : s.stepAt f (startPins n) = s.clkEdgeAt f (startPins n).line := by
    unfold stepAt
    rw [if_pos (by rw [h.rstN]; rfl)]
  have hnext := awaits_next ((startPins n).line) hP hv (by omega)
    (by simp [h.state])
  rw [hstep]
  constructor
  · rfl
  · rw [hnext.1, h.state]
  · rw [hnext.2.1, h.bitCnt]
  · rw [hnext.2.2.2]
    exact Nat.mod_lt _ (Nat.two_pow_pos _)

theorem idle_any {s : Arinc708Rx} (hs : s.currentStateRx = .idle) (g : Nat) (i : RxPins) :
    s.stepAt f i = s.stepAt g i := by
  simp only [stepAt, clkEdgeAt, clkEdge, comb, hs]
  rfl

theorem startPins_run {n : Nat} (hn : n < 7) :
    runAt f startPins n = runAt inputFrequency startPins n := by
  have hidle : ∀ k < 6, (runAt inputFrequency startPins k).currentStateRx = .idle := by decide
  induction n with
  | zero => rfl
  | succ n ih =>
      rw [runAt_succ, runAt_succ, ih (by omega)]
      exact idle_any (hidle n (by omega)) _ _

/-- With such a timer the receiver never leaves `START`. -/
theorem stands_run (hP : 8 ≤ period f) (hnarrow : 2 ^ tmrWidth f ≤ period f - 1) (n : Nat) :
    (runAt f startPins (6 + n)).Stands f := by
  induction n with
  | zero =>
      have hstart : runAt f startPins (6 + 0) = runAt inputFrequency startPins 6 :=
        startPins_run (by omega)
      rw [hstart]
      constructor
      · decide
      · decide
      · decide
      · rw [show (runAt inputFrequency startPins 6).tmrCnt = 0 by decide]
        exact Nat.two_pow_pos _
  | succ n ih => exact ih.step hP hnarrow (6 + n)

theorem not_serves_of_narrow (hP : 8 ≤ period f) (hnarrow : 2 ^ tmrWidth f ≤ period f - 1) :
    ¬ TimersServe f := by
  intro hserve
  have hstands := stands_run hP hnarrow
  have hbusy : (runAt f startPins 6).currentStateRx ≠ .idle := by
    simp [(hstands 0).state]
  cases hserve.returns startPins 6 hbusy with
  | intro m hidle =>
      rw [(hstands m).state] at hidle
      cases hidle

end Run

/-- The timer serves the receiver for exactly the clocks whose bit time is not one more than a power
of two. -/
theorem timers_serve_iff (inAvsClk : Nat) (hP : 8 ≤ period inAvsClk) :
    TimersServe inAvsClk ↔ ¬ ∃ k, period inAvsClk - 1 = 2 ^ k := by
  rw [← lt_pow_clog_iff (by omega)]
  constructor
  · intro hserve
    by_contra hnarrow
    exact not_serves_of_narrow hP (Nat.le_of_not_lt hnarrow) hserve
  · intro hwidth
    constructor
    · intro v hv
      simp only [List.mem_cons, List.not_mem_nil, or_false, timerCnt] at hv
      change period inAvsClk - 1 < 2 ^ tmrWidth inAvsClk at hwidth
      omega
    · exact fun pins n v hv => run_reaches hP hwidth hv
    · exact ⟨5 * period inAvsClk + 2, fun pins n hn => run_leaves hP hwidth hn⟩
    · intro pins n _
      have hreturns : ∃ m ≥ n, (runAt inAvsClk pins m).currentStateRx = .idle :=
        run_returns hP hwidth n
      obtain ⟨m, hm, hidle⟩ := hreturns
      exact ⟨m - n, by rwa [Nat.add_sub_cancel' hm]⟩

/-- The clock of `arinc708.sv`. -/
theorem timers_serve_inputFrequency : TimersServe inputFrequency :=
  (timers_serve_iff inputFrequency (by decide)).mpr
    (not_pow_of_lt (show period inputFrequency - 1 < 2 ^ 6 by decide) (by decide))

/-- A clock of 65 MHz: a bit has 65 cycles, and the timer has six bits. -/
theorem timers_fail_65 : ¬ TimersServe 65000000 :=
  not_serves_of_narrow (by decide) (by decide)

end Arinc708Rx

end Mfi.Arinc708
