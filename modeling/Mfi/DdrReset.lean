import Mfi.Core.Events
import Mfi.Core.Trace

/-!
# Reset sequencer of the external memory

Two reset outputs and a ready flag follow the lock of the PLL and the
calibration of the memory. Each reset has a four bit shift register that fills
up before the reset is released, and a timer that pulls it again when the
awaited signal does not come. The reset input acts at once; everything else
moves with the clock, so a run is a sequence of clock edges and of changes of
the reset input in any order.
-/

namespace Mfi.DdrReset

open Core

/-- The two times in clock cycles. The source subtracts one from each. -/
structure Params where
  globalResetTime : Nat
  softResetTime : Nat
  globalPos : 1 ≤ globalResetTime
  softPos : 1 ≤ softResetTime

structure Regs where
  pllLockedMeta : Bool
  pllLockedLatch : Bool
  glResetTimer : BitVec 32
  glResetShift : BitVec 4
  glResetRegN : Bool
  calSuccessMeta : Bool
  calSuccessLatch : Bool
  swResetTimer : BitVec 32
  swResetShift : BitVec 4
  swResetRegN : Bool
  readyShift : BitVec 4
  readyReg : Bool
  deriving DecidableEq, Repr

/-- The level of the reset input, its two synchronising registers and the rest. -/
structure State where
  resetN : Bool
  resetNMeta : Bool
  resetNLatch : Bool
  regs : Regs
  deriving DecidableEq, Repr

/-- What can happen next: the reset input takes a level, or the clock rises. -/
inductive Event where
  | resetInput (level : Bool)
  | clk (pllLocked calSuccess : Bool)
  deriving DecidableEq, Repr

def cleared : Regs :=
  { pllLockedMeta := false, pllLockedLatch := false, glResetTimer := 0#32, glResetShift := 0#4,
    glResetRegN := false, calSuccessMeta := false, calSuccessLatch := false,
    swResetTimer := 0#32, swResetShift := 0#4, swResetRegN := false, readyShift := 0#4,
    readyReg := false }

def powerUp : State :=
  { resetN := false, resetNMeta := false, resetNLatch := false, regs := cleared }

def shiftIn (shift : BitVec 4) : BitVec 4 := shift <<< 1 ||| 1#4

/-- Timer and shift register of a reset whose awaited signal is missing. -/
def retry (time : Nat) (timer : BitVec 32) (shift : BitVec 4) : BitVec 32 × BitVec 4 :=
  if shift = 15#4 then
    if timer.toNat < time - 1 then (timer + 1, shift) else (timer, 0#4)
  else (0#32, shiftIn shift)

def glNext (p : Params) (r : Regs) : BitVec 32 × BitVec 4 :=
  if r.pllLockedLatch then (0#32, 15#4)
  else retry p.globalResetTime r.glResetTimer r.glResetShift

def swNext (p : Params) (r : Regs) : BitVec 32 × BitVec 4 :=
  if !r.pllLockedLatch then (0#32, 0#4)
  else if r.calSuccessLatch then (0#32, 15#4)
  else retry p.softResetTime r.swResetTimer r.swResetShift

def readyNext (r : Regs) : BitVec 4 × Bool :=
  if !r.pllLockedLatch || !r.calSuccessLatch then (0#4, false)
  else (shiftIn r.readyShift, r.readyShift.getLsbD 3)

/-- The clocked part of the registers when the synchronised reset is off. -/
def clock (p : Params) (r : Regs) (pllLocked calSuccess : Bool) : Regs :=
  { pllLockedMeta := pllLocked
    pllLockedLatch := r.pllLockedMeta
    glResetTimer := (glNext p r).1
    glResetShift := (glNext p r).2
    glResetRegN := r.glResetShift.getLsbD 3
    calSuccessMeta := calSuccess
    calSuccessLatch := r.calSuccessMeta
    swResetTimer := (swNext p r).1
    swResetShift := (swNext p r).2
    swResetRegN := r.swResetShift.getLsbD 3
    readyShift := (readyNext r).1
    readyReg := (readyNext r).2 }

/-- One event. A falling reset input clears its synchroniser, and the fall of
`resetNLatch` that this may cause clears the rest. -/
def step (p : Params) (s : State) : Event → State
  | .resetInput level =>
      if s.resetN && !level then
        { resetN := false, resetNMeta := false, resetNLatch := false,
          regs := if s.resetNLatch then cleared else s.regs }
      else { s with resetN := level }
  | .clk pllLocked calSuccess =>
      { resetN := s.resetN
        resetNMeta := s.resetN
        resetNLatch := s.resetN && s.resetNMeta
        regs := if s.resetNLatch then clock p s.regs pllLocked calSuccess else cleared }

/-! ## Outputs -/

def glResetN (source : BitVec 4) (s : State) : Bool :=
  if source.getLsbD 3 = false then s.regs.glResetRegN else source.getLsbD 2

def swResetN (source : BitVec 4) (s : State) : Bool :=
  if source.getLsbD 3 = false then s.regs.swResetRegN else source.getLsbD 1

def ready (source : BitVec 4) (s : State) : Bool :=
  if source.getLsbD 3 = false then s.regs.readyReg else source.getLsbD 0

/-- The registers after `n` events. -/
def run (p : Params) (inp : Nat → Event) (n : Nat) : State := trace (step p) powerUp inp n

/-- Lock and calibration, synchronised, in the clock cycle that event `n` ends. -/
def cycleSeen (p : Params) (inp : Nat → Event) (n : Nat) : Option (Bool × Bool) :=
  match inp n with
  | .resetInput _ => none
  | .clk _ _ => some ((run p inp n).regs.pllLockedLatch, (run p inp n).regs.calSuccessLatch)

/-- The same for all clock cycles that the first `n` events complete. -/
def cyclesSeen (p : Params) (inp : Nat → Event) (n : Nat) : List (Bool × Bool) :=
  events (cycleSeen p inp) n

/-! ## Shift registers -/

/-- A shift register that fills up with ones from the right. -/
def Filling (shift : BitVec 4) : Prop :=
  shift = 0#4 ∨ shift = 1#4 ∨ shift = 3#4 ∨ shift = 7#4 ∨ shift = 15#4

theorem filling_shiftIn {shift : BitVec 4} (h : Filling shift) : Filling (shiftIn shift) := by
  rcases h with rfl | rfl | rfl | rfl | rfl
  · exact Or.inr (Or.inl rfl)
  · exact Or.inr (Or.inr (Or.inl rfl))
  · exact Or.inr (Or.inr (Or.inr (Or.inl rfl)))
  · exact Or.inr (Or.inr (Or.inr (Or.inr rfl)))
  · exact Or.inr (Or.inr (Or.inr (Or.inr rfl)))

theorem filling_retry {shift : BitVec 4} (time : Nat) (timer : BitVec 32) (h : Filling shift) :
    Filling (retry time timer shift).2 := by
  unfold retry
  split
  · split
    · exact h
    · exact Or.inl rfl
  · exact filling_shiftIn h

theorem filling_full {shift : BitVec 4} (h : Filling shift) (hbit : shift.getLsbD 3 = true) :
    shift = 15#4 := by
  rcases h with rfl | rfl | rfl | rfl | rfl
  · cases hbit
  · cases hbit
  · cases hbit
  · cases hbit
  · rfl

theorem getLsbD_shiftIn_succ (shift : BitVec 4) {k : Nat} (hk : k < 3) :
    (shiftIn shift).getLsbD (k + 1) = shift.getLsbD k := by
  have hlt : k + 1 < 4 := by omega
  have hone : (1#4).getLsbD (k + 1) = false := by simp
  rw [shiftIn, BitVec.getLsbD_or, hone, BitVec.getLsbD_shiftLeft, Bool.or_false]
  simp [hlt]

/-! ## The invariant -/

def goodCycles (k : Nat) (seen : List (Bool × Bool)) : Prop :=
  List.replicate k (true, true) <:+ seen

theorem goodCycles_append {k : Nat} {seen : List (Bool × Bool)} (h : goodCycles k seen) :
    goodCycles (k + 1) (seen ++ [(true, true)]) := by
  obtain ⟨front, rfl⟩ := h
  refine ⟨front, ?_⟩
  rw [List.replicate_succ', List.append_assoc]

theorem goodCycles_one (seen : List (Bool × Bool)) : goodCycles 1 (seen ++ [(true, true)]) :=
  ⟨seen, rfl⟩

theorem goodCycles_mono {j k : Nat} {seen : List (Bool × Bool)} (h : goodCycles k seen)
    (hjk : j ≤ k) : goodCycles j seen := by
  refine List.IsSuffix.trans ⟨List.replicate (k - j) (true, true), ?_⟩ h
  rw [List.replicate_append_replicate]
  congr 1
  omega

/-- What ties the three shift registers, the outputs and the cycles seen together. -/
structure Ordered (r : Regs) (seen : List (Bool × Bool)) : Prop where
  glFilling : Filling r.glResetShift
  swFilling : Filling r.swResetShift
  swFull : r.swResetShift = 15#4 → r.glResetShift = 15#4
  readyStarted : r.readyShift.getLsbD 3 = true → r.swResetShift = 15#4
  readySeen : ∀ k < 4, r.readyShift.getLsbD k = true → goodCycles (k + 1) seen
  swReg : r.swResetRegN = true → r.glResetRegN = true
  readyReg : r.readyReg = true → r.swResetRegN = true
  regSeen : r.readyReg = true → goodCycles 4 seen

theorem ordered_cleared (seen : List (Bool × Bool)) : Ordered cleared seen where
  glFilling := Or.inl rfl
  swFilling := Or.inl rfl
  swFull := fun h => absurd h (by decide)
  readyStarted := fun h => absurd h (by decide)
  readySeen := by
    intro k _ hbit
    rw [show cleared.readyShift = 0#4 from rfl, BitVec.getLsbD_zero] at hbit
    cases hbit
  swReg := fun h => absurd h (by decide)
  readyReg := fun h => absurd h (by decide)
  regSeen := fun h => absurd h (by decide)

theorem glNext_locked {p : Params} {r : Regs} (h : r.pllLockedLatch = true) :
    (glNext p r).2 = 15#4 := by
  rw [glNext, if_pos h]

theorem filling_glNext (p : Params) {r : Regs} (h : Filling r.glResetShift) :
    Filling (glNext p r).2 := by
  unfold glNext
  split
  · exact Or.inr (Or.inr (Or.inr (Or.inr rfl)))
  · exact filling_retry _ _ h

theorem filling_swNext (p : Params) {r : Regs} (h : Filling r.swResetShift) :
    Filling (swNext p r).2 := by
  unfold swNext
  split
  · exact Or.inl rfl
  · split
    · exact Or.inr (Or.inr (Or.inr (Or.inr rfl)))
    · exact filling_retry _ _ h

/-- The memory's own reset can be full only while the PLL is locked. -/
theorem swNext_full {p : Params} {r : Regs} (h : (swNext p r).2 = 15#4) :
    r.pllLockedLatch = true := by
  cases hpll : r.pllLockedLatch with
  | true => rfl
  | false =>
      rw [swNext, hpll] at h
      exact absurd (show 0#4 = 15#4 from h) (by decide)

theorem ordered_clock (p : Params) {r : Regs} {seen : List (Bool × Bool)} (h : Ordered r seen)
    (pllLocked calSuccess : Bool) :
    Ordered (clock p r pllLocked calSuccess)
      (seen ++ [(r.pllLockedLatch, r.calSuccessLatch)]) := by
  have hsw : r.swResetShift.getLsbD 3 = true → r.glResetShift.getLsbD 3 = true := by
    intro hbit
    rw [h.swFull (filling_full h.swFilling hbit)]
    rfl
  have hready : (readyNext r).2 = true → r.readyShift.getLsbD 3 = true ∧
      r.pllLockedLatch = true ∧ r.calSuccessLatch = true := by
    intro hreg
    unfold readyNext at hreg
    cases hpll : r.pllLockedLatch <;> cases hcal : r.calSuccessLatch <;>
      simp_all
  -- The ready register moves on only in a cycle that keeps the soft reset full.
  have hshift : ∀ k, (readyNext r).1.getLsbD k = true →
      r.pllLockedLatch = true ∧ r.calSuccessLatch = true ∧
        (shiftIn r.readyShift).getLsbD k = true := by
    intro k hbit
    unfold readyNext at hbit
    cases hpll : r.pllLockedLatch <;> cases hcal : r.calSuccessLatch <;>
      simp_all
  exact
    { glFilling := filling_glNext p h.glFilling
      swFilling := filling_swNext p h.swFilling
      swFull := fun hfull => glNext_locked (swNext_full hfull)
      readyStarted := by
        intro hbit
        obtain ⟨hpll, hcal, _⟩ := hshift 3 hbit
        show (swNext p r).2 = 15#4
        rw [swNext, hpll, hcal]
        rfl
      readySeen := by
        intro k hk hbit
        obtain ⟨hpll, hcal, hin⟩ := hshift k hbit
        rw [hpll, hcal]
        cases k with
        | zero => exact goodCycles_one seen
        | succ k =>
            rw [getLsbD_shiftIn_succ _ (by omega)] at hin
            exact goodCycles_append (h.readySeen k (by omega) hin)
      swReg := hsw
      readyReg := by
        intro hreg
        obtain ⟨hbit, _, _⟩ := hready hreg
        show r.swResetShift.getLsbD 3 = true
        rw [h.readyStarted hbit]
        rfl
      regSeen := by
        intro hreg
        obtain ⟨hbit, hpll, hcal⟩ := hready hreg
        rw [hpll, hcal]
        have hfour := goodCycles_append (h.readySeen 3 (by omega) hbit)
        exact goodCycles_mono hfour (by omega) }

theorem ordered_step (p : Params) (inp : Nat → Event) (n : Nat)
    (h : Ordered (run p inp n).regs (cyclesSeen p inp n)) :
    Ordered (run p inp (n + 1)).regs (cyclesSeen p inp (n + 1)) := by
  have hnext : run p inp (n + 1) = step p (run p inp n) (inp n) := rfl
  cases hevent : inp n with
  | resetInput level =>
      have hseen : cyclesSeen p inp (n + 1) = cyclesSeen p inp n :=
        events_succ_none (by rw [cycleSeen, hevent])
      rw [hnext, hevent, hseen, step]
      split
      · dsimp only
        split
        · exact ordered_cleared _
        · exact h
      · exact h
  | clk pllLocked calSuccess =>
      have hseen : cyclesSeen p inp (n + 1) = cyclesSeen p inp n ++
          [((run p inp n).regs.pllLockedLatch, (run p inp n).regs.calSuccessLatch)] :=
        events_succ_some (by rw [cycleSeen, hevent])
      rw [hnext, hevent, hseen, step]
      dsimp only
      split
      · exact ordered_clock p h pllLocked calSuccess
      · exact ordered_cleared _

theorem ordered_run (p : Params) (inp : Nat → Event) (n : Nat) :
    Ordered (run p inp n).regs (cyclesSeen p inp n) := by
  induction n with
  | zero => exact ordered_cleared _
  | succ n ih => exact ordered_step p inp n ih

/-- In every state that can be reached the ready flag implies the soft reset is released,
and that implies the global one is. Ready has seen lock and calibration in the last four
cycles, and the shift registers only ever fill up from the right. -/
theorem ordered_outputs (p : Params) (inp : Nat → Event) (n : Nat) :
    (ready 0#4 (run p inp n) = true → swResetN 0#4 (run p inp n) = true) ∧
    (swResetN 0#4 (run p inp n) = true → glResetN 0#4 (run p inp n) = true) ∧
    (ready 0#4 (run p inp n) = true → goodCycles 4 (cyclesSeen p inp n)) ∧
    Filling (run p inp n).regs.glResetShift ∧ Filling (run p inp n).regs.swResetShift := by
  have h := ordered_run p inp n
  exact ⟨h.readyReg, h.swReg, h.regSeen, h.glFilling, h.swFilling⟩

end Mfi.DdrReset
