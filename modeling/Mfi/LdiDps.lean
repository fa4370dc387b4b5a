import Mfi.Core.Trace

/-!
# Dynamic phase shift of the LVDS receiver

The block steps the phases of a PLL until the video synchronisation looks
right. Three counters measure the periods of the two syncs and the length of
the data enable; a state machine makes the steps of the search, then a number
of post steps, and says when it is locked.
-/

namespace Mfi.LdiDps

open Core

inductive Family where
  | cycloneV
  | cycloneIV
  | external
  deriving DecidableEq, Repr

/-- The parameters of the instance. A post step count is a number of eight bits with sign. -/
structure Params where
  family : Family
  clockFreq : Nat
  hsyncMinPeriodUs : Nat
  hsyncMaxPeriodUs : Nat
  vsyncMinPeriodUs : Nat
  vsyncMaxPeriodUs : Nat
  deMinLengthUs : Nat
  deMaxLengthUs : Nat
  lockedTimeoutUs : Nat
  postStepsFast : BitVec 8
  postStepsSlow : BitVec 8
  deriving DecidableEq, Repr

/-- A time in clock periods, as the source computes it in 32 bits. -/
def Params.cycles (p : Params) (us : Nat) : BitVec 32 :=
  BitVec.ofNat 32 (us * (p.clockFreq / 1000000))

def Params.hsyncMinPeriod (p : Params) : Nat := (p.cycles p.hsyncMinPeriodUs).toNat

def Params.hsyncMaxPeriod (p : Params) : Nat := (p.cycles p.hsyncMaxPeriodUs).toNat

def Params.vsyncMinPeriod (p : Params) : Nat := (p.cycles p.vsyncMinPeriodUs).toNat

def Params.vsyncMaxPeriod (p : Params) : Nat := (p.cycles p.vsyncMaxPeriodUs).toNat

def Params.deMinLength (p : Params) : Nat := (p.cycles p.deMinLengthUs).toNat

def Params.deMaxLength (p : Params) : Nat := (p.cycles p.deMaxLengthUs).toNat

def Params.lockedTimeout (p : Params) : BitVec 32 := p.cycles p.lockedTimeoutUs

def Params.cntselFast (p : Params) : BitVec 5 :=
  match p.family with
  | .cycloneV => 0#5
  | .cycloneIV => 2#5
  | .external => 0#5

def Params.cntselSlow (p : Params) : BitVec 5 :=
  match p.family with
  | .cycloneV => 1#5
  | .cycloneIV => 3#5
  | .external => 0#5

inductive PhaseState where
  | idle
  | step
  | ack
  | wait
  | reset
  deriving DecidableEq, Repr

structure Measure where
  lockedLatch : BitVec 2
  hsyncLatch : BitVec 3
  vsyncLatch : BitVec 3
  deLatch : BitVec 3
  hsyncPeriod : BitVec 16
  hsyncLocked : Bool
  vsyncPeriod : BitVec 24
  vsyncLocked : Bool
  deLength : BitVec 16
  deLocked : Bool
  deriving DecidableEq, Repr

structure Phase where
  locked : Bool
  reset : Bool
  en : Bool
  updn : Bool
  cntsel : BitVec 5
  stepsFast : BitVec 8
  stepsSlow : BitVec 8
  postFast : BitVec 8
  postSlow : BitVec 8
  timer : BitVec 32
  state : PhaseState
  deriving DecidableEq, Repr

structure Regs where
  measure : Measure
  doneNegMeta : Bool
  doneNegLatch : Bool
  doneMeta : Bool
  doneLatch : Bool
  phase : Phase
  deriving DecidableEq, Repr

/-- The inputs of one clock cycle. `dpsDone` is sampled at the falling edge. -/
structure Input where
  pllLocked : Bool
  hsync : Bool
  vsync : Bool
  de : Bool
  dpsDone : Bool
  deriving DecidableEq, Repr

def reset : Regs :=
  { measure :=
      { lockedLatch := 0#2, hsyncLatch := 0#3, vsyncLatch := 0#3, deLatch := 0#3,
        hsyncPeriod := 0#16, hsyncLocked := false, vsyncPeriod := 0#24, vsyncLocked := false,
        deLength := 0#16, deLocked := false }
    doneNegMeta := false
    doneNegLatch := false
    doneMeta := false
    doneLatch := false
    phase :=
      { locked := false, reset := true, en := false, updn := false, cntsel := 0#5,
        stepsFast := 0#8, stepsSlow := 0#8, postFast := 0#8, postSlow := 0#8, timer := 0#32,
        state := .reset } }

/-! ## Measuring -/

def sample {w : Nat} (latch : BitVec w) (bit : Bool) : BitVec w :=
  latch <<< 1 ||| (BitVec.ofBool bit).setWidth w

def level (latch : BitVec 3) : Bool := latch.getLsbD 1

def rises (latch : BitVec 3) : Bool := !latch.getLsbD 2 && latch.getLsbD 1

def falls (latch : BitVec 3) : Bool := latch.getLsbD 2 && !latch.getLsbD 1

/-- The counter of a period starts anew at a rise and stops at its maximum. -/
def periodNext {w : Nat} (latch : BitVec 3) (period : BitVec w) (maximum : Nat) : BitVec w :=
  if rises latch then 0#w
  else if period.toNat < maximum then period + 1#w else period

def inRange {w : Nat} (count : BitVec w) (minimum maximum : Nat) : Bool :=
  decide (minimum ≤ count.toNat) && decide (count.toNat < maximum)

def measureNext (p : Params) (m : Measure) (i : Input) : Measure :=
  { lockedLatch := sample m.lockedLatch i.pllLocked
    hsyncLatch := sample m.hsyncLatch i.hsync
    vsyncLatch := sample m.vsyncLatch i.vsync
    deLatch := sample m.deLatch i.de
    hsyncPeriod := periodNext m.hsyncLatch m.hsyncPeriod p.hsyncMaxPeriod
    hsyncLocked :=
      if rises m.hsyncLatch then
        inRange m.hsyncPeriod p.hsyncMinPeriod p.hsyncMaxPeriod &&
          decide (m.deLength.toNat < m.hsyncPeriod.toNat)
      else m.hsyncLocked
    vsyncPeriod := periodNext m.vsyncLatch m.vsyncPeriod p.vsyncMaxPeriod
    vsyncLocked :=
      if rises m.vsyncLatch then inRange m.vsyncPeriod p.vsyncMinPeriod p.vsyncMaxPeriod
      else m.vsyncLocked
    deLength :=
      if falls m.deLatch then m.deLength
      else if level m.deLatch then
        if m.deLength.toNat < p.deMaxLength then m.deLength + 1#16 else m.deLength
      else 0#16
    deLocked :=
      if falls m.deLatch then inRange m.deLength p.deMinLength p.deMaxLength else m.deLocked }

/-! ## The phase machine -/

def Measure.pllLocked (m : Measure) : Bool := m.lockedLatch.getLsbD 1

def Measure.videoLocked (m : Measure) : Bool := m.hsyncLocked && m.vsyncLocked && m.deLocked

def postNext (postSteps post : BitVec 8) : BitVec 8 :=
  if postSteps.getLsbD 7 then post + 1#8 else post - 1#8

def searchNext (p : Params) (f : Phase) : Phase :=
  if f.stepsFast.toNat < 7 then
    { f with updn := true, cntsel := p.cntselFast, stepsFast := f.stepsFast + 1#8, state := .step }
  else if f.stepsSlow.toNat < 55 then
    { f with
      updn := true, cntsel := p.cntselSlow, stepsFast := 0#8, stepsSlow := f.stepsSlow + 1#8,
      state := .step }
  else
    { f with updn := false, cntsel := 0#5, stepsFast := 0#8, stepsSlow := 0#8, state := .reset }

def idleNext (p : Params) (m : Measure) (f : Phase) : Phase :=
  if m.pllLocked then
    if m.videoLocked then
      if f.postFast ≠ 0#8 then
        { f with
          updn := !p.postStepsFast.getLsbD 7, cntsel := p.cntselFast,
          postFast := postNext p.postStepsFast f.postFast, state := .step }
      else if f.postSlow ≠ 0#8 then
        { f with
          updn := !p.postStepsSlow.getLsbD 7, cntsel := p.cntselSlow,
          postSlow := postNext p.postStepsSlow f.postSlow, state := .step }
      else f
    else
      { searchNext p f with postFast := p.postStepsFast, postSlow := p.postStepsSlow }
  else { f with updn := false, cntsel := 0#5 }

/-- Waiting for the done signal to take a level, with a time-out. -/
def handshakeNext (p : Params) (f : Phase) (arrived : Bool) (next : PhaseState) : Phase :=
  if arrived then { f with timer := 0#32, state := next }
  else if f.timer.toNat < (p.lockedTimeout - 1).toNat then { f with timer := f.timer + 1#32 }
  else { f with timer := 0#32, state := .reset }

def phaseNext (p : Params) (m : Measure) (doneLatch : Bool) (f : Phase) : Phase :=
  match f.state with
  | .idle => { idleNext p m f with locked := true, reset := false, en := false }
  | .step =>
      { handshakeNext p f (!doneLatch) .ack with locked := false, reset := false, en := true }
  | .ack =>
      { handshakeNext p f doneLatch .wait with locked := false, reset := false, en := false }
  | .wait =>
      if f.timer.toNat < (p.lockedTimeout - 1).toNat then { f with timer := f.timer + 1#32 }
      else { f with timer := 0#32, state := .idle }
  | .reset =>
      { f with
        locked := false, reset := true, en := false, updn := false, stepsFast := 0#8,
        stepsSlow := 0#8, timer := 0#32, state := .idle }

def step (p : Params) (r : Regs) (i : Input) : Regs :=
  { measure := measureNext p r.measure i
    doneNegMeta := i.dpsDone
    doneNegLatch := r.doneNegMeta
    doneMeta := r.doneNegLatch
    doneLatch := r.doneMeta
    phase := phaseNext p r.measure r.doneLatch r.phase }

/-- The registers before cycle `n` after the reset. -/
def run (p : Params) (inp : Nat → Input) (n : Nat) : Regs := trace (step p) reset inp n

def dpsLocked (r : Regs) : Bool := r.phase.locked

/-! ## What a lock should mean -/

/-- The last two rises before cycle `n` are a period in the range apart, and the signal has not
been silent for longer than its maximum since. -/
def HasPeriod (rise : Nat → Bool) (minimum maximum n : Nat) : Prop :=
  ∃ t u, t < u ∧ u < n ∧ rise t = true ∧ rise u = true ∧
    (∀ k, t < k → k < n → k ≠ u → rise k = false) ∧
    minimum ≤ u - t ∧ u - t ≤ maximum ∧ n - u ≤ maximum

/-- The last pulse that ended before cycle `n` has a length in the range. -/
def HasLength (high : Nat → Bool) (minimum maximum n : Nat) : Prop :=
  ∃ t u, t < u ∧ u < n ∧ (∀ k, k + 1 = t → high k = false) ∧ (∀ k, t ≤ k → k < u → high k = true) ∧
    high u = false ∧ (∀ k, u ≤ k → k + 1 < n → high k = true → high (k + 1) = true) ∧
    minimum ≤ u - t ∧ u - t ≤ maximum

def stepsOf (postSteps : BitVec 8) : Nat :=
  if postSteps.getLsbD 7 then 256 - postSteps.toNat else postSteps.toNat

/-- The post steps that are still to be carried out, and whether one is under way. -/
structure Ledger where
  pending : Nat
  postStep : Bool

/-- A step of the search asks for all post steps anew; the end of a handshake carries one out. -/
def ledgerNext (p : Params) (r : Regs) (l : Ledger) : Ledger :=
  match r.phase.state with
  | .idle =>
      if r.measure.pllLocked then
        if r.measure.videoLocked then
          { l with postStep := r.phase.postFast ≠ 0#8 || r.phase.postSlow ≠ 0#8 }
        else ⟨stepsOf p.postStepsFast + stepsOf p.postStepsSlow, false⟩
      else l
  | .ack => if r.doneLatch && l.postStep then ⟨l.pending - 1, false⟩ else l
  | .reset => { l with postStep := false }
  | _ => l

def ledger (p : Params) (inp : Nat → Input) : Nat → Ledger
  | 0 => ⟨0, false⟩
  | n + 1 => ledgerNext p (run p inp n) (ledger p inp n)

/-- A lock that shows after cycle `n` means that in cycle `n` the PLL was locked, both periods
and the length were right and no post step was left. -/
def LockSound (p : Params) (inp : Nat → Input) (n : Nat) : Prop :=
  dpsLocked (run p inp (n + 1)) = true →
    (run p inp n).measure.pllLocked = true ∧
    HasPeriod (fun t => rises (run p inp t).measure.hsyncLatch) p.hsyncMinPeriod
      p.hsyncMaxPeriod n ∧
    HasPeriod (fun t => rises (run p inp t).measure.vsyncLatch) p.vsyncMinPeriod
      p.vsyncMaxPeriod n ∧
    HasLength (fun t => level (run p inp t).measure.deLatch) p.deMinLength p.deMaxLength n ∧
    (ledger p inp n).pending = 0

/-! ## What it means -/

theorem run_succ (p : Params) (inp : Nat → Input) (n : Nat) :
    run p inp (n + 1) = step p (run p inp n) (inp n) := rfl

theorem searchNext_state (p : Params) (f : Phase) :
    (searchNext p f).state = .step ∨ (searchNext p f).state = .reset := by
  unfold searchNext
  split
  · exact Or.inl rfl
  · split
    · exact Or.inl rfl
    · exact Or.inr rfl

theorem idleNext_state (p : Params) (m : Measure) {f : Phase} (h : f.state = .idle) :
    (idleNext p m f).state ≠ .wait := by
  unfold idleNext
  split
  · split
    · split
      · exact PhaseState.noConfusion
      · split
        · exact PhaseState.noConfusion
        · rw [h]
          exact PhaseState.noConfusion
    · dsimp only
      rcases searchNext_state p f with hs | hs
      · rw [hs]
        exact PhaseState.noConfusion
      · rw [hs]
        exact PhaseState.noConfusion
  · dsimp only
    rw [h]
    exact PhaseState.noConfusion

theorem wait_unlocked (p : Params) (inp : Nat → Input) (n : Nat) :
    (run p inp n).phase.state = .wait → dpsLocked (run p inp n) = false := by
  induction n with
  | zero => intro h; cases h
  | succ n ih =>
      intro h
      rw [run_succ] at h ⊢
      have hwait : (phaseNext p (run p inp n).measure (run p inp n).doneLatch
          (run p inp n).phase).state = .wait := h
      show (phaseNext p (run p inp n).measure (run p inp n).doneLatch
          (run p inp n).phase).locked = false
      cases hstate : (run p inp n).phase.state with
      | idle =>
          rw [phaseNext, hstate] at hwait
          exact absurd hwait (idleNext_state p _ hstate)
      | step => rw [phaseNext, hstate]
      | ack => rw [phaseNext, hstate]
      | wait =>
          have hno : (run p inp n).phase.locked = false := ih hstate
          rw [phaseNext, hstate]
          dsimp only
          split
          · exact hno
          · exact hno
      | reset => rw [phaseNext, hstate]

/-- The lock output shows that the machine was idle, nothing more. -/
theorem dpsLocked_succ (p : Params) (inp : Nat → Input) (n : Nat) :
    dpsLocked (run p inp (n + 1)) = true ↔ (run p inp n).phase.state = .idle := by
  rw [run_succ]
  show (phaseNext p (run p inp n).measure (run p inp n).doneLatch
    (run p inp n).phase).locked = true ↔ _
  cases hstate : (run p inp n).phase.state with
  | idle => simp [phaseNext, hstate]
  | step => simp [phaseNext, hstate]
  | ack => simp [phaseNext, hstate]
  | wait =>
      have hno : (run p inp n).phase.locked = false := wait_unlocked p inp n hstate
      rw [phaseNext, hstate]
      dsimp only
      split <;> simp [hno]
  | reset => simp [phaseNext, hstate]

theorem idle_after_reset (p : Params) (inp : Nat → Input) :
    (run p inp 1).phase.state = .idle ∧ (run p inp 1).measure.pllLocked = false := by
  refine ⟨rfl, ?_⟩
  show (sample 0#2 (inp 0).pllLocked).getLsbD 1 = false
  cases (inp 0).pllLocked <;> rfl

/-- Every idle cycle without a lock of the PLL shows a lock, and every run has one. -/
theorem lock_never_sound (p : Params) (inp : Nat → Input) :
    (∀ n, (run p inp n).phase.state = .idle → (run p inp n).measure.pllLocked = false →
      ¬ LockSound p inp n) ∧ ¬ ∀ n, LockSound p inp n := by
  have hunsound : ∀ n, (run p inp n).phase.state = .idle →
      (run p inp n).measure.pllLocked = false → ¬ LockSound p inp n := by
    intro n hidle hpll hsound
    obtain ⟨hlock, _⟩ := hsound ((dpsLocked_succ p inp n).mpr hidle)
    rw [hpll] at hlock
    cases hlock
  refine ⟨hunsound, ?_⟩
  intro hsound
  obtain ⟨hidle, hpll⟩ := idle_after_reset p inp
  exact hunsound 1 hidle hpll (hsound 1)

/-- With the times of a 100 MHz clock and all inputs low the lock shows in cycle 2. -/
theorem locked_without_pll :
    ¬ LockSound ⟨.cycloneV, 100000000, 8, 64, 8000, 64000, 8, 64, 16000, 1#8, 2#8⟩
      (fun _ => ⟨false, false, false, false, false⟩) 1 := by
  intro hsound
  obtain ⟨hlock, _⟩ := hsound (by decide)
  exact absurd hlock (by decide)

end Mfi.LdiDps
