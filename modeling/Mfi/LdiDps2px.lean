import Mathlib.Algebra.Group.Int.Defs
import Mathlib.Data.Nat.Log
import Mfi.Core.Events
import Mfi.Core.History
import Mfi.Core.Trace
import Mfi.Core.Words

/-!
# Dynamic phase shift of the receiver with two pixels

The block of the receiver for two pixels a clock steps the phases of its PLL until both
syncs have periods in their ranges. After each step of the search it asks for a number of
post steps, given with a sign, which it makes when the syncs look right. The count is
compared without its sign.
-/

namespace Mfi.LdiDps2px

open Core

/-- The parameters of the instance. The number of post steps has a sign. -/
structure Params where
  hsyncMinPeriod : Nat
  hsyncMaxPeriod : Nat
  vsyncMinPeriod : Nat
  vsyncMaxPeriod : Nat
  lockedTimeout : Nat
  postSteps : Int
  two_le_lockedTimeout : 2 ≤ lockedTimeout

/-- The width of the timer; the counter of the post steps has one bit more. -/
def Params.width (p : Params) : Nat := Nat.clog 2 p.lockedTimeout

inductive PhaseState where
  | idle
  | step
  | ack
  | reset
  deriving DecidableEq, Repr

structure Sync (w : Nat) where
  clkMeta : Bool
  clkLatch : BitVec 2
  period : BitVec w
  locked : Bool
  deriving DecidableEq, Repr

/-- The registers of the phase machine, with a timer of width `w`. -/
structure Phase (w : Nat) where
  locked : Bool
  reset : Bool
  en : Bool
  updn : Bool
  post : BitVec (w + 1)
  timer : BitVec w
  state : PhaseState
  deriving DecidableEq, Repr

structure Regs (w : Nat) where
  hsync : Sync 16
  vsync : Sync 24
  doneNegMeta : Bool
  doneNegLatch : Bool
  doneMeta : Bool
  doneLatch : Bool
  phase : Phase w
  deriving DecidableEq, Repr

/-- The inputs of one clock cycle. `dpsDone` is sampled at the falling edge. -/
structure Input where
  hsync : Bool
  vsync : Bool
  dpsDone : Bool
  deriving DecidableEq, Repr

def Sync.init {w : Nat} : Sync w :=
  { clkMeta := false, clkLatch := 0#2, period := 0#w, locked := false }

def reset {w : Nat} : Regs w :=
  { hsync := .init
    vsync := .init
    doneNegMeta := false
    doneNegLatch := false
    doneMeta := false
    doneLatch := false
    phase :=
      { locked := false, reset := true, en := false, updn := false, post := 0, timer := 0,
        state := .reset } }

/-- A period is looked at when the next one begins; one that is too long is given up. -/
def Sync.next {w : Nat} (s : Sync w) (minimum maximum : Nat) (signal : Bool) : Sync w :=
  let t : Sync w :=
    if s.period.toNat > maximum then { s with period := 0#w, locked := false }
    else if s.clkLatch = 0b01#2 then
      { s with
        locked := decide (minimum ≤ s.period.toNat) && decide (s.period.toNat < maximum)
        period := 0#w }
    else { s with period := s.period + 1 }
  { t with
    clkMeta := signal
    clkLatch := BitVec.ofBool (s.clkLatch.getLsbD 0) ++ BitVec.ofBool s.clkMeta }

section Step

variable (p : Params)

/-- The idle state: the post steps when both syncs are locked, and otherwise a step of the search
when the time is over. The first comparison is one of numbers without sign. -/
def idleNext (synced : Bool) (f : Phase p.width) : Phase p.width :=
  if synced then
    if 0 < f.post.toNat then
      { f with locked := false, updn := true, post := f.post - 1, state := .step }
    else if f.post.toInt < 0 then
      { f with locked := false, updn := false, post := f.post + 1, state := .step }
    else { f with locked := true }
  else if f.timer.toNat < p.lockedTimeout - 1 then { f with timer := f.timer + 1 }
  else
    { f with
      locked := false, updn := true, post := BitVec.ofInt (p.width + 1) p.postSteps, timer := 0,
      state := .step }

/-- Waiting for the done signal to take a level, with a time-out. -/
def handshakeNext (arrived : Bool) (next : PhaseState) (f : Phase p.width) : Phase p.width :=
  if arrived then { f with timer := 0, state := next }
  else if f.timer.toNat < p.lockedTimeout - 1 then { f with timer := f.timer + 1 }
  else { f with timer := 0, state := .reset }

def phaseNext (synced doneLatch : Bool) (f : Phase p.width) : Phase p.width :=
  match f.state with
  | .idle => { idleNext p synced f with reset := false, en := false }
  | .step =>
      { handshakeNext p (!doneLatch) .ack f with locked := false, reset := false, en := true }
  | .ack =>
      { handshakeNext p doneLatch .idle f with locked := false, reset := false, en := false }
  | .reset =>
      { locked := false, reset := true, en := false, updn := false, post := 0, timer := 0,
        state := .idle }

def synced {w : Nat} (r : Regs w) : Bool := r.hsync.locked && r.vsync.locked

def step (r : Regs p.width) (i : Input) : Regs p.width :=
  { hsync := r.hsync.next p.hsyncMinPeriod p.hsyncMaxPeriod i.hsync
    vsync := r.vsync.next p.vsyncMinPeriod p.vsyncMaxPeriod i.vsync
    doneNegMeta := i.dpsDone
    doneNegLatch := r.doneNegMeta
    doneMeta := r.doneNegLatch
    doneLatch := r.doneMeta
    phase := phaseNext p (synced r) r.doneLatch r.phase }

/-- The registers before cycle `n` after the reset. -/
def run (inp : Nat → Input) (n : Nat) : Regs p.width := trace (step p) reset inp n

end Step

/-! ## The outputs -/

section Outputs

variable {w : Nat}

def dpsReset (r : Regs w) : Bool := r.phase.reset

def dpsStep (r : Regs w) : Bool := r.phase.en

def dpsDir (r : Regs w) : Bool := r.phase.updn

def dpsLocked (r : Regs w) : Bool := r.phase.locked

end Outputs

/-! ## The post steps -/

section PostSteps

variable (p : Params) (inp : Nat → Input)

/-- In cycle `n` the machine makes a step of the search. -/
def Searches (n : Nat) : Prop :=
  (run p inp n).phase.state = .idle ∧ synced (run p inp n) = false ∧
    ¬(run p inp n).phase.timer.toNat < p.lockedTimeout - 1

/-- After cycle `s` the syncs are right whenever the machine looks at them, and the PLL answers
each step within the time. -/
structure Undisturbed (s : Nat) : Prop where
  synced : ∀ n, s < n → (run p inp n).phase.state = .idle → synced (run p inp n) = true
  step : ∀ n, s < n → (run p inp n).phase.state = .step →
    ¬(run p inp n).phase.timer.toNat < p.lockedTimeout - 1 → (run p inp n).doneLatch = false
  ack : ∀ n, s < n → (run p inp n).phase.state = .ack →
    ¬(run p inp n).phase.timer.toNat < p.lockedTimeout - 1 → (run p inp n).doneLatch = true

/-- The direction of the step that is begun at the end of a cycle. -/
def beginsStep {w : Nat} (r r' : Regs w) : Option Bool :=
  if r.phase.state = .idle ∧ r'.phase.state = .step then some (dpsDir r') else none

/-- The directions of the steps begun in the `m` cycles after cycle `s`. -/
def stepsAfter (s m : Nat) : List Bool :=
  events (fun k => beginsStep (run p inp (s + k + 1)) (run p inp (s + k + 2))) m

/-- The lock is asserted for good some time after cycle `s`, and as long as it is asserted exactly
the post steps have been made, in the direction of their sign. -/
def MakesPostSteps (s : Nat) : Prop :=
  (∃ m, ∀ k, m ≤ k → dpsLocked (run p inp (s + k + 1)) = true) ∧
    ∀ m, dpsLocked (run p inp (s + m + 1)) = true →
      stepsAfter p inp s m = List.replicate p.postSteps.natAbs (decide (0 < p.postSteps))

end PostSteps

section Machine

variable {p : Params} {f : Phase p.width} {n : Nat}

def Params.made (p : Params) : Nat := (BitVec.ofInt (p.width + 1) p.postSteps).toNat

/-- The machine after the search: `steps` are the steps made of `n`. -/
structure Counts (p : Params) (f : Phase p.width) (steps : List Bool) (n : Nat) : Prop where
  state : f.state ≠ .reset
  timer : f.timer.toNat < p.lockedTimeout
  le : f.post.toNat ≤ n
  steps : steps = List.replicate (n - f.post.toNat) true
  locked : f.locked = true → f.state = .idle ∧ f.post.toNat = 0

def rest (p : Params) (f : Phase p.width) : Nat :=
  f.post.toNat * (2 * p.lockedTimeout + 2) +
    match f.state with
    | .step => p.lockedTimeout + 1 + (p.lockedTimeout - f.timer.toNat)
    | .ack => 1 + (p.lockedTimeout - f.timer.toNat)
    | _ => 0

theorem timer_succ (h : f.timer.toNat < p.lockedTimeout - 1) :
    (f.timer + 1).toNat = f.timer.toNat + 1 := by
  have hwidth : p.lockedTimeout ≤ 2 ^ p.width := Nat.le_pow_clog (by omega) _
  exact toNat_add_one (by omega)

theorem not_negative_of_zero {w : Nat} {a : BitVec w} (h : a.toNat = 0) : ¬a.toInt < 0 := by
  rw [BitVec.toInt_eq_toNat_cond, h]
  split <;> omega

theorem handshake_moves (arrived : Bool) (next : PhaseState)
    (htime : ¬f.timer.toNat < p.lockedTimeout - 1 → arrived = true) :
    (handshakeNext p arrived next f).state = next ∧
        (handshakeNext p arrived next f).timer.toNat = 0 ∨
      (handshakeNext p arrived next f).state = f.state ∧ f.timer.toNat < p.lockedTimeout - 1 ∧
        (handshakeNext p arrived next f).timer.toNat = f.timer.toNat + 1 := by
  unfold handshakeNext
  split
  · exact .inl ⟨rfl, BitVec.toNat_zero⟩
  · rename_i hmissing
    split
    · rename_i hlt
      exact .inr ⟨rfl, hlt, timer_succ hlt⟩
    · rename_i hover
      exact absurd (htime hover) hmissing

theorem handshake_post (arrived : Bool) (next : PhaseState) :
    (handshakeNext p arrived next f).post = f.post := by
  unfold handshakeNext
  split
  · rfl
  · split <;> rfl

theorem handshake_counts {steps : List Bool} {g : Phase p.width} (arrived : Bool)
    (next : PhaseState) (h : Counts p f steps n) (hnext : next ≠ .reset)
    (htime : ¬f.timer.toNat < p.lockedTimeout - 1 → arrived = true)
    (hg : g.post = (handshakeNext p arrived next f).post ∧
      g.timer = (handshakeNext p arrived next f).timer ∧
      g.state = (handshakeNext p arrived next f).state ∧ g.locked = false) :
    Counts p g steps n ∧ g.post = f.post ∧
      (g.state = next ∧ g.timer.toNat = 0 ∨
        g.state = f.state ∧ g.timer.toNat = f.timer.toNat + 1) := by
  rcases hg with ⟨hpost, htimer, hstate, hlocked⟩
  have hmoves := handshake_moves arrived next htime
  have htwo := p.two_le_lockedTimeout
  rw [handshake_post] at hpost
  rw [← htimer, ← hstate] at hmoves
  constructor
  · constructor
    · rcases hmoves with ⟨hs, _⟩ | ⟨hs, _⟩
      · rw [hs]
        exact hnext
      · rw [hs]
        exact h.state
    · rcases hmoves with ⟨_, ht⟩ | ⟨_, hlt, ht⟩ <;> omega
    · rw [hpost]
      exact h.le
    · rw [hpost]
      exact h.steps
    · intro hl
      exact absurd (hlocked.symm.trans hl) Bool.false_ne_true
  · constructor
    · exact hpost
    · rcases hmoves with hdone | ⟨hs, _, ht⟩
      · exact .inl hdone
      · exact .inr ⟨hs, ht⟩

theorem step_waits {steps : List Bool} (y d : Bool) (h : Counts p f steps n) (hs : f.state = .step)
    (htime : ¬f.timer.toNat < p.lockedTimeout - 1 → d = false) :
    Counts p (phaseNext p y d f) steps n ∧ rest p (phaseNext p y d f) < rest p f := by
  have hnext : phaseNext p y d f = { handshakeNext p (!d) .ack f with
      locked := false, reset := false, en := true } := by
    unfold phaseNext
    rw [hs]
  have htimer := h.timer
  rcases handshake_counts (!d) .ack h nofun (fun hover => by rw [htime hover]; rfl)
    (g := phaseNext p y d f) (by rw [hnext]; exact ⟨rfl, rfl, rfl, rfl⟩) with ⟨hc, hpost, hmoves⟩
  constructor
  · exact hc
  · unfold rest
    rw [hpost, hs]
    rcases hmoves with ⟨hstate, hzero⟩ | ⟨hstate, hsucc⟩
    · rw [hstate, hzero]
      show _ + (1 + (p.lockedTimeout - 0)) < _ + (p.lockedTimeout + 1 + _)
      omega
    · rw [hstate, hs, hsucc]
      show _ + (p.lockedTimeout + 1 + _) < _ + (p.lockedTimeout + 1 + _)
      omega

theorem ack_waits {steps : List Bool} (y d : Bool) (h : Counts p f steps n) (hs : f.state = .ack)
    (htime : ¬f.timer.toNat < p.lockedTimeout - 1 → d = true) :
    Counts p (phaseNext p y d f) steps n ∧ rest p (phaseNext p y d f) < rest p f := by
  have hnext : phaseNext p y d f = { handshakeNext p d .idle f with
      locked := false, reset := false, en := false } := by
    unfold phaseNext
    rw [hs]
  have htimer := h.timer
  rcases handshake_counts d .idle h nofun htime (g := phaseNext p y d f)
    (by rw [hnext]; exact ⟨rfl, rfl, rfl, rfl⟩) with ⟨hc, hpost, hmoves⟩
  constructor
  · exact hc
  · unfold rest
    rw [hpost, hs]
    rcases hmoves with ⟨hstate, hzero⟩ | ⟨hstate, hsucc⟩
    · rw [hstate]
      show _ + 0 < _ + (1 + _)
      omega
    · rw [hstate, hs, hsucc]
      show _ + (1 + _) < _ + (1 + _)
      omega

/-- The idle state with post steps left begins one, upwards. -/
theorem idle_steps {steps : List Bool} (d : Bool) (h : Counts p f steps n) (hs : f.state = .idle)
    (hpost : 0 < f.post.toNat) :
    (phaseNext p true d f).state = .step ∧ (phaseNext p true d f).updn = true ∧
      (phaseNext p true d f).post.toNat + 1 = f.post.toNat ∧
      Counts p (phaseNext p true d f) (steps ++ [true]) n := by
  have hnext : phaseNext p true d f =
      { f with
        locked := false, updn := true, post := f.post - 1, state := .step, reset := false,
        en := false } := by
    unfold phaseNext idleNext
    rw [hs, if_pos rfl, if_pos hpost]
  have hsub : (f.post - 1).toNat = f.post.toNat - 1 := toNat_sub_one hpost
  have hle := h.le
  rw [hnext]
  refine ⟨rfl, rfl, by simp only [hsub]; omega, ?_⟩
  constructor
  · exact nofun
  · exact h.timer
  · simp only [hsub]
    omega
  · simp only [hsub]
    rw [h.steps, show n - (f.post.toNat - 1) = n - f.post.toNat + 1 by omega,
      List.replicate_succ']
  · exact nofun

theorem idle_locks {steps : List Bool} (d : Bool) (h : Counts p f steps n) (hs : f.state = .idle)
    (hpost : f.post.toNat = 0) :
    (phaseNext p true d f).state = .idle ∧ (phaseNext p true d f).locked = true ∧
      (phaseNext p true d f).post.toNat = 0 ∧ Counts p (phaseNext p true d f) steps n := by
  have hnext : phaseNext p true d f = { f with locked := true, reset := false, en := false } := by
    unfold phaseNext idleNext
    rw [hs, if_pos rfl, if_neg (by omega), if_neg (not_negative_of_zero hpost)]
  rw [hnext]
  refine ⟨hs, rfl, hpost, ?_⟩
  constructor
  · exact h.state
  · exact h.timer
  · exact h.le
  · exact h.steps
  · exact fun _ => ⟨hs, hpost⟩

end Machine

/-! ## The run after a step of the search -/

section Run

variable {p : Params} {inp : Nat → Input} {s : Nat}

theorem run_phase (n : Nat) :
    (run p inp (n + 1)).phase =
      phaseNext p (synced (run p inp n)) (run p inp n).doneLatch (run p inp n).phase := rfl

theorem stepsAfter_succ (m : Nat) :
    stepsAfter p inp s (m + 1) = stepsAfter p inp s m ++
      (beginsStep (run p inp (s + m + 1)) (run p inp (s + m + 2))).toList := events_succ _ m

theorem search_counts (h : Searches p inp s) :
    Counts p (run p inp (s + 1)).phase (stepsAfter p inp s 0) p.made := by
  rcases h with ⟨hstate, hsynced, htimer⟩
  have htwo := p.two_le_lockedTimeout
  have hnext : (run p inp (s + 1)).phase =
      { (run p inp s).phase with
        locked := false, updn := true, post := BitVec.ofInt (p.width + 1) p.postSteps, timer := 0,
        state := .step, reset := false, en := false } := by
    rw [run_phase]
    unfold phaseNext idleNext
    rw [hstate, hsynced, if_neg Bool.false_ne_true, if_neg htimer]
  rw [hnext]
  constructor
  · exact nofun
  · show BitVec.toNat 0 < _
    rw [show BitVec.toNat (0 : BitVec p.width) = 0 from BitVec.toNat_zero]
    omega
  · exact Nat.le_refl _
  · show [] = List.replicate (p.made - p.made) true
    rw [Nat.sub_self]
    rfl
  · exact nofun

theorem counts_succ (hu : Undisturbed p inp s) {m : Nat}
    (h : Counts p (run p inp (s + m + 1)).phase (stepsAfter p inp s m) p.made) :
    Counts p (run p inp (s + m + 2)).phase (stepsAfter p inp s (m + 1)) p.made ∧
      (rest p (run p inp (s + m + 2)).phase < rest p (run p inp (s + m + 1)).phase ∨
        (run p inp (s + m + 1)).phase.state = .idle ∧
          (run p inp (s + m + 1)).phase.post.toNat = 0) := by
  have hnext : (run p inp (s + m + 2)).phase = _ := run_phase (s + m + 1)
  have htimer := h.timer
  rw [stepsAfter_succ]
  unfold beginsStep dpsDir
  cases hs : (run p inp (s + m + 1)).phase.state with
  | idle =>
      rw [hu.synced _ (by omega) hs] at hnext
      rw [hnext]
      rcases Nat.eq_zero_or_pos (run p inp (s + m + 1)).phase.post.toNat with hpost | hpost
      · rcases idle_locks (run p inp (s + m + 1)).doneLatch h hs hpost with ⟨hstate, _, _, hc⟩
        rw [hstate, if_neg (fun hboth => by cases hboth.2), Option.toList_none, List.append_nil]
        exact ⟨hc, .inr ⟨rfl, hpost⟩⟩
      · rcases idle_steps (run p inp (s + m + 1)).doneLatch h hs hpost with
          ⟨hstate, hupdn, hsub, hc⟩
        rw [hstate, hupdn, if_pos ⟨rfl, rfl⟩]
        refine ⟨hc, .inl ?_⟩
        unfold rest
        rw [hstate, hs, ← hsub, Nat.add_mul]
        show _ + (p.lockedTimeout + 1 + (p.lockedTimeout - _)) < _
        omega
  | step =>
      have hwaits := step_waits (synced (run p inp (s + m + 1))) (run p inp (s + m + 1)).doneLatch h
        hs (hu.step _ (by omega) hs)
      rw [← hnext] at hwaits
      rw [if_neg (fun hboth => by cases hboth.1), Option.toList_none, List.append_nil]
      exact ⟨hwaits.1, .inl hwaits.2⟩
  | ack =>
      have hwaits := ack_waits (synced (run p inp (s + m + 1))) (run p inp (s + m + 1)).doneLatch h
        hs (hu.ack _ (by omega) hs)
      rw [← hnext] at hwaits
      rw [if_neg (fun hboth => by cases hboth.1), Option.toList_none, List.append_nil]
      exact ⟨hwaits.1, .inl hwaits.2⟩
  | reset => exact absurd hs h.state

theorem counts_run (hs : Searches p inp s) (hu : Undisturbed p inp s) (m : Nat) :
    Counts p (run p inp (s + m + 1)).phase (stepsAfter p inp s m) p.made := by
  induction m with
  | zero => exact search_counts hs
  | succ m ih => exact (counts_succ hu ih).1

theorem exists_idle (hs : Searches p inp s) (hu : Undisturbed p inp s) :
    ∃ m, (run p inp (s + m + 1)).phase.state = .idle ∧
      (run p inp (s + m + 1)).phase.post.toNat = 0 := by
  have hfalls : ∀ m, m ≥ 0 → ¬((run p inp (s + m + 1)).phase.state = .idle ∧
      (run p inp (s + m + 1)).phase.post.toNat = 0) →
      rest p (run p inp (s + (m + 1) + 1)).phase < rest p (run p inp (s + m + 1)).phase := by
    intro m _ hbusy
    exact (counts_succ hu (counts_run hs hu m)).2.resolve_right hbusy
  rcases exists_of_rank (fun m => rest p (run p inp (s + m + 1)).phase) hfalls with ⟨m, _, hm⟩
  exact ⟨m, hm⟩

theorem locked_of_idle (hs : Searches p inp s) (hu : Undisturbed p inp s) {m : Nat}
    (hidle : (run p inp (s + m + 1)).phase.state = .idle)
    (hpost : (run p inp (s + m + 1)).phase.post.toNat = 0) (j : Nat) :
    ((run p inp (s + (m + j) + 1)).phase.state = .idle ∧
        (run p inp (s + (m + j) + 1)).phase.post.toNat = 0) ∧
      dpsLocked (run p inp (s + (m + j + 1) + 1)) = true := by
  have hone : ∀ k, (run p inp (s + k + 1)).phase.state = .idle →
      (run p inp (s + k + 1)).phase.post.toNat = 0 →
      ((run p inp (s + k + 2)).phase.state = .idle ∧
        (run p inp (s + k + 2)).phase.post.toNat = 0) ∧
      dpsLocked (run p inp (s + k + 2)) = true := by
    intro k hk hk'
    have hlocks := idle_locks (run p inp (s + k + 1)).doneLatch (counts_run hs hu k) hk hk'
    have hnext : (run p inp (s + k + 2)).phase = _ := run_phase (s + k + 1)
    rw [hu.synced _ (by omega) hk] at hnext
    rw [← hnext] at hlocks
    exact ⟨⟨hlocks.1, hlocks.2.2.1⟩, hlocks.2.1⟩
  induction j with
  | zero => exact ⟨⟨hidle, hpost⟩, (hone m hidle hpost).2⟩
  | succ j ih =>
      have hnow := (hone (m + j) ih.1.1 ih.1.2).1
      exact ⟨hnow, (hone (m + j + 1) hnow.1 hnow.2).2⟩

/-- What is made while the lock is asserted is the count without its sign, all of it upwards. -/
theorem steps_of_locked (hs : Searches p inp s) (hu : Undisturbed p inp s) {m : Nat}
    (hl : dpsLocked (run p inp (s + m + 1)) = true) :
    stepsAfter p inp s m = List.replicate p.made true := by
  have hc := counts_run hs hu m
  have hzero := (hc.locked hl).2
  rw [hc.steps, hzero, Nat.sub_zero]

theorem exists_locked (hs : Searches p inp s) (hu : Undisturbed p inp s) :
    ∃ m, ∀ k, m ≤ k → dpsLocked (run p inp (s + k + 1)) = true := by
  rcases exists_idle hs hu with ⟨m, hidle, hpost⟩
  use m + 1
  intro k hk
  have hl := (locked_of_idle hs hu hidle hpost (k - (m + 1))).2
  rw [show m + (k - (m + 1)) + 1 = k by omega] at hl
  exact hl

end Run

theorem made_of_nonneg {p : Params} (h : 0 ≤ p.postSteps) (hrange : p.postSteps < 2 ^ p.width) :
    p.made = p.postSteps.natAbs := by
  unfold Params.made
  rw [BitVec.toNat_ofInt, Int.emod_eq_of_lt h]
  · omega
  · push_cast
    rw [Int.pow_succ]
    omega

/-- The block makes its post steps exactly if their number is not negative. -/
theorem makesPostSteps_iff (p : Params) (inp : Nat → Input) (s : Nat)
    (hrange : -2 ^ p.width ≤ p.postSteps ∧ p.postSteps < 2 ^ p.width)
    (hs : Searches p inp s) (hu : Undisturbed p inp s) :
    MakesPostSteps p inp s ↔ 0 ≤ p.postSteps := by
  rcases exists_locked hs hu with ⟨m, hm⟩
  constructor
  · intro hmakes
    have hclaim := hmakes.2 m (hm m (Nat.le_refl m))
    rw [steps_of_locked hs hu (hm m (Nat.le_refl m))] at hclaim
    by_contra hneg
    rw [List.replicate_inj] at hclaim
    rcases hclaim.2 with hzero | hup
    · omega
    · exact hneg (of_decide_eq_true hup.symm).le
  · intro hnonneg
    constructor
    · exact ⟨m, hm⟩
    · intro k hk
      rw [steps_of_locked hs hu hk, made_of_nonneg hnonneg hrange.2]
      rcases Int.lt_or_eq_of_le hnonneg with hpos | hzero
      · rw [decide_eq_true hpos]
      · rw [← hzero]
        rfl

/-! ## One post step up and one down -/

/-- Syncs whose periods are never too long, and a time-out of two cycles. -/
def shortTimeout (postSteps : Int) : Params :=
  { hsyncMinPeriod := 0, hsyncMaxPeriod := 65535, vsyncMinPeriod := 0, vsyncMaxPeriod := 16777215,
    lockedTimeout := 2, postSteps := postSteps, two_le_lockedTimeout := Nat.le_refl 2 }

/-- Both syncs rise once, and the done signal is high in every third cycle. -/
def quickPll (n : Nat) : Input := { hsync := true, vsync := true, dpsDone := n % 3 = 0 }

structure Settled {w : Nat} (r : Regs w) : Prop where
  hsync : r.hsync.clkMeta = true ∧ r.hsync.clkLatch = 0b11#2 ∧ r.hsync.locked = true
  vsync : r.vsync.clkMeta = true ∧ r.vsync.clkLatch = 0b11#2 ∧ r.vsync.locked = true
  state : r.phase.state = .idle
  post : r.phase.post.toNat = 0

theorem sync_settled {w : Nat} {q : Sync w} {maximum : Nat} (minimum : Nat)
    (hmax : 2 ^ w ≤ maximum + 1)
    (h : q.clkMeta = true ∧ q.clkLatch = 0b11#2 ∧ q.locked = true) :
    (q.next minimum maximum true).clkMeta = true ∧
      (q.next minimum maximum true).clkLatch = 0b11#2 ∧
      (q.next minimum maximum true).locked = true := by
  have hshort : ¬q.period.toNat > maximum := by
    have hlt := q.period.isLt
    omega
  unfold Sync.next
  rw [if_neg hshort, h.1, h.2.1, if_neg (by decide)]
  exact ⟨rfl, rfl, h.2.2⟩

theorem settled_step {postSteps : Int} {r : Regs (shortTimeout postSteps).width} {n : Nat}
    (h : Settled r) : Settled (step (shortTimeout postSteps) r (quickPll n)) := by
  have hlocks : phaseNext (shortTimeout postSteps) (synced r) r.doneLatch r.phase =
      { r.phase with locked := true, reset := false, en := false } := by
    unfold phaseNext idleNext synced
    have hpost := h.post
    rw [h.state, h.hsync.2.2, h.vsync.2.2, Bool.and_self, if_pos rfl, if_neg (by omega),
      if_neg (not_negative_of_zero h.post)]
    dsimp only
    rw [h.state]
  constructor
  · exact sync_settled 0 (Nat.le_refl 65536) h.hsync
  · exact sync_settled 0 (Nat.le_refl 16777216) h.vsync
  · show (phaseNext _ (synced r) r.doneLatch r.phase).state = _
    rw [hlocks]
    exact h.state
  · show (phaseNext _ (synced r) r.doneLatch r.phase).post.toNat = _
    rw [hlocks]
    exact h.post

def quickOk {w : Nat} (n : Nat) (r : Regs w) (_ : Input) : Bool :=
  decide (n ≤ 2 ∨ r.phase.timer.toNat < 1 ∧ (r.phase.state = .idle → synced r = true))

theorem quick_undisturbed {postSteps : Int}
    (hbegin : holdsAlong (step (shortTimeout postSteps)) quickOk quickPll 0 14 reset = true)
    (hend : Settled (run (shortTimeout postSteps) quickPll 14)) :
    Undisturbed (shortTimeout postSteps) quickPll 2 := by
  have hearly : ∀ n, 2 < n → n < 14 →
      (run (shortTimeout postSteps) quickPll n).phase.timer.toNat < 1 ∧
        ((run (shortTimeout postSteps) quickPll n).phase.state = .idle →
          synced (run (shortTimeout postSteps) quickPll n) = true) := by
    intro n hn hn'
    exact (of_decide_eq_true (holdsAlong_trace hbegin hn')).resolve_left (by omega)
  have hlate : ∀ n, 14 ≤ n → Settled (run (shortTimeout postSteps) quickPll n) := by
    intro n hn
    induction hn with
    | refl => exact hend
    | step _ ih => exact settled_step ih
  constructor
  · intro n hn hidle
    rcases Nat.lt_or_ge n 14 with hlt | hge
    · exact (hearly n hn hlt).2 hidle
    · unfold synced
      rw [(hlate n hge).hsync.2.2, (hlate n hge).vsync.2.2]
      rfl
  · intro n hn hstep hover
    rcases Nat.lt_or_ge n 14 with hlt | hge
    · exact absurd (hearly n hn hlt).1 hover
    · exact absurd (hstep.symm.trans (hlate n hge).state) nofun
  · intro n hn hack hover
    rcases Nat.lt_or_ge n 14 with hlt | hge
    · exact absurd (hearly n hn hlt).1 hover
    · exact absurd (hack.symm.trans (hlate n hge).state) nofun

theorem up_undisturbed : Undisturbed (shortTimeout 1) quickPll 2 :=
  quick_undisturbed (by decide +kernel)
    ⟨by decide +kernel, by decide +kernel, by decide +kernel, by decide +kernel⟩

theorem down_undisturbed : Undisturbed (shortTimeout (-1)) quickPll 2 :=
  quick_undisturbed (by decide +kernel)
    ⟨by decide +kernel, by decide +kernel, by decide +kernel, by decide +kernel⟩

theorem makesPostSteps_up : MakesPostSteps (shortTimeout 1) quickPll 2 :=
  (makesPostSteps_iff (shortTimeout 1) quickPll 2 (by decide +kernel)
    ⟨by decide +kernel, by decide +kernel, by decide +kernel⟩ up_undisturbed).mpr (by decide)

/-- One post step down becomes three up. -/
theorem post_step_down_goes_up :
    Searches (shortTimeout (-1)) quickPll 2 ∧ Undisturbed (shortTimeout (-1)) quickPll 2 ∧
      stepsAfter (shortTimeout (-1)) quickPll 2 12 = [true, true, true] ∧
      ¬MakesPostSteps (shortTimeout (-1)) quickPll 2 := by
  constructor
  · exact ⟨by decide +kernel, by decide +kernel, by decide +kernel⟩
  constructor
  · exact down_undisturbed
  constructor
  · decide +kernel
  · intro hmakes
    exact absurd (hmakes.2 12 (by decide +kernel)) (by decide +kernel)

end Mfi.LdiDps2px
