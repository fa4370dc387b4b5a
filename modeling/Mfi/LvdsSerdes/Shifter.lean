import Mathlib.Algebra.Group.Nat.Defs
import Mathlib.Logic.Function.Iterate
import Mathlib.Tactic.Choose
import Mfi.Core.History
import Mfi.Core.Trace

/-!
# Word alignment of the second LVDS receiver

`LVDS_Shifter` of `LVDS_Receiver_Serdes.sv` watches the horizontal sync of the pixels. In each
round it measures one sync pulse, and either says that the words are locked or asks the
deserializer for a slip by one bit and waits.
-/

namespace Mfi.LvdsSerdes

open Core

/-- `Phase_State`. The codes of the register without a name behave like `reset`. -/
inductive PhaseState where
  | idle
  | blank
  | shift
  | wait
  | reset
  deriving DecidableEq, Repr

/-- The `SyncCounter` has ten bits; the other two stop at their limits. -/
structure Shifter where
  phaseState : PhaseState
  timeout : Nat
  syncCounter : Nat
  delay : Nat
  align : Bool
  locked : Bool
  deriving DecidableEq, Repr

namespace Shifter

def idleTimeout : Nat := 2048

def delayTo : Nat := 192

/-- One parallel clock. The reset of the instances is tied to zero. -/
def step (r : Shifter) (hsync : Bool) : Shifter :=
  match r.phaseState with
  | .idle =>
      if r.timeout < idleTimeout - 1 then
        { r with
          phaseState := if !hsync then .blank else .idle
          timeout := r.timeout + 1 }
      else { r with phaseState := .shift }
  | .blank =>
      if r.timeout < idleTimeout - 1 then
        if !hsync then
          { r with syncCounter := (r.syncCounter + 1) % 2 ^ 10, timeout := r.timeout + 1 }
        else if r.syncCounter = 22 ∨ r.syncCounter = 68 then { r with phaseState := .shift }
        else { r with timeout := 0, phaseState := .reset, locked := true }
      else { r with phaseState := .shift }
  | .shift => { r with locked := false, align := true, phaseState := .wait }
  | .wait =>
      if r.delay < delayTo then { r with delay := r.delay + 1 }
      else { r with phaseState := .reset }
  | .reset =>
      { r with delay := 0, align := false, syncCounter := 0, timeout := 0, phaseState := .idle }

def fresh (locked : Bool) : Shifter := ⟨.idle, 0, 0, 0, false, locked⟩

/-- Before clock `n` of the run from `s`. -/
abbrev run (s : Shifter) (hsync : Nat → Bool) (n : Nat) : Shifter := trace step s hsync n

end Shifter

/-! ## Rounds, seen from outside -/

/-- From cycle `n` on the sync is high for `w` cycles, then low for `l`. -/
structure Pulse (hsync : Nat → Bool) (n w l : Nat) : Prop where
  high : ∀ k < w, hsync (n + k) = true
  pos : 0 < l
  low : ∀ k < l, hsync (n + w + k) = false
  ends : hsync (n + w + l) = true

/-- The lengths that ask for a slip. The counter does not count the first cycle, and wraps. -/
def Slips (l : Nat) : Prop := (l - 1) % 2 ^ 10 = 22 ∨ (l - 1) % 2 ^ 10 = 68

/-- A round from cycle `n` to another one, and whether the words are locked then. -/
inductive Round (hsync : Nat → Bool) (n : Nat) : Nat → Bool → Prop where
  | locks {w l : Nat} : Pulse hsync n w l → w + l < 2047 → ¬Slips l →
      Round hsync n (n + w + l + 2) true
  | slips {w l : Nat} : Pulse hsync n w l → w + l < 2047 → Slips l →
      Round hsync n (n + w + l + 196) false
  | silent : (∀ w l, Pulse hsync n w l → 2047 ≤ w + l) → Round hsync n (n + 2047 + 196) false

/-- The output `align` in cycle `c` of a round to `n'`. -/
def alignIn (n' : Nat) (ok : Bool) (c : Nat) : Bool := !ok && decide (n' - 194 ≤ c)

/-- The output `locked` in cycle `c` of a round to `n'` that began with `old`. -/
def lockedIn (n' : Nat) (ok old : Bool) (c : Nat) : Bool :=
  if (if ok then n' - 1 else n' - 194) ≤ c then ok else old

section Pulses

variable {hsync : Nat → Bool} {n w l w' l' : Nat}

theorem Pulse.le_high (h : Pulse hsync n w l) (hhigh : ∀ k < w', hsync (n + k) = true) :
    w' ≤ w := by
  by_contra hlt
  have hlow := h.low 0 h.pos
  rw [Nat.add_zero, hhigh w (by omega)] at hlow
  exact Bool.false_ne_true hlow.symm

theorem Pulse.le_low (h : Pulse hsync n w l) (hlow : ∀ k < l', hsync (n + w + k) = false) :
    l' ≤ l := by
  by_contra hlt
  have hends := h.ends
  rw [hlow l (by omega)] at hends
  exact Bool.false_ne_true hends

theorem Pulse.unique (h : Pulse hsync n w l) (h' : Pulse hsync n w' l') : w' = w ∧ l' = l := by
  have hw : w' = w := Nat.le_antisymm (h.le_high h'.high) (h'.le_high h.high)
  subst hw
  exact ⟨rfl, Nat.le_antisymm (h.le_low h'.low) (h'.le_low h.low)⟩

theorem exists_round (hsync : Nat → Bool) (n : Nat) : ∃ n' ok, Round hsync n n' ok := by
  by_cases hpulse : ∃ w l, Pulse hsync n w l ∧ w + l < 2047
  · obtain ⟨w, l, hp, hlt⟩ := hpulse
    by_cases hslips : Slips l
    · exact ⟨_, _, .slips hp hlt hslips⟩
    · exact ⟨_, _, .locks hp hlt hslips⟩
  · refine ⟨_, _, .silent fun w l hp => ?_⟩
    by_contra hlt
    exact hpulse ⟨w, l, hp, by omega⟩

theorem Round.lt {n' : Nat} {ok : Bool} (h : Round hsync n n' ok) : n < n' := by
  cases h with
  | locks hp hlt hslips => omega
  | slips hp hlt hslips => omega
  | silent hnone => omega

end Pulses

namespace Shifter

variable {s : Shifter} {hsync : Nat → Bool} {n : Nat} {b : Bool}

/-! ## The parts of a round -/

theorem run_succ (s : Shifter) (hsync : Nat → Bool) (n : Nat) :
    run s hsync (n + 1) = (run s hsync n).step (hsync n) := rfl

theorem step_idle {t : Nat} (ht : t < 2047) (hs : Bool) :
    step ⟨.idle, t, 0, 0, false, b⟩ hs =
      ⟨if hs then .idle else .blank, t + 1, 0, 0, false, b⟩ := by
  unfold step
  dsimp only
  rw [if_pos (show t < idleTimeout - 1 from ht)]
  cases hs <;> rfl

theorem step_low {t l : Nat} (ht : t < 2047) :
    step ⟨.blank, t, l % 2 ^ 10, 0, false, b⟩ false =
      ⟨.blank, t + 1, (l + 1) % 2 ^ 10, 0, false, b⟩ := by
  unfold step
  dsimp only
  rw [if_pos (show t < idleTimeout - 1 from ht), Nat.mod_add_mod]
  rfl

theorem step_ends {t c : Nat} (ht : t < 2047) :
    step ⟨.blank, t, c, 0, false, b⟩ true =
      if c = 22 ∨ c = 68 then ⟨.shift, t, c, 0, false, b⟩ else ⟨.reset, 0, c, 0, false, true⟩ := by
  unfold step
  dsimp only
  rw [if_pos (show t < idleTimeout - 1 from ht)]
  rfl

theorem run_watch (h : run s hsync n = fresh b) {d : Nat} (hd : d ≤ 2047)
    (hnone : ∀ w l, Pulse hsync n w l → d ≤ w + l) :
    (run s hsync (n + d) = ⟨.idle, d, 0, 0, false, b⟩ ∧ ∀ k < d, hsync (n + k) = true) ∨
      ∃ w l, w + (l + 1) = d ∧ (∀ k < w, hsync (n + k) = true) ∧
        (∀ k < l + 1, hsync (n + w + k) = false) ∧
        run s hsync (n + d) = ⟨.blank, d, l % 2 ^ 10, 0, false, b⟩ := by
  induction d with
  | zero =>
      left
      constructor
      · exact h
      · intro k hk
        omega
  | succ d ih =>
      have hbefore := ih (by omega) fun w l hp => by
        have hle := hnone w l hp
        omega
      rw [← Nat.add_assoc, run_succ]
      rcases hbefore with ⟨hidle, hhigh⟩ | ⟨w, l, hsum, hhigh, hlow, hblank⟩
      · rw [hidle, step_idle (by omega)]
        cases hs : hsync (n + d) with
        | true =>
            left
            refine ⟨rfl, fun k hk => ?_⟩
            rcases Nat.lt_succ_iff_lt_or_eq.1 hk with hless | rfl
            · exact hhigh k hless
            · exact hs
        | false =>
            right
            refine ⟨d, 0, rfl, hhigh, fun k hk => ?_, rfl⟩
            rw [show k = 0 by omega]
            exact hs
      · have hplace : n + w + (l + 1) = n + d := by omega
        have hs : hsync (n + d) = false := by
          rw [Bool.eq_false_iff]
          intro hends
          have hle := hnone w (l + 1) ⟨hhigh, Nat.succ_pos l, hlow, by rw [hplace]; exact hends⟩
          omega
        right
        refine ⟨w, l + 1, by omega, hhigh, fun k hk => ?_, ?_⟩
        · rcases Nat.lt_succ_iff_lt_or_eq.1 hk with hless | rfl
          · exact hlow k hless
          · rw [hplace]
            exact hs
        · rw [hblank, hs, step_low (by omega)]

theorem outputs_watch (h : run s hsync n = fresh b) {d : Nat} (hd : d ≤ 2047)
    (hnone : ∀ w l, Pulse hsync n w l → d ≤ w + l) :
    (run s hsync (n + d)).align = false ∧ (run s hsync (n + d)).locked = b := by
  rcases run_watch h hd hnone with ⟨hidle, _⟩ | ⟨w, l, _, _, _, hblank⟩
  · rw [hidle]
    exact ⟨rfl, rfl⟩
  · rw [hblank]
    exact ⟨rfl, rfl⟩

theorem run_pulse (h : run s hsync n = fresh b) {w l : Nat} (hp : Pulse hsync n w l)
    (hlt : w + l < 2047) :
    run s hsync (n + w + l) = ⟨.blank, w + l, (l - 1) % 2 ^ 10, 0, false, b⟩ := by
  have hpos := hp.pos
  have hnone : ∀ w' l', Pulse hsync n w' l' → w + l ≤ w' + l' := by
    intro w' l' hp'
    obtain ⟨hw, hl⟩ := hp.unique hp'
    omega
  rw [Nat.add_assoc]
  rcases run_watch h (Nat.le_of_lt hlt) hnone with ⟨_, hhigh⟩ | ⟨w', l', hsum, hhigh, hlow, hblank⟩
  · have hle := hp.le_high hhigh
    omega
  · have hle := hp.le_high hhigh
    have hw : w' = w := by
      by_contra hne
      have hfalse := hlow 0 (Nat.succ_pos l')
      rw [Nat.add_zero, hp.high w' (by omega)] at hfalse
      exact Bool.false_ne_true hfalse.symm
    rw [hblank, show l - 1 = l' by omega]

theorem run_shift {t c : Nat} (h : run s hsync n = ⟨.shift, t, c, 0, false, b⟩) {j : Nat}
    (hj : j ≤ 192) : run s hsync (n + 1 + j) = ⟨.wait, t, c, j, true, false⟩ := by
  induction j with
  | zero =>
      rw [Nat.add_zero, run_succ, h]
      rfl
  | succ j ih =>
      rw [← Nat.add_assoc, run_succ, ih (by omega)]
      unfold step
      dsimp only
      rw [if_pos (show j < delayTo by unfold delayTo; omega)]

theorem run_slip {t c : Nat} (h : run s hsync n = ⟨.shift, t, c, 0, false, b⟩) :
    run s hsync (n + 195) = fresh false ∧
      ∀ k, n < k → k < n + 195 → (run s hsync k).align = true ∧ (run s hsync k).locked = false := by
  have hlast := run_shift h (Nat.le_refl 192)
  have hreset : run s hsync (n + 194) = ⟨.reset, t, c, 192, true, false⟩ := by
    rw [show n + 194 = n + 1 + 192 + 1 from rfl, run_succ, hlast]
    rfl
  constructor
  · rw [show n + 195 = n + 194 + 1 from rfl, run_succ, hreset]
    rfl
  · intro k hfrom hto
    rcases Nat.lt_or_ge k (n + 194) with hless | hend
    · have hwait := run_shift h (show k - (n + 1) ≤ 192 by omega)
      rw [show n + 1 + (k - (n + 1)) = k by omega] at hwait
      rw [hwait]
      exact ⟨rfl, rfl⟩
    · rw [show k = n + 194 by omega, hreset]
      exact ⟨rfl, rfl⟩

theorem run_silent (h : run s hsync n = fresh b)
    (hnone : ∀ w l, Pulse hsync n w l → 2047 ≤ w + l) :
    ∃ t c, run s hsync (n + 2048) = ⟨.shift, t, c, 0, false, b⟩ := by
  rw [show n + 2048 = n + 2047 + 1 from rfl, run_succ]
  rcases run_watch h (Nat.le_refl 2047) hnone with ⟨hidle, _⟩ | ⟨w, l, _, _, _, hblank⟩
  · rw [hidle]
    exact ⟨_, _, rfl⟩
  · rw [hblank]
    exact ⟨_, _, rfl⟩

/-! ## Rounds -/

/-- From cycle `n` to the end of a round at `n'` the outputs are these. -/
def OutputsIn (s : Shifter) (hsync : Nat → Bool) (n n' : Nat) (ok old : Bool) : Prop :=
  ∀ c, n ≤ c → c < n' →
    (run s hsync c).align = alignIn n' ok c ∧ (run s hsync c).locked = lockedIn n' ok old c

theorem run_round_slip {m t k : Nat}
    (hwatch : ∀ c, n ≤ c → c ≤ m → (run s hsync c).align = false ∧ (run s hsync c).locked = b)
    (hshift : run s hsync (m + 1) = ⟨.shift, t, k, 0, false, b⟩) :
    run s hsync (m + 196) = fresh false ∧ OutputsIn s hsync n (m + 196) false b := by
  obtain ⟨hfresh, hslip⟩ := run_slip hshift
  apply And.intro hfresh
  intro c hfrom hto
  unfold alignIn lockedIn
  rw [Bool.not_false, Bool.true_and, if_neg Bool.false_ne_true]
  rcases Nat.lt_or_ge c (m + 2) with hless | hwaits
  · rw [decide_eq_false (show ¬m + 196 - 194 ≤ c by omega),
      if_neg (show ¬m + 196 - 194 ≤ c by omega)]
    rcases Nat.lt_or_ge m c with hlast | hbefore
    · rw [show c = m + 1 by omega, hshift]
      exact ⟨rfl, rfl⟩
    · exact hwatch c hfrom hbefore
  · rw [decide_eq_true (show m + 196 - 194 ≤ c by omega),
      if_pos (show m + 196 - 194 ≤ c by omega)]
    exact hslip c (by omega) (by omega)

theorem run_round_lock {m k : Nat}
    (hwatch : ∀ c, n ≤ c → c ≤ m → (run s hsync c).align = false ∧ (run s hsync c).locked = b)
    (hreset : run s hsync (m + 1) = ⟨.reset, 0, k, 0, false, true⟩) :
    run s hsync (m + 2) = fresh true ∧ OutputsIn s hsync n (m + 2) true b := by
  constructor
  · rw [show m + 2 = m + 1 + 1 from rfl, run_succ, hreset]
    rfl
  · intro c hfrom hto
    unfold alignIn lockedIn
    rw [Bool.not_true, Bool.false_and, if_pos rfl]
    rcases Nat.lt_or_ge m c with hlast | hbefore
    · rw [if_pos (show m + 2 - 1 ≤ c by omega), show c = m + 1 by omega, hreset]
      exact ⟨rfl, rfl⟩
    · rw [if_neg (show ¬m + 2 - 1 ≤ c by omega)]
      exact hwatch c hfrom hbefore

/-- A round of the machine ends as its pulse tells, and the outputs follow. -/
theorem run_round (h : run s hsync n = fresh b) {n' : Nat} {ok : Bool}
    (hr : Round hsync n n' ok) : run s hsync n' = fresh ok ∧ OutputsIn s hsync n n' ok b := by
  have hwatch : ∀ m, m ≤ n + 2047 → (∀ w l, Pulse hsync n w l → m ≤ n + w + l) →
      ∀ c, n ≤ c → c ≤ m → (run s hsync c).align = false ∧ (run s hsync c).locked = b := by
    intro m hm hnone c hfrom hto
    have hout := outputs_watch h (d := c - n) (by omega) fun w l hp => by
      have hle := hnone w l hp
      omega
    rwa [show n + (c - n) = c by omega] at hout
  cases hr with
  | @locks w l hp hlt hslips =>
      apply run_round_lock (k := (l - 1) % 2 ^ 10)
      · apply hwatch _ (by omega)
        intro w' l' hp'
        obtain ⟨rfl, rfl⟩ := hp.unique hp'
        exact Nat.le_refl _
      · rw [run_succ, run_pulse h hp hlt, hp.ends, step_ends hlt]
        exact if_neg hslips
  | @slips w l hp hlt hslips =>
      apply run_round_slip (t := w + l) (k := (l - 1) % 2 ^ 10)
      · apply hwatch _ (by omega)
        intro w' l' hp'
        obtain ⟨rfl, rfl⟩ := hp.unique hp'
        exact Nat.le_refl _
      · rw [run_succ, run_pulse h hp hlt, hp.ends, step_ends hlt]
        exact if_pos hslips
  | silent hnone =>
      obtain ⟨t, k, hshift⟩ := run_silent h hnone
      apply run_round_slip (t := t) (k := k) _ hshift
      apply hwatch _ (Nat.le_refl _)
      intro w l hp
      have hle := hnone w l hp
      omega

/-! ## From any state -/

def rank (r : Shifter) : Nat :=
  match r.phaseState with
  | .idle => 2047 - r.timeout + 197
  | .blank => 2047 - r.timeout + 197
  | .shift => 196
  | .wait => 192 - r.delay + 2
  | .reset => 1

theorem step_reset {r : Shifter} (h : r.phaseState = .reset) (hs : Bool) :
    r.step hs = fresh r.locked := by
  unfold step
  rw [h]
  rfl

theorem rank_step (r : Shifter) (hs : Bool) :
    r.step hs = fresh r.locked ∨ (r.step hs).rank < r.rank := by
  obtain ⟨phase, t, c, d, a, l⟩ := r
  cases phase with
  | reset => exact Or.inl rfl
  | idle =>
      right
      by_cases ht : t < idleTimeout - 1
      · have hstep : step ⟨.idle, t, c, d, a, l⟩ hs =
            ⟨if !hs then .blank else .idle, t + 1, c, d, a, l⟩ := if_pos ht
        have hlt : t < 2047 := ht
        rw [hstep]
        cases hs
        · change 2047 - (t + 1) + 197 < 2047 - t + 197
          omega
        · change 2047 - (t + 1) + 197 < 2047 - t + 197
          omega
      · have hstep : step ⟨.idle, t, c, d, a, l⟩ hs = ⟨.shift, t, c, d, a, l⟩ := if_neg ht
        rw [hstep]
        change 196 < 2047 - t + 197
        omega
  | blank =>
      right
      by_cases ht : t < idleTimeout - 1
      · have hlt : t < 2047 := ht
        cases hs with
        | false =>
            have hstep : step ⟨.blank, t, c, d, a, l⟩ false =
                ⟨.blank, t + 1, (c + 1) % 2 ^ 10, d, a, l⟩ := if_pos ht
            rw [hstep]
            change 2047 - (t + 1) + 197 < 2047 - t + 197
            omega
        | true =>
            have hstep : step ⟨.blank, t, c, d, a, l⟩ true =
                if c = 22 ∨ c = 68 then ⟨.shift, t, c, d, a, l⟩
                else ⟨.reset, 0, c, d, a, true⟩ := if_pos ht
            rw [hstep]
            split
            · change 196 < 2047 - t + 197
              omega
            · change 1 < 2047 - t + 197
              omega
      · have hstep : step ⟨.blank, t, c, d, a, l⟩ hs = ⟨.shift, t, c, d, a, l⟩ := if_neg ht
        rw [hstep]
        change 196 < 2047 - t + 197
        omega
  | shift =>
      right
      change 192 - d + 2 < 196
      omega
  | wait =>
      right
      by_cases hd : d < delayTo
      · have hstep : step ⟨.wait, t, c, d, a, l⟩ hs = ⟨.wait, t, c, d + 1, a, l⟩ := if_pos hd
        have hlt : d < 192 := hd
        rw [hstep]
        change 192 - (d + 1) + 2 < 192 - d + 2
        omega
      · have hstep : step ⟨.wait, t, c, d, a, l⟩ hs = ⟨.reset, t, c, d, a, l⟩ := if_neg hd
        rw [hstep]
        change 1 < 192 - d + 2
        omega

theorem rank_le (r : Shifter) : r.rank ≤ 2244 := by
  unfold rank
  split <;> omega

/-- Whatever the registers hold, a round begins soon. -/
theorem exists_fresh (s : Shifter) (hsync : Nat → Bool) :
    ∃ n ≤ 2245, ∃ b, run s hsync n = fresh b := by
  have hstep : ∀ n, True → (∃ b, run s hsync (n + 1) = fresh b) ∨
      (True ∧ (run s hsync (n + 1)).rank < (run s hsync n).rank) := by
    intro n _
    rcases rank_step (run s hsync n) (hsync n) with hfresh | hless
    · exact Or.inl ⟨_, hfresh⟩
    · exact Or.inr ⟨trivial, hless⟩
  obtain ⟨n, _, hn, hfresh⟩ := leads_within (fun n => (run s hsync n).rank) hstep (m := 0) trivial
  have hle := rank_le (run s hsync 0)
  exact ⟨n + 1, by omega, hfresh⟩

/-- In every run, from any registers and with any sync, the machine goes from round to round; each
measures the first pulse from its begin, and the outputs show what it has measured. -/
theorem runs_in_rounds (s : Shifter) (hsync : Nat → Bool) :
    ∃ (start : Nat → Nat) (ok : Nat → Bool), start 0 ≤ 2245 ∧ ∀ k,
      Round hsync (start k) (start (k + 1)) (ok (k + 1)) ∧
        OutputsIn s hsync (start k) (start (k + 1)) (ok (k + 1)) (ok k) := by
  obtain ⟨n, hn, b, hfresh⟩ := exists_fresh s hsync
  choose next result hround using exists_round hsync
  refine ⟨fun k => next^[k] n, fun k => Nat.casesOn k b fun j => result (next^[j] n), hn, ?_⟩
  have hbegin : ∀ k, run s hsync (next^[k] n) =
      fresh (Nat.casesOn k b fun j => result (next^[j] n)) := by
    intro k
    induction k with
    | zero => exact hfresh
    | succ k ih =>
        rw [Function.iterate_succ_apply']
        exact (run_round ih (hround _)).1
  intro k
  dsimp only
  rw [Function.iterate_succ_apply']
  exact ⟨hround _, (run_round (hbegin k) (hround _)).2⟩

end Shifter

end Mfi.LvdsSerdes
