import Mathlib.Logic.Function.Basic

/-!
# Runs of equal samples

A counter that is cleared when a sample differs from the one before tells how long the
current run of equal samples is. A register that takes a sample when its run has a given
length holds the value of the latest run of this length, and nothing of a shorter one.
-/

namespace Mfi.Core

variable {α : Type} {T : Nat} {e : Nat → α} {cnt : Nat → Nat}

/-- A run of at least `T` equal samples begins with sample `s`. -/
def LongRun (T : Nat) (e : Nat → α) (s : Nat) : Prop :=
  (s = 0 ∨ e (s - 1) ≠ e s) ∧ ∀ k < T, e (s + k) = e s

/-- The register holds the value of the latest run of at least `T` samples that began at least
`T` ticks before its last one; a shorter run does not reach it. -/
structure Follows (T : Nat) (e : Nat → α) (zero : α) (out : Nat → α) : Prop where
  first : ∀ n, (∀ s, LongRun T e s → n ≤ s + T) → out n = zero
  latest : ∀ n s, LongRun T e s → s + T < n → (∀ s' > s, LongRun T e s' → n ≤ s' + T) →
    out n = e s
  appears : ∀ s, LongRun T e s → out (s + T + 1) = e s
  changes : ∀ n, out (n + 1) ≠ out n → ∃ s, LongRun T e s ∧ s + T = n ∧ out (n + 1) = e s

/-! ## The counter -/

/-- The counter stops at `T`. -/
structure CountsRun (T : Nat) (e : Nat → α) (cnt : Nat → Nat) : Prop where
  clear : cnt 0 = 0
  moved : ∀ n, e n ≠ e (n + 1) → cnt (n + 1) = 0
  same : ∀ n, e n = e (n + 1) → cnt (n + 1) = if cnt n < T then cnt n + 1 else cnt n

namespace CountsRun

theorem le_limit (h : CountsRun T e cnt) (n : Nat) : cnt n ≤ T := by
  induction n with
  | zero =>
      rw [h.clear]
      exact Nat.zero_le T
  | succ n ih =>
      by_cases hsame : e n = e (n + 1)
      · rw [h.same n hsame]
        split <;> omega
      · rw [h.moved n hsame]
        exact Nat.zero_le T

theorem le_time (h : CountsRun T e cnt) (n : Nat) : cnt n ≤ n := by
  induction n with
  | zero => exact Nat.le_of_eq h.clear
  | succ n ih =>
      by_cases hsame : e n = e (n + 1)
      · rw [h.same n hsame]
        split <;> omega
      · rw [h.moved n hsame]
        exact Nat.zero_le _

theorem equal (h : CountsRun T e cnt) (n : Nat) : ∀ k ≤ cnt n, e (n - k) = e n := by
  induction n with
  | zero =>
      intro k _
      rw [Nat.zero_sub]
  | succ n ih =>
      intro k hk
      cases k with
      | zero => rfl
      | succ k =>
          by_cases hsame : e n = e (n + 1)
          · have hcnt := h.same n hsame
            have hk' : k ≤ cnt n := by
              split at hcnt <;> omega
            rw [Nat.add_sub_add_right, ih k hk', hsame]
          · have hcnt := h.moved n hsame
            omega

theorem begins (h : CountsRun T e cnt) (n : Nat) (hless : cnt n < T) :
    n = cnt n ∨ e (n - cnt n - 1) ≠ e n := by
  induction n with
  | zero => exact Or.inl h.clear.symm
  | succ n ih =>
      by_cases hsame : e n = e (n + 1)
      · have hcnt := h.same n hsame
        have hprev : cnt n < T := by
          split at hcnt <;> omega
        rw [if_pos hprev] at hcnt
        rw [hcnt, Nat.add_sub_add_right, ← hsame]
        rcases ih hprev with hstart | hbefore
        · exact Or.inl (by omega)
        · exact Or.inr hbefore
      · rw [h.moved n hsame]
        exact Or.inr hsame

/-- The counter is one before its end exactly with the last of the `T` samples of a run. -/
theorem ends_iff (h : CountsRun T e cnt) (hT : 0 < T) (n : Nat) :
    cnt n + 1 = T ↔ ∃ s, LongRun T e s ∧ s + T = n + 1 := by
  have htime := h.le_time n
  constructor
  · intro hend
    have hequal := h.equal n
    have hfirst : e (n - cnt n) = e n := hequal (cnt n) (Nat.le_refl _)
    apply Exists.intro (n - cnt n)
    constructor
    · constructor
      · rcases h.begins n (by omega) with hstart | hbefore
        · exact Or.inl (by omega)
        · rw [hfirst]
          exact Or.inr hbefore
      · intro k hk
        have hback : n - cnt n + k = n - (cnt n - k) := by omega
        rw [hfirst, hback]
        exact hequal _ (Nat.sub_le _ _)
    · omega
  · rintro ⟨s, ⟨hbegins, hequal⟩, hlen⟩
    rcases Nat.lt_trichotomy (cnt n + 1) T with hless | heq | hmore
    · have hlast : e n = e s := by
        have hk := hequal (T - 1) (by omega)
        rwa [show s + (T - 1) = n by omega] at hk
      rcases h.begins n (by omega) with hstart | hbefore
      · omega
      · have hk := hequal (n - cnt n - 1 - s) (by omega)
        rw [show s + (n - cnt n - 1 - s) = n - cnt n - 1 by omega] at hk
        exact absurd (hk.trans hlast.symm) hbefore
    · exact heq
    · have hle := h.le_limit n
      have hprev := h.equal n T (by omega)
      have hfirst := h.equal n (T - 1) (by omega)
      rcases hbegins with hzero | hbefore
      · omega
      · rw [show n - T = s - 1 by omega] at hprev
        rw [show n - (T - 1) = s by omega] at hfirst
        exact absurd (hprev.trans hfirst.symm) hbefore

end CountsRun

/-! ## The register -/

def delayed (zero : α) (e : Nat → α) : Nat → α
  | 0 => zero
  | n + 1 => e n

/-- The register takes a delayed sample when the counter says so. -/
structure Takes (T : Nat) (e : Nat → α) (zero : α) (cnt : Nat → Nat) (out : Nat → α) : Prop where
  counts : CountsRun T (delayed zero e) cnt
  clear : out 0 = zero
  next : ∀ n, out (n + 1) = if cnt n + 1 = T then delayed zero e n else out n

theorem LongRun.of_delayed {zero : α} {s : Nat} (h : LongRun T (delayed zero e) (s + 1)) :
    LongRun T e s := by
  constructor
  · cases s with
    | zero => exact Or.inl rfl
    | succ s => exact Or.inr (h.1.resolve_left (Nat.succ_ne_zero _))
  · intro k hk
    have hequal := h.2 k hk
    rwa [Nat.add_right_comm] at hequal

theorem LongRun.delayed {zero : α} {s : Nat} (h : LongRun T e s) (hs : s = 0 → e 0 ≠ zero) :
    LongRun T (delayed zero e) (s + 1) := by
  constructor
  · cases s with
    | zero => exact Or.inr (hs rfl).symm
    | succ s => exact Or.inr (h.1.resolve_left (Nat.succ_ne_zero _))
  · intro k hk
    rw [Nat.add_right_comm]
    exact h.2 k hk

namespace Takes

variable {zero : α} {out : Nat → α}

theorem next_of_run (h : Takes T e zero cnt out) (hT : 0 < T) {s : Nat} (hs : LongRun T e s)
    (hfirst : s = 0 → e 0 ≠ zero) : out (s + T + 1) = e s := by
  have hdelayed := hs.delayed hfirst
  have hend : cnt (s + T) + 1 = T := (h.counts.ends_iff hT _).2 ⟨s + 1, hdelayed, by omega⟩
  have hlast := hdelayed.2 (T - 1) (by omega)
  rw [show s + 1 + (T - 1) = s + T by omega] at hlast
  rw [h.next, if_pos hend, hlast]
  rfl

theorem next_cases (h : Takes T e zero cnt out) (hT : 0 < T) (n : Nat) :
    out (n + 1) = out n ∨ (n < T ∧ out (n + 1) = zero) ∨
      ∃ s, LongRun T e s ∧ s + T = n ∧ out (n + 1) = e s := by
  by_cases hend : cnt n + 1 = T
  · obtain ⟨s, hrun, hlen⟩ := (h.counts.ends_iff hT n).1 hend
    have hlast := hrun.2 (T - 1) (by omega)
    rw [show s + (T - 1) = n by omega] at hlast
    have hnext : out (n + 1) = Core.delayed zero e s := by
      rw [h.next, if_pos hend, hlast]
    cases s with
    | zero => exact Or.inr (Or.inl ⟨by omega, hnext⟩)
    | succ s => exact Or.inr (Or.inr ⟨s, hrun.of_delayed, by omega, hnext⟩)
  · rw [h.next, if_neg hend]
    exact Or.inl rfl

theorem first (h : Takes T e zero cnt out) (hT : 0 < T) {n : Nat}
    (hnone : ∀ s, LongRun T e s → n ≤ s + T) : out n = zero := by
  induction n with
  | zero => exact h.clear
  | succ n ih =>
      have hprev : out n = zero := ih fun s hs => by
        have hlate := hnone s hs
        omega
      rcases h.next_cases hT n with hkept | ⟨_, hzero⟩ | ⟨s, hs, hlen, _⟩
      · rw [hkept, hprev]
      · exact hzero
      · have hlate := hnone s hs
        omega

theorem latest (h : Takes T e zero cnt out) (hT : 0 < T) {n s : Nat} (hs : LongRun T e s)
    (hn : s + T < n) (hlast : ∀ s' > s, LongRun T e s' → n ≤ s' + T) : out n = e s := by
  induction hn with
  | refl =>
      by_cases hfirst : s = 0 ∧ e 0 = zero
      · -- The zeros from the start are not taken at their end, but there is nothing else yet.
        cases hfirst with
        | intro hstart hzero =>
            have hnone : ∀ s', LongRun T e s' → s + T ≤ s' + T := by
              intro s' _
              omega
            have hkept : out (s + T) = zero := h.first hT hnone
            rw [hstart, Nat.zero_add] at hkept ⊢
            rcases h.next_cases hT T with hsame | ⟨hless, _⟩ | ⟨s', _, hlen, hvalue⟩
            · rw [hsame, hkept, hzero]
            · omega
            · rw [hvalue]
              congr
              omega
      · apply h.next_of_run hT hs
        intro hstart hzero
        exact hfirst ⟨hstart, hzero⟩
  | step hn ih =>
      rename_i n
      have hn' : s + T < n := hn
      have hprev : out n = e s := ih fun s' hs' hrun => by
        have hlate := hlast s' hs' hrun
        omega
      rcases h.next_cases hT n with hkept | ⟨hless, _⟩ | ⟨s', hrun, hlen, _⟩
      · rw [hkept, hprev]
      · omega
      · have hlate := hlast s' (by omega) hrun
        omega

theorem follows (h : Takes T e zero cnt out) (hT : 0 < T) : Follows T e zero out := by
  constructor
  · exact fun _ => h.first hT
  · exact fun _ _ => h.latest hT
  · intro s hs
    apply h.latest hT hs (Nat.lt_succ_self _)
    intro s' hs' _
    omega
  · intro n hchange
    rcases h.next_cases hT n with hkept | ⟨hless, hzero⟩ | hrun
    · exact absurd hkept hchange
    · have hnone : ∀ s, LongRun T e s → n ≤ s + T := by
        intro s _
        omega
      rw [hzero, h.first hT hnone] at hchange
      exact absurd rfl hchange
    · exact hrun

end Takes

end Mfi.Core
