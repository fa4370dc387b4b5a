import Mathlib.Data.Nat.Find
import Mfi.Core.History

/-!
# What a run has done so far

The events of a port are a stream of options, one for each clock cycle: the command
accepted in the cycle, the word returned in it, or nothing. `events` lists those of the
first cycles in order.
-/

namespace Mfi.Core

variable {α β : Type}

/-- The events of the cycles before `n`, oldest first. -/
def events (f : Nat → Option α) : Nat → List α
  | 0 => []
  | n + 1 => events f n ++ (f n).toList

@[simp] theorem events_zero (f : Nat → Option α) : events f 0 = [] := rfl

theorem events_succ (f : Nat → Option α) (n : Nat) :
    events f (n + 1) = events f n ++ (f n).toList := rfl

theorem events_succ_none {f : Nat → Option α} {n : Nat} (h : f n = none) :
    events f (n + 1) = events f n := by
  rw [events_succ, h, Option.toList_none, List.append_nil]

theorem events_succ_some {f : Nat → Option α} {n : Nat} {a : α} (h : f n = some a) :
    events f (n + 1) = events f n ++ [a] := by
  rw [events_succ, h, Option.toList_some]

theorem events_late {f g : Nat → Option α} (h0 : f 0 = none) (h : ∀ n, f (n + 1) = g n) (n : Nat) :
    events f (n + 1) = events g n := by
  induction n with
  | zero => rw [events_succ_none h0, events_zero, events_zero]
  | succ n ih => rw [events_succ, ih, h n, events_succ]

theorem map_events (g : α → β) (f : Nat → Option α) (n : Nat) :
    (events f n).map g = events (fun k => (f k).map g) n := by
  induction n with
  | zero => rfl
  | succ n ih =>
      rw [events_succ, events_succ, List.map_append, ih]
      cases f n with
      | none => rfl
      | some a => rfl

theorem length_events_mono (f : Nat → Option α) {m n : Nat} (hmn : m ≤ n) :
    (events f m).length ≤ (events f n).length := by
  induction n with
  | zero => rw [Nat.le_zero.mp hmn]
  | succ n ih =>
      by_cases heq : m = n + 1
      · rw [heq]
      · rw [events_succ, List.length_append]
        exact Nat.le_add_right_of_le (ih (by omega))

theorem exists_length_events {f : Nat → Option α} (h : ∀ n, ∃ m ≥ n, f m ≠ none) (k : Nat) :
    ∃ n, k ≤ (events f n).length := by
  induction k with
  | zero => exact ⟨0, Nat.zero_le _⟩
  | succ k ih =>
      obtain ⟨n, hn⟩ := ih
      obtain ⟨m, hm, hev⟩ := h n
      obtain ⟨a, ha⟩ := Option.ne_none_iff_exists'.mp hev
      have hmono := length_events_mono f hm
      refine ⟨m + 1, ?_⟩
      rw [events_succ_some ha, List.length_append, List.length_singleton]
      omega

/-- Two ports have the same history at all times exactly when they agree in every cycle. -/
theorem events_eq_iff {f g : Nat → Option α} :
    (∀ n, events f n = events g n) ↔ ∀ n, f n = g n := by
  constructor
  · intro h n
    have hnext := h (n + 1)
    rw [events_succ, events_succ, h n] at hnext
    have hlast := List.append_cancel_left hnext
    cases hf : f n with
    | none =>
        cases hg : g n with
        | none => rfl
        | some b =>
            rw [hf, hg] at hlast
            exact absurd hlast (List.cons_ne_nil b []).symm
    | some a =>
        cases hg : g n with
        | none =>
            rw [hf, hg] at hlast
            exact absurd hlast (List.cons_ne_nil a [])
        | some b =>
            rw [hf, hg] at hlast
            rw [List.head_eq_of_cons_eq hlast]
  · intro h n
    induction n with
    | zero => rfl
    | succ n ih => rw [events_succ, events_succ, ih, h n]

theorem events_eq_of_quiet {f : Nat → Option α} {m n : Nat} (hmn : m ≤ n)
    (h : ∀ k, m ≤ k → f k = none) : events f n = events f m := by
  induction n with
  | zero =>
      rw [Nat.le_zero.mp hmn]
  | succ n ih =>
      by_cases heq : m = n + 1
      · rw [heq]
      · rw [events_succ_none (h n (by omega)), ih (by omega)]

theorem events_eq_of_none {f : Nat → Option α} {m n : Nat} (hmn : m ≤ n)
    (h : ∀ k, m ≤ k → k < n → f k = none) : events f n = events f m := by
  induction n with
  | zero =>
      rw [Nat.le_zero.mp hmn]
  | succ n ih =>
      by_cases heq : m = n + 1
      · rw [heq]
      · rw [events_succ_none (h n (by omega) (Nat.lt_succ_self n)),
          ih (by omega) fun k hk hkn => h k hk (Nat.lt_succ_of_lt hkn)]

theorem events_prefix_succ (f : Nat → Option α) (n : Nat) : events f n <+: events f (n + 1) :=
  ⟨(f n).toList, (events_succ f n).symm⟩

/-! ## Ports that repeat each other -/

/-- Each event of `f` comes again on `g` at the time that `R` pairs with its own, in the same order,
and `g` has no other event. -/
structure Relays (R : Nat → Nat → Prop) (f g : Nat → Option α) : Prop where
  later : ∀ m n, R m n → m ≤ n
  ordered : ∀ m n m' n', R m n → R m' n' → (m < m' ↔ n < n')
  same : ∀ m n, R m n → ∃ a, f m = some a ∧ g n = some a
  sent : ∀ m, f m ≠ none → ∃ n, R m n
  came : ∀ n, g n ≠ none → ∃ m, R m n

namespace Relays

variable {R : Nat → Nat → Prop} {f g : Nat → Option α} {m n : Nat}

/-- Before cycle `n` exactly the events of `f` before cycle `m` have come. -/
theorem events_eq (h : Relays R f g) (hbefore : ∀ k k', R k k' → k < m → k' < n)
    (hafter : ∀ k k', R k k' → m ≤ k → n ≤ k') : events g n = events f m := by
  induction n generalizing m with
  | zero =>
      rw [events_zero, events_eq_of_none (Nat.zero_le m), events_zero]
      intro k _ hk
      by_contra hne
      obtain ⟨k', hR⟩ := h.sent k hne
      exact absurd (hbefore k k' hR hk) (Nat.not_lt_zero k')
  | succ n ih =>
      cases hnow : g n with
      | none =>
          rw [events_succ_none hnow]
          refine ih (fun k k' hR hk => ?_) fun k k' hR hk => Nat.le_of_succ_le (hafter k k' hR hk)
          rcases Nat.lt_or_eq_of_le (Nat.le_of_lt_succ (hbefore k k' hR hk)) with hlt | rfl
          · exact hlt
          · obtain ⟨a, _, ha⟩ := h.same k k' hR
            rw [hnow] at ha
            cases ha
      | some a =>
          obtain ⟨k, hk⟩ := h.came n (by simp [hnow])
          obtain ⟨b, hf, hg⟩ := h.same k n hk
          rw [hnow] at hg
          cases hg
          have hkm : k < m := by
            by_contra hle
            exact absurd (hafter k n hk (Nat.not_lt.mp hle)) (Nat.not_succ_le_self n)
          -- the event is the last one before `m`
          have hlast : events f m = events f (k + 1) := by
            refine events_eq_of_none hkm fun j hj hjm => ?_
            by_contra hne
            obtain ⟨j', hR⟩ := h.sent j hne
            have hlate := (h.ordered k n j j' hk hR).mp hj
            have hearly := hbefore j j' hR hjm
            omega
          rw [hlast, events_succ_some hnow, events_succ_some hf]
          congr 1
          refine ih (fun j j' hR hj => (h.ordered j j' k n hR hk).mp hj) fun j j' hR hj => ?_
          by_contra hlt
          exact absurd ((h.ordered j j' k n hR hk).mpr (Nat.not_le.mp hlt)) (Nat.not_lt.mpr hj)

theorem complete (h : Relays R f g) (hnone : ∀ k k', R k k' → k < n → k' < n) :
    events g n = events f n :=
  h.events_eq hnone fun k k' hR hk => Nat.le_trans hk (h.later k k' hR)

theorem prefix_of_sent (h : Relays R f g) (n : Nat) : events g n <+: events f n := by
  obtain ⟨m, hmn, hafter, hleast⟩ : ∃ m ≤ n, (∀ k k', R k k' → m ≤ k → n ≤ k') ∧
      ∀ j < m, ¬ ∀ k k', R k k' → j ≤ k → n ≤ k' := by
    classical
    have hex : ∃ m, ∀ k k', R k k' → m ≤ k → n ≤ k' :=
      ⟨n, fun k k' hR hk => Nat.le_trans hk (h.later k k' hR)⟩
    exact ⟨Nat.find hex, Nat.find_min' hex fun k k' hR hk => Nat.le_trans hk (h.later k k' hR),
      Nat.find_spec hex, fun j hj => Nat.find_min hex hj⟩
  have hbefore : ∀ k k', R k k' → k < m → k' < n := by
    intro k k' hR hk
    by_contra hge
    refine hleast k hk fun j j' hR' hj => ?_
    rcases Nat.lt_or_eq_of_le hj with hlt | rfl
    · have hlater := (h.ordered k k' j j' hR hR').mp hlt
      omega
    · have hsame : ¬ j' < k' := fun hlt => absurd ((h.ordered _ _ _ _ hR' hR).mpr hlt) (by omega)
      omega
  rw [h.events_eq hbefore hafter]
  exact prefix_of_le (events_prefix_succ f) hmn

end Relays

end Mfi.Core
