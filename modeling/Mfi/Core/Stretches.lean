import Mathlib.Data.Nat.Find

/-!
# Stretches of a line

Somebody who looks at a line sees when it is high and for how long. A line that is high in a
sequence of intervals with gaps between them shows exactly these intervals.
-/

namespace Mfi.Core

theorem exists_first {f : Nat → Bool} {b : Bool} {j : Nat} (h : f j = b) :
    ∃ w ≤ j, f w = b ∧ ∀ k < w, f k = !b := by
  have hex : ∃ k, f k = b := ⟨j, h⟩
  refine ⟨Nat.find hex, Nat.find_min' hex h, Nat.find_spec hex, fun k hk => ?_⟩
  exact Bool.eq_not_of_ne (Nat.find_min hex hk)

/-- The line is high for the `len` ticks from `s` on, and neither before nor after them. -/
structure Stretch (line : Nat → Bool) (s len : Nat) : Prop where
  pos : 0 < len
  before : s = 0 ∨ line (s - 1) = false
  during : ∀ k < len, line (s + k) = true
  after : line (s + len) = false

variable {line : Nat → Bool} {s l l' : Nat}

theorem Stretch.le_of_same (h : Stretch line s l) (h' : Stretch line s l') : l ≤ l' := by
  by_contra hlt
  have hhigh := h.during l' (by omega)
  rw [h'.after] at hhigh
  exact Bool.false_ne_true hhigh

theorem Stretch.unique (h : Stretch line s l) (h' : Stretch line s l') : l = l' :=
  Nat.le_antisymm (h.le_of_same h') (h'.le_of_same h)

/-- The line is high in the intervals of a sequence, one after the other with gaps. -/
structure HighIn (line : Nat → Bool) (start len : Nat → Nat) : Prop where
  pos : ∀ k, 0 < len k
  gap : ∀ k, start k + len k < start (k + 1)
  high_iff : ∀ n, line n = true ↔ ∃ k, start k ≤ n ∧ n < start k + len k

namespace HighIn

variable {start len : Nat → Nat}

theorem apart (h : HighIn line start len) {i j : Nat} (hij : i < j) :
    start i + len i < start j := by
  induction j with
  | zero => omega
  | succ j ih =>
      have hgap := h.gap j
      rcases Nat.lt_succ_iff_lt_or_eq.1 hij with hless | rfl
      · have hbefore := ih hless
        omega
      · exact hgap

theorem stretch (h : HighIn line start len) (k : Nat) : Stretch line (start k) (len k) where
  pos := h.pos k
  before := by
    rcases Nat.eq_zero_or_pos (start k) with hzero | hpos
    · exact Or.inl hzero
    · right
      rw [Bool.eq_false_iff]
      intro hhigh
      obtain ⟨j, hle, hlt⟩ := (h.high_iff _).1 hhigh
      rcases Nat.lt_trichotomy j k with hless | rfl | hmore
      · have hgap := h.apart hless
        omega
      · omega
      · have hgap := h.apart hmore
        omega
  during := by
    intro i hi
    exact (h.high_iff _).2 ⟨k, by omega, by omega⟩
  after := by
    rw [Bool.eq_false_iff]
    intro hhigh
    obtain ⟨j, hle, hlt⟩ := (h.high_iff _).1 hhigh
    rcases Nat.lt_trichotomy j k with hless | rfl | hmore
    · have hgap := h.apart hless
      omega
    · omega
    · have hgap := h.apart hmore
      omega

/-- The stretches of the line are the intervals. -/
theorem stretch_iff (h : HighIn line start len) :
    Stretch line s l ↔ ∃ k, s = start k ∧ l = len k := by
  constructor
  · intro hs
    have hhigh := hs.during 0 hs.pos
    obtain ⟨k, hle, hlt⟩ := (h.high_iff _).1 hhigh
    have hstart : s = start k := by
      by_contra hne
      rcases hs.before with hzero | hlow
      · omega
      · rw [(h.high_iff _).2 ⟨k, by omega, by omega⟩] at hlow
        exact Bool.false_ne_true hlow.symm
    subst hstart
    exact ⟨k, rfl, hs.unique (h.stretch k)⟩
  · rintro ⟨k, rfl, rfl⟩
    exact h.stretch k

end HighIn

end Mfi.Core
