import Mathlib.Data.List.Infix

/-!
# Histories that only grow

A run is often described by a list that gets longer at its end: the words accepted,
the frames sent. An entry, once made, keeps its index and its value. Progress is
shown by a rank that falls until the next event.
-/

namespace Mfi.Core

variable {α : Type}

/-- The history has the entry `a` with index `k` from some cycle on. -/
def Recorded (l : Nat → List α) (k : Nat) (a : α) : Prop := ∃ n, (l n)[k]? = some a

theorem prefix_of_le {l : Nat → List α} (h : ∀ n, l n <+: l (n + 1)) {m n : Nat} (hmn : m ≤ n) :
    l m <+: l n := by
  induction n with
  | zero =>
      rw [Nat.le_zero.mp hmn]
  | succ n ih =>
      by_cases heq : m = n + 1
      · rw [heq]
      · exact (ih (by omega)).trans (h n)

theorem getElem?_of_le {l : Nat → List α} (h : ∀ n, l n <+: l (n + 1)) {m n k : Nat} {a : α}
    (hmn : m ≤ n) (hk : (l m)[k]? = some a) : (l n)[k]? = some a := by
  obtain ⟨rest, hrest⟩ := prefix_of_le h hmn
  obtain ⟨hlt, _⟩ := List.getElem?_eq_some_iff.mp hk
  rw [← hrest, List.getElem?_append_left hlt, hk]

theorem Recorded.unique {l : Nat → List α} (h : ∀ n, l n <+: l (n + 1)) {k : Nat} {a b : α}
    (ha : Recorded l k a) (hb : Recorded l k b) : a = b := by
  obtain ⟨m, hm⟩ := ha
  obtain ⟨n, hn⟩ := hb
  have hm' := getElem?_of_le h (Nat.le_max_left m n) hm
  have hn' := getElem?_of_le h (Nat.le_max_right m n) hn
  rw [hm'] at hn'
  exact Option.some.inj hn'

theorem exists_entries [Nonempty α] {l : Nat → List α} (h : ∀ n, l n <+: l (n + 1)) :
    ∃ entry : Nat → α, ∀ k a, Recorded l k a → entry k = a := by
  classical
  refine ⟨fun k => if hk : ∃ a, Recorded l k a then hk.choose else Classical.arbitrary α, ?_⟩
  intro k a ha
  have hk : ∃ a, Recorded l k a := ⟨a, ha⟩
  simp only [dif_pos hk]
  exact Recorded.unique h hk.choose_spec ha

/-- A rank that falls in every cycle in which `P` goes on without `Q` leads to `Q`, and says how
long it takes. -/
theorem leads_within {P Q : Nat → Prop} (rank : Nat → Nat)
    (h : ∀ n, P n → Q n ∨ (P (n + 1) ∧ rank (n + 1) < rank n)) {m : Nat} (hm : P m) :
    ∃ n ≥ m, n ≤ m + rank m ∧ Q n := by
  generalize hr : rank m = r
  induction r using Nat.strongRecOn generalizing m with
  | ind r ih =>
      rcases h m hm with hq | ⟨hnext, hlt⟩
      · exact ⟨m, Nat.le_refl m, Nat.le_add_right m r, hq⟩
      · obtain ⟨n, hn, hle, hq⟩ := ih (rank (m + 1)) (by omega) hnext rfl
        exact ⟨n, by omega, by omega, hq⟩

theorem leads_of_rank {P Q : Nat → Prop} (rank : Nat → Nat)
    (h : ∀ n, P n → Q n ∨ (P (n + 1) ∧ rank (n + 1) < rank n)) {m : Nat} (hm : P m) :
    ∃ n ≥ m, Q n := by
  obtain ⟨n, hn, _, hq⟩ := leads_within rank h hm
  exact ⟨n, hn, hq⟩

theorem leads_of_exit {P Q : Nat → Prop} (h : ∀ n, P n → Q n ∨ P (n + 1)) {m k : Nat} (hm : P m)
    (hmk : m ≤ k) (hk : P k → Q k) : ∃ n ≥ m, Q n := by
  induction hd : k - m generalizing m with
  | zero =>
      have heq : m = k := by omega
      exact ⟨m, Nat.le_refl m, heq ▸ hk (heq ▸ hm)⟩
  | succ d ih =>
      rcases h m hm with hq | hnext
      · exact ⟨m, Nat.le_refl m, hq⟩
      · obtain ⟨n, hn, hq⟩ := ih hnext (by omega) (by omega)
        exact ⟨n, by omega, hq⟩

theorem exists_of_rank {P : Nat → Prop} (rank : Nat → Nat) {m : Nat}
    (h : ∀ n ≥ m, ¬ P n → rank (n + 1) < rank n) : ∃ n ≥ m, P n := by
  apply leads_of_rank (P := fun n => m ≤ n) rank _ (Nat.le_refl m)
  intro n hn
  by_cases hp : P n
  · exact .inl hp
  · exact .inr ⟨Nat.le_succ_of_le hn, h n hn hp⟩

end Mfi.Core
