import Mathlib.Logic.Function.Iterate
import Mfi.Core.Events
import Mfi.Core.Trace

/-!
# Machines that follow a script

A script is a sequence of things to say: a place in it, what is said there and
the place after it. A clocked design follows the script when in every cycle it
either says the next thing and moves on, or says nothing and stays.
-/

namespace Mfi.Core

variable {σ ι π α : Type}

/-- The first `k` things said from place `a`. -/
def said (next : π → π) (say : π → α) (a : π) (k : Nat) : List α :=
  (List.range k).map fun i => say (next^[i] a)

theorem said_succ (next : π → π) (say : π → α) (a : π) (k : Nat) :
    said next say a (k + 1) = said next say a k ++ [say (next^[k] a)] := by
  rw [said, List.range_succ, List.map_append]
  rfl

@[simp] theorem length_said (next : π → π) (say : π → α) (a : π) (k : Nat) :
    (said next say a k).length = k := by
  rw [said, List.length_map, List.length_range]

theorem getElem?_said (next : π → π) (say : π → α) (a : π) {i k : Nat} (h : i < k) :
    (said next say a k)[i]? = some (say (next^[i] a)) := by
  rw [said, List.getElem?_map, List.getElem?_range h]
  rfl

/-- What has been said is the beginning of the script, and the registers stand at the place
after it. -/
theorem events_eq_said {step : σ → ι → σ} {s : σ} {inp : Nat → ι} {next : π → π} {say : π → α}
    {a : π} {f : Nat → Option α} (At : σ → π → Prop) (h0 : At s a)
    (hstep : ∀ n b, At (trace step s inp n) b →
      (f n = none ∧ At (trace step s inp (n + 1)) b) ∨
      (f n = some (say b) ∧ At (trace step s inp (n + 1)) (next b))) (n : Nat) :
    ∃ k, events f n = said next say a k ∧ At (trace step s inp n) (next^[k] a) := by
  induction n with
  | zero => exact ⟨0, rfl, h0⟩
  | succ n ih =>
      obtain ⟨k, hsaid, hat⟩ := ih
      rcases hstep n _ hat with ⟨hnone, hstay⟩ | ⟨hsome, hmove⟩
      · exact ⟨k, by rw [events_succ_none hnone, hsaid], hstay⟩
      · refine ⟨k + 1, by rw [events_succ_some hsome, hsaid, said_succ], ?_⟩
        rw [Function.iterate_succ_apply']
        exact hmove

end Mfi.Core
