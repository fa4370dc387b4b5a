import Mathlib.Logic.Function.Basic

/-!
# Runs of synchronous machines

A clocked design is a step function on a record of registers. Its input is a
stream indexed by the clock cycle; `trace` gives the registers before every
cycle. A property is proved once for a step and lifted to runs here.
-/

namespace Mfi.Core

variable {σ ι : Type}

/-- The registers before clock cycle `n` of the run that starts in `s`. -/
def trace (step : σ → ι → σ) (s : σ) (inp : Nat → ι) : Nat → σ
  | 0 => s
  | n + 1 => step (trace step s inp n) (inp n)

@[simp] theorem trace_zero (step : σ → ι → σ) (s : σ) (inp : Nat → ι) :
    trace step s inp 0 = s := rfl

theorem trace_succ (step : σ → ι → σ) (s : σ) (inp : Nat → ι) (n : Nat) :
    trace step s inp (n + 1) = step (trace step s inp n) (inp n) := rfl

theorem trace_congr (step : σ → ι → σ) (s : σ) {inp inp' : Nat → ι} {n : Nat}
    (h : ∀ k < n, inp k = inp' k) : trace step s inp n = trace step s inp' n := by
  induction n with
  | zero => rfl
  | succ n ih =>
      rw [trace_succ, trace_succ, ih fun k hk => h k (Nat.lt_succ_of_lt hk),
        h n (Nat.lt_succ_self n)]

theorem trace_add (step : σ → ι → σ) (s : σ) (inp : Nat → ι) (m n : Nat) :
    trace step s inp (m + n) =
      trace step (trace step s inp m) (fun k => inp (m + k)) n := by
  induction n with
  | zero => rfl
  | succ n ih =>
      rw [← Nat.add_assoc, trace_succ, trace_succ, ih]

/-- What holds at the start and is kept by every step of the run holds along it. -/
theorem trace_invariant {step : σ → ι → σ} {s : σ} {inp : Nat → ι} (P : Nat → σ → Prop)
    (h0 : P 0 s)
    (hstep : ∀ n, P n (trace step s inp n) → P (n + 1) (step (trace step s inp n) (inp n)))
    (n : Nat) : P n (trace step s inp n) := by
  induction n with
  | zero => exact h0
  | succ n ih => exact hstep n ih

theorem trace_part {σ' ι' : Type} {step : σ → ι → σ} {step' : σ' → ι' → σ'} {s : σ}
    {inp : Nat → ι} {inp' : Nat → ι'} (part : σ → σ')
    (h : ∀ n, part (step (trace step s inp n) (inp n)) =
      step' (part (trace step s inp n)) (inp' n)) (n : Nat) :
    part (trace step s inp n) = trace step' (part s) inp' n := by
  induction n with
  | zero => rfl
  | succ n ih => rw [trace_succ, trace_succ, h n, ih]

/-! ## Runs that are evaluated -/

/-- `ok` is true along the first `n` cycles of the run from `s`, which begins with input
number `k`. -/
def holdsAlong (step : σ → ι → σ) (ok : Nat → σ → ι → Bool) (inp : Nat → ι) : Nat → Nat → σ → Bool
  | _, 0, _ => true
  | k, n + 1, s => ok k s (inp k) && holdsAlong step ok inp (k + 1) n (step s (inp k))

theorem trace_step (step : σ → ι → σ) (s : σ) (inp : Nat → ι) (n : Nat) :
    trace step s inp (n + 1) = trace step (step s (inp 0)) (fun k => inp (k + 1)) n := by
  rw [Nat.add_comm n 1, trace_add]
  simp only [Nat.add_comm 1]
  rfl

theorem holdsAlong_from {step : σ → ι → σ} {ok : Nat → σ → ι → Bool} {inp : Nat → ι} {k n : Nat}
    {s : σ} (h : holdsAlong step ok inp k n s = true) {m : Nat} (hm : m < n) :
    ok (k + m) (trace step s (fun j => inp (k + j)) m) (inp (k + m)) = true := by
  induction n generalizing k s m with
  | zero => omega
  | succ n ih =>
      simp only [holdsAlong, Bool.and_eq_true] at h
      obtain ⟨hnow, hrest⟩ := h
      cases m with
      | zero => exact hnow
      | succ m =>
          have hlater := ih hrest (show m < n by omega)
          rw [trace_step, show k + (m + 1) = k + 1 + m by omega]
          simpa only [Nat.add_assoc, Nat.add_comm 1, Nat.add_zero] using hlater

theorem holdsAlong_trace {step : σ → ι → σ} {ok : Nat → σ → ι → Bool} {inp : Nat → ι} {n : Nat}
    {s : σ} (h : holdsAlong step ok inp 0 n s = true) {m : Nat} (hm : m < n) :
    ok m (trace step s inp m) (inp m) = true := by
  have hnow := holdsAlong_from h hm
  simpa only [Nat.zero_add] using hnow

/-! ## Machines that run in their surroundings -/

section Surroundings

variable {ε : Type}

/-- The surroundings give the input from both states and have a next state of their own. -/
def closedRun (step : σ → ι → σ) (env : σ → ε → ι) (next : σ → ε → ε) (s : σ × ε) : Nat → σ × ε
  | 0 => s
  | n + 1 =>
      let t := closedRun step env next s n
      (step t.1 (env t.1 t.2), next t.1 t.2)

def closedInput (step : σ → ι → σ) (env : σ → ε → ι) (next : σ → ε → ε) (s : σ × ε) (n : Nat) : ι :=
  env (closedRun step env next s n).1 (closedRun step env next s n).2

variable {step : σ → ι → σ} {env : σ → ε → ι} {next : σ → ε → ε} {s : σ × ε}

theorem trace_closedInput (n : Nat) :
    trace step s.1 (closedInput step env next s) n = (closedRun step env next s n).1 := by
  induction n with
  | zero => rfl
  | succ n ih =>
      rw [trace_succ, ih]
      rfl

theorem closedRun_add (m n : Nat) :
    closedRun step env next s (m + n) =
      closedRun step env next (closedRun step env next s m) n := by
  induction n with
  | zero => rfl
  | succ n ih =>
      rw [← Nat.add_assoc, closedRun, closedRun, ih]

end Surroundings

end Mfi.Core
