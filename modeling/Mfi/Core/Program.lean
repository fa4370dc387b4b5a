import Mathlib.Data.List.Forall2

/-!
# Programs that ask a device

A program does operations on a device and goes on with what comes back; the device answers as it
likes. A contract says which answers the device is trusted to give and which operations the
program may do, in each case in a state that records what has happened. A program holds to a
contract if it does so on every run, finished or not; a program that is started again and again
does, if each of its rounds does.
-/

namespace Mfi.Core

inductive Prog (Op : Type) (Res : Op → Type) (α : Type) where
  | done (a : α)
  | ask (op : Op) (next : Res op → Prog Op Res α)

structure Event (Op : Type) (Res : Op → Type) where
  op : Op
  res : Res op

namespace Prog

variable {Op : Type} {Res : Op → Type} {α β τ σ : Type}

def bind : Prog Op Res α → (α → Prog Op Res β) → Prog Op Res β
  | .done a, f => f a
  | .ask op next, f => .ask op fun r => (next r).bind f

instance : Monad (Prog Op Res) where
  pure := .done
  bind := .bind

@[simp] theorem done_bind (a : α) (f : α → Prog Op Res β) : .done a >>= f = f a := rfl

@[simp] theorem ask_bind (op : Op) (next : Res op → Prog Op Res α) (f : α → Prog Op Res β) :
    .ask op next >>= f = .ask op fun r => next r >>= f := rfl

def call (op : Op) : Prog Op Res (Res op) := .ask op .done

@[simp] theorem call_bind (op : Op) (f : Res op → Prog Op Res β) : call op >>= f = .ask op f := rfl

/-! ## Runs -/

/-- After the events of a list, what is left of the program is the second program. -/
inductive Run : Prog Op Res α → List (Event Op Res) → Prog Op Res α → Prop where
  | stop (p : Prog Op Res α) : Run p [] p
  | answer {op : Op} {next : Res op → Prog Op Res α} (r : Res op) {l : List (Event Op Res)}
      {q : Prog Op Res α} (rest : Run (next r) l q) : Run (.ask op next) (⟨op, r⟩ :: l) q

theorem run_done_iff {a : α} {l : List (Event Op Res)} {q : Prog Op Res α} :
    Run (.done a) l q ↔ l = [] ∧ q = .done a := by
  constructor
  · rintro ⟨⟩
    exact ⟨rfl, rfl⟩
  · rintro ⟨rfl, rfl⟩
    exact .stop _

theorem run_ask_done_iff {op : Op} {next : Res op → Prog Op Res α} {l : List (Event Op Res)}
    {a : α} : Run (.ask op next) l (.done a) ↔
      ∃ r l', l = ⟨op, r⟩ :: l' ∧ Run (next r) l' (.done a) := by
  constructor
  · rintro (_ | ⟨r, rest⟩)
    exact ⟨r, _, rfl, rest⟩
  · rintro ⟨r, l', rfl, rest⟩
    exact .answer r rest

theorem run_bind_iff {p : Prog Op Res α} {f : α → Prog Op Res β} {l : List (Event Op Res)} {b : β} :
    Run (p >>= f) l (.done b) ↔
      ∃ a l₁ l₂, l = l₁ ++ l₂ ∧ Run p l₁ (.done a) ∧ Run (f a) l₂ (.done b) := by
  induction p generalizing l with
  | done a =>
      constructor
      · intro h
        exact ⟨a, [], l, rfl, .stop _, h⟩
      · rintro ⟨a', l₁, l₂, rfl, hfirst, hrest⟩
        obtain ⟨rfl, heq⟩ := run_done_iff.mp hfirst
        cases heq
        exact hrest
  | ask op next ih =>
      rw [ask_bind, run_ask_done_iff]
      constructor
      · rintro ⟨r, l', rfl, h⟩
        obtain ⟨a, l₁, l₂, rfl, hfirst, hrest⟩ := (ih r).mp h
        exact ⟨a, ⟨op, r⟩ :: l₁, l₂, rfl, .answer r hfirst, hrest⟩
      · rintro ⟨a, l₁, l₂, rfl, hfirst, hrest⟩
        obtain ⟨r, l', rfl, hinner⟩ := run_ask_done_iff.mp hfirst
        exact ⟨r, l' ++ l₂, rfl, (ih r).mpr ⟨a, l', l₂, rfl, hinner, hrest⟩⟩

/-- The run on a device that always gives the same answer to an operation. -/
def play (answer : (op : Op) → Res op) : Prog Op Res α → List (Event Op Res) × α
  | .done a => ([], a)
  | .ask op next =>
      let rest := (next (answer op)).play answer
      (⟨op, answer op⟩ :: rest.1, rest.2)

theorem run_play (answer : (op : Op) → Res op) (p : Prog Op Res α) :
    Run p (p.play answer).1 (.done (p.play answer).2) := by
  induction p with
  | done a => exact .stop _
  | ask op next ih => exact .answer _ (ih (answer op))

inductive Forever (body : τ → Prog Op Res τ) : τ → List (Event Op Res) → Prop where
  | within {t : τ} {l : List (Event Op Res)} {q : Prog Op Res τ} (h : Run (body t) l q) :
      Forever body t l
  | again {t t' : τ} {l l' : List (Event Op Res)} (h : Run (body t) l (.done t'))
      (rest : Forever body t' l') : Forever body t (l ++ l')

/-- The rounds of a list of events lead to the beginning of a round with `t'`. -/
inductive Reaches (body : τ → Prog Op Res τ) (t : τ) : List (Event Op Res) → τ → Prop where
  | here : Reaches body t [] t
  | round {t' t'' : τ} {l l' : List (Event Op Res)} (before : Reaches body t l t')
      (h : Run (body t') l' (.done t'')) : Reaches body t (l ++ l') t''

/-- The first rounds on a device that always gives the same answer to an operation. -/
def playRounds (answer : (op : Op) → Res op) (body : τ → Prog Op Res τ) (t : τ) :
    Nat → List (Event Op Res) × τ
  | 0 => ([], t)
  | n + 1 =>
      let before := playRounds answer body t n
      let round := (body before.2).play answer
      (before.1 ++ round.1, round.2)

theorem reaches_playRounds (answer : (op : Op) → Res op) (body : τ → Prog Op Res τ) (t : τ)
    (n : Nat) :
    Reaches body t (playRounds answer body t n).1 (playRounds answer body t n).2 := by
  induction n with
  | zero => exact .here
  | succ n ih => exact .round ih (run_play answer _)

end Prog

/-! ## Contracts -/

structure Contract (Op : Type) (Res : Op → Type) (σ : Type) where
  next : σ → Event Op Res → σ
  rely : σ → Event Op Res → Prop
  ensure : σ → Event Op Res → Prop

namespace Contract

variable {Op : Type} {Res : Op → Type} {α β τ σ : Type} (c : Contract Op Res σ)

def after (s : σ) (l : List (Event Op Res)) : σ := l.foldl c.next s

/-- Every event of a list satisfies a condition in its state. -/
def Along (R : σ → Event Op Res → Prop) : σ → List (Event Op Res) → Prop
  | _, [] => True
  | s, e :: l => R s e ∧ Along R (c.next s e) l

/-- From the state `s` the program does nothing that is not ensured, and ends as `Q` says. -/
def Holds : Prog Op Res α → σ → (α → σ → Prop) → Prop
  | .done a, s, Q => Q a s
  | .ask op next, s, Q =>
      ∀ r, c.rely s ⟨op, r⟩ → c.ensure s ⟨op, r⟩ ∧ Holds (next r) (c.next s ⟨op, r⟩) Q

variable {c} {s : σ}

@[simp] theorem after_nil : c.after s [] = s := rfl

theorem along_append {R : σ → Event Op Res → Prop} {l₁ l₂ : List (Event Op Res)} :
    c.Along R s (l₁ ++ l₂) ↔ c.Along R s l₁ ∧ c.Along R (c.after s l₁) l₂ := by
  induction l₁ generalizing s with
  | nil => exact (iff_of_eq (true_and _)).symm
  | cons e l₁ ih =>
      rw [List.cons_append, Along, Along, ih, and_assoc]
      rfl

theorem Along.at {R : σ → Event Op Res → Prop} {l₁ l₂ : List (Event Op Res)} {e : Event Op Res}
    (h : c.Along R s (l₁ ++ e :: l₂)) : R (c.after s l₁) e := (along_append.mp h).2.1

theorem along_of_forall {R : σ → Event Op Res → Prop} {l : List (Event Op Res)}
    (h : ∀ e ∈ l, ∀ t, R t e) : c.Along R s l := by
  induction l generalizing s with
  | nil => trivial
  | cons e l ih =>
      exact ⟨h e List.mem_cons_self s, ih fun e' he' => h e' (List.mem_cons_of_mem _ he')⟩

@[simp] theorem holds_done {a : α} {Q : α → σ → Prop} : c.Holds (.done a) s Q ↔ Q a s := Iff.rfl

theorem holds_ask {op : Op} {next : Res op → Prog Op Res α} {Q : α → σ → Prop} :
    c.Holds (.ask op next) s Q ↔
      ∀ r, c.rely s ⟨op, r⟩ → c.ensure s ⟨op, r⟩ ∧ c.Holds (next r) (c.next s ⟨op, r⟩) Q := Iff.rfl

theorem Holds.mono {p : Prog Op Res α} {Q Q' : α → σ → Prop} (h : c.Holds p s Q)
    (hQ : ∀ a t, Q a t → Q' a t) : c.Holds p s Q' := by
  induction p generalizing s with
  | done a => exact hQ a s h
  | ask op next ih => exact fun r hr => ⟨(h r hr).1, ih r (h r hr).2⟩

theorem holds_bind {p : Prog Op Res α} {f : α → Prog Op Res β} {Q : β → σ → Prop} :
    c.Holds (p >>= f) s Q ↔ c.Holds p s fun a t => c.Holds (f a) t Q := by
  induction p generalizing s with
  | done a => exact Iff.rfl
  | ask op next ih =>
      rw [Prog.ask_bind, holds_ask, holds_ask]
      exact forall₂_congr fun r _ => and_congr_right fun _ => ih r

/-- The rule for one part after another. -/
theorem Holds.bind {p : Prog Op Res α} {f : α → Prog Op Res β} {P : α → σ → Prop}
    {Q : β → σ → Prop} (h : c.Holds p s P) (hf : ∀ a t, P a t → c.Holds (f a) t Q) :
    c.Holds (p >>= f) s Q := holds_bind.mpr (h.mono hf)

/-- A run of a program that holds to its contract. -/
theorem Holds.run {p q : Prog Op Res α} {Q : α → σ → Prop} {l : List (Event Op Res)}
    (h : c.Holds p s Q) (hrun : p.Run l q) (hrely : c.Along c.rely s l) :
    c.Along c.ensure s l ∧ c.Holds q (c.after s l) Q := by
  induction hrun generalizing s with
  | stop p => exact ⟨trivial, h⟩
  | answer r rest ih =>
      obtain ⟨hensure, hnext⟩ := h r hrely.1
      obtain ⟨halong, hend⟩ := ih hnext hrely.2
      exact ⟨⟨hensure, halong⟩, hend⟩

/-- The rule for a program that never ends: `J` holds at the beginning of each round. -/
theorem ensures_forever {body : τ → Prog Op Res τ} {J : τ → σ → Prop}
    (hround : ∀ t s, J t s → c.Holds (body t) s J) {t : τ} {l : List (Event Op Res)}
    (h : Prog.Forever body t l) (hs : J t s) (hrely : c.Along c.rely s l) :
    c.Along c.ensure s l := by
  induction h generalizing s with
  | within hrun => exact ((hround _ s hs).run hrun hrely).1
  | again hrun rest ih =>
      obtain ⟨hfirst, hlater⟩ := along_append.mp hrely
      obtain ⟨halong, hend⟩ := (hround _ s hs).run hrun hfirst
      exact along_append.mpr ⟨halong, ih hend hlater⟩

end Contract

end Mfi.Core
