import Mfi.Core.Events
import Mfi.DualPortRam

/-!
# The dual-clock FIFO

`dcfifo` of the transmit controllers, a vendor block of 512 words. Both its clocks
are the system clock here, but its two sides still learn of each other through
synchroniser stages, so a written word becomes visible to the read side later, and
a freed place to the write side. The delays are inputs of the model.
-/

namespace Mfi

/-- What the synchronisers let through in one cycle: written words that the read
side learns of, and freed places that the write side learns of. -/
structure FifoDelay where
  arrive : Nat
  release : Nat

structure DcFifo where
  visible : List Word
  crossing : List Word
  unreleased : Nat
  q : Word

namespace DcFifo

def init : DcFifo := ⟨[], [], 0, 0⟩

/-- `rdempty`. -/
def empty (f : DcFifo) : Bool := f.visible.isEmpty

def used (f : DcFifo) : Nat := f.visible.length + f.crossing.length + f.unreleased

/-- `wrfull`. -/
def full (f : DcFifo) : Bool := decide (512 ≤ f.used)

/-- `wrusedw`, of nine bits. -/
def usedw (f : DcFifo) : Nat := f.used % 512

def takes (f : DcFifo) (rdreq : Bool) : Bool := rdreq && !f.empty

def stores (f : DcFifo) (wrreq : Bool) : Bool := wrreq && !f.full

/-- One edge of both clocks. The output `q` follows a read request. -/
def step (f : DcFifo) (data : Word) (wrreq rdreq : Bool) (d : FifoDelay) : DcFifo where
  visible := (if f.takes rdreq then f.visible.tail else f.visible) ++ f.crossing.take d.arrive
  crossing := f.crossing.drop d.arrive ++ if f.stores wrreq then [data] else []
  unreleased := f.unreleased - d.release + (f.takes rdreq).toNat
  q := if f.takes rdreq then f.visible.headD f.q else f.q

def words (f : DcFifo) : List Word := f.visible ++ f.crossing

variable {f : DcFifo} {data : Word} {wrreq rdreq : Bool} {d : FifoDelay}

theorem step_words_of_not_takes (h : f.takes rdreq = false) :
    (f.step data wrreq rdreq d).words =
      f.words ++ if f.stores wrreq then [data] else [] := by
  simp only [words, step, h, Bool.false_eq_true, if_false, List.append_assoc]
  rw [← List.append_assoc (List.take _ _), List.take_append_drop]

theorem step_words_of_takes (h : f.takes rdreq = true) :
    f.words ++ (if f.stores wrreq then [data] else []) =
      (f.step data wrreq rdreq d).q :: (f.step data wrreq rdreq d).words := by
  have hne : f.visible ≠ [] := by
    intro hnil
    simp [takes, empty, hnil] at h
  cases hv : f.visible with
  | nil => exact absurd hv hne
  | cons w rest =>
      simp only [words, step, h, hv, if_true, List.headD_cons, List.tail_cons,
        List.append_assoc, List.cons_append]
      rw [← List.append_assoc (List.take _ _), List.take_append_drop]

theorem step_q_of_not_takes (h : f.takes rdreq = false) :
    (f.step data wrreq rdreq d).q = f.q := by
  simp [step, h]

theorem step_visible_of_not_takes (h : f.takes rdreq = false) :
    (f.step data wrreq rdreq d).visible = f.visible ++ f.crossing.take d.arrive := by
  simp [step, h]

/-! ## Without reads -/

section Waiting

variable (fifo : Nat → DcFifo) {data : Nat → Word} {wrreq rdreq : Nat → Bool}
  {d : Nat → FifoDelay} {n L : Nat}

theorem words_waiting (hstep : ∀ n, fifo (n + 1) = (fifo n).step (data n) (wrreq n) (rdreq n) (d n))
    (hnone : ∀ k < L, rdreq (n + k) = false) :
    ∃ later, (fifo (n + L)).words = (fifo n).words ++ later := by
  induction L with
  | zero => exact ⟨[], (List.append_nil _).symm⟩
  | succ L ih =>
      obtain ⟨later, hlater⟩ := ih fun k hk => hnone k (by omega)
      have hidle : (fifo (n + L)).takes (rdreq (n + L)) = false := by
        simp [takes, hnone L (by omega)]
      refine ⟨later ++ if (fifo (n + L)).stores (wrreq (n + L)) then [data (n + L)] else [], ?_⟩
      rw [← Nat.add_assoc, hstep, step_words_of_not_takes hidle, hlater, List.append_assoc]

/-- A word becomes visible with the first arrival, and stays. -/
theorem visible_waiting
    (hstep : ∀ n, fifo (n + 1) = (fifo n).step (data n) (wrreq n) (rdreq n) (d n))
    (hnone : ∀ k < L, rdreq (n + k) = false) (hne : (fifo n).words ≠ [])
    (h : (fifo n).visible ≠ [] ∨ ∃ k < L, 0 < (d (n + k)).arrive) :
    (fifo (n + L)).visible ≠ [] := by
  induction L with
  | zero =>
      rcases h with hvisible | ⟨k, hk, _⟩
      · exact hvisible
      · omega
  | succ L ih =>
      have hidle : (fifo (n + L)).takes (rdreq (n + L)) = false := by
        simp [takes, hnone L (by omega)]
      have hbefore : ∀ k < L, rdreq (n + k) = false := fun k hk => hnone k (by omega)
      rw [← Nat.add_assoc, hstep, step_visible_of_not_takes hidle]
      by_cases hnow : (fifo (n + L)).visible = []
      · obtain ⟨later, hlater⟩ := words_waiting fifo hstep hbefore
        rw [words, hnow, List.nil_append] at hlater
        have hcrossing : (fifo (n + L)).crossing ≠ [] := by
          rw [hlater]
          exact List.append_ne_nil_of_left_ne_nil hne later
        have harrive : 0 < (d (n + L)).arrive := by
          rcases h with hvisible | ⟨k, hk, hpos⟩
          · exact absurd hnow (ih hbefore (Or.inl hvisible))
          · by_cases hlast : k = L
            · rwa [hlast] at hpos
            · exact absurd hnow (ih hbefore (Or.inr ⟨k, by omega, hpos⟩))
        rw [hnow, List.nil_append, Ne, List.take_eq_nil_iff]
        simp only [not_or]
        exact ⟨by omega, hcrossing⟩
      · exact List.append_ne_nil_of_left_ne_nil hnow _

end Waiting

theorem words_of_visible (h : f.visible ≠ []) :
    f.words = f.visible.headD f.q :: (f.visible.tail ++ f.crossing) := by
  obtain ⟨w, rest, hv⟩ := List.exists_cons_of_ne_nil h
  simp [words, hv]

theorem step_words_of_read (h : f.visible ≠ []) :
    (f.step data wrreq true d).words =
      f.words.tail ++ if f.stores wrreq then [data] else [] := by
  have htakes : f.takes true = true := by simpa [takes, empty] using h
  have hwords : f.words ++ (if f.stores wrreq then [data] else []) =
      (f.step data wrreq true d).q :: (f.step data wrreq true d).words :=
    step_words_of_takes htakes
  rw [words_of_visible h, List.cons_append] at hwords
  rw [words_of_visible h, List.tail_cons]
  exact (List.cons.inj hwords).2.symm

/-! ## What goes in and out -/

def accepts (f : DcFifo) (data : Word) (wrreq : Bool) : Option Word :=
  if f.stores wrreq then some data else none

def hands (f : DcFifo) (rdreq : Bool) : Option Word :=
  if f.takes rdreq then f.visible.head? else none

theorem step_words (f : DcFifo) (data : Word) (wrreq rdreq : Bool) (d : FifoDelay) :
    f.words ++ (f.accepts data wrreq).toList =
      (f.hands rdreq).toList ++ (f.step data wrreq rdreq d).words := by
  have hin : (f.accepts data wrreq).toList = if f.stores wrreq then [data] else [] := by
    unfold accepts
    split <;> rfl
  rw [hin]
  cases htakes : f.takes rdreq with
  | false =>
      rw [step_words_of_not_takes htakes, hands, htakes]
      rfl
  | true =>
      have hq : (f.step data wrreq rdreq d).q = f.visible.headD f.q := by simp [step, htakes]
      rw [step_words_of_takes htakes, hq, hands, htakes]
      cases hv : f.visible with
      | nil => simp [takes, empty, hv] at htakes
      | cons w rest => rfl

/-- The words that were there and those stored since are those taken since and those still
there. -/
theorem words_conserved (fifo : Nat → DcFifo) {data : Nat → Word} {wrreq rdreq : Nat → Bool}
    {d : Nat → FifoDelay}
    (hstep : ∀ n, fifo (n + 1) = (fifo n).step (data n) (wrreq n) (rdreq n) (d n)) (n : Nat) :
    (fifo 0).words ++ Core.events (fun k => (fifo k).accepts (data k) (wrreq k)) n =
      Core.events (fun k => (fifo k).hands (rdreq k)) n ++ (fifo n).words := by
  induction n with
  | zero => exact List.append_nil _
  | succ n ih =>
      rw [Core.events_succ, Core.events_succ, hstep, ← List.append_assoc, ih, List.append_assoc,
        step_words, List.append_assoc]

end DcFifo

end Mfi
