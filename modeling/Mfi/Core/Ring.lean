import Mathlib.Logic.Function.Basic
import Mathlib.Data.Nat.ModEq

/-!
# Ring buffers and bounded queues

A bounded queue is a list that refuses entries beyond its capacity. A ring keeps
such a list in the cells `base, ..., base + size - 1` of a memory, starting at a
head cell and wrapping at the end. `LatchedRing` is the ring of a clocked design:
a write is reserved one cycle before it lands, and a read request is latched and
served later.
-/

namespace Mfi.Core

variable {α : Type}

/-- Append to a bounded queue, or drop the entry when the queue is full. -/
def offer (capacity : Nat) (q : List α) (x : α) : List α :=
  if q.length < capacity then q ++ [x] else q

theorem offer_of_lt {capacity : Nat} {q : List α} (x : α) (h : q.length < capacity) :
    offer capacity q x = q ++ [x] := if_pos h

/-! ## Slots -/

/-- The cell `k` places after `head`. -/
def slot (base size head k : Nat) : Nat := base + (head - base + k) % size

theorem slot_mem (base head k : Nat) {size : Nat} (hs : 0 < size) :
    base ≤ slot base size head k ∧ slot base size head k < base + size := by
  have h := Nat.mod_lt (head - base + k) hs
  unfold slot
  omega

theorem slot_zero {base size head : Nat} (hb : base ≤ head) (hh : head < base + size) :
    slot base size head 0 = head := by
  unfold slot
  rw [Nat.add_zero, Nat.mod_eq_of_lt (by omega)]
  omega

theorem slot_advance (base size head k : Nat) :
    slot base size (slot base size head 1) k = slot base size head (k + 1) := by
  unfold slot
  rw [Nat.add_sub_cancel_left, Nat.mod_add_mod]
  congr 2
  omega

theorem slot_ne {base size head i j : Nat} (hij : i < j) (hj : j < i + size) :
    slot base size head i ≠ slot base size head j := by
  intro h
  unfold slot at h
  have hmod : head - base + i ≡ head - base + j [MOD size] := Nat.add_left_cancel h
  have hdvd := (Nat.modEq_iff_dvd' (by omega)).mp hmod
  have hle := Nat.le_of_dvd (by omega) hdvd
  omega

/-! ## Lists kept in a ring -/

/-- The cells from place `skip` on hold `q`, a list of entries with their cells. -/
def Holds (base size : Nat) (mem : Nat → α) (head skip : Nat) (q : List (Nat × α)) : Prop :=
  ∀ (k : Nat) (hk : k < q.length),
    q[k] = (slot base size head (k + skip), mem (slot base size head (k + skip)))

section Holds

variable {base size head skip : Nat} {mem : Nat → α} {q : List (Nat × α)}

theorem Holds.nil : Holds base size mem head skip [] := by
  intro k hk
  simp at hk

theorem Holds.intact (h : Holds base size mem head skip q) {e : Nat × α} (he : e ∈ q) :
    mem e.1 = e.2 := by
  obtain ⟨k, hk, rfl⟩ := List.mem_iff_getElem.mp he
  rw [h k hk]

theorem Holds.head_cell (h : Holds base size mem head skip q) {e : Nat × α}
    (he : q.head? = some e) : e.1 = slot base size head skip := by
  cases q with
  | nil => simp at he
  | cons x rest =>
      have hx := h 0 (by simp)
      simp only [List.head?_cons, Option.some.injEq] at he
      rw [← he]
      simpa using congrArg Prod.fst hx

theorem Holds.tail (h : Holds base size mem head skip q) :
    Holds base size mem head (skip + 1) q.tail := by
  intro k hk
  rw [List.length_tail] at hk
  have hcell := h (k + 1) (by omega)
  rw [List.getElem_tail, hcell, Nat.add_assoc, Nat.add_comm 1 skip]

theorem Holds.advance (h : Holds base size mem head (skip + 1) q) :
    Holds base size mem (slot base size head 1) skip q := by
  intro k hk
  rw [slot_advance]
  exact h k hk

theorem Holds.fresh (h : Holds base size mem head skip q) (hroom : q.length < size)
    {e : Nat × α} (he : e ∈ q) : e.1 ≠ slot base size head (q.length + skip) := by
  obtain ⟨k, hk, rfl⟩ := List.mem_iff_getElem.mp he
  rw [h k hk]
  exact slot_ne (by omega) (by omega)

theorem Holds.push (h : Holds base size mem head skip q) (hroom : q.length < size) (x : α) :
    Holds base size (Function.update mem (slot base size head (q.length + skip)) x)
      head skip (q ++ [(slot base size head (q.length + skip), x)]) := by
  intro k hk
  rw [List.length_append, List.length_singleton] at hk
  by_cases hlast : k = q.length
  · subst hlast
    simp
  · have hold : k < q.length := by omega
    rw [Function.update_of_ne (slot_ne (by omega) (by omega)), List.getElem_append_left hold]
    exact h k hold

end Holds

/-! ## Rings with a reserved write and a latched read -/

/-- The registers of a clocked ring: the cells, the read pointer, the number of
entries counted by the design (a reserved one included), the address of the
reserved write and the two request latches. -/
structure LatchedRing (α : Type) where
  mem : Nat → α
  head : Nat
  count : Nat
  writeAddr : Nat
  inFlight : Bool
  latched : Bool

namespace LatchedRing

def pending (r : LatchedRing α) : Bool := r.latched && decide (r.inFlight.toNat < r.count)

def request (r : LatchedRing α) : LatchedRing α := { r with latched := true }

def commit (base size : Nat) (r : LatchedRing α) : LatchedRing α :=
  { r with head := slot base size r.head 1, count := r.count - 1, latched := false }

def reserve (base size : Nat) (r : LatchedRing α) : LatchedRing α :=
  { r with writeAddr := slot base size r.head r.count, count := r.count + 1, inFlight := true }

def land (r : LatchedRing α) (x : α) : LatchedRing α :=
  { r with mem := Function.update r.mem r.writeAddr x, inFlight := false }

/-- The ring stands for the unread entries `q`: those that were stored and not yet
requested. -/
structure Represents (base size : Nat) (r : LatchedRing α) (q : List (Nat × α)) :
    Prop where
  head_ge : base ≤ r.head
  head_lt : r.head < base + size
  count_eq : r.count = q.length + r.pending.toNat + r.inFlight.toNat
  fits : q.length ≤ size
  holds : Holds base size r.mem r.head r.pending.toNat q
  write_eq : r.inFlight = true → r.writeAddr = slot base size r.head (r.count - 1)

variable {base size : Nat} {r : LatchedRing α} {q : List (Nat × α)}

theorem pending_of_not_latched (h : r.latched = false) : r.pending = false := by
  simp [pending, h]

theorem Represents.write_addr (h : Represents base size r q) (hf : r.inFlight = true) :
    r.writeAddr = slot base size r.head (q.length + r.pending.toNat) := by
  have hc := h.count_eq
  rw [hf, Bool.toNat_true] at hc
  rw [h.write_eq hf]
  congr 1
  omega

/-- With no request latched the count is the number of unread entries, and the
reserved one. -/
theorem Represents.count_idle (h : Represents base size r q) (hl : r.latched = false) :
    r.count = q.length + r.inFlight.toNat := by
  have hc := h.count_eq
  rw [pending_of_not_latched hl] at hc
  simpa using hc

/-- A request removes the oldest unread entry. A request that finds an earlier one
still latched is harmless only when nothing is left to remove. -/
theorem Represents.request (h : Represents base size r q)
    (hone : r.latched = true → r.count ≤ 1 + r.inFlight.toNat) :
    Represents base size r.request q.tail := by
  have hc := h.count_eq
  cases hl : r.latched with
  | true =>
      have hq : q = [] := by
        have hle := hone hl
        apply List.eq_nil_of_length_eq_zero
        by_cases hp : r.inFlight.toNat < r.count
        · have hpend : r.pending = true := by simp [pending, hl, hp]
          rw [hpend, Bool.toNat_true] at hc
          omega
        · omega
      have hr : r.request = r := by
        unfold LatchedRing.request
        rw [← hl]
      rw [hr, hq, List.tail_nil, ← hq]
      exact h
  | false =>
      have hidle := h.count_idle hl
      have hh := h.holds
      rw [pending_of_not_latched hl] at hh
      have hp : r.request.pending.toNat = if q = [] then 0 else 1 := by
        by_cases hq : q = []
        · subst hq
          simp [LatchedRing.request, pending, hidle]
        · have hpos := List.length_pos_iff.mpr hq
          simp [LatchedRing.request, pending, hidle, hq, hpos]
      refine ⟨h.head_ge, h.head_lt, ?_, ?_, ?_, h.write_eq⟩
      · rw [hp]
        change r.count = _
        by_cases hq : q = []
        · subst hq
          simpa [LatchedRing.request] using hidle
        · have hpos := List.length_pos_iff.mpr hq
          rw [if_neg hq, List.length_tail, hidle]
          change _ = _ + r.inFlight.toNat
          omega
      · rw [List.length_tail]
        have := h.fits
        omega
      · rw [hp]
        by_cases hq : q = []
        · subst hq
          exact Holds.nil
        · rw [if_neg hq]
          exact hh.tail

theorem Represents.commit (h : Represents base size r q) (hs : 0 < size)
    (hp : r.pending = true) (hf : r.inFlight = false) :
    Represents base size (r.commit base size) q := by
  have hc := h.count_eq
  have hh := h.holds
  rw [hp, hf] at hc
  rw [hp] at hh
  have hmem := slot_mem base r.head 1 hs
  have hp' : (r.commit base size).pending = false := pending_of_not_latched rfl
  refine ⟨hmem.1, hmem.2, ?_, h.fits, ?_, ?_⟩
  · rw [hp']
    change r.count - 1 = q.length + false.toNat + r.inFlight.toNat
    rw [hf, hc]
    simp
  · rw [hp']
    exact Holds.advance hh
  · intro hf'
    change r.inFlight = true at hf'
    rw [hf] at hf'
    cases hf'

theorem Represents.reserve (h : Represents base size r q) (hf : r.inFlight = false) :
    Represents base size (r.reserve base size) q := by
  have hp : (r.reserve base size).pending = r.pending := by
    simp [LatchedRing.reserve, pending, hf]
  have hc := h.count_eq
  rw [hf] at hc
  refine ⟨h.head_ge, h.head_lt, ?_, h.fits, ?_, fun _ => ?_⟩
  · rw [hp]
    change r.count + 1 = _ + true.toNat
    simp only [Bool.toNat_false, Bool.toNat_true] at hc ⊢
    omega
  · rw [hp]
    exact h.holds
  · change slot base size r.head r.count = slot base size r.head (r.count + 1 - 1)
    rw [Nat.add_sub_cancel]

/-- A landing write appends, provided there is room and no latched request waits
for the very entry that lands. -/
theorem Represents.land (h : Represents base size r q) (hf : r.inFlight = true)
    (hroom : q.length < size) (hwait : ¬ (r.latched = true ∧ r.count = 1)) (x : α) :
    Represents base size (r.land x) (q ++ [(r.writeAddr, x)]) := by
  have hc := h.count_eq
  rw [hf, Bool.toNat_true] at hc
  have hp : (r.land x).pending = r.pending := by
    cases hl : r.latched with
    | false => simp [LatchedRing.land, pending, hl]
    | true =>
        have hne : r.count ≠ 1 := fun h1 => hwait ⟨hl, h1⟩
        have h1 : 1 < r.count := by omega
        have h0 : 0 < r.count := by omega
        simp [LatchedRing.land, pending, hl, hf, h0, h1]
  refine ⟨h.head_ge, h.head_lt, ?_, ?_, ?_, ?_⟩
  · rw [hp, List.length_append, List.length_singleton]
    change r.count = _ + false.toNat
    simp only [Bool.toNat_false]
    omega
  · rw [List.length_append, List.length_singleton]
    omega
  · rw [hp]
    change Holds base size (Function.update r.mem r.writeAddr x) r.head _ _
    rw [h.write_addr hf]
    exact h.holds.push hroom x
  · intro hf'
    exact absurd hf' Bool.false_ne_true

theorem Represents.write_fresh (h : Represents base size r q) (hf : r.inFlight = true)
    (hroom : q.length < size) :
    base ≤ r.writeAddr ∧ r.writeAddr < base + size ∧ ∀ e ∈ q, e.1 ≠ r.writeAddr := by
  rw [h.write_addr hf]
  have hmem := slot_mem base r.head (q.length + r.pending.toNat) (Nat.zero_lt_of_lt hroom)
  exact ⟨hmem.1, hmem.2, fun e he => h.holds.fresh hroom he⟩

end LatchedRing

end Mfi.Core
