import Mfi.Core.Ring
import Mfi.Arinc429.RxRun

/-!
# The receive buffer as a bounded queue

With `rxconfig[2]` clear the controller keeps the received words in the slots
256..1023. The reference is a queue of capacity 768 whose entries carry the slot
they were written to: a host read strobe removes the oldest entry, a RAM write
appends one. `FifoRefines` says that a run of the controller is this queue.

The controller is not the queue on every run. It has no test for 768 entries
(`diff` saturates at 1023 only), it has one latch for all read requests, and a
request that finds the queue empty stays latched and removes the next word.
`fifo_refines` shows that nothing else goes wrong.
-/

namespace Mfi.Arinc429

open Core

def FifoMode (inp : Nat → RxInput) : Prop :=
  ∀ n, mailbox (inp n) = false ∧ speed (inp n) ≠ 0#2

/-! ## The reference queue -/

section Reference

variable (s : RxController) (inp : Nat → RxInput)

/-- The queue after the host read of one cycle, if there is one. -/
def readOldest (rd : Bool) (q : List (Nat × Word)) : List (Nat × Word) :=
  if rd then q.tail else q

/-- The unread words before cycle `n`, each with its slot. -/
def unread : Nat → List (Nat × Word)
  | 0 => []
  | n + 1 =>
      let c := trace RxController.step s inp n
      let q := readOldest (inp n).buferRd (unread n)
      if c.buferWeB then offer 768 q (c.buferAddrB, arincDataOut (inp n)) else q

/-- The unread words once the read strobe of cycle `n` is served. -/
def afterRead (n : Nat) : List (Nat × Word) := readOldest (inp n).buferRd (unread s inp n)

end Reference

structure FifoRefines (s : RxController) (inp : Nat → RxInput) : Prop where
  /-- Every store goes to a buffer slot that holds no unread word. -/
  stores : ∀ n, (trace RxController.step s inp n).buferWeB = true →
    256 ≤ (trace RxController.step s inp n).buferAddrB ∧
    (trace RxController.step s inp n).buferAddrB ≤ 1023 ∧
    ∀ e ∈ afterRead s inp n, e.1 ≠ (trace RxController.step s inp n).buferAddrB
  /-- A word is stored while there is room, else dropped with the overflow flag. -/
  decides : ∀ n, (trace RxController.step s inp n).accepts (inp n) = true →
    if (afterRead s inp (n + 1)).length < 768 then
      (trace RxController.step s inp (n + 1)).buferWeB = true
    else (trace RxController.step s inp (n + 1)).buferWeB = false ∧
      ∃ m > n, (trace RxController.step s inp m).rxintflag2 = true
  /-- Unread words stay intact in their slots. -/
  intact : ∀ n, ∀ e ∈ unread s inp n, (trace RxController.step s inp n).ramBuf.ram e.1 = e.2
  /-- When nothing is pending `diff` is the number of unread words. -/
  counts : ∀ n, (trace RxController.step s inp n).Quiet →
    (trace RxController.step s inp n).diff = (unread s inp n).length
  /-- The host is shown the oldest unread word. -/
  oldest : ∀ n, (trace RxController.step s inp n).Quiet → ∀ e,
    (unread s inp n).head? = some e → (trace RxController.step s inp n).readedAddr = e.1
  /-- Every received word that is not refused by the parity check is put to the
  label mask and, if stored, is the word written. -/
  files : ∀ n, (inp n).port.rxFlag = true → parityFails (inp (n + 1)) = false →
    (trace RxController.step s inp (n + 7)).state = .arincEvent ∧
    (trace RxController.step s inp (n + 7)).cnt = 5 ∧
    (inp (n + 8)).port.recievedWord = (inp n).port.recievedWord

/-! ## The condition on a step -/

/-- A latched read request that removes a word once it is served. -/
def RxController.pendingRead (s : RxController) : Bool :=
  s.buferRdSig && decide (s.buferWeB.toNat < s.diff)

def RxController.unreadCount (s : RxController) : Nat :=
  s.diff - s.buferWeB.toNat - s.pendingRead.toNat

structure FifoStepOk (s : RxController) (i : RxInput) : Prop where
  /-- No read strobe is swallowed by one that is still latched. -/
  oneRequest : i.buferRd = true → s.buferRdSig = true → s.diff ≤ 1 + s.buferWeB.toNat
  /-- No word is written while 768 are unread. -/
  room : s.buferWeB = true → s.unreadCount - i.buferRd.toNat < 768
  /-- No word lands while a read request on the empty queue is latched or arrives. -/
  noEmptyRead : s.buferWeB = true → s.diff = 1 → s.buferRdSig = false ∧ i.buferRd = false

instance (s : RxController) (i : RxInput) : Decidable (FifoStepOk s i) :=
  decidable_of_iff
    ((i.buferRd = true → s.buferRdSig = true → s.diff ≤ 1 + s.buferWeB.toNat) ∧
      (s.buferWeB = true → s.unreadCount - i.buferRd.toNat < 768) ∧
      (s.buferWeB = true → s.diff = 1 → s.buferRdSig = false ∧ i.buferRd = false))
    ⟨fun h => ⟨h.1, h.2.1, h.2.2⟩, fun h => ⟨h.oneRequest, h.room, h.noEmptyRead⟩⟩

/-! ## One step in terms of the ring -/

namespace RxController

def fifo (s : RxController) : LatchedRing Word where
  mem := s.ramBuf.ram
  head := s.readedAddr
  count := s.diff
  writeAddr := s.buferAddrB
  inFlight := s.buferWeB
  latched := s.buferRdSig

def requested (s : RxController) (i : RxInput) : LatchedRing Word :=
  if i.buferRd then s.fifo.request else s.fifo

theorem fifoWriteAddr_eq_slot {readedAddr diff : Nat} (hlo : 256 ≤ readedAddr)
    (hhi : readedAddr < 1024) (hd : diff ≤ 768) :
    fifoWriteAddr readedAddr diff = slot 256 768 readedAddr diff := by
  unfold fifoWriteAddr slot
  dsimp only
  by_cases hwrap : readedAddr + diff < 1024
  · rw [Nat.div_eq_of_lt hwrap]
    omega
  · rw [show (readedAddr + diff) / 1024 = 1 by omega]
    omega

theorem next_readedAddr {readedAddr : Nat} (hlo : 256 ≤ readedAddr) (hhi : readedAddr < 1024) :
    (if readedAddr = 1023 then 256 else readedAddr + 1) = slot 256 768 readedAddr 1 := by
  unfold slot
  split <;> omega

/-- In FIFO mode the machine never enters `flag_check`. -/
structure FifoControl (s : RxController) : Prop extends Control s where
  notFlagCheck : s.state ≠ .flagCheck

theorem fifo_pending (s : RxController) : s.fifo.pending = s.pendingRead := rfl

variable {s : RxController} {i : RxInput}

theorem FifoControl.step (h : FifoControl s) (hm : mailbox i = false) : FifoControl (s.step i) := by
  refine ⟨h.toControl.step, ?_⟩
  cases hs : s.state with
  | waiting =>
      rw [step_waiting hs]
      simp only [hm, Bool.false_and, Bool.false_eq_true, if_false]
      split <;> simp
  | arincEvent =>
      rw [step_arincEvent hs h.cnt_lt]
      dsimp only
      split <;> simp
  | flagCheck => exact absurd hs h.notFlagCheck

/-- One clock edge performs at most one ring operation after the host request. -/
theorem fifo_step (h : FifoControl s) (hm : mailbox i = false) (hsp : speed i ≠ 0#2)
    (hlo : 256 ≤ s.readedAddr) (hhi : s.readedAddr < 1024)
    (hd : s.accepts i = true → s.diff ≤ 768) :
    (s.step i).fifo =
      if s.state = .waiting ∧ s.pops i = true then (s.requested i).commit 256 768
      else if s.accepts i then (s.requested i).reserve 256 768
      else if s.buferWeB then (s.requested i).land (arincDataOut i)
      else s.requested i := by
  cases hs : s.state with
  | waiting =>
      have hw := h.not_writing (fun h' => by rw [hs] at h'; cases h')
      have ha : s.accepts i = false := by simp [accepts, hs]
      rw [step_waiting hs]
      have hnext := next_readedAddr hlo hhi
      cases hp : s.pops i <;> cases hr : i.buferRd <;>
        simp [fifo, requested, LatchedRing.request, LatchedRing.commit, beforeCase, hw, ha, hm,
          hr, hsp, hnext]
  | arincEvent =>
      rw [step_arincEvent hs h.cnt_lt]
      cases ha : s.accepts i with
      | true =>
          have hw := h.not_writing (fun _ => by rw [(accepts_cnt ha).2]; decide)
          have haddr := fifoWriteAddr_eq_slot hlo hhi (hd ha)
          have hsat : s.diff ≠ 1023 := by
            have := hd ha
            omega
          cases hr : i.buferRd <;>
            simp [fifo, requested, LatchedRing.request, LatchedRing.reserve, beforeCase, hw, hm, hr,
              haddr, hsat]
      | false =>
          cases hr : i.buferRd <;> cases hw : s.buferWeB <;>
            simp [fifo, requested, LatchedRing.request, LatchedRing.land, beforeCase, hw, hm, hr]
  | flagCheck => exact absurd hs h.notFlagCheck

/-! ## The invariant of a run -/

structure FifoInv (s : RxController) (q : List (Nat × Word)) : Prop where
  control : FifoControl s
  ring : LatchedRing.Represents 256 768 s.fifo q
  /-- No word is outstanding beyond the capacity when the store is decided. -/
  bound : s.state = .arincEvent → s.cnt ≤ 5 → s.diff ≤ 768

theorem FifoInv.length_eq {q : List (Nat × Word)} (h : FifoInv s q) :
    q.length = s.unreadCount := by
  have hc := h.ring.count_eq
  rw [fifo_pending] at hc
  change s.diff = q.length + s.pendingRead.toNat + s.buferWeB.toNat at hc
  unfold unreadCount
  omega

theorem FifoInv.requested {q : List (Nat × Word)} (h : FifoInv s q) (hok : FifoStepOk s i) :
    LatchedRing.Represents 256 768 (s.requested i) (readOldest i.buferRd q) := by
  unfold RxController.requested readOldest
  cases hr : i.buferRd with
  | false => exact h.ring
  | true => exact h.ring.request (fun hl => hok.oneRequest hr hl)

theorem readOldest_length (rd : Bool) (q : List (Nat × Word)) :
    (readOldest rd q).length = q.length - rd.toNat := by
  cases rd <;> simp [readOldest]

theorem pops_eq_pendingRead (hm : mailbox i = false) (hw : s.buferWeB = false) :
    s.pops i = s.pendingRead := by
  cases hr : s.buferRdSig <;>
    simp [pops, pendingRead, hm, hw, hr, Nat.pos_iff_ne_zero]

theorem requested_pending (hp : s.pendingRead = true) : (s.requested i).pending = true := by
  unfold requested
  split
  · simp only [pendingRead, Bool.and_eq_true] at hp
    simp only [LatchedRing.request, LatchedRing.pending, Bool.true_and]
    exact hp.2
  · exact hp

@[simp] theorem requested_inFlight : (s.requested i).inFlight = s.buferWeB := by
  unfold requested
  split <;> rfl

@[simp] theorem requested_count : (s.requested i).count = s.diff := by
  unfold requested
  split <;> rfl

@[simp] theorem requested_writeAddr : (s.requested i).writeAddr = s.buferAddrB := by
  unfold requested
  split <;> rfl

theorem requested_latched : (s.requested i).latched = (s.buferRdSig || i.buferRd) := by
  unfold requested
  cases hr : i.buferRd <;> simp [fifo, LatchedRing.request]

theorem FifoInv.bound_step {q : List (Nat × Word)} (h : FifoInv s q) (hm : mailbox i = false)
    (hsp : speed i ≠ 0#2) (hs' : (s.step i).state = .arincEvent) (hc' : (s.step i).cnt ≤ 5) :
    (s.step i).diff ≤ 768 := by
  cases hs : s.state with
  | waiting =>
      have hw := h.control.not_writing (fun h' => by rw [hs] at h'; cases h')
      have hlen := h.length_eq
      have hfit := h.ring.fits
      have hpop := pops_eq_pendingRead hm hw
      unfold unreadCount at hlen
      rw [hw] at hlen
      rw [step_waiting hs]
      dsimp only
      rw [if_neg hsp, hpop]
      cases hp : s.pendingRead with
      | true =>
          rw [hp] at hlen
          simpa [hlen] using hfit
      | false =>
          rw [hp] at hlen
          simpa [hlen] using hfit
  | arincEvent =>
      rw [step_arincEvent hs h.control.cnt_lt] at hs' hc' ⊢
      dsimp only at hs' hc' ⊢
      have h7 : s.cnt ≠ 7 := by
        intro h7
        rw [if_pos h7] at hs'
        cases hs'
      have hlt := h.control.cnt_lt
      have hna : s.accepts i = false := by
        cases ha : s.accepts i with
        | false => rfl
        | true =>
            have h5 := (accepts_cnt ha).2
            omega
      simp only [hna, Bool.false_and, Bool.false_eq_true, if_false]
      exact h.bound hs (by omega)
  | flagCheck => exact absurd hs h.control.notFlagCheck

/-- A step that meets the condition keeps the registers in line with the queue. -/
theorem FifoInv.step {q : List (Nat × Word)} (h : FifoInv s q) (hm : mailbox i = false)
    (hsp : speed i ≠ 0#2) (hok : FifoStepOk s i) :
    FifoInv (s.step i)
      (if s.buferWeB then offer 768 (readOldest i.buferRd q) (s.buferAddrB, arincDataOut i)
        else readOldest i.buferRd q) := by
  have hreq := h.requested hok
  have hdiff : s.accepts i = true → s.diff ≤ 768 := fun ha =>
    h.bound (accepts_cnt ha).1 (accepts_cnt ha).2.le
  refine ⟨h.control.step hm, ?_, fun hs' hc' => h.bound_step hm hsp hs' hc'⟩
  rw [fifo_step h.control hm hsp h.ring.head_ge h.ring.head_lt hdiff]
  by_cases hpop : s.state = .waiting ∧ s.pops i = true
  · have hw := h.control.not_writing (fun h' => by rw [hpop.1] at h'; cases h')
    have hp := requested_pending (i := i) (by rw [← pops_eq_pendingRead hm hw]; exact hpop.2)
    rw [if_pos hpop, hw]
    exact hreq.commit (by decide) hp (by simp [hw])
  · rw [if_neg hpop]
    cases ha : s.accepts i with
    | true =>
        have hw := h.control.not_writing (fun _ => by rw [(accepts_cnt ha).2]; decide)
        rw [hw]
        exact hreq.reserve (by simp [hw])
    | false =>
        cases hw : s.buferWeB with
        | false => exact hreq
        | true =>
            have hroom : (readOldest i.buferRd q).length < 768 := by
              rw [readOldest_length, h.length_eq]
              exact hok.room hw
            have hwait : ¬ ((s.requested i).latched = true ∧ (s.requested i).count = 1) := by
              rintro ⟨hl, hc⟩
              have hno := hok.noEmptyRead hw (by simpa using hc)
              rw [requested_latched, hno.1, hno.2] at hl
              cases hl
            have hland := hreq.land (by simp [hw]) hroom hwait (arincDataOut i)
            rw [requested_writeAddr] at hland
            simpa [offer_of_lt _ hroom] using hland

theorem FifoInv.reset (buffer maskFlags : Nat → Word) :
    FifoInv (RxController.reset buffer maskFlags) [] := by
  refine ⟨⟨Control.reset buffer maskFlags, by simp [RxController.reset]⟩, ?_,
    by simp [RxController.reset]⟩
  refine ⟨le_rfl, ?_, rfl, by simp, Holds.nil, ?_⟩
  · simp [fifo, RxController.reset]
  · simp [fifo, RxController.reset]

end RxController

/-! ## Words reach the label mask -/

section Files

variable {s : RxController} {inp : Nat → RxInput}

/-- Where a received word is in its way through the state machine. -/
structure FilingInv (inp : Nat → RxInput) (n : Nat) (c : RxController) : Prop where
  control : c.FifoControl
  taken : c.rxFlagSig = true → c.state = .waiting ∧ ∃ m, n = m + 1 ∧ (inp m).port.rxFlag = true
  event : c.state = .arincEvent → ∃ m, n = m + 2 + c.cnt ∧ (inp m).port.rxFlag = true

theorem FilingInv.step {n : Nat} {c : RxController} (h : FilingInv inp n c)
    (hport : WordPort fun n => (inp n).port) (hm : mailbox (inp n) = false) :
    FilingInv inp (n + 1) (c.step (inp n)) := by
  refine ⟨h.control.step hm, ?_, ?_⟩
  · intro hsig
    cases hs : c.state with
    | waiting =>
        rw [RxController.step_waiting hs] at hsig ⊢
        simp only [Bool.and_eq_true, Bool.not_eq_true'] at hsig
        exact ⟨by simp [hm, hsig.1], n, rfl, hsig.2⟩
    | arincEvent =>
        -- a word cannot arrive while the one before is being filed
        obtain ⟨m, hn, hflag⟩ := h.event hs
        rw [RxController.step_arincEvent hs h.control.cnt_lt] at hsig
        simp only [RxController.beforeCase, Bool.or_eq_true] at hsig
        rcases hsig with hold | hnew
        · have hw := (h.taken hold).1
          rw [hs] at hw
          cases hw
        · have hfar := hport.far hflag hnew (by omega)
          have hlt := h.control.cnt_lt
          unfold wordGap at hfar
          omega
    | flagCheck => exact absurd hs h.control.notFlagCheck
  · intro hev
    rcases RxController.filing_of_step h.control.cnt_lt
      (fun hs => absurd hs h.control.notFlagCheck) hev with ⟨_, hsig, hcnt⟩ | ⟨hs, hcnt⟩
    · obtain ⟨_, m, hn, hflag⟩ := h.taken hsig
      exact ⟨m, by omega, hflag⟩
    · obtain ⟨m, hn, hflag⟩ := h.event hs
      exact ⟨m, by omega, hflag⟩

theorem FilingInv.reset (buffer maskFlags : Nat → Word) :
    FilingInv inp 0 (RxController.reset buffer maskFlags) :=
  ⟨(RxController.FifoInv.reset buffer maskFlags).control,
    fun h => absurd h Bool.false_ne_true, fun h => absurd h (by simp [RxController.reset])⟩

theorem FilingInv.ready {n : Nat} {c : RxController} (h : FilingInv inp n c)
    (hport : WordPort fun n => (inp n).port) (hn : (inp n).port.rxFlag = true) :
    c.state = .waiting ∧ c.rxFlagSig = false := by
  have hstate : c.state = .waiting := by
    cases hs : c.state with
    | waiting => rfl
    | arincEvent =>
        obtain ⟨m, hm, hflag⟩ := h.event hs
        have hfar := hport.far hflag hn (by omega)
        have hlt := h.control.cnt_lt
        unfold wordGap at hfar
        omega
    | flagCheck => exact absurd hs h.control.notFlagCheck
  refine ⟨hstate, ?_⟩
  cases hsig : c.rxFlagSig with
  | false => rfl
  | true =>
      obtain ⟨_, m, hm, hflag⟩ := h.taken hsig
      have hfar := hport.far hflag hn (by omega)
      unfold wordGap at hfar
      omega

theorem taken_next {k : Nat} (hm : mailbox (inp k) = false)
    (hs : (trace RxController.step s inp k).state = .waiting)
    (hsig : (trace RxController.step s inp k).rxFlagSig = true)
    (hpar : parityFails (inp k) = false) :
    (trace RxController.step s inp (k + 1)).state = .arincEvent ∧
      (trace RxController.step s inp (k + 1)).cnt = 0 := by
  rw [trace_succ, RxController.step_waiting hs]
  simp [hm, hsig, hpar]

end Files

/-! ## The run -/

section Run

variable {inp : Nat → RxInput} (buffer maskFlags : Nat → Word)

theorem filing_run (hmode : FifoMode inp) (hport : WordPort fun n => (inp n).port) (n : Nat) :
    FilingInv inp n (trace RxController.step (.reset buffer maskFlags) inp n) :=
  trace_invariant (FilingInv inp) (FilingInv.reset buffer maskFlags)
    (fun n h => h.step hport (hmode n).1) n

theorem fifo_run (hmode : FifoMode inp)
    (hok : ∀ n, FifoStepOk (trace RxController.step (.reset buffer maskFlags) inp n) (inp n))
    (n : Nat) :
    RxController.FifoInv (trace RxController.step (.reset buffer maskFlags) inp n)
      (unread (.reset buffer maskFlags) inp n) :=
  trace_invariant (fun n c => RxController.FifoInv c (unread (.reset buffer maskFlags) inp n))
    (RxController.FifoInv.reset buffer maskFlags)
    (fun n h => h.step (hmode n).1 (hmode n).2 (hok n)) n

/-- In FIFO mode the receive buffer is a queue of capacity 768 over the slots
256..1023, on every run whose steps meet `FifoStepOk`. -/
theorem fifo_refines (hmode : FifoMode inp) (hport : WordPort fun n => (inp n).port)
    (hok : ∀ n, FifoStepOk (trace RxController.step (.reset buffer maskFlags) inp n) (inp n)) :
    FifoRefines (.reset buffer maskFlags) inp := by
  have hinv := fifo_run buffer maskFlags hmode hok
  have hfree : ∀ n, (trace RxController.step (.reset buffer maskFlags) inp n).buferWeB = true →
      (afterRead (.reset buffer maskFlags) inp n).length < 768 := by
    intro n hw
    unfold afterRead
    rw [RxController.readOldest_length, (hinv n).length_eq]
    exact (hok n).room hw
  refine ⟨?_, ?_, fun n e he => (hinv n).ring.holds.intact he, ?_, ?_, ?_⟩
  · intro n hw
    have hreq := (hinv n).requested (hok n)
    have hfresh := hreq.write_fresh (by simp [hw]) (hfree n hw)
    rw [RxController.requested_writeAddr] at hfresh
    exact ⟨hfresh.1, Nat.le_of_lt_succ hfresh.2.1, hfresh.2.2⟩
  · intro n ha
    have hnext :
        (trace RxController.step (.reset buffer maskFlags) inp (n + 1)).buferWeB = true := by
      rw [trace_succ,
        RxController.step_arincEvent (RxController.accepts_cnt ha).1 (hinv n).control.cnt_lt]
      exact ha
    rw [if_pos (hfree (n + 1) hnext)]
    exact hnext
  · rintro n ⟨_, _, hrd, hw⟩
    have hc := (hinv n).ring.count_idle hrd
    change _ = _ + (trace RxController.step _ inp n).buferWeB.toNat at hc
    rw [hw] at hc
    exact hc
  · rintro n ⟨_, _, hrd, _⟩ e he
    have hcell := (hinv n).ring.holds.head_cell he
    rw [LatchedRing.pending_of_not_latched hrd] at hcell
    rw [hcell]
    exact (slot_zero (hinv n).ring.head_ge (hinv n).ring.head_lt).symm
  · intro n hn hpar
    obtain ⟨hs, hsig⟩ := (filing_run buffer maskFlags hmode hport n).ready hport hn
    have hsig' :
        (trace RxController.step (.reset buffer maskFlags) inp (n + 1)).rxFlagSig = true := by
      rw [trace_succ, RxController.step_waiting hs]
      simp [hsig, hn]
    have hs' := ((filing_run buffer maskFlags hmode hport (n + 1)).taken hsig').1
    obtain ⟨hev, hc⟩ := taken_next (hmode (n + 1)).1 hs' hsig' hpar
    obtain ⟨hev5, hc5⟩ := event_run hev hc 5 (by decide)
    exact ⟨hev5, hc5, hport.word_held hn (by decide)⟩

end Run

/-! ## Two runs -/

theorem wordAndRead_fifo (wordAt readAt : Nat) : FifoMode (wordAndRead 0x43#8 wordAt readAt) := by
  intro n
  simp [mailbox, speed, wordAndRead]

/-- The host reads the empty queue and a word arrives afterwards: the latched
request removes it, the queue is found empty although one word is unread. -/
theorem empty_read_removes_next_word :
    FifoMode (wordAndRead 0x43#8 1 0) ∧ (WordPort fun n => (wordAndRead 0x43#8 1 0 n).port) ∧
      ¬ FifoRefines acceptAll (wordAndRead 0x43#8 1 0) := by
  refine ⟨wordAndRead_fifo 1 0, wordAndRead_port 0x43#8 1 0, fun h => ?_⟩
  have hquiet : (trace RxController.step acceptAll (wordAndRead 0x43#8 1 0) 12).Quiet := by
    unfold RxController.Quiet
    decide
  have hdiff : (trace RxController.step acceptAll (wordAndRead 0x43#8 1 0) 12).diff = 0 := by
    decide
  have hunread : (unread acceptAll (wordAndRead 0x43#8 1 0) 12).length = 1 := by decide
  have hcount := h.counts 12 hquiet
  rw [hdiff, hunread] at hcount
  cases hcount

theorem read_after_word_ok (n : Nat) :
    FifoStepOk (trace RxController.step acceptAll (wordAndRead 0x43#8 1 20) n)
      (wordAndRead 0x43#8 1 20 n) := by
  by_cases hn : n < 24
  · have hall : ∀ k < 24, FifoStepOk (trace RxController.step acceptAll (wordAndRead 0x43#8 1 20) k)
        (wordAndRead 0x43#8 1 20 k) := by decide
    exact hall n hn
  · have hquiet : (trace RxController.step acceptAll (wordAndRead 0x43#8 1 20) 24).Quiet := by
      unfold RxController.Quiet
      decide
    obtain ⟨_, _, _, hw⟩ := quiet_after_last 0x43#8 hquiet (by decide) (by decide) n (by omega)
    have hrd : (wordAndRead 0x43#8 1 20 n).buferRd = false := by
      simp only [wordAndRead, beq_eq_false_iff_ne]
      omega
    constructor <;> simp [hrd, hw]

theorem fifo_refines_read_after_word : FifoRefines acceptAll (wordAndRead 0x43#8 1 20) :=
  fifo_refines (fun _ => 0) (fun _ => BitVec.allOnes 32) (wordAndRead_fifo 1 20)
    (wordAndRead_port 0x43#8 1 20) read_after_word_ok

end Mfi.Arinc429
