import Mfi.Core.Ring
import Mfi.Arinc708.RxController

/-!
# The ARINC 708 receive buffer as a bounded queue

The reference is a queue of capacity 512, whose entries carry the cell they were
written to. A word without error is appended when the controller takes it, and
dropped when 512 are unread; the oldest one is removed when a read request is served.
The controller has no test for 512 entries (`diff` saturates at 1023): it is the
queue on every run that takes no word while 512 are unread.
-/

namespace Mfi.Arinc708

open Core

/-! ## The surroundings -/

/-- What the receiver promises: flags are apart, and the word stays until the next. -/
structure WordPort (port : Nat → RxPort) : Prop where
  spaced : ∀ n, (port n).rxFlag = true → (port (n + 1)).rxFlag = false ∧
    (port (n + 2)).rxFlag = false
  held : ∀ n, (port (n + 1)).rxFlag = false → (port (n + 1)).arincDataOut = (port n).arincDataOut

/-- Host reads of the channel are at least three cycles apart. -/
def ReadsSpaced (inp : Nat → RxInput) : Prop :=
  ∀ n, (inp n).buferRd = true → (inp (n + 1)).buferRd = false ∧ (inp (n + 2)).buferRd = false

/-! ## The reference queue -/

section Reference

variable (s : RxController) (inp : Nat → RxInput)

/-- The stored words that are not yet consumed before cycle `n`, each with its cell. -/
def stored : Nat → List (Nat × Word)
  | 0 => []
  | n + 1 =>
      let c := trace RxController.step s inp n
      if c.takes (inp n) then
        offer 512 (stored n) ((c.readedAddr + c.diff) % 512, (inp n).port.arincDataOut)
      else if c.serves then (stored n).tail else stored n

end Reference

structure BufferIsQueue (s : RxController) (inp : Nat → RxInput) : Prop where
  bounded : ∀ n, (trace RxController.step s inp n).diff ≤ 512
  /-- With no request pending `diff` is the number of unread words. -/
  counts : ∀ n, (trace RxController.step s inp n).rxFlagSig = false →
    (trace RxController.step s inp n).buferRdSig = false →
    (trace RxController.step s inp n).diff = (stored s inp n).length
  /-- The unread words lie in the cells from the read pointer on. -/
  cells : ∀ n k e, (stored s inp n)[k]? = some e →
    e.1 = ((trace RxController.step s inp n).readedAddr + k) % 512
  /-- An unread word is in its cell from the cycle after it was counted. -/
  intact : ∀ n, ∀ e ∈ stored s inp n, (trace RxController.step s inp (n + 1)).ramBuf.ram e.1 = e.2
  /-- Every received word is looked at once, one cycle later. -/
  looks : ∀ n, (trace RxController.step s inp (n + 1)).rxFlagSig = (inp n).port.rxFlag ∧
    ((inp n).port.rxFlag = true → (inp (n + 1)).port.arincDataOut = (inp n).port.arincDataOut)
  /-- Every read is served once, within two cycles, and nothing else is. -/
  serves : ∀ n, (inp n).buferRd = true →
    (trace RxController.step s inp (n + 1)).serves = !(trace RxController.step s inp (n + 2)).serves
  served : ∀ n, (trace RxController.step s inp n).serves = true →
    ∃ m, (inp m).buferRd = true ∧ (n = m + 1 ∨ n = m + 2)

/-! ## The invariant -/

section Step

variable {s : RxController} {i i' : RxInput} {q : List (Nat × Word)}

/-- The registers stand for the queue `q`; the write that is under way counts as done. -/
structure QueueInv (i : RxInput) (s : RxController) (q : List (Nat × Word)) : Prop where
  head_lt : s.readedAddr < 512
  count : s.diff = q.length
  fits : q.length ≤ 512
  holds : Holds 0 512 (s.step i).ramBuf.ram s.readedAddr 0 q

theorem slot_eq_mod (readedAddr k : Nat) : slot 0 512 readedAddr k = (readedAddr + k) % 512 := by
  simp [slot]

theorem step_ram (s : RxController) (i : RxInput) : (s.step i).ramBuf.ram =
    if s.buferWeB then Function.update s.ramBuf.ram s.buferAddrB i.port.arincDataOut
    else s.ramBuf.ram := rfl

theorem QueueInv.take (h : QueueInv i s q) (hen : enabled i = true)
    (ht : s.takes i = true) (hroom : s.diff ≠ 512)
    (hheld : i'.port.arincDataOut = i.port.arincDataOut) :
    QueueInv i' (s.step i) (offer 512 q ((s.readedAddr + s.diff) % 512, i.port.arincDataOut)) := by
  have hcount := h.count
  have hfits := h.fits
  have hflag : s.rxFlagSig = true := by
    simp only [RxController.takes, Bool.and_eq_true] at ht
    exact ht.1
  have hserves : s.serves = false := by simp [RxController.serves, hflag]
  have hlt : q.length < 512 := by omega
  have hread : (s.step i).readedAddr = s.readedAddr := by simp [RxController.step, hserves, hen]
  have hdiff : (s.step i).diff = s.diff + 1 := by
    simp only [RxController.step, ht, if_true]
    rw [if_neg (by omega)]
  have hpush := h.holds.push hlt i.port.arincDataOut
  rw [offer_of_lt _ hlt]
  rw [slot_eq_mod, Nat.add_zero, ← hcount] at hpush
  refine ⟨by rw [hread]; exact h.head_lt, ?_, ?_, ?_⟩
  · rw [hdiff, List.length_append, List.length_singleton, hcount]
  · rw [List.length_append, List.length_singleton]
    omega
  · rw [step_ram, hread]
    have hwe : (s.step i).buferWeB = true := ht
    have haddr : (s.step i).buferAddrB = (s.readedAddr + s.diff) % 512 := by
      simp [RxController.step, ht]
    rw [if_pos hwe, haddr, hheld]
    exact hpush

theorem step_ram_of_not_takes (ht : s.takes i = false) :
    ((s.step i).step i').ramBuf.ram = (s.step i).ramBuf.ram := by
  have hwe : (s.step i).buferWeB = false := ht
  rw [step_ram, hwe, if_neg Bool.false_ne_true]

theorem QueueInv.serve (h : QueueInv i s q) (hen : enabled i = true)
    (ht : s.takes i = false) (hs : s.serves = true) : QueueInv i' (s.step i) q.tail := by
  have hcount := h.count
  have hfits := h.fits
  have hhead := h.head_lt
  by_cases hzero : s.diff = 0
  · -- the queue is empty: the request is dropped
    have hnil : q = [] := List.eq_nil_of_length_eq_zero (by omega)
    have hread : (s.step i).readedAddr = s.readedAddr := by
      simp [RxController.step, hs, hzero, hen]
    have hdiff : (s.step i).diff = 0 := by simp [RxController.step, ht, hs, hzero, hen]
    rw [hnil]
    exact ⟨by rw [hread]; exact hhead, hdiff, by simp, Holds.nil⟩
  · have hread : (s.step i).readedAddr = slot 0 512 s.readedAddr 1 := by
      rw [slot_eq_mod]
      simp [RxController.step, hs, hzero]
    have hdiff : (s.step i).diff = s.diff - 1 := by simp [RxController.step, ht, hs, hzero]
    have hlen : q.tail.length = q.length - 1 := List.length_tail
    refine ⟨?_, by rw [hdiff, hlen, hcount], by omega, ?_⟩
    · rw [hread, slot_eq_mod]
      omega
    · rw [step_ram_of_not_takes ht, hread]
      exact h.holds.tail.advance

theorem QueueInv.quiet (h : QueueInv i s q) (hen : enabled i = true)
    (ht : s.takes i = false) (hs : s.serves = false) : QueueInv i' (s.step i) q := by
  have hread : (s.step i).readedAddr = s.readedAddr := by simp [RxController.step, hs, hen]
  have hdiff : (s.step i).diff = s.diff := by simp [RxController.step, ht, hs, hen]
  refine ⟨by rw [hread]; exact h.head_lt, by rw [hdiff, h.count], h.fits, ?_⟩
  rw [step_ram_of_not_takes ht, hread]
  exact h.holds

/-- A step on which no word is taken while 512 are unread. -/
theorem QueueInv.step (h : QueueInv i s q) (hen : enabled i = true)
    (hroom : s.takes i = true → s.diff ≠ 512)
    (hheld : s.takes i = true → i'.port.arincDataOut = i.port.arincDataOut) :
    QueueInv i' (s.step i)
      (if s.takes i then offer 512 q ((s.readedAddr + s.diff) % 512, i.port.arincDataOut)
        else if s.serves then q.tail else q) := by
  cases ht : s.takes i with
  | true =>
      rw [if_pos rfl]
      exact h.take hen ht (hroom ht) (hheld ht)
  | false =>
      rw [if_neg Bool.false_ne_true]
      cases hs : s.serves with
      | true =>
          rw [if_pos rfl]
          exact h.serve hen ht hs
      | false =>
          rw [if_neg Bool.false_ne_true]
          exact h.quiet hen ht hs

theorem QueueInv.reset (i : RxInput) (buffer : Nat → Word) :
    QueueInv i (.reset buffer) [] :=
  ⟨Nat.zero_lt_succ 511, rfl, by simp, Holds.nil⟩

end Step

/-! ## The run -/

section Run

variable {inp : Nat → RxInput} (buffer : Nat → Word)

theorem flag_next (hport : WordPort fun n => (inp n).port) (n : Nat) :
    (trace RxController.step (.reset buffer) inp (n + 1)).rxFlagSig = (inp n).port.rxFlag := by
  cases hflag : (inp n).port.rxFlag with
  | false => simp [trace_succ, RxController.step, hflag]
  | true =>
      have hlow : (trace RxController.step (.reset buffer) inp n).rxFlagSig = false := by
        cases n with
        | zero => rfl
        | succ n =>
            rw [flag_next hport n]
            cases hbefore : (inp n).port.rxFlag with
            | false => rfl
            | true =>
                have hnone := (hport.spaced n hbefore).1
                rw [hflag] at hnone
                cases hnone
      simp [trace_succ, RxController.step, hflag, hlow]

theorem word_held (hport : WordPort fun n => (inp n).port) {n : Nat}
    (ht : (trace RxController.step (.reset buffer) inp n).takes (inp n) = true) :
    (inp (n + 1)).port.arincDataOut = (inp n).port.arincDataOut := by
  have hflag : (trace RxController.step (.reset buffer) inp n).rxFlagSig = true := by
    simp only [RxController.takes, Bool.and_eq_true] at ht
    exact ht.1
  cases n with
  | zero => cases hflag
  | succ n =>
      rw [flag_next buffer hport n] at hflag
      exact hport.held (n + 1) (hport.spaced n hflag).2

theorem queue_run (hen : ∀ n, enabled (inp n) = true) (hport : WordPort fun n => (inp n).port)
    (hok : ∀ n, (trace RxController.step (.reset buffer) inp n).takes (inp n) = true →
      (trace RxController.step (.reset buffer) inp n).diff ≠ 512) (n : Nat) :
    QueueInv (inp n) (trace RxController.step (.reset buffer) inp n)
      (stored (.reset buffer) inp n) := by
  induction n with
  | zero => exact .reset _ buffer
  | succ n ih => exact ih.step (hen n) (hok n) fun ht => word_held buffer hport ht

theorem flag_clears (n : Nat)
    (h : (trace RxController.step (.reset buffer) inp n).rxFlagSig = true) :
    (trace RxController.step (.reset buffer) inp (n + 1)).rxFlagSig = false := by
  simp [trace_succ, RxController.step, h]

theorem request_step (n : Nat)
    (h : (trace RxController.step (.reset buffer) inp (n + 1)).buferRdSig = true) :
    (inp n).buferRd = true ∨
      (trace RxController.step (.reset buffer) inp n).buferRdSig = true ∧
        (trace RxController.step (.reset buffer) inp n).rxFlagSig = true := by
  rw [trace_succ] at h
  simp only [RxController.step, RxController.serves, Bool.and_eq_true, Bool.or_eq_true,
    Bool.not_eq_true', Bool.and_eq_false_iff] at h
  obtain ⟨hidle, hlatched | hread⟩ := h
  · right
    rcases hidle with hflag | hnone
    · exact ⟨hlatched, by simpa using hflag⟩
    · rw [hlatched] at hnone
      cases hnone
  · exact Or.inl hread

theorem request_recent (n : Nat)
    (h : (trace RxController.step (.reset buffer) inp n).buferRdSig = true) :
    ∃ m, (inp m).buferRd = true ∧ (n = m + 1 ∨ n = m + 2) := by
  rcases n with _ | _ | n
  · cases h
  · rcases request_step buffer 0 h with hread | ⟨hlatched, _⟩
    · exact ⟨0, hread, Or.inl rfl⟩
    · cases hlatched
  · rcases request_step buffer (n + 1) h with hread | ⟨hlatched, hflag⟩
    · exact ⟨n + 1, hread, Or.inl rfl⟩
    · rcases request_step buffer n hlatched with hread | ⟨_, hbefore⟩
      · exact ⟨n, hread, Or.inr rfl⟩
      · rw [flag_clears buffer n hbefore] at hflag
        cases hflag

theorem read_served (hreads : ReadsSpaced inp) {n : Nat} (hread : (inp n).buferRd = true) :
    (trace RxController.step (.reset buffer) inp (n + 1)).serves =
      !(trace RxController.step (.reset buffer) inp (n + 2)).serves := by
  have hidle : (trace RxController.step (.reset buffer) inp n).serves = false := by
    cases hs : (trace RxController.step (.reset buffer) inp n).serves with
    | false => rfl
    | true =>
        simp only [RxController.serves, Bool.and_eq_true] at hs
        obtain ⟨m, hm, rfl | rfl⟩ := request_recent buffer n hs.2
        · rw [(hreads m hm).1] at hread
          cases hread
        · rw [(hreads m hm).2] at hread
          cases hread
  have hlatched : (trace RxController.step (.reset buffer) inp (n + 1)).buferRdSig = true := by
    simp only [trace_succ, RxController.step]
    rw [hidle, hread]
    simp
  have hnext : (trace RxController.step (.reset buffer) inp (n + 2)).buferRdSig =
      (!(trace RxController.step (.reset buffer) inp (n + 1)).serves &&
        ((trace RxController.step (.reset buffer) inp (n + 1)).buferRdSig ||
          (inp (n + 1)).buferRd)) := rfl
  cases hflag : (trace RxController.step (.reset buffer) inp (n + 1)).rxFlagSig with
  | false =>
      have hserves : (trace RxController.step (.reset buffer) inp (n + 1)).serves = true := by
        simp [RxController.serves, hflag, hlatched]
      rw [hserves] at hnext ⊢
      simp [RxController.serves, hnext]
  | true =>
      have hwaits : (trace RxController.step (.reset buffer) inp (n + 1)).serves = false := by
        simp [RxController.serves, hflag]
      rw [hwaits, hlatched] at hnext
      rw [hwaits]
      simp [RxController.serves, hnext, flag_clears buffer (n + 1) hflag]

/-- With the receiver enabled the buffer is a queue of capacity 512 on every run that
takes no word while 512 are unread. -/
theorem buffer_is_queue (hen : ∀ n, enabled (inp n) = true)
    (hport : WordPort fun n => (inp n).port) (hreads : ReadsSpaced inp)
    (hok : ∀ n, (trace RxController.step (.reset buffer) inp n).takes (inp n) = true →
      (trace RxController.step (.reset buffer) inp n).diff ≠ 512) :
    BufferIsQueue (.reset buffer) inp := by
  have hinv := queue_run buffer hen hport hok
  refine ⟨fun n => ?_, fun n _ _ => (hinv n).count, fun n k e he => ?_,
    fun n e he => (hinv n).holds.intact he, fun n => ⟨flag_next buffer hport n, fun hflag => ?_⟩,
    fun n hread => read_served buffer hreads hread, fun n hs => ?_⟩
  · rw [(hinv n).count]
    exact (hinv n).fits
  · obtain ⟨hk, rfl⟩ := List.getElem?_eq_some_iff.mp he
    rw [(hinv n).holds k hk, slot_eq_mod, Nat.add_zero]
  · exact hport.held n (hport.spaced n hflag).1
  · simp only [RxController.serves, Bool.and_eq_true] at hs
    exact request_recent buffer n hs.2

end Run

/-! ## Two runs -/

def wordsAndReads (n : Nat) : RxInput where
  rxconfig := 1#3
  irqClear := false
  buferData := 0
  buferAddr := n % 2
  buferRd := decide (n ∈ [15, 27, 50])
  port := ⟨decide (n ∈ [0, 10, 20, 30]), BitVec.ofNat 32 (min (n / 10) 3), false, false⟩

theorem buffer_is_queue_four_words :
    BufferIsQueue (.reset fun _ => 0) wordsAndReads ∧
      (trace RxController.step (.reset fun _ => 0) wordsAndReads 60).diff = 1 := by
  have hport : WordPort fun n => (wordsAndReads n).port := by
    constructor
    · intro n hn
      simp only [wordsAndReads, decide_eq_true_eq, List.mem_cons, List.not_mem_nil] at hn
      rcases hn with rfl | rfl | rfl | rfl | hn
      · decide
      · decide
      · decide
      · decide
      · exact hn.elim
    · intro n hn
      have hsame : min ((n + 1) / 10) 3 = min (n / 10) 3 := by
        simp only [wordsAndReads, decide_eq_false_iff_not, List.mem_cons, List.not_mem_nil] at hn
        omega
      simp only [wordsAndReads, hsame]
  have hreads : ReadsSpaced wordsAndReads := by
    intro n hn
    simp only [wordsAndReads, decide_eq_true_eq, List.mem_cons, List.not_mem_nil] at hn
    rcases hn with rfl | rfl | rfl | hn
    · decide
    · decide
    · decide
    · exact hn.elim
  have hfew : ∀ n ∈ [1, 11, 21, 31],
      (trace RxController.step (.reset fun _ => 0) wordsAndReads n).diff ≠ 512 := by
    decide +kernel
  refine ⟨buffer_is_queue _ (fun n => by simp [enabled, wordsAndReads]) hport hreads
    fun n ht => ?_, by decide +kernel⟩
  simp only [RxController.takes, Bool.and_eq_true] at ht
  cases n with
  | zero => cases ht.1
  | succ n =>
      rw [flag_next _ hport] at ht
      refine hfew _ ?_
      simpa [wordsAndReads] using ht.1

/-- One word in every 1984 cycles, the time of 32 bits; no read. -/
def steadyWords (n : Nat) : RxInput where
  rxconfig := 1#3
  irqClear := false
  buferData := 0
  buferAddr := 0
  buferRd := false
  port := ⟨n % 1984 == 0, BitVec.ofNat 32 (n / 1984), false, false⟩

theorem steadyWords_enabled (n : Nat) : enabled (steadyWords n) = true := by
  simp [enabled, steadyWords]

theorem steadyWords_port : WordPort fun n => (steadyWords n).port := by
  constructor
  · intro n hn
    simp only [steadyWords, beq_iff_eq, beq_eq_false_iff_ne] at hn ⊢
    omega
  · intro n hn
    simp only [steadyWords, beq_eq_false_iff_ne] at hn ⊢
    rw [show (n + 1) / 1984 = n / 1984 by omega]

theorem step_idle {s : RxController} {i : RxInput} (hen : enabled i = true)
    (hflag : s.rxFlagSig = false) (hrd : s.buferRdSig = false) (hread : i.buferRd = false) :
    (s.step i).rxFlagSig = i.port.rxFlag ∧ (s.step i).buferRdSig = false ∧
      (s.step i).diff = s.diff := by
  simp [RxController.step, RxController.serves, RxController.takes, hflag, hrd, hread, hen]

theorem step_word {s : RxController} {i : RxInput} (hflag : s.rxFlagSig = true)
    (hrd : s.buferRdSig = false) (hread : i.buferRd = false) (hpar : i.port.parErr = false)
    (hsat : s.diff ≠ 1023) :
    (s.step i).rxFlagSig = false ∧ (s.step i).buferRdSig = false ∧
      (s.step i).diff = s.diff + 1 := by
  simp [RxController.step, RxController.serves, RxController.takes, hflag, hrd, hread, hpar, hsat]

/-- Before word `k` the controller is idle and has counted `k` words. -/
theorem steadyWords_diff (buffer : Nat → Word) {k : Nat} (hk : k ≤ 1000) :
    let c := trace RxController.step (.reset buffer) steadyWords (1984 * k)
    c.rxFlagSig = false ∧ c.buferRdSig = false ∧ c.diff = k := by
  induction k with
  | zero => exact ⟨rfl, rfl, rfl⟩
  | succ k ih =>
      obtain ⟨hflag, hrd, hdiff⟩ := ih (by omega)
      have hnone : ∀ n, n % 1984 ≠ 0 → (steadyWords n).port.rxFlag = false :=
        fun n hn => beq_eq_false_iff_ne.mpr hn
      have hword : (steadyWords (1984 * k)).port.rxFlag = true := by simp [steadyWords]
      obtain ⟨hflag1, hrd1, hdiff1⟩ := step_idle (steadyWords_enabled (1984 * k)) hflag hrd rfl
      have hbefore :
          (trace RxController.step (.reset buffer) steadyWords (1984 * k + 1)).diff = k :=
        hdiff1.trans hdiff
      have hcounted : let c := trace RxController.step (.reset buffer) steadyWords (1984 * k + 2)
          c.rxFlagSig = false ∧ c.buferRdSig = false ∧ c.diff =
            (trace RxController.step (.reset buffer) steadyWords (1984 * k + 1)).diff + 1 :=
        step_word (hflag1.trans hword) hrd1 rfl rfl (by rw [hbefore]; omega)
      obtain ⟨hflag2, hrd2, hdiff2⟩ := hcounted
      have hquiet : ∀ j, j ≤ 1982 →
          let c := trace RxController.step (.reset buffer) steadyWords (1984 * k + 2 + j)
          c.rxFlagSig = false ∧ c.buferRdSig = false ∧ c.diff = k + 1 := by
        intro j hj
        induction j with
        | zero => exact ⟨hflag2, hrd2, hdiff2.trans (by rw [hbefore])⟩
        | succ j ihj =>
            obtain ⟨hflag', hrd', hdiff'⟩ := ihj (by omega)
            obtain ⟨hflag3, hrd3, hdiff3⟩ :=
              step_idle (steadyWords_enabled (1984 * k + 2 + j)) hflag' hrd' rfl
            exact ⟨hflag3.trans (hnone _ (by omega)), hrd3, hdiff3.trans hdiff'⟩
      have hend := hquiet 1982 (Nat.le_refl _)
      rwa [show 1984 * k + 2 + 1982 = 1984 * (k + 1) by omega] at hend

/-- After 513 words without a read 513 are counted, in 512 cells. -/
theorem unread_words_overflow :
    (∀ n, enabled (steadyWords n) = true) ∧ (WordPort fun n => (steadyWords n).port) ∧
      ReadsSpaced steadyWords ∧ ¬ BufferIsQueue (.reset fun _ => 0) steadyWords := by
  refine ⟨steadyWords_enabled, steadyWords_port, fun n hn => absurd hn Bool.false_ne_true,
    fun h => ?_⟩
  have hbound := h.bounded (1984 * 513)
  have hdiff := (steadyWords_diff (fun _ => 0) (show 513 ≤ 1000 by omega)).2.2
  omega

end Mfi.Arinc708
