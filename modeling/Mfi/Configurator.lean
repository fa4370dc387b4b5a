import Mathlib.Data.Nat.Log
import Mfi.Core.Events
import Mfi.Core.History
import Mfi.Core.Trace
import Mfi.Core.Words

/-!
# Configuration sequencer

The sequencer copies a table in a ROM to a slave, one write for each entry, up
to the first entry that is all ones. The ROM answers one clock cycle after its
address; a counter that starts anew after every write gives it the time, so
the address, the data and the write strobe need not move together.
-/

namespace Mfi.Configurator

open Core

structure Params where
  romSize : Nat
  inputFreq : Int
  addrOutWidth : Nat
  dataOutWidth : Nat
  delayMs : Int

/-- The product is a 32 bit number with sign, as its two factors are. -/
def Params.delay (p : Params) : BitVec 32 :=
  BitVec.ofInt 32 ((BitVec.ofInt 32 (p.delayMs * p.inputFreq)).toInt.tdiv 1000)

def Params.addrWidth (p : Params) : Nat := Nat.clog 2 p.romSize

structure Regs (p : Params) where
  romAddr : BitVec p.addrWidth
  romData : BitVec 32
  ammWrite : Bool
  ammAddress : BitVec 32
  ammWritedata : BitVec p.dataOutWidth
  gpOuts : BitVec 8
  completed : Bool
  cntr : BitVec 6
  delayCntr : BitVec 32

def reset (p : Params) (romData : BitVec 32) : Regs p :=
  { romAddr := 0, romData := romData, ammWrite := false, ammAddress := 0#32, ammWritedata := 0,
    gpOuts := 0#8, completed := false, cntr := 0#6, delayCntr := 0#32 }

def Regs.romValid {p : Params} (r : Regs p) : Bool := r.romData != 4294967295#32

def Regs.delayed {p : Params} (r : Regs p) : Bool := r.delayCntr == p.delay

def addressField (p : Params) (word : BitVec 32) : BitVec 32 :=
  (word.extractLsb' p.dataOutWidth p.addrOutWidth).setWidth 32

def dataField (p : Params) (word : BitVec 32) : BitVec p.dataOutWidth :=
  word.setWidth p.dataOutWidth

def Regs.accepts {p : Params} (r : Regs p) (waitrequest : Bool) : Bool :=
  r.ammWrite && !waitrequest

def step (p : Params) (rom : Nat → BitVec 32) (r : Regs p) (waitrequest : Bool) : Regs p :=
  { romAddr :=
      if !r.ammWrite && r.cntr.getLsbD 5 then r.romAddr
      else if r.accepts waitrequest then r.romAddr + 1 else r.romAddr
    romData := rom r.romAddr.toNat
    ammWrite :=
      if !r.ammWrite && r.cntr.getLsbD 5 then r.romValid
      else if r.accepts waitrequest then false else r.ammWrite
    ammAddress := addressField p r.romData
    ammWritedata := dataField p r.romData
    gpOuts := if r.romValid then r.romData.extractLsb' 24 8 else 0#8
    completed := !r.romValid
    cntr :=
      if !(!r.ammWrite && r.cntr.getLsbD 5) && r.accepts waitrequest then 0#6
      else if r.delayed then (if r.cntr.getLsbD 5 then r.cntr else r.cntr + 1)
      else r.cntr
    delayCntr := if r.delayed then r.delayCntr else r.delayCntr + 1 }

section Run

variable (p : Params) (rom : Nat → BitVec 32) (romData : BitVec 32) (inp : Nat → Bool)

/-- The registers before cycle `n` after the reset. -/
def run (n : Nat) : Regs p := trace (step p rom) (reset p romData) inp n

/-- What a write of the master transfers: its address and its data. -/
def transfer (r : Regs p) : BitVec 32 × BitVec p.dataOutWidth := (r.ammAddress, r.ammWritedata)

/-- The write that the slave accepts in cycle `n`. -/
def acceptedWrite (n : Nat) : Option (BitVec 32 × BitVec p.dataOutWidth) :=
  if (run p rom romData inp n).accepts (inp n) then
    some (transfer p (run p rom romData inp n))
  else none

/-- The writes accepted before cycle `n`. -/
def accepted (n : Nat) : List (BitVec 32 × BitVec p.dataOutWidth) :=
  events (acceptedWrite p rom romData inp) n

/-- Entry `i` of the table. -/
def entry (i : Nat) : BitVec 32 × BitVec p.dataOutWidth :=
  (addressField p (rom i), dataField p (rom i))

end Run

/-- The table in the ROM ends with its entry `k`. -/
structure TableEnd (p : Params) (rom : Nat → BitVec 32) (k : Nat) : Prop where
  inRom : k < p.romSize
  atEnd : rom k = 4294967295#32
  before : ∀ i < k, rom i ≠ 4294967295#32

def table (p : Params) (rom : Nat → BitVec 32) (k : Nat) :
    List (BitVec 32 × BitVec p.dataOutWidth) :=
  (List.range k).map (entry p rom)

/-! ## One cycle -/

section Step

variable {p : Params} (rom : Nat → BitVec 32) {r : Regs p} {waitrequest : Bool}

theorem step_romData : (step p rom r waitrequest).romData = rom r.romAddr.toNat := rfl

theorem step_completed : (step p rom r waitrequest).completed = !r.romValid := rfl

theorem step_transfer :
    transfer p (step p rom r waitrequest) = (addressField p r.romData, dataField p r.romData) := rfl

theorem step_accept (h : r.accepts waitrequest = true) :
    (step p rom r waitrequest).romAddr = r.romAddr + 1 ∧
      (step p rom r waitrequest).ammWrite = false ∧ (step p rom r waitrequest).cntr = 0#6 := by
  have hwrite : r.ammWrite = true := by
    rw [Regs.accepts, Bool.and_eq_true] at h
    exact h.1
  simp [step, h, hwrite]

theorem step_stalled (h : r.accepts waitrequest = false) (hwrite : r.ammWrite = true) :
    (step p rom r waitrequest).romAddr = r.romAddr ∧
      (step p rom r waitrequest).ammWrite = true := by
  simp [step, h, hwrite]

theorem accepts_of_idle (waitrequest : Bool) (hwrite : r.ammWrite = false) :
    r.accepts waitrequest = false := by
  rw [Regs.accepts, hwrite, Bool.false_and]

theorem step_idle (waitrequest : Bool) (hwrite : r.ammWrite = false) :
    (step p rom r waitrequest).romAddr = r.romAddr ∧
      (step p rom r waitrequest).ammWrite = (r.cntr.getLsbD 5 && r.romValid) := by
  have hno := accepts_of_idle waitrequest hwrite
  unfold step
  cases hfull : r.cntr.getLsbD 5 with
  | false => exact ⟨by rw [hwrite, hno]; rfl, by rw [hwrite, hno]; rfl⟩
  | true => exact ⟨by rw [hwrite]; rfl, by rw [hwrite]; rfl⟩

theorem step_cntr (h : r.accepts waitrequest = false) :
    (step p rom r waitrequest).cntr =
      if r.delayed then (if r.cntr.getLsbD 5 then r.cntr else r.cntr + 1) else r.cntr := by
  simp [step, h]

theorem step_delayCntr :
    (step p rom r waitrequest).delayCntr = if r.delayed then r.delayCntr else r.delayCntr + 1 :=
  rfl

end Step

/-! ## The place in the table -/

/-- `c` entries are written, and the stages of the ROM have settled on the next one as far as
the counter tells. -/
structure Placed (p : Params) (rom : Nat → BitVec 32) (k c : Nat) (r : Regs p) : Prop where
  addr : r.romAddr.toNat = c
  le : c ≤ k
  settled : r.cntr ≠ 0#6 → r.romData = rom c
  full : r.ammWrite = true → r.cntr.getLsbD 5 = true
  writing : r.ammWrite = true → c < k ∧ transfer p r = entry p rom c

theorem placed_reset (p : Params) (rom : Nat → BitVec 32) (romData : BitVec 32) (k : Nat) :
    Placed p rom k 0 (reset p romData) where
  addr := by
    show (0 : BitVec p.addrWidth).toNat = 0
    simp
  le := Nat.zero_le k
  settled := fun h => absurd rfl h
  full := fun h => by cases h
  writing := fun h => by cases h

theorem cntr_ne_zero {cntr : BitVec 6} (h : cntr.getLsbD 5 = true) : cntr ≠ 0#6 := by
  intro hzero
  rw [hzero] at h
  cases h

section Placed

variable {p : Params} {rom : Nat → BitVec 32} {k c : Nat} {r : Regs p}

theorem romValid_of_settled (hend : TableEnd p rom k) (h : Placed p rom k c r)
    (hset : r.cntr ≠ 0#6) : r.romValid = decide (c < k) := by
  rw [Regs.romValid, h.settled hset]
  by_cases hlt : c < k
  · simpa [hlt] using hend.before c hlt
  · have heq : c = k := by
      have := h.le
      omega
    simp [heq, hend.atEnd]

theorem placed_accept (hend : TableEnd p rom k) (h : Placed p rom k c r) {waitrequest : Bool}
    (hacc : r.accepts waitrequest = true) :
    Placed p rom k (c + 1) (step p rom r waitrequest) := by
  obtain ⟨haddr, hwrite, hcntr⟩ := step_accept rom hacc
  have hbusy : r.ammWrite = true := by
    rw [Regs.accepts, Bool.and_eq_true] at hacc
    exact hacc.1
  obtain ⟨hlt, _⟩ := h.writing hbusy
  have hwidth : p.romSize ≤ 2 ^ p.addrWidth := Nat.le_pow_clog (by decide) p.romSize
  have hrom := hend.inRom
  have hc := h.addr
  exact
    { addr := by
        rw [haddr, toNat_add_one (by omega), hc]
      le := hlt
      settled := fun hne => absurd hcntr hne
      full := fun ht => by rw [hwrite] at ht; cases ht
      writing := fun ht => by rw [hwrite] at ht; cases ht }

theorem placed_wait (hend : TableEnd p rom k) (h : Placed p rom k c r) {waitrequest : Bool}
    (hacc : r.accepts waitrequest = false) :
    Placed p rom k c (step p rom r waitrequest) := by
  have hcntr := step_cntr rom hacc
  cases hwrite : r.ammWrite with
  | true =>
      obtain ⟨haddr, hnext⟩ := step_stalled rom hacc hwrite
      have hfull := h.full hwrite
      have hdata := h.settled (cntr_ne_zero hfull)
      exact
        { addr := by rw [haddr, h.addr]
          le := h.le
          settled := fun _ => by rw [step_romData, h.addr]
          full := fun _ => by
            rw [hcntr, hfull]
            simpa using hfull
          writing := fun _ => ⟨(h.writing hwrite).1, by rw [step_transfer, hdata]; rfl⟩ }
  | false =>
      obtain ⟨haddr, hnext⟩ := step_idle rom waitrequest hwrite
      exact
        { addr := by rw [haddr, h.addr]
          le := h.le
          settled := fun _ => by rw [step_romData, h.addr]
          full := fun ht => by
            rw [hnext, Bool.and_eq_true] at ht
            rw [hcntr, ht.1]
            simpa using ht.1
          writing := fun ht => by
            rw [hnext, Bool.and_eq_true] at ht
            have hset := cntr_ne_zero ht.1
            have hvalid := romValid_of_settled hend h hset
            rw [ht.2] at hvalid
            refine ⟨of_decide_eq_true hvalid.symm, ?_⟩
            rw [step_transfer, h.settled hset]
            rfl }

end Placed

/-! ## The whole run -/

section Writes

variable {p : Params} {rom : Nat → BitVec 32} {k : Nat} (romData : BitVec 32) (inp : Nat → Bool)

theorem run_succ (n : Nat) :
    run p rom romData inp (n + 1) = step p rom (run p rom romData inp n) (inp n) := rfl

/-- The writes so far are the first entries of the table, and the registers stand at the next. -/
theorem placed_run (hend : TableEnd p rom k) (n : Nat) :
    ∃ c, accepted p rom romData inp n = table p rom c ∧
      Placed p rom k c (run p rom romData inp n) := by
  induction n with
  | zero => exact ⟨0, rfl, placed_reset p rom romData k⟩
  | succ n ih =>
      obtain ⟨c, hlist, hplaced⟩ := ih
      rw [run_succ]
      cases hacc : (run p rom romData inp n).accepts (inp n) with
      | false =>
          have hnone : acceptedWrite p rom romData inp n = none := by
            rw [acceptedWrite, hacc]
            rfl
          refine ⟨c, ?_, placed_wait hend hplaced hacc⟩
          rw [accepted, events_succ_none hnone]
          exact hlist
      | true =>
          have hbusy : (run p rom romData inp n).ammWrite = true := by
            rw [Regs.accepts, Bool.and_eq_true] at hacc
            exact hacc.1
          obtain ⟨_, htransfer⟩ := hplaced.writing hbusy
          have hsome : acceptedWrite p rom romData inp n = some (entry p rom c) := by
            rw [acceptedWrite, hacc, htransfer]
            rfl
          refine ⟨c + 1, ?_, placed_accept hend hplaced hacc⟩
          rw [accepted, events_succ_some hsome, table, List.range_succ, List.map_append]
          exact congrArg (· ++ [entry p rom c]) hlist

theorem length_table (c : Nat) : (table p rom c).length = c := by
  rw [table, List.length_map, List.length_range]

theorem table_prefix {c d : Nat} (hcd : c ≤ d) : table p rom c <+: table p rom d := by
  obtain ⟨e, rfl⟩ := Nat.exists_eq_add_of_le hcd
  rw [table, table, List.range_add, List.map_append]
  exact List.prefix_append _ _

theorem placed_length (hend : TableEnd p rom k) (n : Nat) :
    accepted p rom romData inp n = table p rom (accepted p rom romData inp n).length ∧
      Placed p rom k (accepted p rom romData inp n).length (run p rom romData inp n) := by
  obtain ⟨c, hlist, hplaced⟩ := placed_run romData inp hend n
  rw [hlist, length_table]
  exact ⟨rfl, hplaced⟩

theorem completed_eq (hend : TableEnd p rom k) (n : Nat) :
    (run p rom romData inp (n + 2)).completed =
      decide ((accepted p rom romData inp n).length = k) := by
  obtain ⟨_, hplaced⟩ := placed_length romData inp hend n
  rw [run_succ, step_completed, Regs.romValid, run_succ, step_romData, hplaced.addr]
  by_cases heq : (accepted p rom romData inp n).length = k
  · simp [heq, hend.atEnd]
  · have hle := hplaced.le
    have hne := hend.before _ (show (accepted p rom romData inp n).length < k by omega)
    simp [heq, hne]

theorem length_accepted_mono (p : Params) (rom : Nat → BitVec 32) (romData : BitVec 32)
    (inp : Nat → Bool) {m n : Nat} (hmn : m ≤ n) :
    (accepted p rom romData inp m).length ≤ (accepted p rom romData inp n).length :=
  length_events_mono _ hmn

theorem full_mono (hend : TableEnd p rom k) {m n : Nat} (hmn : m ≤ n)
    (h : (accepted p rom romData inp m).length = k) :
    (accepted p rom romData inp n).length = k := by
  have hmono := length_accepted_mono p rom romData inp hmn
  have hle := (placed_length romData inp hend n).2.le
  omega

/-! ## Progress -/

/-- How far the delay and the pause are from their ends. -/
def pause (r : Regs p) : Nat := (p.delay - r.delayCntr).toNat + (32 - r.cntr.toNat)

theorem toNat_sub_succ {a b : BitVec 32} (h : b ≠ a) :
    (a - (b + 1)).toNat + 1 = (a - b).toNat := by
  have hne : b.toNat ≠ a.toNat := fun heq => h (BitVec.eq_of_toNat_eq heq)
  bv_omega

theorem pause_step {r : Regs p} {waitrequest : Bool} (hacc : r.accepts waitrequest = false)
    (hfull : r.cntr.getLsbD 5 = false) : pause (step p rom r waitrequest) < pause r := by
  have hlt : r.cntr.toNat < 32 := toNat_lt_of_top hfull
  have hcntr := step_cntr rom hacc
  rw [pause, pause, hcntr, step_delayCntr]
  cases hdelayed : r.delayed with
  | true =>
      simp only [hfull, if_true, Bool.false_eq_true, if_false]
      have hadd : (r.cntr + 1).toNat = r.cntr.toNat + 1 := toNat_add_one (by omega)
      omega
  | false =>
      have hne : r.delayCntr ≠ p.delay := by
        intro heq
        rw [Regs.delayed, heq, beq_self_eq_true] at hdelayed
        cases hdelayed
      have hsub := toNat_sub_succ hne
      simp only [Bool.false_eq_true, if_false]
      omega

theorem exists_write (hend : TableEnd p rom k) {m : Nat}
    (hleft : (accepted p rom romData inp m).length < k) :
    ∃ n ≥ m, (run p rom romData inp n).ammWrite = true := by
  have hstep : ∀ n, (accepted p rom romData inp n).length < k →
      (run p rom romData inp n).ammWrite = true ∨
        (run p rom romData inp (n + 1)).ammWrite = true ∨
        ((accepted p rom romData inp (n + 1)).length < k ∧
          pause (run p rom romData inp (n + 1)) < pause (run p rom romData inp n)) := by
    intro n hn
    obtain ⟨_, hplaced⟩ := placed_length romData inp hend n
    cases hwrite : (run p rom romData inp n).ammWrite with
    | true => exact Or.inl rfl
    | false =>
        right
        have hno := accepts_of_idle (inp n) hwrite
        cases hfull : (run p rom romData inp n).cntr.getLsbD 5 with
        | true =>
            have hvalid := romValid_of_settled hend hplaced (cntr_ne_zero hfull)
            left
            rw [run_succ, (step_idle rom (inp n) hwrite).2, hfull, hvalid, decide_eq_true hn]
            rfl
        | false =>
            have hnone : acceptedWrite p rom romData inp n = none := by
              rw [acceptedWrite, hno]
              rfl
            right
            refine ⟨?_, pause_step hno hfull⟩
            rw [accepted, events_succ_none hnone]
            exact hn
  obtain ⟨n, hn, hq⟩ := leads_of_rank
    (P := fun n => (accepted p rom romData inp n).length < k)
    (Q := fun n => (run p rom romData inp n).ammWrite = true ∨
      (run p rom romData inp (n + 1)).ammWrite = true)
    (fun n => pause (run p rom romData inp n))
    (by
      intro n hn
      rcases hstep n hn with h | h | h
      · exact Or.inl (Or.inl h)
      · exact Or.inl (Or.inr h)
      · exact Or.inr h) hleft
  rcases hq with h | h
  · exact ⟨n, hn, h⟩
  · exact ⟨n + 1, by omega, h⟩

def Served (p : Params) (rom : Nat → BitVec 32) (romData : BitVec 32) (inp : Nat → Bool) : Prop :=
  ∀ n, (run p rom romData inp n).ammWrite = true → ∃ m ≥ n, inp m = false

theorem exists_accept (hserved : Served p rom romData inp) {n : Nat}
    (hwrite : (run p rom romData inp n).ammWrite = true) :
    ∃ m ≥ n, (run p rom romData inp m).accepts (inp m) = true := by
  obtain ⟨m, hm, hready⟩ := hserved n hwrite
  obtain ⟨i, hi, hq⟩ := leads_of_rank
    (P := fun i => (run p rom romData inp i).ammWrite = true ∧ i ≤ m)
    (Q := fun i => (run p rom romData inp i).accepts (inp i) = true)
    (fun i => m - i)
    (by
      intro i ⟨hw, him⟩
      cases hacc : (run p rom romData inp i).accepts (inp i) with
      | true => exact Or.inl rfl
      | false =>
          right
          have hne : i ≠ m := by
            intro heq
            rw [Regs.accepts, hw, heq, hready] at hacc
            cases hacc
          exact ⟨⟨by rw [run_succ, (step_stalled rom hacc hw).2], by omega⟩, by omega⟩)
    ⟨hwrite, hm⟩
  exact ⟨i, hi, hq⟩

theorem exists_length (hend : TableEnd p rom k) (hserved : Served p rom romData inp) {c : Nat}
    (hc : c ≤ k) : ∃ n, c ≤ (accepted p rom romData inp n).length := by
  induction c with
  | zero => exact ⟨0, Nat.zero_le _⟩
  | succ c ih =>
      obtain ⟨m, hm⟩ := ih (by omega)
      by_cases hmore : c + 1 ≤ (accepted p rom romData inp m).length
      · exact ⟨m, hmore⟩
      · obtain ⟨n, hn, hwrite⟩ := exists_write (m := m) romData inp hend (by omega)
        obtain ⟨i, hi, hacc⟩ := exists_accept romData inp hserved hwrite
        have hsome : acceptedWrite p rom romData inp i =
            some (transfer p (run p rom romData inp i)) := if_pos hacc
        have hmono := length_accepted_mono p rom romData inp
          (show m ≤ i by omega)
        refine ⟨i + 1, ?_⟩
        have hone : (accepted p rom romData inp (i + 1)).length =
            (accepted p rom romData inp i).length + 1 := by
          rw [accepted, events_succ_some hsome, List.length_append, List.length_singleton]
          rfl
        omega

/-- The writes accepted are the table up to its end mark, in order and each once; a write on
the port is the next entry and stays there while it is stalled; the completion flag, once the
ROM has been read, comes after the last write and stays. If no write is stalled for ever the
whole table is written. -/
theorem writes_table (hend : TableEnd p rom k) :
    (∀ n, accepted p rom romData inp n <+: table p rom k) ∧
    (∀ n, (run p rom romData inp n).ammWrite = true →
      (table p rom k)[(accepted p rom romData inp n).length]? =
        some (transfer p (run p rom romData inp n))) ∧
    (∀ n, (run p rom romData inp n).ammWrite = true → inp n = true →
      (run p rom romData inp (n + 1)).ammWrite = true) ∧
    (∀ n ≥ 2, (run p rom romData inp n).completed = true →
      accepted p rom romData inp n = table p rom k ∧
        (run p rom romData inp (n + 1)).completed = true) ∧
    (Served p rom romData inp → ∃ m, ∀ n ≥ m,
      accepted p rom romData inp n = table p rom k ∧
        (run p rom romData inp n).completed = true) := by
  have hfull : ∀ n, (accepted p rom romData inp n).length = k →
      accepted p rom romData inp n = table p rom k := by
    intro n hlen
    have hlist := (placed_length romData inp hend n).1
    rwa [hlen] at hlist
  refine ⟨?_, ?_, ?_, ?_, ?_⟩
  · intro n
    obtain ⟨hlist, hplaced⟩ := placed_length romData inp hend n
    rw [hlist]
    exact table_prefix hplaced.le
  · intro n hwrite
    obtain ⟨_, hplaced⟩ := placed_length romData inp hend n
    obtain ⟨hlt, htransfer⟩ := hplaced.writing hwrite
    rw [htransfer, table, List.getElem?_map, List.getElem?_range hlt]
    rfl
  · intro n hwrite hwait
    have hno : (run p rom romData inp n).accepts (inp n) = false := by
      rw [Regs.accepts, hwait, Bool.not_true, Bool.and_false]
    rw [run_succ, (step_stalled rom hno hwrite).2]
  · intro n hn hcompleted
    obtain ⟨m, rfl⟩ := Nat.exists_eq_add_of_le' hn
    rw [completed_eq romData inp hend m, decide_eq_true_eq] at hcompleted
    have hlater := full_mono romData inp hend (show m ≤ m + 1 by omega) hcompleted
    refine ⟨hfull _ (full_mono romData inp hend (by omega) hcompleted), ?_⟩
    rw [completed_eq romData inp hend (m + 1), hlater, decide_eq_true rfl]
  · intro hserved
    obtain ⟨m, hm⟩ := exists_length romData inp hend hserved (Nat.le_refl k)
    have hle := (placed_length romData inp hend m).2.le
    have hdone : (accepted p rom romData inp m).length = k := by omega
    refine ⟨m + 2, ?_⟩
    intro n hn
    obtain ⟨i, rfl⟩ := Nat.exists_eq_add_of_le' (show 2 ≤ n by omega)
    refine ⟨hfull _ (full_mono romData inp hend (show m ≤ i + 2 by omega) hdone), ?_⟩
    rw [completed_eq romData inp hend i,
      full_mono romData inp hend (show m ≤ i by omega) hdone, decide_eq_true rfl]

end Writes

/-- Two entries with a byte each in a ROM of four words, copied to a slave that never waits. -/
theorem writes_two_entries :
    ∃ m, ∀ n ≥ m,
      accepted ⟨4, 100000000, 16, 8, 1⟩ (fun i => [0x00400A#32, 0x00410B#32].getD i 4294967295#32)
          0#32 (fun _ => false) n = [(0x40#32, 0x0A#8), (0x41#32, 0x0B#8)] ∧
        (run ⟨4, 100000000, 16, 8, 1⟩
          (fun i => [0x00400A#32, 0x00410B#32].getD i 4294967295#32) 0#32
          (fun _ => false) n).completed = true :=
  (writes_table 0#32 (fun _ => false)
    (show TableEnd ⟨4, 100000000, 16, 8, 1⟩
        (fun i => [0x00400A#32, 0x00410B#32].getD i 4294967295#32) 2 from
      { inRom := by decide
        atEnd := rfl
        before := by decide })).2.2.2.2 (fun n _ => ⟨n, Nat.le_refl n, rfl⟩)

end Mfi.Configurator
