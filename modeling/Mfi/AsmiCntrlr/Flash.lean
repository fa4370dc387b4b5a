import Mfi.Core.Events
import Mfi.Core.History
import Mfi.Core.Trace

/-!
# The flash port of the flash controller

`asmi_cntrlr` shares one Avalon master to the ASMI block between the CRC scan after
reset, which reads the flash in bursts of 64 words, and the accesses of the host. Every
command is on the port for one cycle, `asmi_amm_waitrequest` is not looked at, and every
word that comes back is passed to the host.
-/

namespace Mfi.AsmiCntrlr

open Core

inductive AmmState where
  | idle
  | fourbyte
  | wrwt
  | ack
  | read
  | stop
deriving DecidableEq, Inhabited

structure FlashInput where
  asmiAmmWaitrequest : Bool
  asmiAmmReaddata : BitVec 32
  asmiAmmReaddatavalid : Bool
  amsRead : Bool
  amsWrite : Bool
  amsWritedata : BitVec 32
  amsAddress : BitVec 17

structure Flash where
  state : AmmState
  completed : Bool
  cntr : BitVec 7
  crc : BitVec 32
  recieved : BitVec 32
  asmiAmmRead : Bool
  asmiAmmWrite : Bool
  asmiAmmAddress : BitVec 26
  asmiAmmBurstcount : BitVec 7
  asmiAmmWritedata : BitVec 32
  readOp : Bool
  writeOp : Bool
  addrBuf : BitVec 16
  csrM : Bool
  writedataBuf : BitVec 32
  memOffset : BitVec 16
  amsReaddata : BitVec 32
  amsReaddatavalid : Bool
deriving DecidableEq, Inhabited

def asmiCsr : BitVec 32 := 0x2000000#32

namespace Flash

/-- The reset, which leaves some of the registers as they are. -/
def reset (s : Flash) : Flash :=
  { s with
    cntr := 0, crc := 0xFFFFFFFF#32, asmiAmmRead := false, asmiAmmWrite := false
    completed := false, asmiAmmAddress := 0, state := .idle, recieved := 0
    amsReaddatavalid := false, readOp := false, writeOp := false }

/-- The scan has left the flash: `asmi_amm_address[25]`. -/
def pastEnd (s : Flash) : Bool := s.asmiAmmAddress.getLsbD 25

/-- All words of the burst are there: `cntr[6]`. -/
def burstOver (s : Flash) : Bool := s.cntr.getLsbD 6

def hostAddress (s : Flash) : BitVec 26 :=
  (((if s.csrM then 0#16 else s.memOffset) ++ s.addrBuf) |||
    (if s.csrM then asmiCsr else 0#32)).setWidth 26

def asmiStep (s : Flash) (i : FlashInput) : Flash :=
  -- the assignments before the case
  let c := { s with
    asmiAmmRead := !s.pastEnd && s.state == .read
    asmiAmmWrite := false
    asmiAmmBurstcount := 64 }
  match s.state with
  | .idle =>
      if !s.completed then { c with state := .fourbyte }
      else
        { c with
          asmiAmmRead := s.readOp
          asmiAmmWrite := s.writeOp
          asmiAmmAddress := s.hostAddress
          asmiAmmBurstcount := 1
          asmiAmmWritedata := s.writedataBuf }
  | .fourbyte =>
      { c with
        asmiAmmWrite := true
        asmiAmmAddress := (asmiCsr + 0x4C).setWidth 26
        asmiAmmWritedata := 1
        state := .wrwt }
  | .wrwt => { c with asmiAmmAddress := 0, state := .read }
  | .read =>
      if !s.pastEnd then { c with cntr := 0, state := .ack }
      else { c with cntr := 0, state := .idle, completed := true }
  | .ack =>
      let d :=
        if i.asmiAmmReaddatavalid then
          { c with
            crc := s.crc ^^^ i.asmiAmmReaddata, cntr := s.cntr + 1, recieved := s.recieved + 1 }
        else c
      if s.burstOver then
        { d with state := .read, asmiAmmAddress := s.asmiAmmAddress + 256 }
      else d
  | .stop => c

/-- The registers of the host side, from the registers `s` before the clock edge. -/
def hostStep (s : Flash) (i : FlashInput) (c : Flash) : Flash :=
  { c with
    readOp := i.amsRead
    writeOp := i.amsWrite
    addrBuf := i.amsAddress.setWidth 16
    csrM := i.amsAddress.getLsbD 16
    writedataBuf := i.amsWritedata
    amsReaddatavalid := i.asmiAmmReaddatavalid
    amsReaddata := if i.amsAddress == 0x10064 then s.memOffset.setWidth 32 else i.asmiAmmReaddata
    memOffset :=
      if i.amsAddress == 0x10064 && i.amsWrite then i.amsWritedata.setWidth 16 else s.memOffset }

def step (s : Flash) (i : FlashInput) : Flash := s.hostStep i (s.asmiStep i)

end Flash

def flashRun (s : Flash) (inp : Nat → FlashInput) : Nat → Flash := trace Flash.step s.reset inp

/-! ## The commands -/

inductive Owner where
  | scan
  | host
deriving DecidableEq

structure AsmiCommand where
  owner : Owner
  read : Bool
  write : Bool
  address : BitVec 26
  words : Nat
deriving DecidableEq

namespace Flash

/-- Only the commands of the host are for one word. -/
def owner (s : Flash) : Owner := if s.asmiAmmBurstcount = 1 then .host else .scan

/-- The command on the port, accepted when the slave does not wait. -/
def accepted (s : Flash) (i : FlashInput) : Option AsmiCommand :=
  if (s.asmiAmmRead || s.asmiAmmWrite) && !i.asmiAmmWaitrequest then
    some ⟨s.owner, s.asmiAmmRead, s.asmiAmmWrite, s.asmiAmmAddress, s.asmiAmmBurstcount.toNat⟩
  else none

def burstStarted (s : Flash) : Option (BitVec 26) :=
  if s.state == .read && !s.pastEnd then some s.asmiAmmAddress else none

end Flash

def AsmiCommand.burst (c : AsmiCommand) : Option (BitVec 26) :=
  if c.owner = .scan ∧ c.read = true then some c.address else none

/-- Whether an access of the host is a read and whether it is a write. -/
def AsmiCommand.access (c : AsmiCommand) : Option (Bool × Bool) :=
  if c.owner = .host then some (c.read, c.write) else none

def FlashInput.access (i : FlashInput) : Option (Bool × Bool) :=
  if i.amsRead || i.amsWrite then some (i.amsRead, i.amsWrite) else none

/-- The words that a read command asks for, each with its word address. -/
def AsmiCommand.asked (c : AsmiCommand) : List (Owner × Nat) :=
  if c.read then (List.range c.words).map fun k => (c.owner, c.address.toNat / 4 + k) else []

section Run

variable (s : Flash) (inp : Nat → FlashInput)

def acceptedCommands : Nat → List AsmiCommand :=
  events fun n => (flashRun s inp n).accepted (inp n)

/-- The words asked for before cycle `n`, in the order of the commands. -/
def askedWords (n : Nat) : List (Owner × Nat) :=
  (acceptedCommands s inp n).flatMap AsmiCommand.asked

def returnedWords : Nat → List (BitVec 32) :=
  events fun n => if (inp n).asmiAmmReaddatavalid then some (inp n).asmiAmmReaddata else none

/-- The ASMI slave: it returns the words asked for, all of them and in order. -/
structure AsmiSlave (flash : Nat → BitVec 32) : Prop where
  inOrder : ∀ n, returnedWords inp n <+: (askedWords s inp n).map fun w => flash w.2
  all : ∀ n, ∃ m, (askedWords s inp n).length ≤ (returnedWords inp m).length

def hostValids (n : Nat) : Nat :=
  (events (fun n => if (flashRun s inp n).amsReaddatavalid then some () else none) n).length

def hostWords (n : Nat) : Nat :=
  (((askedWords s inp n).take (returnedWords inp n).length).map Prod.fst).count .host

/-- The exclusive or of `0xFFFFFFFF` with the words of the flash. -/
def crcOf (flash : Nat → BitVec 32) (words : Nat) : BitVec 32 :=
  (List.range words).foldl (fun c k => c ^^^ flash k) 0xFFFFFFFF#32

structure Arrives {α : Type} (started arrived : Nat → List α) : Prop where
  only : ∀ n, arrived n <+: started n
  all : ∀ n, ∃ m, started n <+: arrived m

/-- The flash path works: the bursts of the scan and the accesses of the host arrive at
the slave, the host gets the words of its own reads and no others, and the scan leaves
the CRC of the whole flash. -/
structure FlashPath (flash : Nat → BitVec 32) : Prop where
  bursts : Arrives (events fun n => (flashRun s inp n).burstStarted)
    fun n => (acceptedCommands s inp n).filterMap AsmiCommand.burst
  accesses : Arrives (events fun n => (inp n).access)
    fun n => (acceptedCommands s inp n).filterMap AsmiCommand.access
  valids : ∀ n, hostValids s inp n ≤ hostWords s inp n
  allValids : ∀ n, ∃ m, hostWords s inp n ≤ hostValids s inp m
  crc : ∀ n, (flashRun s inp n).completed = true →
    (flashRun s inp n).crc = crcOf flash 8388608

end Run

/-! ## One cycle -/

namespace Flash

variable {s : Flash} {i : FlashInput}

theorem step_of_idle (hs : s.state = .idle) (hc : s.completed = true) :
    (s.step i).state = .idle ∧ (s.step i).completed = true ∧
    (s.step i).asmiAmmBurstcount = 1 := by
  simp [step, hostStep, asmiStep, hs, hc]

theorem step_of_read (hs : s.state = .read) :
    (s.step i).state = (if s.pastEnd then .idle else .ack) ∧
    (s.step i).completed = (s.pastEnd || s.completed) ∧ (s.step i).cntr = 0 ∧
    (s.step i).asmiAmmRead = !s.pastEnd ∧ (s.step i).asmiAmmWrite = false ∧
    (s.step i).asmiAmmAddress = s.asmiAmmAddress ∧ (s.step i).asmiAmmBurstcount = 64 := by
  cases he : s.pastEnd <;> simp [step, hostStep, asmiStep, hs, he]

theorem step_of_ack (hs : s.state = .ack) :
    (s.step i).state = (if s.burstOver then .read else .ack) ∧
    (s.step i).asmiAmmRead = false ∧
    (s.step i).asmiAmmAddress =
      (if s.burstOver then s.asmiAmmAddress + 256 else s.asmiAmmAddress) := by
  cases ho : s.burstOver <;> cases hv : i.asmiAmmReaddatavalid <;>
    simp [step, hostStep, asmiStep, hs, ho, hv]

end Flash

/-! ## The first burst -/

section Run

variable {s : Flash} {inp : Nat → FlashInput}

theorem flashRun_succ (n : Nat) : flashRun s inp (n + 1) = (flashRun s inp n).step (inp n) := rfl

theorem run_zero : (flashRun s inp 0).state = .idle ∧ (flashRun s inp 0).completed = false ∧
    (flashRun s inp 0).asmiAmmRead = false := ⟨rfl, rfl, rfl⟩

theorem run_one : (flashRun s inp 1).state = .fourbyte ∧
    (flashRun s inp 1).asmiAmmRead = false := by
  obtain ⟨hs, hc, _⟩ := @run_zero s inp
  rw [flashRun_succ]
  simp [Flash.step, Flash.hostStep, Flash.asmiStep, hs, hc]

theorem run_two : (flashRun s inp 2).state = .wrwt ∧
    (flashRun s inp 2).asmiAmmRead = false := by
  obtain ⟨hs, _⟩ := @run_one s inp
  rw [flashRun_succ]
  simp [Flash.step, Flash.hostStep, Flash.asmiStep, hs]

theorem run_three : (flashRun s inp 3).state = .read ∧
    (flashRun s inp 3).asmiAmmRead = false ∧ (flashRun s inp 3).asmiAmmAddress = 0 := by
  obtain ⟨hs, _⟩ := @run_two s inp
  rw [flashRun_succ]
  simp [Flash.step, Flash.hostStep, Flash.asmiStep, hs]

theorem run_four : (flashRun s inp 4).state = .ack ∧ (flashRun s inp 4).cntr = 0 ∧
    (flashRun s inp 4).asmiAmmRead = true ∧ (flashRun s inp 4).asmiAmmWrite = false ∧
    (flashRun s inp 4).asmiAmmAddress = 0 ∧ (flashRun s inp 4).asmiAmmBurstcount = 64 := by
  obtain ⟨hs, _, ha⟩ := @run_three s inp
  have he : (flashRun s inp 3).pastEnd = false := by
    rw [Flash.pastEnd, ha]
    rfl
  obtain ⟨hstate, _, hcnt, hread, hwrite, haddr, hburst⟩ := @Flash.step_of_read _ (inp 3) hs
  rw [flashRun_succ]
  rw [he] at hstate hread
  exact ⟨hstate, hcnt, hread, hwrite, haddr.trans ha, hburst⟩

theorem no_early_read {n : Nat} (hn : n < 4) : (flashRun s inp n).asmiAmmRead = false := by
  match n, hn with
  | 0, _ => exact run_zero.2.2
  | 1, _ => exact run_one.2
  | 2, _ => exact run_two.2
  | 3, _ => exact run_three.2.1

theorem first_burst_started : events (fun n => (flashRun s inp n).burstStarted) 4 = [0] := by
  have h0 : (flashRun s inp 0).burstStarted = none := by
    simp [Flash.burstStarted, run_zero.1]
  have h1 : (flashRun s inp 1).burstStarted = none := by
    simp [Flash.burstStarted, run_one.1]
  have h2 : (flashRun s inp 2).burstStarted = none := by
    simp [Flash.burstStarted, run_two.1]
  have h3 : (flashRun s inp 3).burstStarted = some 0 := by
    simp [Flash.burstStarted, Flash.pastEnd, run_three.1, run_three.2.2]
  simp [events, h0, h1, h2, h3]

/-! ## A first burst that is stalled -/

/-- After the first burst no burst starts at address 0 again. -/
def Later (c : Flash) : Prop :=
  match c.state with
  | .ack => c.asmiAmmAddress.toNat < 33554432 ∧
      (c.asmiAmmRead = true → c.asmiAmmAddress.toNat ≠ 0)
  | .read => c.asmiAmmRead = false ∧ 256 ≤ c.asmiAmmAddress.toNat
  | .idle => c.completed = true ∧ (c.asmiAmmRead = true → c.asmiAmmBurstcount = 1)
  | _ => False

theorem later_five : Later (flashRun s inp 5) := by
  obtain ⟨hs, hc, _, _, ha, _⟩ := @run_four s inp
  have ho : (flashRun s inp 4).burstOver = false := by
    rw [Flash.burstOver, hc]
    rfl
  obtain ⟨hstate, hread, haddr⟩ := @Flash.step_of_ack _ (inp 4) hs
  rw [ho] at hstate haddr
  rw [flashRun_succ]
  simp [Later, hstate, hread, haddr, ha]

theorem lt_of_not_pastEnd {c : Flash} (h : c.pastEnd = false) :
    c.asmiAmmAddress.toNat < 33554432 := by
  have hmsb : c.asmiAmmAddress.msb = false := by
    rw [BitVec.msb_eq_getLsbD_last]
    exact h
  have hlt := BitVec.msb_eq_false_iff_two_mul_lt.mp hmsb
  omega

theorem Later.step {c : Flash} (h : Later c) (i : FlashInput) : Later (c.step i) := by
  unfold Later at h
  cases hs : c.state with
  | idle =>
      simp only [hs] at h
      obtain ⟨hstate, hc, hburst⟩ := @Flash.step_of_idle _ i hs h.1
      simp [Later, hstate, hc, hburst]
  | ack =>
      simp only [hs] at h
      obtain ⟨hstate, hread, haddr⟩ := @Flash.step_of_ack _ i hs
      cases ho : c.burstOver with
      | false =>
          rw [ho, if_neg Bool.false_ne_true] at hstate haddr
          simp only [Later, hstate, haddr, hread]
          exact ⟨h.1, fun hr => absurd hr (by decide)⟩
      | true =>
          have hsum : (c.asmiAmmAddress + 256).toNat = c.asmiAmmAddress.toNat + 256 := by
            have hlt := h.1
            rw [BitVec.toNat_add, show (256 : BitVec 26).toNat = 256 from rfl]
            omega
          rw [ho, if_pos rfl] at hstate haddr
          rw [← haddr] at hsum
          simp only [Later, hstate]
          exact ⟨hread, by omega⟩
  | read =>
      simp only [hs] at h
      obtain ⟨hstate, hc, _, hread, _, haddr, _⟩ := @Flash.step_of_read _ i hs
      cases he : c.pastEnd with
      | false =>
          have hlt := lt_of_not_pastEnd he
          rw [he, if_neg Bool.false_ne_true] at hstate
          simp only [Later, hstate, haddr]
          exact ⟨hlt, fun _ => by omega⟩
      | true =>
          rw [he] at hstate hc hread
          simp [Later, hstate, hc, hread]
  | fourbyte => simp only [hs] at h
  | wrwt => simp only [hs] at h
  | stop => simp only [hs] at h

theorem later_run (n : Nat) : Later (flashRun s inp (5 + n)) := by
  induction n with
  | zero => exact later_five
  | succ n ih => exact ih.step _

theorem burst_of_accepted {c : Flash} {i : FlashInput} {a : BitVec 26}
    (h : (c.accepted i).bind AsmiCommand.burst = some a) :
    c.asmiAmmRead = true ∧ c.asmiAmmBurstcount ≠ 1 ∧ i.asmiAmmWaitrequest = false ∧
    c.asmiAmmAddress = a := by
  unfold Flash.accepted at h
  split at h
  · rename_i hport
    simp only [Option.bind_some, AsmiCommand.burst, Flash.owner] at h
    by_cases hb : c.asmiAmmBurstcount = 1
    · simp [hb] at h
    · by_cases hr : c.asmiAmmRead = true
      · simp only [hb, hr, if_false, and_self, if_true] at h
        simp only [Bool.and_eq_true, Bool.not_eq_true'] at hport
        exact ⟨hr, hb, hport.2, Option.some.inj h⟩
      · simp [hr] at h
  · simp at h

theorem burst_zero {n : Nat}
    (h : ((flashRun s inp n).accepted (inp n)).bind AsmiCommand.burst = some 0) :
    n = 4 ∧ (inp n).asmiAmmWaitrequest = false := by
  obtain ⟨hr, hb, hw, ha⟩ := burst_of_accepted h
  refine ⟨?_, hw⟩
  by_contra hn
  by_cases hlt : n < 4
  · rw [no_early_read hlt] at hr
    exact absurd hr (by decide)
  · have hl := @later_run s inp (n - 5)
    rw [show 5 + (n - 5) = n by omega] at hl
    unfold Later at hl
    cases hs : (flashRun s inp n).state <;> simp only [hs] at hl
    · exact hb (hl.2 hr)
    · exact hl.2 hr (by rw [ha]; rfl)
    · rw [hl.1] at hr
      exact absurd hr (by decide)

theorem acceptedCommands_succ (n : Nat) : acceptedCommands s inp (n + 1) =
    acceptedCommands s inp n ++ ((flashRun s inp n).accepted (inp n)).toList := rfl

/-- When the slave stalls in cycle 4 the first burst is lost. -/
theorem not_arrives_of_stalled (hw : (inp 4).asmiAmmWaitrequest = true) :
    ¬ Arrives (events fun n => (flashRun s inp n).burstStarted)
      fun n => (acceptedCommands s inp n).filterMap AsmiCommand.burst := by
  intro h
  have hnever : ∀ n, (0 : BitVec 26) ∉ (acceptedCommands s inp n).filterMap AsmiCommand.burst := by
    intro n
    induction n with
    | zero => simp [acceptedCommands]
    | succ n ih =>
        rw [acceptedCommands_succ, List.filterMap_append, List.mem_append, not_or]
        refine ⟨ih, fun hmem => ?_⟩
        have hnow : ((flashRun s inp n).accepted (inp n)).bind AsmiCommand.burst = some 0 := by
          cases hacc : (flashRun s inp n).accepted (inp n) with
          | none => simp [hacc] at hmem
          | some c => simpa [hacc] using hmem
        obtain ⟨hn, hfree⟩ := burst_zero hnow
        rw [hn, hw] at hfree
        exact absurd hfree (by decide)
  obtain ⟨m, hm⟩ := h.all 4
  rw [first_burst_started] at hm
  exact hnever m (hm.subset (List.mem_singleton.mpr rfl))

/-! ## A first burst that is answered -/

theorem askedWords_succ (n : Nat) : askedWords s inp (n + 1) =
    askedWords s inp n ++ ((flashRun s inp n).accepted (inp n)).toList.flatMap
      AsmiCommand.asked := by
  rw [askedWords, acceptedCommands_succ, List.flatMap_append]
  rfl

theorem asked_of_no_read {c : Flash} {i : FlashInput} (h : c.asmiAmmRead = false) :
    (c.accepted i).toList.flatMap AsmiCommand.asked = [] := by
  unfold Flash.accepted
  split <;> simp [AsmiCommand.asked, h]

theorem askedWords_early {n : Nat} (hn : n ≤ 4) : askedWords s inp n = [] := by
  induction n with
  | zero => rfl
  | succ n ih =>
      rw [askedWords_succ, ih (by omega), asked_of_no_read (no_early_read (by omega))]
      rfl

theorem askedWords_five (hw : (inp 4).asmiAmmWaitrequest = false) :
    askedWords s inp 5 = (List.range 64).map fun k => (.scan, k) := by
  obtain ⟨_, _, hr, _, ha, hb⟩ := @run_four s inp
  rw [askedWords_succ, askedWords_early (Nat.le_refl 4)]
  have hacc : (flashRun s inp 4).accepted (inp 4) = some ⟨.scan, true, false, 0, 64⟩ := by
    simp [Flash.accepted, Flash.owner, hr, ha, hb, hw, run_four.2.2.2.1]
  simp [hacc, AsmiCommand.asked]

theorem askedWords_grow {m n : Nat} (h : m ≤ n) : askedWords s inp m <+: askedWords s inp n :=
  prefix_of_le (fun k => by rw [askedWords_succ]; exact List.prefix_append _ _) h

theorem hostWords_zero (hw : (inp 4).asmiAmmWaitrequest = false) {n : Nat}
    (hn : (returnedWords inp n).length ≤ 64) : hostWords s inp n = 0 := by
  have hnone : ∀ w ∈ (askedWords s inp n).take (returnedWords inp n).length, w.1 = .scan := by
    intro w hmem
    by_cases h5 : 5 ≤ n
    · obtain ⟨rest, hrest⟩ := @askedWords_grow s inp 5 n h5
      have hlen : (askedWords s inp 5).length = 64 := by
        rw [askedWords_five hw, List.length_map, List.length_range]
      rw [← hrest, List.take_append_of_le_length (by omega), askedWords_five hw] at hmem
      obtain ⟨k, _, hk⟩ := List.mem_map.mp (List.mem_of_mem_take hmem)
      rw [← hk]
    · rw [askedWords_early (by omega)] at hmem
      simp at hmem
  rw [hostWords, List.count_eq_zero]
  intro hmem
  obtain ⟨w, hin, hhost⟩ := List.mem_map.mp hmem
  rw [hnone w hin] at hhost
  exact absurd hhost (by decide)

theorem returnedWords_succ (n : Nat) : returnedWords inp (n + 1) = returnedWords inp n ++
    (if (inp n).asmiAmmReaddatavalid then some (inp n).asmiAmmReaddata else none).toList := rfl

theorem returnedWords_succ_le (n : Nat) :
    (returnedWords inp (n + 1)).length ≤ (returnedWords inp n).length + 1 := by
  rw [returnedWords_succ, List.length_append]
  split <;> simp

theorem exists_first_word {m : Nat} (h : returnedWords inp m ≠ []) :
    ∃ n, returnedWords inp n = [] ∧ (inp n).asmiAmmReaddatavalid = true := by
  induction m with
  | zero => exact absurd rfl h
  | succ m ih =>
      by_cases hm : returnedWords inp m = []
      · refine ⟨m, hm, ?_⟩
        by_contra hv
        rw [returnedWords_succ, if_neg hv, Option.toList_none, List.append_nil] at h
        exact h hm
      · exact ih hm

theorem not_valids_of_answered (hw : (inp 4).asmiAmmWaitrequest = false) {m : Nat}
    (h : returnedWords inp m ≠ []) : ∃ n, hostWords s inp n < hostValids s inp n := by
  obtain ⟨n, hnone, hv⟩ := exists_first_word h
  refine ⟨n + 2, ?_⟩
  have hlen : (returnedWords inp (n + 2)).length ≤ 64 := by
    have h1 := @returnedWords_succ_le inp n
    have h2 := @returnedWords_succ_le inp (n + 1)
    rw [hnone, List.length_nil] at h1
    exact h2.trans (by omega)
  rw [hostWords_zero hw hlen, hostValids]
  have hpassed : (if (flashRun s inp (n + 1)).amsReaddatavalid then some () else none) =
      some () := if_pos hv
  rw [events_succ_some hpassed, List.length_append]
  exact Nat.succ_pos _

/-- The controller never keeps the promise of its flash path: when the slave stalls the
first burst it is lost, and otherwise its words go to the host. -/
theorem flash_path_fails (s : Flash) (inp : Nat → FlashInput) (flash : Nat → BitVec 32)
    (hslave : AsmiSlave s inp flash) : ¬ FlashPath s inp flash := by
  intro h
  cases hw : (inp 4).asmiAmmWaitrequest with
  | true => exact not_arrives_of_stalled hw h.bursts
  | false =>
      obtain ⟨m, hm⟩ := hslave.all 5
      have hsome : returnedWords inp m ≠ [] := by
        intro hnil
        rw [askedWords_five hw, hnil] at hm
        simp at hm
      obtain ⟨n, hn⟩ := @not_valids_of_answered s inp hw m hsome
      exact absurd (h.valids n) (by omega)

end Run

/-! ## A slave that answers at once -/

/-- No stall, no access of the host, and a zero word as long as words are owed. -/
def promptAnswer (_ : Flash) (owed : Nat) : FlashInput :=
  ⟨false, 0, decide (0 < owed), false, false, 0, 0⟩

def promptOwed (c : Flash) (owed : Nat) : Nat :=
  owed - 1 + ((c.accepted (promptAnswer c owed)).toList.flatMap AsmiCommand.asked).length

def promptRun : Nat → Flash × Nat :=
  closedRun Flash.step promptAnswer promptOwed (Flash.reset default, 0)

def promptInput : Nat → FlashInput :=
  closedInput Flash.step promptAnswer promptOwed (Flash.reset default, 0)

theorem flashRun_prompt (n : Nat) : flashRun default promptInput n = (promptRun n).1 :=
  @trace_closedInput _ _ _ Flash.step promptAnswer promptOwed (Flash.reset default, 0) n

theorem promptRun_owed (n : Nat) :
    (returnedWords promptInput n).length + (promptRun n).2 =
      (askedWords default promptInput n).length := by
  induction n with
  | zero => rfl
  | succ n ih =>
      rw [askedWords_succ, List.length_append, flashRun_prompt, returnedWords_succ,
        List.length_append]
      have hnext : (promptRun (n + 1)).2 = (promptRun n).2 - 1 +
          (((promptRun n).1.accepted (promptInput n)).toList.flatMap
            AsmiCommand.asked).length := rfl
      have hvalid : (promptInput n).asmiAmmReaddatavalid = decide (0 < (promptRun n).2) := rfl
      rw [hnext]
      by_cases hpos : 0 < (promptRun n).2
      · rw [hvalid, decide_eq_true hpos, if_pos rfl]
        simp only [Option.toList_some, List.length_singleton]
        omega
      · rw [hvalid, decide_eq_false hpos]
        simp only [Bool.false_eq_true, if_false, Option.toList_none, List.length_nil]
        omega

theorem returnedWords_prompt {w : BitVec 32} {n : Nat} (h : w ∈ returnedWords promptInput n) :
    w = 0 := by
  induction n with
  | zero => simp [returnedWords] at h
  | succ n ih =>
      rw [returnedWords_succ, List.mem_append] at h
      rcases h with h | h
      · exact ih h
      · split at h
        · exact List.mem_singleton.mp h
        · simp at h

theorem prompt_progress (n k : Nat) :
    min (askedWords default promptInput n).length ((returnedWords promptInput n).length + k) ≤
      (returnedWords promptInput (n + k)).length := by
  induction k with
  | zero => exact Nat.min_le_right _ _
  | succ k ih =>
      have howed := promptRun_owed (n + k)
      have hasked := (@askedWords_grow default promptInput n (n + k)
        (Nat.le_add_right n k)).length_le
      rw [show n + (k + 1) = n + k + 1 by omega, returnedWords_succ, List.length_append]
      by_cases hpos : 0 < (promptRun (n + k)).2
      · have hvalid : (promptInput (n + k)).asmiAmmReaddatavalid = true := decide_eq_true hpos
        rw [if_pos hvalid, Option.toList_some, List.length_singleton]
        omega
      · omega

theorem promptSlave : AsmiSlave default promptInput fun _ => 0 := by
  constructor
  · intro n
    have howed := promptRun_owed n
    have hzero : returnedWords promptInput n =
        List.replicate (returnedWords promptInput n).length 0 :=
      List.eq_replicate_of_mem fun w hw => returnedWords_prompt hw
    rw [hzero, List.map_const']
    exact List.prefix_replicate_iff.mpr ⟨by simp; omega, by simp⟩
  · intro n
    refine ⟨n + (askedWords default promptInput n).length, ?_⟩
    have hle := prompt_progress n (askedWords default promptInput n).length
    omega

/-- With a slave that never stalls and answers at once, and a host that never reads, the
host gets a word in cycle 6. -/
theorem scan_word_to_host :
    AsmiSlave default promptInput (fun _ => 0) ∧
    events (fun n => (promptInput n).access) 7 = [] ∧
    (flashRun default promptInput 6).amsReaddatavalid = true ∧
    ¬ FlashPath default promptInput fun _ => 0 := by
  refine ⟨promptSlave, by decide, by decide, fun h => ?_⟩
  exact absurd (h.valids 7) (by decide)

/-- For example with the slave that answers at once. -/
theorem flash_path_fails_prompt : ¬ FlashPath default promptInput fun _ => 0 :=
  flash_path_fails default promptInput (fun _ => 0) promptSlave

end Mfi.AsmiCntrlr
