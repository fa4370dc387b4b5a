import Mfi.Core.Events

/-!
# The bonded memory interface

`bond_ifc` puts two DDR ports of 64 bits side by side as one slave port of 128 bits.
It has no registers: the commands are copied to both ports, and the two waitrequests
and the two readdatavalids are joined by a conjunction. So the slave port accepts a
command as soon as one of the two memories does.
-/

namespace Mfi.BondIfc

open Core

/-- A command of an Avalon master whose data are `bytes` bytes wide. -/
structure Command (bytes : Nat) where
  address : BitVec 26
  byteenable : BitVec bytes
  read : Bool
  write : Bool
  writedata : BitVec (8 * bytes)
  burstcount : BitVec 4
  beginbursttransfer : Bool
deriving DecidableEq

structure DdrAnswer where
  waitrequest : Bool
  readdatavalid : Bool
  readdata : BitVec 64

structure Input where
  slave : Command 16
  ddr0 : DdrAnswer
  ddr1 : DdrAnswer

/-! ## The outputs -/

def avsSlaveWaitrequest (i : Input) : Bool := i.ddr0.waitrequest && i.ddr1.waitrequest

def avsSlaveReaddatavalid (i : Input) : Bool := i.ddr0.readdatavalid && i.ddr1.readdatavalid

def avsSlaveReaddata (i : Input) : BitVec 128 := i.ddr1.readdata ++ i.ddr0.readdata

def avmDdr0 (i : Input) : Command 8 where
  address := i.slave.address
  byteenable := i.slave.byteenable.extractLsb' 0 8
  read := i.slave.read
  write := i.slave.write
  writedata := i.slave.writedata.extractLsb' 0 64
  burstcount := i.slave.burstcount
  beginbursttransfer := i.slave.beginbursttransfer

def avmDdr1 (i : Input) : Command 8 where
  address := i.slave.address
  byteenable := i.slave.byteenable.extractLsb' 8 8
  read := i.slave.read
  write := i.slave.write
  writedata := i.slave.writedata.extractLsb' 64 64
  burstcount := i.slave.burstcount
  beginbursttransfer := i.slave.beginbursttransfer

/-! ## What the ports accept and return -/

/-- A command is accepted in a cycle in which it is offered without waitrequest. -/
def Command.accepted {bytes : Nat} (c : Command bytes) (waitrequest : Bool) :
    Option (Command bytes) :=
  if (c.read || c.write) && !waitrequest then some c else none

def slaveAccepted (i : Input) : Option (Command 16) := i.slave.accepted (avsSlaveWaitrequest i)

def ddr0Accepted (i : Input) : Option (Command 8) := (avmDdr0 i).accepted i.ddr0.waitrequest

def ddr1Accepted (i : Input) : Option (Command 8) := (avmDdr1 i).accepted i.ddr1.waitrequest

def DdrAnswer.beat (a : DdrAnswer) : Option (BitVec 64) :=
  if a.readdatavalid then some a.readdata else none

def slaveBeat (i : Input) : Option (BitVec 128) :=
  if avsSlaveReaddatavalid i then some (avsSlaveReaddata i) else none

/-- The half of a command that belongs to DDR port `k`. -/
def ownHalf (k : Nat) (c : Command 16) : Command 8 where
  address := c.address
  byteenable := c.byteenable.extractLsb' (8 * k) 8
  read := c.read
  write := c.write
  writedata := c.writedata.extractLsb' (64 * k) 64
  burstcount := c.burstcount
  beginbursttransfer := c.beginbursttransfer

/-- After `n` cycles both memories have accepted the commands of the slave port, each
with its half, and the words returned are made of the beats of the two memories. -/
structure Bonded (inp : Nat → Input) (n : Nat) : Prop where
  ddr0 : events (fun t => ddr0Accepted (inp t)) n =
    (events (fun t => slaveAccepted (inp t)) n).map (ownHalf 0)
  ddr1 : events (fun t => ddr1Accepted (inp t)) n =
    (events (fun t => slaveAccepted (inp t)) n).map (ownHalf 1)
  beats0 : (events (fun t => slaveBeat (inp t)) n).map (BitVec.extractLsb' 0 64) =
    events (fun t => (inp t).ddr0.beat) n
  beats1 : (events (fun t => slaveBeat (inp t)) n).map (BitVec.extractLsb' 64 64) =
    events (fun t => (inp t).ddr1.beat) n

/-- The two memories wait together while a command is offered, and answer together. -/
structure InStep (i : Input) : Prop where
  wait : (i.slave.read || i.slave.write) = true → i.ddr0.waitrequest = i.ddr1.waitrequest
  valid : i.ddr0.readdatavalid = i.ddr1.readdatavalid

/-! ## One cycle -/

theorem accepted_half_iff (k : Nat) (c : Command 16) (portWait slaveWait : Bool) :
    (ownHalf k c).accepted portWait = (c.accepted slaveWait).map (ownHalf k) ↔
      ((c.read || c.write) = true → portWait = slaveWait) := by
  unfold Command.accepted
  cases hc : c.read || c.write with
  | false =>
      have hk : ((ownHalf k c).read || (ownHalf k c).write) = false := hc
      simp [hk]
  | true =>
      have hk : ((ownHalf k c).read || (ownHalf k c).write) = true := hc
      cases portWait <;> cases slaveWait <;> simp [hk]

theorem slave_word_low (i : Input) :
    (avsSlaveReaddata i).extractLsb' 0 64 = i.ddr0.readdata := by
  apply BitVec.eq_of_getLsbD_eq
  intro j hj
  rw [avsSlaveReaddata, BitVec.getLsbD_extractLsb', BitVec.getLsbD_append]
  simp [hj]

theorem slave_word_high (i : Input) :
    (avsSlaveReaddata i).extractLsb' 64 64 = i.ddr1.readdata := by
  apply BitVec.eq_of_getLsbD_eq
  intro j hj
  rw [avsSlaveReaddata, BitVec.getLsbD_extractLsb', BitVec.getLsbD_append]
  simp [hj]

theorem beat_ddr0_iff (i : Input) :
    (slaveBeat i).map (BitVec.extractLsb' 0 64) = i.ddr0.beat ↔
      avsSlaveReaddatavalid i = i.ddr0.readdatavalid := by
  unfold slaveBeat DdrAnswer.beat
  cases avsSlaveReaddatavalid i <;> cases i.ddr0.readdatavalid <;> simp [slave_word_low]

theorem beat_ddr1_iff (i : Input) :
    (slaveBeat i).map (BitVec.extractLsb' 64 64) = i.ddr1.beat ↔
      avsSlaveReaddatavalid i = i.ddr1.readdatavalid := by
  unfold slaveBeat DdrAnswer.beat
  cases avsSlaveReaddatavalid i <;> cases i.ddr1.readdatavalid <;> simp [slave_word_high]

theorem joined_iff (a b : Bool) : (a = (a && b) ∧ b = (a && b)) ↔ a = b := by
  cases a <;> cases b <;> decide

theorem inStep_iff (i : Input) :
    InStep i ↔
      ddr0Accepted i = (slaveAccepted i).map (ownHalf 0) ∧
      ddr1Accepted i = (slaveAccepted i).map (ownHalf 1) ∧
      (slaveBeat i).map (BitVec.extractLsb' 0 64) = i.ddr0.beat ∧
      (slaveBeat i).map (BitVec.extractLsb' 64 64) = i.ddr1.beat := by
  have h0 := accepted_half_iff 0 i.slave i.ddr0.waitrequest (avsSlaveWaitrequest i)
  have h1 := accepted_half_iff 1 i.slave i.ddr1.waitrequest (avsSlaveWaitrequest i)
  have hwait := joined_iff i.ddr0.waitrequest i.ddr1.waitrequest
  have hvalid := joined_iff i.ddr0.readdatavalid i.ddr1.readdatavalid
  rw [beat_ddr0_iff, beat_ddr1_iff]
  constructor
  · intro h
    refine ⟨h0.mpr fun hc => (hwait.mpr (h.wait hc)).1, h1.mpr fun hc => (hwait.mpr (h.wait hc)).2,
      (hvalid.mpr h.valid).1.symm, (hvalid.mpr h.valid).2.symm⟩
  · rintro ⟨ha, hb, hv, hw⟩
    exact ⟨fun hc => hwait.mp ⟨h0.mp ha hc, h1.mp hb hc⟩, hvalid.mp ⟨hv.symm, hw.symm⟩⟩

/-! ## Whole runs -/

/-- The two memories work as one, at all times, exactly when they wait together and
answer together in every cycle. -/
theorem bonded_iff (inp : Nat → Input) : (∀ n, Bonded inp n) ↔ ∀ t, InStep (inp t) := by
  have hcmd0 := @events_eq_iff _ (fun t => ddr0Accepted (inp t))
    (fun t => (slaveAccepted (inp t)).map (ownHalf 0))
  have hcmd1 := @events_eq_iff _ (fun t => ddr1Accepted (inp t))
    (fun t => (slaveAccepted (inp t)).map (ownHalf 1))
  have hbeat0 := @events_eq_iff _ (fun t => (slaveBeat (inp t)).map (BitVec.extractLsb' 0 64))
    (fun t => (inp t).ddr0.beat)
  have hbeat1 := @events_eq_iff _ (fun t => (slaveBeat (inp t)).map (BitVec.extractLsb' 64 64))
    (fun t => (inp t).ddr1.beat)
  simp only [← map_events] at hcmd0 hcmd1 hbeat0 hbeat1
  constructor
  · intro h t
    exact (inStep_iff _).mpr ⟨hcmd0.mp (fun n => (h n).ddr0) t, hcmd1.mp (fun n => (h n).ddr1) t,
      hbeat0.mp (fun n => (h n).beats0) t, hbeat1.mp (fun n => (h n).beats1) t⟩
  · intro h n
    have hall := fun t => (inStep_iff (inp t)).mp (h t)
    exact ⟨hcmd0.mpr (fun t => (hall t).1) n, hcmd1.mpr (fun t => (hall t).2.1) n,
      hbeat0.mpr (fun t => (hall t).2.2.1) n, hbeat1.mpr (fun t => (hall t).2.2.2) n⟩

/-! ## A memory that waits alone -/

/-- A write of one word, and nothing afterwards. Port 0 waits for one cycle, port 1
does not wait. -/
def lostWrite (t : Nat) : Input where
  slave := ⟨0, BitVec.allOnes 16, false, t == 0, 1, 1, t == 0⟩
  ddr0 := ⟨t == 0, false, 0⟩
  ddr1 := ⟨false, false, 0⟩

/-- The slave port has accepted the write, and port 0 never accepts it. -/
theorem lost_write :
    ¬ (∀ n, Bonded lostWrite n) ∧
    ∀ n, 1 ≤ n → events (fun t => slaveAccepted (lostWrite t)) n = [(lostWrite 0).slave] ∧
      events (fun t => ddr0Accepted (lostWrite t)) n = [] := by
  have hlater : ∀ k, 1 ≤ k → (k == 0) = false := by
    intro k hk
    simp only [beq_eq_false_iff_ne, ne_eq]
    omega
  have hslave : ∀ n, 1 ≤ n →
      events (fun t => slaveAccepted (lostWrite t)) n = [(lostWrite 0).slave] := by
    intro n hn
    rw [events_eq_of_quiet hn]
    · rfl
    · intro k hk
      simp [slaveAccepted, Command.accepted, lostWrite, hlater k hk]
  have hport : ∀ n, 1 ≤ n → events (fun t => ddr0Accepted (lostWrite t)) n = [] := by
    intro n hn
    rw [events_eq_of_quiet hn]
    · rfl
    · intro k hk
      simp [ddr0Accepted, avmDdr0, Command.accepted, lostWrite, hlater k hk]
  refine ⟨fun h => ?_, fun n hn => ⟨hslave n hn, hport n hn⟩⟩
  have hboth := (h 1).ddr0
  rw [hslave 1 (Nat.le_refl 1), hport 1 (Nat.le_refl 1)] at hboth
  exact absurd hboth (List.cons_ne_nil _ []).symm

end Mfi.BondIfc
