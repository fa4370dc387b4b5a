import Mfi.AmsI2c.Served
import Mfi.Firmware.I2cMaster

/-!
# The firmware on the bridge

The status that the firmware reads after a write is always zero, whatever became of the write.
So no write is done twice: each entry of a table gives one transaction on the bus, refused or
not.
-/

namespace Mfi.Firmware

open Core AmsI2c

def access : Event Op Res → Option Access
  | ⟨.iowr8 address data, _⟩ => some ⟨⟨false, address.extractLsb' 0 16, data⟩, none⟩
  | ⟨.iord8 address, byte⟩ => some ⟨⟨true, address.extractLsb' 0 16, 0⟩, some byte⟩
  | _ => none

def accesses (l : List (Event Op Res)) : List Access := l.filterMap access

def Trusted (e : Event Op Res) : Prop :=
  ∀ a, access e = some a → a.command.isRead = true → a.command.address.getLsbD 8 = true →
    a.answer = some 0

/-- The history, on a bridge that answers a read of its status with zero. -/
def onBridge : Contract Op Res (List (Event Op Res)) where
  next h e := h ++ [e]
  rely _ e := Trusted e
  ensure _ _ := True

theorem after_onBridge (h l : List (Event Op Res)) : onBridge.after h l = h ++ l := by
  induction l generalizing h with
  | nil => exact (List.append_nil h).symm
  | cons e l ih =>
      have hnext := ih (h ++ [e])
      rw [List.append_assoc] at hnext
      exact hnext

/-- A write and a read of the status that shows no error. -/
def I2cRegister.once (r : I2cRegister) : List (Event Op Res) :=
  attempt (i2cAddress r.addr r.reg) r.value 0

theorem statusAddress_bit (address : BitVec 32) :
    ((statusAddress address).extractLsb' 0 16).getLsbD 8 = true := by
  simp [statusAddress]

theorem i2cRetry_holds (address : BitVec 32) (data : BitVec 8) (retry : Nat)
    (h : List (Event Op Res)) :
    onBridge.Holds (i2cRetry address data (retry + 1)) h
      fun _ h' => h' = h ++ attempt address data 0 := by
  rw [i2cRetry_succ]
  rintro ⟨⟩ _
  refine ⟨trivial, fun status hstatus => ⟨trivial, ?_⟩⟩
  have hzero : status = 0#8 := by
    have hanswer := hstatus _ rfl rfl (statusAddress_bit address)
    exact Option.some.inj hanswer
  subst hzero
  exact List.append_assoc h _ _

theorem i2cWriteArray_holds (array : List I2cRegister) (h : List (Event Op Res)) :
    onBridge.Holds (i2cWriteArray array) h
      fun _ h' => h' = h ++ array.flatMap I2cRegister.once := by
  induction array generalizing h with
  | nil => exact (List.append_nil h).symm
  | cons r array ih =>
      refine (i2cRetry_holds _ _ 99 h).bind ?_
      rintro ⟨⟩ _ rfl
      refine (ih _).mono ?_
      rintro ⟨⟩ _ rfl
      rw [List.append_assoc]
      rfl

/-! ## The wires -/

section Bus

variable {i2cClockTime : BitVec 32} {i2cWait : Bool} {inp : Nat → BridgeInput}

variable {n : Nat} {l : List (Event Op Res)}

theorem trusted_of_served (hl : (accesses l).Sublist (served i2cClockTime i2cWait inp n)) :
    ∀ e ∈ l, Trusted e := fun _ he _ ha =>
  served_status (hl.subset (List.mem_filterMap.mpr ⟨_, he, ha⟩))

theorem sublist_fulfilled {es es' : List Access} {log : List (List Symbol)} (h : es.Sublist es')
    (hlog : List.Forall₂ Access.Fulfilled es' log) :
    List.SublistForall₂ Access.Fulfilled es log := by
  induction h generalizing log with
  | slnil => exact .nil
  | cons a _ ih =>
      cases hlog with
      | cons _ hrest => exact .cons_right (ih hrest)
  | cons_cons a _ ih =>
      cases hlog with
      | cons ha hrest => exact .cons ha (ih hrest)

end Bus

/-- A finished run of `i2c_write_array` whose accesses are served by the bridge, among those of
other hosts: every entry is written once, whether it is acknowledged or not. If the devices do not
stretch the clock, each of these accesses has its transaction on the bus. -/
theorem writes_once (i2cClockTime : BitVec 32) (i2cWait : Bool) (inp : Nat → BridgeInput)
    (array : List I2cRegister) {l : List (Event Op Res)}
    (hrun : (i2cWriteArray array).Run l (.done ())) {n : Nat}
    (hserved : (accesses l).Sublist (served i2cClockTime i2cWait inp n)) :
    l = array.flatMap I2cRegister.once ∧
      ((∀ n, (inp n).sclReleased = true) →
        ∃ log, log.flatten <+: (account i2cClockTime i2cWait inp n).symbols ∧
          List.SublistForall₂ Access.Fulfilled (accesses l) log) := by
  constructor
  · have hrely : onBridge.Along onBridge.rely [] l :=
      Contract.along_of_forall fun e he _ => trusted_of_served hserved e he
    obtain ⟨_, hend⟩ := (i2cWriteArray_holds array []).run hrun hrely
    have hafter : onBridge.after [] l = array.flatMap I2cRegister.once := hend
    rwa [after_onBridge] at hafter
  · intro hreleased
    obtain ⟨log, hlog, hsymbols⟩ := served_on_bus hreleased n
    exact ⟨log, hsymbols, sublist_fulfilled hserved hlog⟩

/-- A host that writes `0xF4` of device `0x98` and then reads the status. No device answers. -/
def deafBus (n : Nat) : BridgeInput :=
  ⟨n = 1, n = 200, if n = 1 then 0x98F4 else 0x99F4, 0x80, true, true⟩

theorem deafBus_served : served 1 false deafBus 330 =
    [⟨⟨false, 0x98F4, 0x80⟩, none⟩, ⟨⟨true, 0x99F4, 0⟩, some 0⟩] := by
  decide +kernel

theorem writes_once_deaf :
    ∃ log, log.flatten <+: (account 1 false deafBus 330).symbols ∧
      List.SublistForall₂ Access.Fulfilled
        (accesses (I2cRegister.once ⟨0x98, 0xF4, 0x80⟩)) log := by
  have hrun : (i2cWriteArray [⟨0x98, 0xF4, 0x80⟩]).Run (I2cRegister.once ⟨0x98, 0xF4, 0x80⟩)
      (.done ()) :=
    i2cWriteArray_run_iff.mpr ⟨[[0]], .cons (.accepted (by decide)) .nil, rfl⟩
  have hserved : (accesses (I2cRegister.once ⟨0x98, 0xF4, 0x80⟩)).Sublist
      (served 1 false deafBus 330) := by
    rw [deafBus_served]
    decide
  exact (writes_once 1 false deafBus [⟨0x98, 0xF4, 0x80⟩] hrun hserved).2 fun _ => rfl

end Mfi.Firmware
