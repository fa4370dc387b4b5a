import Mfi.Firmware.Tables

/-!
# I2C transfers of the firmware

`i2c_master.h`. The address of an access to the bridge holds the device and the register. After
a write the firmware reads the status of the bridge, and while it shows an error the write is
done again, a hundred times in all.
-/

namespace Mfi.Firmware

open Core

/-- What the firmware does on its bus: the data, set and clear registers of the port, the bridge,
one word of the shared memory, and the delay of the library. -/
inductive Op where
  | iordPio
  | setBits (mask : BitVec 32)
  | clearBits (mask : BitVec 32)
  | usleep (us : Nat)
  | iord8 (address : BitVec 32)
  | iowr8 (address : BitVec 32) (data : BitVec 8)
  | sysAlpha
  deriving DecidableEq

abbrev Res : Op → Type
  | .iordPio => BitVec 32
  | .iord8 _ => BitVec 8
  | .sysAlpha => BitVec 32
  | _ => Unit

abbrev Program := Prog Op Res

/-! ## The functions -/

def i2cAddress (addr reg : BitVec 8) : BitVec 32 :=
  (addr.setWidth 32 <<< 8 &&& 0xFF00#32) ||| (reg.setWidth 32 &&& 0xFF#32)

def i2cRead (addr reg : BitVec 8) : Program (BitVec 8) := .call (Op.iord8 (i2cAddress addr reg))

def statusAddress (address : BitVec 32) : BitVec 32 := address ||| 1#32 <<< 8

/-- The loop of `i2c_write`. -/
def i2cRetry (address : BitVec 32) (data : BitVec 8) : Nat → Program Unit
  | 0 => pure ()
  | retry + 1 => do
      let _ ← Prog.call (.iowr8 address data)
      let status ← Prog.call (.iord8 (statusAddress address))
      if status &&& 0xFB#8 ≠ 0#8 then i2cRetry address data retry else pure ()

def i2cWrite (addr reg data : BitVec 8) : Program Unit := i2cRetry (i2cAddress addr reg) data 100

def i2cWriteArray : List I2cRegister → Program Unit
  | [] => pure ()
  | r :: array => do
      i2cWrite r.addr r.reg r.value
      i2cWriteArray array

/-! ## The finished runs -/

def attempt (address : BitVec 32) (data status : BitVec 8) : List (Event Op Res) :=
  [⟨.iowr8 address data, ()⟩, ⟨.iord8 (statusAddress address), status⟩]

def Refused (status : BitVec 8) : Prop := status &&& 0xFB#8 ≠ 0#8

instance (status : BitVec 8) : Decidable (Refused status) :=
  inferInstanceAs (Decidable (status &&& 0xFB#8 ≠ 0#8))

theorem i2cRetry_succ (address : BitVec 32) (data : BitVec 8) (retry : Nat) :
    i2cRetry address data (retry + 1) =
      .ask (.iowr8 address data) fun _ => .ask (.iord8 (statusAddress address)) fun status =>
        if Refused status then i2cRetry address data retry else .done () := rfl

/-- The answers that end the loop: as many errors as it has passes, or fewer and then none. -/
inductive Ends : Nat → List (BitVec 8) → Prop where
  | gives_up : Ends 0 []
  | accepted {retry : Nat} {status : BitVec 8} (h : ¬ Refused status) : Ends (retry + 1) [status]
  | refused {retry : Nat} {status : BitVec 8} {answers : List (BitVec 8)} (h : Refused status)
      (rest : Ends retry answers) : Ends (retry + 1) (status :: answers)

theorem i2cRetry_run_iff {address : BitVec 32} {data : BitVec 8} {retry : Nat}
    {l : List (Event Op Res)} : (i2cRetry address data retry).Run l (.done ()) ↔
      ∃ answers, Ends retry answers ∧ l = answers.flatMap (attempt address data) := by
  induction retry generalizing l with
  | zero =>
      constructor
      · intro h
        exact ⟨[], .gives_up, (Prog.run_done_iff.mp h).1⟩
      · rintro ⟨answers, ⟨⟩, rfl⟩
        exact .stop _
  | succ retry ih =>
      rw [i2cRetry_succ, Prog.run_ask_done_iff]
      constructor
      · rintro ⟨_, l', rfl, h⟩
        obtain ⟨status, l'', rfl, hrest⟩ := Prog.run_ask_done_iff.mp h
        by_cases hs : Refused status
        · rw [if_pos hs] at hrest
          obtain ⟨answers, hends, rfl⟩ := ih.mp hrest
          exact ⟨status :: answers, .refused hs hends, rfl⟩
        · rw [if_neg hs] at hrest
          obtain ⟨rfl, _⟩ := Prog.run_done_iff.mp hrest
          exact ⟨[status], .accepted hs, rfl⟩
      · rintro ⟨answers, hends, rfl⟩
        cases hends with
        | accepted hs =>
            refine ⟨(), _, rfl, .answer _ ?_⟩
            rw [if_neg hs]
            exact .stop _
        | refused hs rest =>
            refine ⟨(), _, rfl, .answer _ ?_⟩
            rw [if_pos hs]
            exact ih.mpr ⟨_, rest, rfl⟩

def I2cRegister.events (r : I2cRegister) (answers : List (BitVec 8)) : List (Event Op Res) :=
  answers.flatMap (attempt (i2cAddress r.addr r.reg) r.value)

/-- The finished runs of `i2c_write_array`: the entries in their order, each of them with as many
attempts as its answers say, at least one and at most a hundred. -/
theorem i2cWriteArray_run_iff {array : List I2cRegister} {l : List (Event Op Res)} :
    (i2cWriteArray array).Run l (.done ()) ↔
      ∃ answers, List.Forall₂ (fun _ a => Ends 100 a) array answers ∧
        l = (List.zipWith I2cRegister.events array answers).flatten := by
  induction array generalizing l with
  | nil =>
      constructor
      · intro h
        exact ⟨[], .nil, (Prog.run_done_iff.mp h).1⟩
      · rintro ⟨answers, ⟨⟩, rfl⟩
        exact .stop _
  | cons r array ih =>
      rw [i2cWriteArray, Prog.run_bind_iff]
      constructor
      · rintro ⟨_, l₁, l₂, rfl, hfirst, hrest⟩
        obtain ⟨a, ha, rfl⟩ := i2cRetry_run_iff.mp hfirst
        obtain ⟨answers, hall, rfl⟩ := ih.mp hrest
        exact ⟨a :: answers, .cons ha hall, rfl⟩
      · rintro ⟨answers, hall, rfl⟩
        cases hall with
        | cons ha hrest =>
            exact ⟨(), _, _, rfl, i2cRetry_run_iff.mpr ⟨_, ha, rfl⟩, ih.mpr ⟨_, hrest, rfl⟩⟩

end Mfi.Firmware
