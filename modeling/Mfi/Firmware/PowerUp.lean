import Mfi.Firmware.Main

/-!
# The order of the power-up

Every output is switched on in its turn: the memories after their clocks, the video devices
after the memories, the panel after all of them, and only the panel that is there. The two HDMI
receivers have the same addresses, so they are spoken to one at a time.
-/

namespace Mfi.Firmware

open Core DpHotPlug

/-! ## What is asked of each operation -/

/-- The outputs, the times since one of them was set and since the last write to the bridge, and
what has been read and written since all of them were cleared. -/
structure World where
  outputs : BitVec 32
  slept : Nat
  settled : Nat
  first : Option (BitVec 32)
  seen : BitVec 32
  sent : List (BitVec 32 × BitVec 8)

namespace World

def init : World := ⟨0, 0, 0, none, 0, []⟩

def next (w : World) : Event Op Res → World
  | ⟨.iordPio, data⟩ => { w with first := w.first.or (some data), seen := w.seen ||| data }
  | ⟨.setBits mask, _⟩ => { w with outputs := setBits w.outputs mask, slept := 0 }
  | ⟨.clearBits mask, _⟩ =>
      if mask = 0xFFFFFFFF#32 then .init else { w with outputs := clearBits w.outputs mask }
  | ⟨.usleep us, _⟩ => { w with slept := w.slept + us, settled := w.settled + us }
  | ⟨.iowr8 address data, _⟩ => { w with settled := 0, sent := w.sent ++ [(address, data)] }
  | _ => w

/-- The type of the panel, from the first look at the port. -/
def lcdType (w : World) : Option (BitVec 8) := w.first.map lcdTypeOf

def on (w : World) (i : Nat) : Prop := w.outputs.getLsbD i = true

def any (w : World) (mask : BitVec 32) : Prop := w.outputs &&& mask ≠ 0#32

end World

def commands (array : List I2cRegister) : List (BitVec 32 × BitVec 8) :=
  array.map fun r => (i2cAddress r.addr r.reg, r.value)

/-- The tables up to the HDMI receivers, in the order in which the devices need them. -/
def receiverTables (lcdType : BitVec 8) : List I2cRegister :=
  si5332Registers lcdType ++ tmds171Registers ++ adv7613Registers ++ adv7613Registers

def startTables (lcdType : BitVec 8) : List I2cRegister :=
  receiverTables lcdType ++ adv7181Registers

def panelOutputs : BitVec 32 :=
  gpioDpResetN ||| gpioDpHpd ||| gpioLvdsResetN ||| gpioLvdsLcdScan ||| gpioOut1EnN |||
    gpioOut3EnN ||| gpioLcdBkltEn0 ||| gpioLcdBkltEn1

def videoOutputs : BitVec 32 := panelOutputs ||| gpioAvResetN ||| gpioTmdsResetN

def outputTypes : List (BitVec 32 × List (BitVec 8)) :=
  [(gpioDpResetN ||| gpioDpHpd ||| gpioOut3EnN, [mfd15inchType]),
    (gpioLvdsResetN ||| gpioLvdsLcdScan, [mfd12inchType, mfd10inchType]),
    (gpioOut1EnN, [mfd10inchType]),
    (gpioLcdBkltEn0, [mfd15inchType, mfd12inchType]),
    (gpioLcdBkltEn1, [mfd15inchType, mfd10inchType])]

theorem own_of_none {mask : BitVec 32} {P : BitVec 32 × List (BitVec 8) → Prop}
    (h : mask &&& panelOutputs = 0#32) : ∀ x ∈ outputTypes, mask &&& x.1 ≠ 0#32 → P x := by
  intro x hx hne
  have hpanel : ∀ x ∈ outputTypes, panelOutputs &&& x.1 = x.1 := by decide
  rw [← hpanel x hx, ← BitVec.and_assoc, h, BitVec.zero_and] at hne
  exact absurd rfl hne

def memoriesOn : BitVec 32 :=
  gpioIpResetN ||| (gpioDdrBotGlobalReset ||| gpioDdrTopGlobalReset) |||
    (gpioDdrBotSoftReset ||| gpioDdrTopSoftReset)

def loopOn : BitVec 32 := memoriesOn ||| gpioTmds171Oe ||| gpioAdv7181Reset

def videoOn : BitVec 32 := loopOn ||| gpioAdv7613Reset ||| gpioAdv7613Cs1

/-- The outputs of a mask may be set. A condition on other outputs holds by itself. -/
structure Proper (w : World) (mask : BitVec 32) : Prop where
  select : ((setBits w.outputs mask).getLsbD 8 && (setBits w.outputs mask).getLsbD 9) = false
  memories : mask &&& (gpioDdrBotGlobalReset ||| gpioDdrTopGlobalReset) ≠ 0#32 →
    w.on 21 ∧ 800000 ≤ w.slept ∧ 400000 ≤ w.settled ∧
      w.seen &&& gpioDdrBotLocked ≠ 0#32 ∧ w.seen &&& gpioDdrTopLocked ≠ 0#32 ∧
      ∃ lcdType, w.lcdType = some lcdType ∧
        (commands (si5332Registers lcdType)).Sublist w.sent := by exact absurd (by decide)
  softReset : mask &&& (gpioDdrBotSoftReset ||| gpioDdrTopSoftReset) ≠ 0#32 →
    w.on 23 ∧ w.on 24 ∧ 400000 ≤ w.slept := by exact absurd (by decide)
  retimer : mask &&& gpioTmds171Oe ≠ 0#32 →
    w.on 25 ∧ w.on 26 ∧ 200000 ≤ w.slept := by exact absurd (by decide)
  receivers : mask &&& gpioAdv7613Reset ≠ 0#32 →
    w.on 10 ∧ 10000 ≤ w.slept := by exact absurd (by decide)
  decoder : mask &&& gpioAdv7181Reset ≠ 0#32 →
    w.on 7 ∧ w.on 10 ∧ ∃ lcdType, w.lcdType = some lcdType ∧
      (commands (receiverTables lcdType)).Sublist w.sent := by exact absurd (by decide)
  video : mask &&& videoOutputs ≠ 0#32 →
    w.on 6 ∧ w.on 10 ∧ w.on 25 ∧ w.on 26 ∧ ∃ lcdType, w.lcdType = some lcdType ∧
      (commands (startTables lcdType)).Sublist w.sent := by exact absurd (by decide)
  own : ∀ x ∈ outputTypes, mask &&& x.1 ≠ 0#32 → ∃ lcdType ∈ x.2, w.lcdType = some lcdType := by
    exact own_of_none (by decide)

def deviceOf (address : BitVec 32) : BitVec 7 := address.extractLsb' 9 7

def adv7613Maps : List (BitVec 7) := [0x4C, 0x34, 0x36, 0x22, 0x32, 0x60, 0x40]

/-- An access to an HDMI receiver finds one of them selected. -/
def Selected (w : World) (address : BitVec 32) : Prop :=
  deviceOf address ∈ adv7613Maps → w.outputs.getLsbD 8 ≠ w.outputs.getLsbD 9

def Allowed (w : World) : Event Op Res → Prop
  | ⟨.setBits mask, _⟩ => Proper w mask
  | ⟨.clearBits mask, _⟩ => mask = 0xFFFFFFFF#32 ∨ mask &&& loopOn = 0#32
  | ⟨.iord8 address, _⟩ => Selected w address
  | ⟨.iowr8 address _, _⟩ => Selected w address
  | _ => True

/-- The contract of the firmware. Nothing is asked of the hardware. -/
def sequenced : Contract Op Res World where
  next := World.next
  rely _ _ := True
  ensure := Allowed

/-! ## The state between two operations -/

/-- The outputs of the mask `keep` are those of `val`, at least `t` microseconds have gone by, and
the registers of a list have been written. -/
structure Stands (keep val : BitVec 32) (t : Nat) (lcdType : Option (BitVec 8))
    (regs : List I2cRegister) (w : World) : Prop where
  outputs : w.outputs &&& keep = val
  slept : t ≤ w.slept
  lcdType : w.lcdType = lcdType
  sent : (commands regs).Sublist w.sent

namespace Stands

variable {keep val val' : BitVec 32} {t : Nat} {lcdType : Option (BitVec 8)}
  {regs : List I2cRegister} {w : World}

theorem bit (h : Stands keep val t lcdType regs w) {i : Nat} (hi : keep.getLsbD i = true) :
    w.outputs.getLsbD i = val.getLsbD i := by
  rw [← h.outputs, BitVec.getLsbD_and, hi, Bool.and_true]

theorem on (h : Stands keep val t lcdType regs w) {i : Nat} (hi : keep.getLsbD i = true)
    (hval : val.getLsbD i = true) : w.on i := (h.bit hi).trans hval

def Then (keep val : BitVec 32) (t : Nat) (lcdType : Option (BitVec 8))
    (regs : List I2cRegister) {α : Type} (_ : α) (w : World) : Prop :=
  Stands keep val t lcdType regs w

theorem clearAll (w : World) :
    sequenced.Holds (gpioClear 0xFFFFFFFF#32) w
      (Then 0xFFFFFFFF#32 0#32 0 none []) := by
  rintro ⟨⟩ _
  have hnext : sequenced.next w ⟨.clearBits 0xFFFFFFFF#32, ()⟩ = .init := by
    simp [sequenced, World.next]
  refine ⟨.inl rfl, ?_⟩
  rw [hnext]
  exact ⟨by decide, Nat.le_refl 0, rfl, List.nil_sublist _⟩

theorem clear (h : Stands keep val t lcdType regs w) {mask : BitVec 32}
    (hmask : mask &&& loopOn = 0#32) (hval : val &&& ~~~mask = val') :
    sequenced.Holds (gpioClear mask) w (Then keep val' t lcdType regs) := by
  rintro ⟨⟩ _
  have hnext : sequenced.next w ⟨.clearBits mask, ()⟩ =
      { w with outputs := clearBits w.outputs mask } := by
    refine if_neg ?_
    rintro rfl
    exact absurd hmask (by decide)
  refine ⟨.inr hmask, ?_⟩
  rw [hnext]
  refine ⟨?_, h.slept, h.lcdType, h.sent⟩
  rw [← hval, ← h.outputs]
  show (w.outputs &&& ~~~mask) &&& keep = (w.outputs &&& keep) &&& ~~~mask
  rw [BitVec.and_assoc, BitVec.and_assoc, BitVec.and_comm keep]

theorem set (h : Stands keep val t lcdType regs w) {mask : BitVec 32} (hproper : Proper w mask)
    (hval : val ||| (mask &&& keep) = val') :
    sequenced.Holds (gpioSet mask) w (Then keep val' 0 lcdType regs) := by
  rintro ⟨⟩ _
  refine ⟨hproper, ?_, Nat.le_refl 0, h.lcdType, h.sent⟩
  rw [← hval, ← h.outputs]
  ext i hi
  simp only [sequenced, World.next, setBits, BitVec.getElem_and, BitVec.getElem_or]
  cases w.outputs[i] <;> cases mask[i] <;> cases keep[i] <;> rfl

theorem sleep (h : Stands keep val t lcdType regs w) (us : Nat) :
    sequenced.Holds (usleep us) w (Then keep val (t + us) lcdType regs) := by
  rintro ⟨⟩ _
  exact ⟨trivial, h.outputs, Nat.add_le_add_right h.slept us, h.lcdType, h.sent⟩

theorem settle (h : Stands keep val t lcdType regs w) (us : Nat) :
    sequenced.Holds (usleep us) w fun _ w' =>
      Stands keep val (t + us) lcdType regs w' ∧ us ≤ w'.settled := by
  rintro ⟨⟩ _
  refine ⟨trivial, ⟨h.outputs, Nat.add_le_add_right h.slept us, h.lcdType, h.sent⟩, ?_⟩
  exact Nat.le_add_left us w.settled

theorem look (h : Stands keep val t none regs w) :
    sequenced.Holds (.call .iordPio) w
      fun data => Stands keep val t (some (lcdTypeOf data)) regs := by
  intro data _
  refine ⟨trivial, h.outputs, h.slept, ?_, h.sent⟩
  have hnone : w.first = none := Option.map_eq_none_iff.mp h.lcdType
  show (w.first.or (some data)).map lcdTypeOf = some (lcdTypeOf data)
  rw [hnone]
  rfl

theorem and_or_ne_zero {x y mask : BitVec 32} (h : x &&& mask ≠ 0#32 ∨ y &&& mask ≠ 0#32) :
    (x ||| y) &&& mask ≠ 0#32 := by
  intro hzero
  have hboth : (x &&& mask) ||| (y &&& mask) = 0#32 := by
    rw [← hzero, BitVec.and_or_distrib_right]
  obtain ⟨hx, hy⟩ := BitVec.or_eq_zero_iff.mp hboth
  exact h.elim (absurd hx) (absurd hy)

theorem read {ty : BitVec 8} (h : Stands keep val t (some ty) regs w) (data : BitVec 32) :
    Stands keep val t (some ty) regs (w.next ⟨.iordPio, data⟩) := by
  obtain ⟨d, hd, _⟩ := Option.map_eq_some_iff.mp h.lcdType
  refine ⟨h.outputs, h.slept, ?_, h.sent⟩
  rw [← h.lcdType]
  show (w.first.or (some data)).map lcdTypeOf = w.first.map lcdTypeOf
  rw [hd]
  rfl

theorem test {ty : BitVec 8} (h : Stands keep val t (some ty) regs w)
    (masks : List (BitVec 32)) :
    sequenced.Holds (allSet masks) w fun well w' => Stands keep val t (some ty) regs w' ∧
      w'.settled = w.settled ∧ (∀ mask, w.seen &&& mask ≠ 0#32 → w'.seen &&& mask ≠ 0#32) ∧
      (well = true → ∀ mask ∈ masks, w'.seen &&& mask ≠ 0#32) := by
  induction masks generalizing w with
  | nil => exact ⟨h, rfl, fun _ hm => hm, fun _ _ hmask => absurd hmask List.not_mem_nil⟩
  | cons mask masks ih =>
      intro data _
      refine ⟨trivial, ?_⟩
      show sequenced.Holds (if data &&& mask ≠ 0#32 then allSet masks else .done false)
        (w.next ⟨.iordPio, data⟩) _
      by_cases hdata : data &&& mask ≠ 0#32
      · rw [if_pos hdata]
        refine (ih (h.read data)).mono ?_
        rintro well w' ⟨hstands, hsettled, hmore, hwell⟩
        refine ⟨hstands, hsettled, fun m hm => hmore m (and_or_ne_zero (.inl hm)),
          fun htrue m hm => ?_⟩
        rcases List.mem_cons.mp hm with rfl | hm
        · exact hmore m (and_or_ne_zero (.inr hdata))
        · exact hwell htrue m hm
      · rw [if_neg hdata]
        exact ⟨h.read data, rfl, fun m hm => and_or_ne_zero (.inl hm), fun hfalse =>
          absurd hfalse Bool.false_ne_true⟩

/-! ### Accesses to the bridge -/

theorem deviceOf_status (address : BitVec 32) :
    deviceOf (statusAddress address) = deviceOf address := by
  ext i hi
  have hne : (1#32 <<< 8).getLsbD (9 + i) = false := by
    simp only [BitVec.getLsbD_shiftLeft, BitVec.getLsbD_one]
    have hsub : 9 + i - 8 ≠ 0 := by omega
    simp [hsub]
  simp only [deviceOf, statusAddress, BitVec.getElem_extractLsb', BitVec.getLsbD_or, hne,
    Bool.or_false]

theorem retry {address : BitVec 32} (hsel : Selected w address) (data : BitVec 8) (n : Nat) :
    sequenced.Holds (i2cRetry address data n) w fun _ w' => ∃ k settled, (0 < n → 0 < k) ∧
      w' = { w with
        settled := settled, sent := w.sent ++ List.replicate k (address, data) } := by
  induction n generalizing w with
  | zero => exact ⟨0, w.settled, nofun, by simp⟩
  | succ n ih =>
      rw [i2cRetry_succ]
      rintro ⟨⟩ _
      refine ⟨hsel, fun status _ => ⟨?_, ?_⟩⟩
      · show Selected _ (statusAddress address)
        unfold Selected
        rw [deviceOf_status]
        exact hsel
      · show sequenced.Holds
          (if Refused status then i2cRetry address data n else .done ())
          { w with settled := 0, sent := w.sent ++ [(address, data)] } _
        by_cases hs : Refused status
        · rw [if_pos hs]
          refine (@ih { w with settled := 0, sent := w.sent ++ [(address, data)] } hsel).mono ?_
          rintro ⟨⟩ w' ⟨k, settled, _, rfl⟩
          refine ⟨k + 1, settled, fun _ => Nat.succ_pos k, ?_⟩
          rw [List.replicate_succ]
          simp
        · rw [if_neg hs]
          exact ⟨1, 0, fun _ => Nat.one_pos, rfl⟩

theorem selected (h : Stands keep val t lcdType regs w)
    (hkeep : keep.getLsbD 8 = true ∧ keep.getLsbD 9 = true) {address : BitVec 32}
    (hval : deviceOf address ∈ adv7613Maps → val.getLsbD 8 ≠ val.getLsbD 9) :
    Selected w address := by
  intro hmem
  rw [h.bit hkeep.1, h.bit hkeep.2]
  exact hval hmem

theorem readRegister (h : Stands keep val t lcdType regs w)
    (hkeep : keep.getLsbD 8 = true ∧ keep.getLsbD 9 = true) {addr reg : BitVec 8}
    (hval : deviceOf (i2cAddress addr reg) ∈ adv7613Maps → val.getLsbD 8 ≠ val.getLsbD 9) :
    sequenced.Holds (i2cRead addr reg) w (Then keep val t lcdType regs) := by
  intro data _
  exact ⟨h.selected hkeep hval, h.outputs, h.slept, h.lcdType, h.sent⟩

theorem write (h : Stands keep val t lcdType regs w)
    (hkeep : keep.getLsbD 8 = true ∧ keep.getLsbD 9 = true) {r : I2cRegister}
    (hval : deviceOf (i2cAddress r.addr r.reg) ∈ adv7613Maps →
      val.getLsbD 8 ≠ val.getLsbD 9) :
    sequenced.Holds (i2cWrite r.addr r.reg r.value) w
      (Then keep val t lcdType (regs ++ [r])) := by
  refine (retry (h.selected hkeep hval) r.value 100).mono ?_
  rintro ⟨⟩ w' ⟨k, settled, hk, rfl⟩
  refine ⟨h.outputs, h.slept, h.lcdType, ?_⟩
  obtain ⟨j, rfl⟩ := Nat.exists_eq_succ_of_ne_zero (Nat.pos_iff_ne_zero.mp (hk (by decide)))
  rw [commands, List.map_append, List.replicate_succ]
  exact h.sent.append ((List.nil_sublist _).cons_cons _)

theorem writeArray (h : Stands keep val t lcdType regs w)
    (hkeep : keep.getLsbD 8 = true ∧ keep.getLsbD 9 = true) {array : List I2cRegister}
    (hval : ∀ r ∈ array, deviceOf (i2cAddress r.addr r.reg) ∈ adv7613Maps →
      val.getLsbD 8 ≠ val.getLsbD 9) :
    sequenced.Holds (i2cWriteArray array) w (Then keep val t lcdType (regs ++ array)) := by
  induction array generalizing w regs with
  | nil =>
      show Stands keep val t lcdType (regs ++ []) w
      rwa [List.append_nil]
  | cons r array ih =>
      refine (h.write hkeep (hval r List.mem_cons_self)).bind fun _ w' h' => ?_
      have hrest := ih h' fun r' hr' => hval r' (List.mem_cons_of_mem r hr')
      rwa [List.append_assoc] at hrest

theorem weaken (h : Stands keep val t lcdType regs w) {keep' : BitVec 32} {t' : Nat}
    {regs' : List I2cRegister} (hkeep : keep &&& keep' = keep') (hval : val &&& keep' = val')
    (ht : t' ≤ t) (hregs : regs'.Sublist regs) : Stands keep' val' t' lcdType regs' w := by
  refine ⟨?_, Nat.le_trans ht h.slept, h.lcdType, (hregs.map _).trans h.sent⟩
  rw [← hval, ← h.outputs, BitVec.and_assoc, hkeep]

end Stands

/-! ## Parts -/

def guarded : BitVec 32 :=
  gpioDdrBotGlobalReset ||| gpioDdrTopGlobalReset ||| gpioDdrBotSoftReset |||
    gpioDdrTopSoftReset ||| gpioTmds171Oe ||| gpioAdv7613Reset ||| gpioAdv7181Reset |||
    videoOutputs

theorem and_eq_zero_of_sub {mask x : BitVec 32} (h : mask &&& guarded = 0#32)
    (hx : guarded &&& x = x) : mask &&& x = 0#32 := by
  rw [← hx, ← BitVec.and_assoc, h, BitVec.zero_and]

theorem Proper.of_unguarded {w : World} {mask : BitVec 32} (h : mask &&& guarded = 0#32)
    (hselect : ((setBits w.outputs mask).getLsbD 8 && (setBits w.outputs mask).getLsbD 9) = false) :
    Proper w mask where
  select := hselect
  memories := absurd (and_eq_zero_of_sub h (by decide))
  softReset := absurd (and_eq_zero_of_sub h (by decide))
  retimer := absurd (and_eq_zero_of_sub h (by decide))
  receivers := absurd (and_eq_zero_of_sub h (by decide))
  decoder := absurd (and_eq_zero_of_sub h (by decide))
  video := absurd (and_eq_zero_of_sub h (by decide))
  own := own_of_none (and_eq_zero_of_sub h (by decide))

namespace Stands

variable {keep val val' : BitVec 32} {t t' : Nat} {lcdType : Option (BitVec 8)}
  {regs regs' : List I2cRegister} {w : World} {mask : BitVec 32}

theorem select (h : Stands keep val t lcdType regs w)
    (hkeep : keep.getLsbD 8 = true ∧ keep.getLsbD 9 = true)
    (hval : ((setBits val mask).getLsbD 8 && (setBits val mask).getLsbD 9) = false) :
    ((setBits w.outputs mask).getLsbD 8 && (setBits w.outputs mask).getLsbD 9) = false := by
  unfold setBits at hval ⊢
  rw [BitVec.getLsbD_or, BitVec.getLsbD_or] at hval ⊢
  rw [h.bit hkeep.1, h.bit hkeep.2]
  exact hval

/-- The rule for outputs that do not wait for others. -/
theorem setFree (h : Stands keep val t lcdType regs w)
    (hkeep : keep.getLsbD 8 = true ∧ keep.getLsbD 9 = true) (hmask : mask &&& guarded = 0#32)
    (hselect : ((setBits val mask).getLsbD 8 && (setBits val mask).getLsbD 9) = false)
    (hval : val ||| (mask &&& keep) = val') :
    sequenced.Holds (gpioSet mask) w (Then keep val' 0 lcdType regs) :=
  h.set (.of_unguarded hmask (h.select hkeep hselect)) hval

theorem select_access (h : Stands keep val t lcdType regs w)
    (hkeep : keep.getLsbD 8 = true ∧ keep.getLsbD 9 = true) (hmask : mask &&& guarded = 0#32)
    (hselect : ((setBits val mask).getLsbD 8 && (setBits val mask).getLsbD 9) = false)
    (hstay : mask &&& loopOn = 0#32) (hval : val ||| (mask &&& keep) = val')
    (hback : val' &&& ~~~mask = val) {p : Program Unit}
    (hp : ∀ w', Stands keep val' 0 lcdType regs w' →
      sequenced.Holds p w' (Then keep val' t' lcdType regs')) :
    sequenced.Holds (withSelect mask p) w (Then keep val t' lcdType regs') := by
  refine (h.setFree hkeep hmask hselect hval).bind fun _ w h => ?_
  exact (hp w h).bind fun _ w h => h.clear hstay hback

end Stands

/-! ## The start -/

theorem no_receiver_in_si5332 (ty : BitVec 8) : ∀ r ∈ si5332Registers ty,
    deviceOf (i2cAddress r.addr r.reg) ∉ adv7613Maps := by
  unfold si5332Registers
  split
  · decide
  · split
    · decide
    · decide

theorem startClocks_holds (w : World) :
    sequenced.Holds startClocks w fun ty w' =>
      Stands 0xFFFFFFFF#32 gpioIpResetN 800000 (some ty) (si5332Registers ty) w' ∧
        400000 ≤ w'.settled := by
  refine (Stands.clearAll w).bind fun _ w h => ?_
  refine (h.sleep 10000).bind fun _ w h => ?_
  refine (h.setFree ⟨rfl, rfl⟩ (by decide) (by decide) rfl).bind fun _ w h => ?_
  refine (h.sleep 400000).bind fun _ w h => ?_
  refine h.look.bind fun data w h => ?_
  refine (h.writeArray ⟨rfl, rfl⟩ ?_).bind fun _ w h => ?_
  · exact fun r hr hmem => absurd hmem (no_receiver_in_si5332 _ r hr)
  refine (h.settle 400000).bind fun _ w ⟨h, hsettled⟩ => ?_
  exact ⟨h.weaken rfl (by decide) (by decide) (List.Sublist.refl _), hsettled⟩

section Start

variable {ty : BitVec 8} {w : World}

theorem startMemories_holds
    (h : Stands 0xFFFFFFFF#32 gpioIpResetN 800000 (some ty) (si5332Registers ty) w)
    (hsettled : 400000 ≤ w.settled) (hbot : w.seen &&& gpioDdrBotLocked ≠ 0#32)
    (htop : w.seen &&& gpioDdrTopLocked ≠ 0#32) :
    sequenced.Holds startMemories w
      (Stands.Then 0xFFFFFFFF#32 memoriesOn 200000 (some ty) (si5332Registers ty)) := by
  refine (h.set ?_ rfl).bind fun _ w h => ?_
  · exact {
      select := h.select ⟨rfl, rfl⟩ (by decide)
      memories := fun _ =>
        ⟨h.on rfl (by decide), h.slept, hsettled, hbot, htop, ty, h.lcdType, h.sent⟩ }
  refine (h.sleep 400000).bind fun _ w h => ?_
  refine (h.set ?_ rfl).bind fun _ w h => ?_
  · exact {
      select := h.select ⟨rfl, rfl⟩ (by decide)
      softReset := fun _ =>
        ⟨h.on rfl (by decide), h.on rfl (by decide), by simpa using h.slept⟩ }
  refine (h.sleep 200000).bind fun _ w h => ?_
  refine (h.test _).bind fun _ w h => ?_
  exact h.1.weaken rfl (by decide) (by decide) (List.Sublist.refl _)

theorem startVideo_holds
    (h : Stands 0xFFFFFFFF#32 memoriesOn 200000 (some ty) (si5332Registers ty) w) :
    sequenced.Holds startVideo w
      (Stands.Then 0xFFFFFFFF#32 videoOn 0 (some ty) (startTables ty)) := by
  have hwrite : ∀ {val : BitVec 32} {regs : List I2cRegister} {w : World},
      val.getLsbD 8 ≠ val.getLsbD 9 → Stands 0xFFFFFFFF#32 val 0 (some ty) regs w →
      sequenced.Holds (do usleep 200000; i2cWriteArray adv7613Registers) w
        (Stands.Then 0xFFFFFFFF#32 val 200000 (some ty) (regs ++ adv7613Registers)) := by
    intro val regs w hval h
    refine (h.sleep 200000).bind fun _ w h => ?_
    refine (h.writeArray ⟨rfl, rfl⟩ fun _ _ _ => hval).mono fun _ w h => ?_
    rwa [Nat.zero_add] at h
  refine (h.set ?_ rfl).bind fun _ w h => ?_
  · exact {
      select := h.select ⟨rfl, rfl⟩ (by decide)
      retimer := fun _ => ⟨h.on rfl (by decide), h.on rfl (by decide), h.slept⟩ }
  refine (h.sleep 100000).bind fun _ w h => ?_
  refine (h.writeArray ⟨rfl, rfl⟩ (by decide)).bind fun _ w h => ?_
  refine (h.set ?_ rfl).bind fun _ w h => ?_
  · exact {
      select := h.select ⟨rfl, rfl⟩ (by decide)
      receivers := fun _ => ⟨h.on rfl (by decide), Nat.le_trans (by decide) h.slept⟩ }
  refine (h.sleep 200000).bind fun _ w h => ?_
  refine (h.select_access ⟨rfl, rfl⟩ (by decide) (by decide) (by decide) rfl (by decide)
    fun w h => hwrite (by decide) h).bind fun _ w h => ?_
  refine (h.select_access ⟨rfl, rfl⟩ (by decide) (by decide) (by decide) rfl (by decide)
    fun w h => hwrite (by decide) h).bind fun _ w h => ?_
  refine (h.set ?_ rfl).bind fun _ w h => ?_
  · exact {
      select := h.select ⟨rfl, rfl⟩ (by decide)
      decoder := fun _ => ⟨h.on rfl (by decide), h.on rfl (by decide), ty, h.lcdType, h.sent⟩ }
  refine (h.sleep 200000).bind fun _ w h => ?_
  refine (h.setFree ⟨rfl, rfl⟩ (by decide) (by decide) rfl).bind fun _ w h => ?_
  refine (h.sleep 200000).bind fun _ w h => ?_
  refine (h.readRegister ⟨rfl, rfl⟩ fun _ => by decide).bind fun _ w h => ?_
  refine (h.writeArray ⟨rfl, rfl⟩ fun _ _ _ => by decide).mono fun _ w h => ?_
  exact h.weaken rfl (by decide) (by decide) (List.Sublist.refl _)

end Start

/-! ## The loop -/

/-- The outputs that the loop relies on, of which the selects change. -/
def loopKeep : BitVec 32 :=
  memoriesOn ||| gpioTmds171Oe ||| gpioAdv7181Reset ||| gpioAdv7613Cs0 ||| gpioAdv7613Cs1

def Live (val : BitVec 32) (ty : BitVec 8) (w : World) : Prop :=
  (val = loopOn ∨ val = loopOn ||| gpioAdv7613Cs1) ∧
    Stands loopKeep val 0 (some ty) (startTables ty) w

namespace Live

variable {val : BitVec 32} {ty : BitVec 8} {w : World} {mask : BitVec 32}

theorem on (h : Live val ty w) {i : Nat} (hi : loopOn.getLsbD i = true) : w.on i := by
  have hval : val &&& loopOn = loopOn := by
    rcases h.1 with rfl | rfl
    · decide
    · decide
  have hon : Stands loopOn loopOn 0 (some ty) (startTables ty) w :=
    h.2.weaken (by decide) hval (Nat.le_refl 0) (List.Sublist.refl _)
  exact hon.on hi hi

theorem keeps (h : Live val ty w) : val &&& loopKeep = val := by
  rw [← h.2.outputs, BitVec.and_assoc, BitVec.and_self]

theorem sleep (h : Live val ty w) (us : Nat) :
    sequenced.Holds (usleep us) w fun _ => Live val ty :=
  (h.2.sleep us).mono fun _ _ hs =>
    ⟨h.1, hs.weaken (BitVec.and_self) h.keeps (Nat.zero_le _) (List.Sublist.refl _)⟩

theorem one_select (h : Live val ty w) (hmask : mask &&& loopKeep = 0#32) :
    ((setBits w.outputs mask).getLsbD 8 && (setBits w.outputs mask).getLsbD 9) = false := by
  have h8 := congrArg (fun x => x.getLsbD 8) hmask
  have h9 := congrArg (fun x => x.getLsbD 9) hmask
  have hkeep : loopKeep.getLsbD 8 = true ∧ loopKeep.getLsbD 9 = true := ⟨rfl, rfl⟩
  simp only [BitVec.getLsbD_and, hkeep.1, hkeep.2, Bool.and_true, BitVec.getLsbD_zero] at h8 h9
  refine h.2.select hkeep ?_
  unfold setBits
  rw [BitVec.getLsbD_or, BitVec.getLsbD_or, h8, h9]
  rcases h.1 with rfl | rfl
  · decide
  · decide

theorem set (h : Live val ty w) (hmask : mask &&& loopKeep = 0#32) (hproper : Proper w mask) :
    sequenced.Holds (gpioSet mask) w fun _ => Live val ty := by
  refine (h.2.set hproper ?_).mono fun _ w' hs => ⟨h.1, hs⟩
  rw [hmask, BitVec.or_zero]

theorem setFree (h : Live val ty w) (hmask : mask &&& loopKeep = 0#32)
    (hfree : mask &&& guarded = 0#32) :
    sequenced.Holds (gpioSet mask) w fun _ => Live val ty :=
  h.set hmask (.of_unguarded hfree (h.one_select hmask))

theorem setVideo (h : Live val ty w) (hmask : mask &&& (videoOutputs ||| gpioImx6Alpha) = mask)
    (hown : ∀ x ∈ outputTypes, mask &&& x.1 ≠ 0#32 → ty ∈ x.2) :
    sequenced.Holds (gpioSet mask) w fun _ => Live val ty := by
  have hnone : ∀ {x : BitVec 32}, (videoOutputs ||| gpioImx6Alpha) &&& x = 0#32 →
      mask &&& x = 0#32 := by
    intro x hx
    rw [← hmask, BitVec.and_assoc, hx, BitVec.and_zero]
  refine h.set (hnone (by decide)) ?_
  exact {
    select := h.one_select (hnone (by decide))
    memories := absurd (hnone (by decide))
    softReset := absurd (hnone (by decide))
    retimer := absurd (hnone (by decide))
    receivers := absurd (hnone (by decide))
    decoder := absurd (hnone (by decide))
    video := fun _ => ⟨h.on (by decide), h.on (by decide), h.on (by decide), h.on (by decide), ty,
      h.2.lcdType, h.2.sent⟩
    own := fun x hx hne => ⟨ty, hown x hx hne, h.2.lcdType⟩ }

theorem and_not_eq_self {x keep mask : BitVec 32} (hx : x &&& keep = x)
    (hmask : mask &&& keep = 0#32) : x &&& ~~~mask = x := by
  ext i hi
  have hxi := congrArg (fun y => y[i]) hx
  have hmi := congrArg (fun y => y[i]) hmask
  simp only [BitVec.getElem_and, BitVec.getElem_zero, BitVec.getElem_not] at hxi hmi ⊢
  cases hx' : x[i] with
  | false => rfl
  | true =>
      rw [hx', Bool.true_and] at hxi
      rw [hxi, Bool.and_true] at hmi
      rw [hmi]
      rfl

theorem clear (h : Live val ty w) (hmask : mask &&& loopKeep = 0#32) :
    sequenced.Holds (gpioClear mask) w fun _ => Live val ty := by
  have hstay : mask &&& loopOn = 0#32 := by
    rw [show loopOn = loopKeep &&& loopOn by decide, ← BitVec.and_assoc, hmask, BitVec.zero_and]
  exact (h.2.clear hstay (and_not_eq_self h.keeps hmask)).mono fun _ w' hs => ⟨h.1, hs⟩

end Live

section Loop

variable {val : BitVec 32} {ty : BitVec 8} {w : World}

theorem startPanel_holds (h : Live val ty w) :
    sequenced.Holds (startPanel ty) w fun _ => Live val ty := by
  have hrelease : sequenced.Holds (releasePanel ty) w fun _ => Live val ty := by
    unfold releasePanel
    by_cases h15 : ty = mfd15inchType
    · rw [if_pos h15]
      exact h.setVideo (by decide) (h15 ▸ by decide)
    · rw [if_neg h15]
      by_cases hlvds : ty = mfd12inchType ∨ ty = mfd10inchType
      · rw [if_pos hlvds]
        refine h.setVideo (by decide) ?_
        rcases hlvds with rfl | rfl
        · decide
        · decide
      · rw [if_neg hlvds]
        exact h
  refine hrelease.bind fun _ w h => ?_
  refine (h.setVideo (by decide) (own_of_none (by decide))).bind fun _ w h => ?_
  unfold lightPanel
  by_cases h15 : ty = mfd15inchType
  · rw [if_pos h15]
    exact h.setVideo (by decide) (h15 ▸ by decide)
  · rw [if_neg h15]
    by_cases h12 : ty = mfd12inchType
    · rw [if_pos h12]
      exact h.setVideo (by decide) (h12 ▸ by decide)
    · rw [if_neg h12]
      by_cases h10 : ty = mfd10inchType
      · rw [if_pos h10]
        exact h.setVideo (by decide) (h10 ▸ by decide)
      · rw [if_neg h10]
        exact h

theorem copyAlpha_holds (h : Live val ty w) :
    sequenced.Holds copyAlpha w fun _ => Live val ty := by
  intro alpha _
  refine ⟨trivial, ?_⟩
  show sequenced.Holds
    (if alpha &&& 0x01#32 ≠ 0#32 then gpioClear gpioImx6Alpha else gpioSet gpioImx6Alpha) w _
  by_cases ha : alpha &&& 0x01#32 ≠ 0#32
  · rw [if_pos ha]
    exact h.clear (by decide)
  · rw [if_neg ha]
    exact h.setFree (by decide) (by decide)

theorem heartBeat_holds {v : Vars} (h : Live val v.lcdType w) :
    sequenced.Holds (heartBeat v) w fun v' w' =>
      v'.lcdType = v.lcdType ∧ Live val v.lcdType w' := by
  unfold heartBeat
  generalize (if v.heart.toNat < 1 then v.heart + 1 else 0#8) = heart
  by_cases hh : heart = 0#8
  · rw [if_pos hh]
    have hbeat : sequenced.Holds (showHeart (~~~v.heartBit)) w fun _ => Live val v.lcdType := by
      unfold showHeart
      by_cases hbit : ~~~v.heartBit ≠ 0#8
      · rw [if_pos hbit]
        exact h.setFree (by decide) (by decide)
      · rw [if_neg hbit]
        exact h.clear (by decide)
    refine hbeat.bind fun _ w h => ?_
    exact ⟨rfl, h⟩
  · rw [if_neg hh]
    exact ⟨rfl, h⟩

theorem readMaps_holds (hval : val.getLsbD 8 ≠ val.getLsbD 9)
    (h : Stands loopKeep val 0 (some ty) (startTables ty) w) (is : List Nat) :
    sequenced.Holds (readMaps is) w
      (Stands.Then loopKeep val 0 (some ty) (startTables ty)) := by
  induction is generalizing w with
  | nil => exact h
  | cons i is ih =>
      refine (h.readRegister ⟨rfl, rfl⟩ fun _ => hval).bind fun _ w h => ?_
      refine (h.readRegister ⟨rfl, rfl⟩ fun _ => hval).bind fun _ w h => ?_
      refine (h.readRegister ⟨rfl, rfl⟩ fun _ => hval).bind fun _ w h => ?_
      refine (ih h).bind fun _ w h => ?_
      exact h

/-- No receiver is selected after a look at one of them. -/
theorem getAdvInfo_holds (h : Live val ty w) (cs : BitVec 8) :
    sequenced.Holds (getAdvInfo cs) w fun _ => Live loopOn ty := by
  have hoff : val &&& ~~~(gpioAdv7613Cs1 ||| gpioAdv7613Cs0) = loopOn := by
    rcases h.1 with rfl | rfl
    · decide
    · decide
  refine (h.2.clear (by decide) hoff).bind fun _ w h => ?_
  by_cases hcs : cs = 1
  · rw [if_pos hcs]
    refine (h.setFree ⟨rfl, rfl⟩ (by decide) (by decide) rfl).bind fun _ w h => ?_
    refine (readMaps_holds (by decide) h _).bind fun _ w h => ?_
    refine (h.clear (by decide) (show _ = loopOn by decide)).bind fun _ w h => ?_
    exact ⟨.inl rfl, h⟩
  · rw [if_neg hcs]
    refine (h.setFree ⟨rfl, rfl⟩ (by decide) (by decide) rfl).bind fun _ w h => ?_
    refine (readMaps_holds (by decide) h _).bind fun _ w h => ?_
    refine (h.clear (by decide) (show _ = loopOn by decide)).bind fun _ w h => ?_
    exact ⟨.inl rfl, h⟩

theorem resetFlash_holds (h : Live loopOn ty w) :
    sequenced.Holds resetFlashAdv7613 w fun _ => Live loopOn ty := by
  refine (h.clear (by decide)).bind fun _ w h => ?_
  refine (h.2.sleep 10000).bind fun _ w h => ?_
  refine (h.set ?_ rfl).bind fun _ w h => ?_
  · exact {
      select := h.select ⟨rfl, rfl⟩ (by decide)
      receivers := fun _ => ⟨h.on rfl (by decide), by simpa using h.slept⟩ }
  refine (h.sleep 10000).bind fun _ w h => ?_
  refine (h.select_access ⟨rfl, rfl⟩ (by decide) (by decide) (by decide) rfl (by decide)
    fun w h => h.write ⟨rfl, rfl⟩ (r := ⟨0x98, 0xFF, 0x80⟩) fun _ => by decide).bind fun _ w h => ?_
  refine (h.select_access ⟨rfl, rfl⟩ (by decide) (by decide) (by decide) rfl (by decide)
    fun w h => h.write ⟨rfl, rfl⟩ (r := ⟨0x98, 0xFF, 0x80⟩) fun _ => by decide).bind fun _ w h => ?_
  refine (h.sleep 10000).bind fun _ w h => ?_
  refine (h.select_access ⟨rfl, rfl⟩ (by decide) (by decide) (by decide) rfl (by decide)
    fun w h => h.writeArray ⟨rfl, rfl⟩ fun _ _ _ => by decide).bind fun _ w h => ?_
  refine (h.select_access ⟨rfl, rfl⟩ (by decide) (by decide) (by decide) rfl (by decide)
    fun w h => h.writeArray ⟨rfl, rfl⟩ fun _ _ _ => by decide).mono fun _ w h => ?_
  exact ⟨.inl rfl, h.weaken rfl (by decide) (Nat.zero_le _) (by simp [List.append_assoc])⟩

theorem checkAdv7613_holds (h : Live val ty w) :
    sequenced.Holds checkAdv7613 w fun _ => Live loopOn ty := by
  refine (getAdvInfo_holds h 0).bind fun down w h => ?_
  by_cases hdown : down ≠ 0#8
  · rw [if_pos hdown]
    exact resetFlash_holds h
  · rw [if_neg hdown]
    refine (getAdvInfo_holds h 1).bind fun down w h => ?_
    by_cases hdown : down ≠ 0#8
    · rw [if_pos hdown]
      exact resetFlash_holds h
    · rw [if_neg hdown]
      exact h

theorem hotPlug_holds {v : Vars} (h : Live val v.lcdType w) :
    sequenced.Holds (hotPlug v) w fun v' w' => v'.lcdType = v.lcdType ∧ Live val v.lcdType w' := by
  unfold hotPlug
  by_cases h15 : v.lcdType = mfd15inchType
  case neg =>
    rw [if_neg h15]
    exact ⟨rfl, h⟩
  rw [if_pos h15]
  intro data _
  refine ⟨trivial, ?_⟩
  have hread : Live val v.lcdType (w.next ⟨.iordPio, data⟩) := ⟨h.1, h.2.read data⟩
  show sequenced.Holds
    (if ~~~data &&& gpioDpXcvrLink ≠ 0#32 then
      if v.edpTimer.toNat < edpTimeout - 1 then pure { v with edpTimer := v.edpTimer + 1 }
      else if v.edpTimer.toNat < edpTimeout then do
        gpioClear gpioDpHpd
        pure { v with edpTimer := v.edpTimer + 1 }
      else do
        gpioSet gpioDpHpd
        pure { v with edpTimer := 0#8 }
    else pure v) (w.next ⟨.iordPio, data⟩) _
  split
  · split
    · exact ⟨rfl, hread⟩
    · split
      · refine (hread.clear (by decide)).bind fun _ w h => ?_
        exact ⟨rfl, h⟩
      · refine (hread.setVideo (by decide) (h15 ▸ by decide)).bind fun _ w h => ?_
        exact ⟨rfl, h⟩
  · exact ⟨rfl, hread⟩

theorem iteration_holds {v : Vars} (h : Live val v.lcdType w) :
    sequenced.Holds (iteration v) w fun v' w' =>
      v'.lcdType = v.lcdType ∧ Live loopOn v.lcdType w' := by
  refine (copyAlpha_holds h).bind fun _ w h => ?_
  refine (heartBeat_holds h).bind ?_
  rintro v₁ w ⟨h₁, h⟩
  refine (checkAdv7613_holds h).bind fun _ w h => ?_
  rw [← h₁] at h
  refine (hotPlug_holds h).bind ?_
  rintro v₂ w ⟨h₂, h⟩
  refine (h.sleep 10000).bind fun _ w h => ?_
  rw [h₁] at h h₂
  exact ⟨h₂, h⟩

theorem running_holds (h : Live val ty w) :
    sequenced.Holds (running ty) w fun _ => Live val ty := by
  refine (h.2.test _).bind ?_
  rintro well w ⟨hs, _⟩
  cases well with
  | false => exact ⟨h.1, hs⟩
  | true =>
      intro data _
      exact ⟨trivial, h.1, hs.read data⟩

end Loop

/-! ## The whole program -/

def Between : Place → World → Prop
  | .start, _ => True
  | .loop v, w => ∃ val, Live val v.lcdType w

theorem start_holds (w : World) : sequenced.Holds start w Between := by
  refine (startClocks_holds w).bind fun ty w ⟨h, hsettled⟩ => ?_
  refine (h.test _).bind ?_
  rintro locked w ⟨h, hkept, _, hlocked⟩
  cases locked with
  | false => exact trivial
  | true =>
      have hseen := hlocked rfl
      refine (startMemories_holds h (hkept ▸ hsettled) (hseen _ (by simp))
        (hseen _ (by simp))).bind fun _ w h => ?_
      refine (startVideo_holds h).bind fun _ w h => ?_
      have hlive : Live (loopOn ||| gpioAdv7613Cs1) ty w :=
        ⟨.inr rfl, h.weaken (by decide) (by decide) (Nat.le_refl 0) (List.Sublist.refl _)⟩
      exact (startPanel_holds hlive).bind fun _ w h => ⟨_, h⟩

theorem round_holds (p : Place) (w : World) (h : Between p w) :
    sequenced.Holds (round p) w Between := by
  cases p with
  | start => exact start_holds w
  | loop v =>
      obtain ⟨val, hlive⟩ := h
      refine (running_holds hlive).bind fun well w h => ?_
      cases well with
      | false => exact trivial
      | true =>
          refine (iteration_holds h).bind ?_
          rintro v' w ⟨hty, h⟩
          rw [← hty] at h
          exact ⟨_, h⟩

def World.after (l : List (Event Op Res)) : World := sequenced.after .init l

theorem allowed_along {l : List (Event Op Res)} (h : Runs l) :
    sequenced.Along Allowed .init l :=
  Contract.ensures_forever round_holds h trivial (Contract.along_of_forall fun _ _ _ => trivial)

end Mfi.Firmware
