import Mfi.Firmware.PowerUp

/-!
# The loop of the firmware and the hot-plug line

The model of the hot-plug line knows the timers and the outputs of the loop only. It is the whole
program as far as these go: the outputs that the program drives in its loop are those of the
model, but for the three of the HDMI receivers. The model makes one step for each turn of the
loop, with what this turn has read.
-/

namespace Mfi.Firmware

open Core DpHotPlug

/-! ## The outputs that the model knows -/

def receiverOutputs : BitVec 32 := gpioAdv7613Reset ||| gpioAdv7613Cs0 ||| gpioAdv7613Cs1

def Agree (o o' : BitVec 32) : Prop := o &&& ~~~receiverOutputs = o' &&& ~~~receiverOutputs

namespace Agree

variable {o o' : BitVec 32}

theorem set (h : Agree o o') (mask : BitVec 32) : Agree (setBits o mask) (setBits o' mask) := by
  unfold Agree setBits at *
  rw [BitVec.and_or_distrib_right, BitVec.and_or_distrib_right, h]

theorem clear (h : Agree o o') (mask : BitVec 32) :
    Agree (clearBits o mask) (clearBits o' mask) := by
  unfold Agree clearBits at *
  rw [BitVec.and_assoc, BitVec.and_comm (~~~mask), ← BitVec.and_assoc, h, BitVec.and_assoc,
    BitVec.and_comm (~~~receiverOutputs), ← BitVec.and_assoc]

theorem set_receiver (h : Agree o o') {mask : BitVec 32}
    (hmask : mask &&& ~~~receiverOutputs = 0#32) : Agree o (setBits o' mask) := by
  unfold Agree setBits at *
  rw [BitVec.and_or_distrib_right, hmask, BitVec.or_zero, h]

theorem clear_receiver (h : Agree o o') {mask : BitVec 32}
    (hmask : ~~~mask &&& ~~~receiverOutputs = ~~~receiverOutputs) :
    Agree o (clearBits o' mask) := by
  unfold Agree clearBits at *
  rw [BitVec.and_assoc, hmask, h]

end Agree

/-! ## The program on the port -/

/-- The outputs of the port, and what has been read last. -/
structure View where
  outputs : BitVec 32
  seen : Seen

def driven (o : BitVec 32) : Event Op Res → BitVec 32
  | ⟨.setBits mask, _⟩ => setBits o mask
  | ⟨.clearBits mask, _⟩ => clearBits o mask
  | _ => o

def noted (x : Seen) : Event Op Res → Seen
  | ⟨.iordPio, data⟩ => { x with data := data }
  | ⟨.sysAlpha, alpha⟩ => { x with alpha := alpha }
  | _ => x

def ports : Contract Op Res View where
  next o e := ⟨driven o.outputs e, noted o.seen e⟩
  rely _ _ := True
  ensure _ _ := True

def outputsAfter (o : BitVec 32) (l : List (Event Op Res)) : BitVec 32 := l.foldl driven o

/-- The last reads of the port and of the shared memory in a list of events. -/
def seenIn (l : List (Event Op Res)) : Seen := l.foldl noted ⟨0#32, 0#32⟩

theorem after_ports (o : View) (l : List (Event Op Res)) :
    ports.after o l = ⟨outputsAfter o.outputs l, l.foldl noted o.seen⟩ := by
  induction l generalizing o with
  | nil => rfl
  | cons e l ih => exact ih (ports.next o e)

section Port

variable {o : View} {α β : Type} {p : Program α} {f : α → Program β} {Q : β → View → Prop}

/-- The rule for a part that neither drives the outputs nor reads what the loop depends on. -/
theorem then_port (h : ports.Holds p o fun _ o' => o' = o) (hf : ∀ a, ports.Holds (f a) o Q) :
    ports.Holds (p >>= f) o Q := by
  refine h.bind fun a o' ho => ?_
  rw [ho]
  exact hf a

theorem usleep_port (us : Nat) : ports.Holds (usleep us) o fun _ o' => o' = o :=
  fun _ _ => ⟨trivial, rfl⟩

theorem i2cRead_port (addr reg : BitVec 8) :
    ports.Holds (i2cRead addr reg) o fun _ o' => o' = o := fun _ _ => ⟨trivial, rfl⟩

theorem i2cRetry_port (address : BitVec 32) (data : BitVec 8) (retry : Nat) :
    ports.Holds (i2cRetry address data retry) o fun _ o' => o' = o := by
  induction retry with
  | zero => rfl
  | succ retry ih =>
      rw [i2cRetry_succ]
      refine fun _ _ => ⟨trivial, fun status _ => ⟨trivial, ?_⟩⟩
      show ports.Holds (if Refused status then i2cRetry address data retry else .done ()) o _
      by_cases hs : Refused status
      · rw [if_pos hs]
        exact ih
      · rw [if_neg hs]
        rfl

theorem i2cWriteArray_port (array : List I2cRegister) :
    ports.Holds (i2cWriteArray array) o fun _ o' => o' = o := by
  induction array with
  | nil => rfl
  | cons r array ih => exact then_port (i2cRetry_port _ _ 100) fun _ => ih

theorem readMaps_port (is : List Nat) : ports.Holds (readMaps is) o fun _ o' => o' = o := by
  induction is with
  | nil => rfl
  | cons i is ih =>
      refine then_port (i2cRead_port _ _) fun io => ?_
      refine then_port (i2cRead_port _ _) fun _ => ?_
      refine then_port (i2cRead_port _ _) fun _ => ?_
      exact then_port ih fun _ => rfl

theorem allSet_port (masks : List (BitVec 32)) :
    ports.Holds (allSet masks) o fun _ o' => o'.outputs = o.outputs := by
  induction masks generalizing o with
  | nil => rfl
  | cons mask masks ih =>
      intro data _
      refine ⟨trivial, ?_⟩
      show ports.Holds (if data &&& mask ≠ 0#32 then allSet masks else .done false)
        ⟨o.outputs, { o.seen with data := data }⟩ _
      by_cases hdata : data &&& mask ≠ 0#32
      · rw [if_pos hdata]
        exact ih
      · rw [if_neg hdata]
        rfl

end Port

/-! ## The receivers -/

section Receivers

/-- The outputs are those of `s` but for the receivers, and nothing has been read since `x`. -/
structure Keeps (s : BitVec 32) (x : Seen) (o : View) : Prop where
  outputs : Agree s o.outputs
  seen : o.seen = x

variable {s : BitVec 32} {x : Seen} {o : View}

theorem gpioSet_receiver (h : Keeps s x o) {mask : BitVec 32}
    (hmask : mask &&& ~~~receiverOutputs = 0#32) :
    ports.Holds (gpioSet mask) o fun _ => Keeps s x :=
  fun _ _ => ⟨trivial, h.outputs.set_receiver hmask, h.seen⟩

theorem gpioClear_receiver (h : Keeps s x o) {mask : BitVec 32}
    (hmask : ~~~mask &&& ~~~receiverOutputs = ~~~receiverOutputs) :
    ports.Holds (gpioClear mask) o fun _ => Keeps s x :=
  fun _ _ => ⟨trivial, h.outputs.clear_receiver hmask, h.seen⟩

theorem withSelect_port (h : Keeps s x o) {cs : BitVec 32} {p : Program Unit}
    (hset : cs &&& ~~~receiverOutputs = 0#32)
    (hclear : ~~~cs &&& ~~~receiverOutputs = ~~~receiverOutputs)
    (hp : ∀ o, ports.Holds p o fun _ o' => o' = o) :
    ports.Holds (withSelect cs p) o fun _ => Keeps s x := by
  refine (gpioSet_receiver h hset).bind fun _ o h => ?_
  exact then_port (hp o) fun _ => gpioClear_receiver h hclear

theorem getAdvInfo_port (h : Keeps s x o) (cs : BitVec 8) :
    ports.Holds (getAdvInfo cs) o fun _ => Keeps s x := by
  refine (gpioClear_receiver h (by decide)).bind fun _ o h => ?_
  by_cases hcs : cs = 1
  · rw [if_pos hcs]
    refine (gpioSet_receiver h (by decide)).bind fun _ o h => ?_
    refine then_port (readMaps_port _) fun buffIo => ?_
    refine (gpioClear_receiver h (by decide)).bind fun _ o h => ?_
    exact h
  · rw [if_neg hcs]
    refine (gpioSet_receiver h (by decide)).bind fun _ o h => ?_
    refine then_port (readMaps_port _) fun buffIo => ?_
    refine (gpioClear_receiver h (by decide)).bind fun _ o h => ?_
    exact h

theorem resetFlash_port (h : Keeps s x o) :
    ports.Holds resetFlashAdv7613 o fun _ => Keeps s x := by
  refine (gpioClear_receiver h (by decide)).bind fun _ o h => ?_
  refine then_port (usleep_port 10000) fun _ => ?_
  refine (gpioSet_receiver h (by decide)).bind fun _ o h => ?_
  refine then_port (usleep_port 10000) fun _ => ?_
  refine (withSelect_port h (by decide) (by decide) fun _ => i2cRetry_port _ _ 100).bind
    fun _ o h => ?_
  refine (withSelect_port h (by decide) (by decide) fun _ => i2cRetry_port _ _ 100).bind
    fun _ o h => ?_
  refine then_port (usleep_port 10000) fun _ => ?_
  refine (withSelect_port h (by decide) (by decide) fun _ => i2cWriteArray_port _).bind
    fun _ o h => ?_
  exact withSelect_port h (by decide) (by decide) fun _ => i2cWriteArray_port _

theorem checkAdv7613_port (h : Keeps s x o) :
    ports.Holds checkAdv7613 o fun _ => Keeps s x := by
  refine (getAdvInfo_port h 0).bind fun down o h => ?_
  by_cases hdown : down ≠ 0#8
  · rw [if_pos hdown]
    exact resetFlash_port h
  · rw [if_neg hdown]
    refine (getAdvInfo_port h 1).bind fun down o h => ?_
    by_cases hdown : down ≠ 0#8
    · rw [if_pos hdown]
      exact resetFlash_port h
    · rw [if_neg hdown]
      exact h

end Receivers

/-! ## The loop -/

/-- The variables and the outputs are those of a state of the model. -/
structure Shows (s : State) (v : Vars) (o : BitVec 32) : Prop where
  edpTimer : s.edpTimer = v.edpTimer
  heart : s.heart = v.heart
  heartBit : s.heartBit = v.heartBit
  outputs : Agree s.outputs o

namespace Shows

variable {s : State} {v : Vars} {o : View}

theorem copyAlpha (h : Shows s v o.outputs) :
    ports.Holds copyAlpha o fun _ o' => Shows (alphaStep s o'.seen.alpha) v o'.outputs := by
  intro alpha _
  refine ⟨trivial, ?_⟩
  show ports.Holds
    (if alpha &&& 0x01#32 ≠ 0#32 then gpioClear gpioImx6Alpha else gpioSet gpioImx6Alpha)
    ⟨o.outputs, { o.seen with alpha := alpha }⟩ _
  by_cases ha : alpha &&& 0x01#32 ≠ 0#32
  · rw [if_pos ha]
    refine fun _ _ => ⟨trivial, ?_⟩
    have hstep : alphaStep s alpha = { s with outputs := clearBits s.outputs gpioImx6Alpha } :=
      if_pos ha
    show Shows (alphaStep s alpha) v (clearBits o.outputs gpioImx6Alpha)
    rw [hstep]
    exact { h with outputs := h.outputs.clear _ }
  · rw [if_neg ha]
    refine fun _ _ => ⟨trivial, ?_⟩
    have hstep : alphaStep s alpha = { s with outputs := setBits s.outputs gpioImx6Alpha } :=
      if_neg ha
    show Shows (alphaStep s alpha) v (setBits o.outputs gpioImx6Alpha)
    rw [hstep]
    exact { h with outputs := h.outputs.set _ }

theorem heartBeat (h : Shows s v o.outputs) :
    ports.Holds (heartBeat v) o fun v' o' =>
      v'.lcdType = v.lcdType ∧ o'.seen = o.seen ∧ Shows (heartStep s) v' o'.outputs := by
  unfold Firmware.heartBeat heartStep
  rw [h.heart, h.heartBit]
  generalize (if v.heart.toNat < 1 then v.heart + 1 else 0#8) = heart
  by_cases hh : heart = 0#8
  · rw [if_pos hh, if_pos hh]
    have hshow : ports.Holds (showHeart (~~~v.heartBit)) o fun _ o' => o'.seen = o.seen ∧ Agree
        (if ~~~v.heartBit ≠ 0#8 then setBits s.outputs gpioNiosHeartBeat
          else clearBits s.outputs gpioNiosHeartBeat) o'.outputs := by
      unfold showHeart
      by_cases hbit : ~~~v.heartBit ≠ 0#8
      · rw [if_pos hbit, if_pos hbit]
        exact fun _ _ => ⟨trivial, rfl, h.outputs.set _⟩
      · rw [if_neg hbit, if_neg hbit]
        exact fun _ _ => ⟨trivial, rfl, h.outputs.clear _⟩
    refine hshow.bind fun _ o' ⟨hseen, ho'⟩ => ⟨rfl, hseen, ?_⟩
    by_cases hbit : ~~~v.heartBit ≠ 0#8
    · rw [if_pos hbit] at ho' ⊢
      exact ⟨h.edpTimer, rfl, rfl, ho'⟩
    · rw [if_neg hbit] at ho' ⊢
      exact ⟨h.edpTimer, rfl, rfl, ho'⟩
  · rw [if_neg hh, if_neg hh]
    exact ⟨rfl, rfl, h.edpTimer, rfl, rfl, h.outputs⟩

theorem hotPlug (h : Shows s v o.outputs) :
    ports.Holds (hotPlug v) o fun v' o' =>
      v'.lcdType = v.lcdType ∧ o'.seen.alpha = o.seen.alpha ∧
        Shows (edpStep v.lcdType s o'.seen.data) v' o'.outputs := by
  unfold Firmware.hotPlug
  by_cases h15 : v.lcdType = mfd15inchType
  case neg =>
    rw [if_neg h15]
    have hstep : edpStep v.lcdType s o.seen.data = s := if_neg fun hboth => h15 hboth.1
    refine ⟨rfl, rfl, ?_⟩
    rw [hstep]
    exact h
  rw [if_pos h15]
  intro data _
  refine ⟨trivial, ?_⟩
  show ports.Holds
    (if ~~~data &&& gpioDpXcvrLink ≠ 0#32 then
      if v.edpTimer.toNat < edpTimeout - 1 then pure { v with edpTimer := v.edpTimer + 1 }
      else if v.edpTimer.toNat < edpTimeout then do
        gpioClear gpioDpHpd
        pure { v with edpTimer := v.edpTimer + 1 }
      else do
        gpioSet gpioDpHpd
        pure { v with edpTimer := 0#8 }
    else pure v) ⟨o.outputs, { o.seen with data := data }⟩ _
  by_cases hlink : ~~~data &&& gpioDpXcvrLink ≠ 0#32
  · have hstep : edpStep v.lcdType s data =
        if v.edpTimer.toNat < edpTimeout - 1 then { s with edpTimer := v.edpTimer + 1 }
        else if v.edpTimer.toNat < edpTimeout then
          { s with edpTimer := v.edpTimer + 1, outputs := clearBits s.outputs gpioDpHpd }
        else { s with edpTimer := 0#8, outputs := setBits s.outputs gpioDpHpd } := by
      unfold edpStep
      rw [if_pos ⟨h15, hlink⟩, h.edpTimer]
    rw [if_pos hlink]
    by_cases hfirst : v.edpTimer.toNat < edpTimeout - 1
    · rw [if_pos hfirst] at hstep ⊢
      refine ⟨rfl, rfl, ?_⟩
      show Shows (edpStep v.lcdType s data) _ o.outputs
      rw [hstep]
      exact ⟨rfl, h.heart, h.heartBit, h.outputs⟩
    · rw [if_neg hfirst] at hstep ⊢
      by_cases hlast : v.edpTimer.toNat < edpTimeout
      · rw [if_pos hlast] at hstep ⊢
        refine fun _ _ => ⟨trivial, rfl, rfl, ?_⟩
        show Shows (edpStep v.lcdType s data) _ (clearBits o.outputs gpioDpHpd)
        rw [hstep]
        exact ⟨rfl, h.heart, h.heartBit, h.outputs.clear _⟩
      · rw [if_neg hlast] at hstep ⊢
        refine fun _ _ => ⟨trivial, rfl, rfl, ?_⟩
        show Shows (edpStep v.lcdType s data) _ (setBits o.outputs gpioDpHpd)
        rw [hstep]
        exact ⟨rfl, h.heart, h.heartBit, h.outputs.set _⟩
  · have hstep : edpStep v.lcdType s data = s := if_neg fun hboth => hlink hboth.2
    rw [if_neg hlink]
    refine ⟨rfl, rfl, ?_⟩
    show Shows (edpStep v.lcdType s data) v o.outputs
    rw [hstep]
    exact h

theorem iteration (h : Shows s v o.outputs) :
    ports.Holds (iteration v) o fun v' o' =>
      v'.lcdType = v.lcdType ∧ Shows (DpHotPlug.iteration v.lcdType s o'.seen) v' o'.outputs := by
  refine h.copyAlpha.bind fun _ o h => ?_
  refine h.heartBeat.bind ?_
  rintro v₁ o₁ ⟨hty₁, hseen, h⟩
  refine (checkAdv7613_port ⟨h.outputs, hseen⟩).bind fun _ o₂ hkeeps => ?_
  have h : Shows _ v₁ o₂.outputs := { h with outputs := hkeeps.outputs }
  refine h.hotPlug.bind ?_
  rintro v₂ o₃ ⟨hty₂, halpha, h⟩
  refine then_port (usleep_port 10000) fun _ => ?_
  rw [hty₁] at hty₂ h
  rw [hkeeps.seen] at halpha
  rw [← halpha] at h
  exact ⟨hty₂, h⟩

end Shows

/-! ## The start -/

section Start

variable {o : View}

theorem gpioSet_port {out : BitVec 32} (ho : o.outputs = out) (mask : BitVec 32) :
    ports.Holds (gpioSet mask) o fun _ o' => o'.outputs = setBits out mask :=
  fun _ _ => ⟨trivial, congrArg (setBits · mask) ho⟩

theorem gpioClear_port {out : BitVec 32} (ho : o.outputs = out) (mask : BitVec 32) :
    ports.Holds (gpioClear mask) o fun _ o' => o'.outputs = clearBits out mask :=
  fun _ _ => ⟨trivial, congrArg (clearBits · mask) ho⟩

theorem look_port (o : View) :
    ports.Holds (.call .iordPio) o fun _ o' => o'.outputs = o.outputs :=
  fun _ _ => ⟨trivial, rfl⟩

theorem startClocks_port (o : View) :
    ports.Holds startClocks o fun _ o' => o'.outputs = gpioIpResetN := by
  refine (gpioClear_port rfl 0xFFFFFFFF#32).bind fun _ o ho => ?_
  refine then_port (usleep_port 10000) fun _ => ?_
  refine (gpioSet_port ho gpioIpResetN).bind fun _ o ho => ?_
  refine then_port (usleep_port 400000) fun _ => ?_
  refine (look_port o).bind fun data o' ho' => ?_
  refine then_port (i2cWriteArray_port _) fun _ => ?_
  refine then_port (usleep_port 400000) fun _ => ?_
  show o'.outputs = gpioIpResetN
  rw [ho', ho]
  unfold clearBits
  rw [show ~~~0xFFFFFFFF#32 = 0#32 by decide, BitVec.and_zero]
  decide

theorem startMemories_port (ho : o.outputs = gpioIpResetN) :
    ports.Holds startMemories o fun _ o' => o'.outputs = memoriesOn := by
  refine (gpioSet_port ho _).bind fun _ o ho => ?_
  refine then_port (usleep_port 400000) fun _ => ?_
  refine (gpioSet_port ho _).bind fun _ o ho => ?_
  refine then_port (usleep_port 200000) fun _ => ?_
  exact (allSet_port _).bind fun _ o' ho' => ho'.trans ho

theorem withSelect_out {out : BitVec 32} (ho : o.outputs = out) (cs : BitVec 32)
    {p : Program Unit} (hp : ∀ o, ports.Holds p o fun _ o' => o' = o) :
    ports.Holds (withSelect cs p) o fun _ o' => o'.outputs = clearBits (setBits out cs) cs := by
  refine (gpioSet_port ho cs).bind fun _ o ho => ?_
  exact then_port (hp o) fun _ => gpioClear_port ho cs

theorem startVideo_port (ho : o.outputs = memoriesOn) :
    ports.Holds startVideo o fun _ o' => o'.outputs = videoOn := by
  have hwrite : ∀ o, ports.Holds (do usleep 200000; i2cWriteArray adv7613Registers) o
      fun _ o' => o' = o := fun o => then_port (usleep_port 200000) fun _ => i2cWriteArray_port _
  refine (gpioSet_port ho _).bind fun _ o ho => ?_
  refine then_port (usleep_port 100000) fun _ => ?_
  refine then_port (i2cWriteArray_port _) fun _ => ?_
  refine (gpioSet_port ho _).bind fun _ o ho => ?_
  refine then_port (usleep_port 200000) fun _ => ?_
  refine (withSelect_out ho _ hwrite).bind fun _ o ho => ?_
  refine (withSelect_out ho _ hwrite).bind fun _ o ho => ?_
  refine (gpioSet_port ho _).bind fun _ o ho => ?_
  refine then_port (usleep_port 200000) fun _ => ?_
  refine (gpioSet_port ho _).bind fun _ o ho => ?_
  refine then_port (usleep_port 200000) fun _ => ?_
  refine then_port (i2cRead_port _ _) fun _ => ?_
  refine (i2cWriteArray_port _).mono ?_
  rintro _ _ rfl
  exact ho

theorem releasePanel_port (ty : BitVec 8) {out : BitVec 32} (ho : o.outputs = out) :
    ports.Holds (releasePanel ty) o fun _ o' => o'.outputs =
      if ty = mfd15inchType then setBits out (gpioDpResetN ||| gpioDpHpd)
      else if ty = mfd12inchType ∨ ty = mfd10inchType then
        setBits out (gpioLvdsResetN ||| gpioLvdsLcdScan)
      else out := by
  unfold releasePanel
  by_cases h15 : ty = mfd15inchType
  · rw [if_pos h15, if_pos h15]
    exact gpioSet_port ho _
  · rw [if_neg h15, if_neg h15]
    by_cases hlvds : ty = mfd12inchType ∨ ty = mfd10inchType
    · rw [if_pos hlvds, if_pos hlvds]
      exact gpioSet_port ho _
    · rw [if_neg hlvds, if_neg hlvds]
      exact ho

theorem lightPanel_port (ty : BitVec 8) {out : BitVec 32} (ho : o.outputs = out) :
    ports.Holds (lightPanel ty) o fun _ o' => o'.outputs =
      if ty = mfd15inchType then
        setBits out (gpioOut3EnN ||| gpioLcdBkltEn0 ||| gpioLcdBkltEn1)
      else if ty = mfd12inchType then setBits out gpioLcdBkltEn0
      else if ty = mfd10inchType then setBits out (gpioOut1EnN ||| gpioLcdBkltEn1)
      else out := by
  unfold lightPanel
  by_cases h15 : ty = mfd15inchType
  · rw [if_pos h15, if_pos h15]
    exact gpioSet_port ho _
  · rw [if_neg h15, if_neg h15]
    by_cases h12 : ty = mfd12inchType
    · rw [if_pos h12, if_pos h12]
      exact gpioSet_port ho _
    · rw [if_neg h12, if_neg h12]
      by_cases h10 : ty = mfd10inchType
      · rw [if_pos h10, if_pos h10]
        exact gpioSet_port ho _
      · rw [if_neg h10, if_neg h10]
        exact ho

theorem startPanel_port (ty : BitVec 8) {out : BitVec 32} (ho : o.outputs = out) :
    ports.Holds (startPanel ty) o fun _ o' => o'.outputs = (enter ty out).outputs := by
  refine (releasePanel_port ty ho).bind fun _ o ho => ?_
  refine (gpioSet_port ho _).bind fun _ o ho => ?_
  exact lightPanel_port ty ho

/-- The start comes to the loop with the video devices on and the timers cleared. -/
theorem start_port (o : View) :
    ports.Holds start o fun p o' => ∀ v, p = .loop v →
      Shows (enter v.lcdType videoOn) v o'.outputs := by
  refine (startClocks_port o).bind fun ty o ho => ?_
  refine (allSet_port _).bind fun locked o' ho' => ?_
  cases locked with
  | false => exact nofun
  | true =>
      refine (startMemories_port (ho'.trans ho)).bind fun _ o ho => ?_
      refine (startVideo_port ho).bind fun _ o ho => ?_
      refine (startPanel_port ty ho).bind fun _ o ho => ?_
      rintro v ⟨⟩
      exact ⟨rfl, rfl, rfl, congrArg (· &&& ~~~receiverOutputs) ho.symm⟩

end Start

/-! ## The whole program -/

/-- A run to the loop, with what each of the turns since the start has read. -/
inductive Turns : List (Event Op Res) → List Seen → Vars → Prop where
  | entered {l l' : List (Event Op Res)} {v : Vars} (before : Prog.Reaches round .start l .start)
      (h : (round .start).Run l' (.done (.loop v))) : Turns (l ++ l') [] v
  | turn {l l' : List (Event Op Res)} {seen : List Seen} {v v' : Vars} (before : Turns l seen v)
      (h : (round (.loop v)).Run l' (.done (.loop v'))) : Turns (l ++ l') (seen ++ [seenIn l']) v'

def model (lcdType : BitVec 8) (seen : List Seen) : State :=
  DpHotPlug.run lcdType videoOn (fun k => seen.getD k ⟨0#32, 0#32⟩) seen.length

theorem model_snoc (lcdType : BitVec 8) (seen : List Seen) (x : Seen) :
    model lcdType (seen ++ [x]) = DpHotPlug.iteration lcdType (model lcdType seen) x := by
  have hsame : ∀ k < seen.length, (seen ++ [x]).getD k ⟨0#32, 0#32⟩ = seen.getD k ⟨0#32, 0#32⟩ :=
    fun k hk => by simp [List.getD_eq_getElem?_getD, List.getElem?_append_left hk]
  have hlast : (seen ++ [x]).getD seen.length ⟨0#32, 0#32⟩ = x := by simp
  unfold model DpHotPlug.run
  rw [List.length_append, List.length_singleton, trace_succ, hlast, trace_congr _ _ hsame]

theorem outputsAfter_append (o : BitVec 32) (l l' : List (Event Op Res)) :
    outputsAfter o (l ++ l') = outputsAfter (outputsAfter o l) l' := List.foldl_append

theorem holds_seenIn {α : Type} {p : Program α} {out : BitVec 32} {Q : α → View → Prop}
    (h : ports.Holds p ⟨out, ⟨0#32, 0#32⟩⟩ Q) {l : List (Event Op Res)} {a : α}
    (hrun : p.Run l (.done a)) : Q a ⟨outputsAfter out l, seenIn l⟩ := by
  have hend := (h.run hrun (Contract.along_of_forall fun _ _ _ => trivial)).2
  rw [after_ports] at hend
  exact hend

theorem turn_port {s : State} {v : Vars} {o : View} (h : Shows s v o.outputs) :
    ports.Holds (round (.loop v)) o fun p o' => ∀ v', p = .loop v' →
      v'.lcdType = v.lcdType ∧ Shows (DpHotPlug.iteration v.lcdType s o'.seen) v' o'.outputs := by
  have hrunning : ports.Holds (running v.lcdType) o fun _ o' => o'.outputs = o.outputs := by
    refine (allSet_port _).bind fun well o' ho' => ?_
    cases well with
    | false => exact ho'
    | true => exact fun _ _ => ⟨trivial, ho'⟩
  refine hrunning.bind fun well o' ho' => ?_
  cases well with
  | false => exact nofun
  | true =>
      rw [← ho'] at h
      refine h.iteration.bind fun v' o'' hshows => ?_
      rintro _ ⟨⟩
      exact hshows

/-- Wherever the program begins an iteration of its loop, the model has made one step for each
turn since the start, with what this turn has read, and the variables and the outputs are those
of the model, the receivers apart. -/
theorem loop_refines {l : List (Event Op Res)} {v : Vars}
    (h : Prog.Reaches round .start l (.loop v)) :
    ∃ seen, Turns l seen v ∧ Shows (model v.lcdType seen) v (outputsAfter 0#32 l) := by
  generalize hp : Place.loop v = p at h
  induction h generalizing v with
  | here => cases hp
  | @round t' t'' l l' before hrun ih =>
      subst hp
      rw [outputsAfter_append]
      cases t' with
      | start => exact ⟨[], .entered before hrun, holds_seenIn (start_port _) hrun v rfl⟩
      | loop v₀ =>
          obtain ⟨seen, hturns, hshows⟩ := ih rfl
          obtain ⟨hty, hnext⟩ := holds_seenIn
            (turn_port (o := ⟨outputsAfter 0#32 l, ⟨0#32, 0#32⟩⟩) hshows) hrun v rfl
          refine ⟨seen ++ [seenIn l'], .turn hturns hrun, ?_⟩
          rw [model_snoc, hty]
          exact hnext

theorem steadyBoard_turns :
    (Prog.playRounds steadyBoard round .start 6).2 = .loop ⟨mfd15inchType, 5#8, 1#8, 0#8⟩ := by
  decide +kernel

/-- The fifth turn without a link takes the hot-plug line away. -/
theorem loop_refines_steadyBoard :
    ∃ seen, Turns (Prog.playRounds steadyBoard round .start 6).1 seen
        ⟨mfd15inchType, 5#8, 1#8, 0#8⟩ ∧
      Shows (model mfd15inchType seen) ⟨mfd15inchType, 5#8, 1#8, 0#8⟩
        (outputsAfter 0#32 (Prog.playRounds steadyBoard round .start 6).1) := by
  have hreaches := Prog.reaches_playRounds steadyBoard round .start 6
  rw [steadyBoard_turns] at hreaches
  exact loop_refines hreaches

end Mfi.Firmware
