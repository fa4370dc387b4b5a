import Mfi.Firmware.PowerUp

/-!
# The outputs of the firmware

What is on at one time. No device is on without those that it depends on, there is at most one
HDMI receiver selected, and at most one kind of panel driven.
-/

namespace Mfi.Firmware

open Core DpHotPlug

structure Consistent (w : World) : Prop where
  select : ¬ (w.on 8 ∧ w.on 9)
  memories : w.any (gpioDdrBotGlobalReset ||| gpioDdrTopGlobalReset) → w.on 21
  softReset : w.any (gpioDdrBotSoftReset ||| gpioDdrTopSoftReset) → w.on 23 ∧ w.on 24
  retimer : w.any gpioTmds171Oe → w.on 25 ∧ w.on 26
  receivers : w.any gpioAdv7613Reset → w.on 10
  decoder : w.any gpioAdv7181Reset → w.on 10
  video : w.any videoOutputs → w.on 6 ∧ w.on 10
  own : ∀ x ∈ outputTypes, w.any x.1 → ∃ lcdType ∈ x.2, w.lcdType = some lcdType

namespace World

variable {w : World} {mask x : BitVec 32} {i : Nat} {us : Unit}

/-! ## Setting and clearing -/

theorem outputs_set : (w.next ⟨.setBits mask, us⟩).outputs = setBits w.outputs mask := rfl

theorem outputs_clear (h : mask ≠ 0xFFFFFFFF#32) :
    (w.next ⟨.clearBits mask, us⟩).outputs = clearBits w.outputs mask := by
  simp [next, h]

theorem on_set (h : w.on i) : (w.next ⟨.setBits mask, us⟩).on i := by
  unfold on at h ⊢
  rw [outputs_set, setBits, BitVec.getLsbD_or, h, Bool.true_or]

theorem any_set (h : (w.next ⟨.setBits mask, us⟩).any x) : w.any x ∨ mask &&& x ≠ 0#32 := by
  by_contra hnone
  rw [not_or, any, Decidable.not_not, Decidable.not_not] at hnone
  refine h ?_
  rw [outputs_set, setBits, BitVec.and_or_distrib_right, hnone.1, hnone.2, BitVec.or_zero]

theorem on_clear (h : w.on i) (hstay : mask &&& loopOn = 0#32) (hi : loopOn.getLsbD i = true) :
    (w.next ⟨.clearBits mask, us⟩).on i := by
  have hne : mask ≠ 0xFFFFFFFF#32 := by
    rintro rfl
    exact absurd hstay (by decide)
  have hmask : mask.getLsbD i = false := by
    have hbit := congrArg (fun y => y.getLsbD i) hstay
    simpa [hi] using hbit
  have hlt : i < 32 := BitVec.lt_of_getLsbD hi
  unfold on at h ⊢
  rw [outputs_clear hne, clearBits, BitVec.getLsbD_and, BitVec.getLsbD_not, h, hmask]
  simp [hlt]

theorem any_clear (hne : mask ≠ 0xFFFFFFFF#32) (h : (w.next ⟨.clearBits mask, us⟩).any x) :
    w.any x := by
  intro hzero
  refine h ?_
  rw [outputs_clear hne, clearBits, BitVec.and_assoc, BitVec.and_comm (~~~mask),
    ← BitVec.and_assoc, hzero, BitVec.zero_and]

theorem on_of_clear (hne : mask ≠ 0xFFFFFFFF#32) (h : (w.next ⟨.clearBits mask, us⟩).on i) :
    w.on i := by
  unfold on at h ⊢
  rw [outputs_clear hne, clearBits, BitVec.getLsbD_and, Bool.and_eq_true] at h
  exact h.1

theorem type_clear (hne : mask ≠ 0xFFFFFFFF#32) :
    (w.next ⟨.clearBits mask, us⟩).lcdType = w.lcdType := by
  simp [next, hne, lcdType]

theorem type_read {data : BitVec 32} {ty : BitVec 8} (h : w.lcdType = some ty) :
    (w.next ⟨.iordPio, data⟩).lcdType = some ty := by
  obtain ⟨d, hd, hty⟩ := Option.map_eq_some_iff.mp h
  unfold lcdType next
  rw [hd, ← hty]
  rfl

end World

/-! ## The run -/

namespace Consistent

open World

variable {w : World}

theorem init : Consistent .init where
  select := fun h => Bool.false_ne_true h.1
  memories := absurd (by decide)
  softReset := absurd (by decide)
  retimer := absurd (by decide)
  receivers := absurd (by decide)
  decoder := absurd (by decide)
  video := absurd (by decide)
  own := fun _ _ hon => absurd (BitVec.zero_and) hon

theorem set (h : Consistent w) {mask : BitVec 32} {us : Unit} (hproper : Proper w mask) :
    Consistent (w.next ⟨.setBits mask, us⟩) where
  select := by
    rintro ⟨h8, h9⟩
    have hselect := hproper.select
    unfold World.on at h8 h9
    rw [outputs_set] at h8 h9
    rw [h8, h9] at hselect
    exact absurd hselect (by decide)
  memories := fun hon =>
    on_set ((any_set hon).elim h.memories fun hm => (hproper.memories hm).1)
  softReset := fun hon =>
    ((any_set hon).elim h.softReset fun hm => (hproper.softReset hm).imp_right And.left).imp
      on_set on_set
  retimer := fun hon =>
    ((any_set hon).elim h.retimer fun hm => (hproper.retimer hm).imp_right And.left).imp
      on_set on_set
  receivers := fun hon =>
    on_set ((any_set hon).elim h.receivers fun hm => (hproper.receivers hm).1)
  decoder := fun hon =>
    on_set ((any_set hon).elim h.decoder fun hm => (hproper.decoder hm).2.1)
  video := fun hon =>
    ((any_set hon).elim h.video fun hm => (hproper.video hm).imp_right And.left).imp on_set on_set
  own := fun x hx hon => (any_set hon).elim (h.own x hx) (hproper.own x hx)

theorem clear (h : Consistent w) {mask : BitVec 32} {us : Unit} (hstay : mask &&& loopOn = 0#32) :
    Consistent (w.next ⟨.clearBits mask, us⟩) := by
  have hne : mask ≠ 0xFFFFFFFF#32 := by
    rintro rfl
    exact absurd hstay (by decide)
  have hkeep : ∀ {i : Nat}, loopOn.getLsbD i = true → w.on i →
      (w.next ⟨.clearBits mask, us⟩).on i := fun hi hon => on_clear hon hstay hi
  exact {
    select := fun hon => h.select (hon.imp (on_of_clear hne) (on_of_clear hne))
    memories := fun hon => hkeep (by decide) (h.memories (any_clear hne hon))
    softReset := fun hon =>
      (h.softReset (any_clear hne hon)).imp (hkeep (by decide)) (hkeep (by decide))
    retimer := fun hon =>
      (h.retimer (any_clear hne hon)).imp (hkeep (by decide)) (hkeep (by decide))
    receivers := fun hon => hkeep (by decide) (h.receivers (any_clear hne hon))
    decoder := fun hon => hkeep (by decide) (h.decoder (any_clear hne hon))
    video := fun hon => (h.video (any_clear hne hon)).imp (hkeep (by decide)) (hkeep (by decide))
    own := by
      intro x hx hon
      rw [type_clear hne]
      exact h.own x hx (any_clear hne hon) }

theorem read (h : Consistent w) (data : BitVec 32) : Consistent (w.next ⟨.iordPio, data⟩) where
  select := h.select
  memories := h.memories
  softReset := h.softReset
  retimer := h.retimer
  receivers := h.receivers
  decoder := h.decoder
  video := h.video
  own := by
    intro x hx hon
    obtain ⟨lcdType, hmem, hty⟩ := h.own x hx hon
    exact ⟨lcdType, hmem, type_read hty⟩

theorem step (h : Consistent w) {e : Event Op Res} (hallowed : Allowed w e) :
    Consistent (w.next e) := by
  obtain ⟨op, res⟩ := e
  cases op with
  | iordPio => exact h.read res
  | setBits mask => exact h.set hallowed
  | clearBits mask =>
      rcases hallowed with rfl | hstay
      · have hinit : w.next ⟨.clearBits 0xFFFFFFFF#32, res⟩ = .init := by simp [World.next]
        rw [hinit]
        exact init
      · exact h.clear hstay
  | usleep us => exact { h with }
  | iord8 address => exact h
  | iowr8 address data => exact { h with }
  | sysAlpha => exact h

theorem along {l : List (Event Op Res)} (h : Consistent w)
    (hallowed : sequenced.Along Allowed w l) : Consistent (sequenced.after w l) := by
  induction l generalizing w with
  | nil => exact h
  | cons e l ih => exact ih (h.step hallowed.1) hallowed.2

end Consistent

/-- After every event of every run of the firmware the outputs are consistent. -/
theorem outputs_consistent {l : List (Event Op Res)} (h : Runs l) : Consistent (.after l) :=
  Consistent.init.along (allowed_along h)

/-- The whole start on a board with a panel of 15 inches. -/
theorem outputs_consistent_steadyBoard : Consistent (.after (start.play steadyBoard).1) :=
  outputs_consistent (.within (start.run_play steadyBoard))

end Mfi.Firmware
