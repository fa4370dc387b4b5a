import Mfi.Core.Events
import Mfi.Switch.Crossbar

/-!
# What goes through the switch

The valid line of an output does not look at the other outputs of its input, and the
ready line of an input takes the changed outputs by the number of the input. So a beat
can be handed on twice, or be replaced by the end of packet of the switch cycle. The
cycles in which neither happens are found here.
-/

namespace Mfi.Switch

open Core

variable {pix : Nat}

namespace Regs

/-- Input `x` feeds output `y`. -/
def Feeds (s : Regs) (x y : Fin 8) : Prop := s.outpControl y = oneHot x

instance (s : Regs) (x y : Fin 8) : Decidable (s.Feeds x y) :=
  inferInstanceAs (Decidable (_ = _))

/-- The beat that input `x` gives away. -/
def accepted (s : Regs) (i : Input pix) (x : Fin 8) : Option (Beat pix) :=
  if i.dinValid x && s.readySig i x then some (i.din x) else none

/-- The beat accepted from the input that output `y` is subscribed to. -/
def acceptedFor (s : Regs) (i : Input pix) (y : Fin 8) : Option (Beat pix) :=
  if s.control then (source (s.outpControl y)).bind (s.accepted i) else none

/-- The beat that output `y` hands on, the end of packet of the switch cycle apart. -/
def transferred (s : Regs) (i : Input pix) (y : Fin 8) : Option (Beat pix) :=
  if s.validSig i y && i.doutReady y && !s.ends y then some (s.beatSig i y) else none

/-- Output `y` hands on an end of packet. -/
structure TransfersEnd (s : Regs) (i : Input pix) (y : Fin 8) : Prop where
  valid : s.validSig i y = true
  ready : i.doutReady y = true
  endofpacket : (s.beatSig i y).endofpacket = true
  startofpacket : (s.beatSig i y).startofpacket = false

/-- What is asked of a cycle with the control on, beside the delivery of the beats. -/
structure Handshakes (s : Regs) (i : Input pix) : Prop where
  /-- An accepted beat is taken by all outputs of its input. -/
  taken : ∀ x b, s.accepted i x = some b → ∀ y, s.Feeds x y → s.transferred i y = some b
  /-- A changed connected output hands on the end of packet. -/
  ended : ∀ y, s.ends y = true → s.outpControl y ≠ 0 → s.TransfersEnd i y
  /-- In the switch cycle an input that feeds no changed output is not held up. -/
  flows : s.outputSwitch = true → ∀ x, i.dinValid x = true →
    (∀ y, s.Feeds x y → s.ends y = false ∧ i.doutReady y = true) →
    ((∃ y, s.Feeds x y) ∨ s.consumeMode.getLsbD x = true) → s.accepted i x = some (i.din x)
  /-- An input that feeds no output is drained only in consume mode. -/
  drained : ∀ x b, s.accepted i x = some b → (∀ y, ¬ s.Feeds x y) →
    s.consumeMode.getLsbD x = true

/-- The ready line of input `x` is taken down for the switch cycle. -/
def held (s : Regs) (x : Fin 8) : Bool := s.outputSwitch && s.outChanged x

/-- The beat of input `x` goes to all its outputs. -/
structure PassesOn (s : Regs) (i : Input pix) (x : Fin 8) : Prop where
  free : s.held x = false
  all : ∀ y, s.Feeds x y → s.ends y = false ∧ i.doutReady y = true

/-- The beat of input `x` waits and goes to no output. -/
structure Stays (s : Regs) (i : Input pix) (x : Fin 8) : Prop where
  stopped : s.held x = true ∨ ∃ y, s.Feeds x y ∧ i.doutReady y = false
  none : ∀ y, s.Feeds x y → s.ends y = true ∨ i.doutReady y = false

/-- The cycles, with the control on, in which the switch does what it is for: every
changed connected output is ready, the beat of an input goes to all its outputs or to
none, and an input that feeds no output has a beat only when it may be drained. -/
structure CycleOk (s : Regs) (i : Input pix) : Prop where
  ends : ∀ y, s.ends y = true → s.outpControl y ≠ 0 → i.doutReady y = true
  fed : ∀ x, i.dinValid x = true → (∃ y, s.Feeds x y) → s.PassesOn i x ∨ s.Stays i x
  idle : ∀ x, i.dinValid x = true → (∀ y, ¬ s.Feeds x y) →
    s.consumeMode.getLsbD x = !s.held x

end Regs

def Routing (c : BitVec 8) : Prop := c = 0 ∨ ∃ x, c = Regs.oneHot x

def RoutesOneHot (i : Input pix) : Prop :=
  i.controlWrite = true → ∀ y, Regs.addressed i.controlAddress = some y →
    Routing (i.controlWritedata.setWidth 8)

/-- The switch is right up to cycle `n`: every output has handed on the beats accepted for
it, exactly once and in order, and cycle `n` does what is asked of it. -/
structure Switches (readdata : BitVec 32) (inp : Nat → Input pix) (n : Nat) : Prop where
  delivered : ∀ y, events (fun k => (switchRun readdata inp k).transferred (inp k) y) n =
    events (fun k => (switchRun readdata inp k).acceptedFor (inp k) y) n
  handshakes : (switchRun readdata inp n).control = true →
    (switchRun readdata inp n).Handshakes (inp n)

/-! ## Routing -/

namespace Regs

theorem source_oneHot : ∀ x, source (oneHot x) = some x := by decide

theorem source_zero : source 0 = none := by decide

theorem oneHot_bit : ∀ x, (oneHot x).getLsbD x.val = true := by decide

variable {s : Regs} {i : Input pix} {x y : Fin 8}

theorem source_of_feeds (h : s.Feeds x y) : source (s.outpControl y) = some x := by
  rw [h, source_oneHot]

theorem exists_feeds (hr : Routing (s.outpControl y)) (h : s.outpControl y ≠ 0) :
    ∃ x, s.Feeds x y := by
  rcases hr with hzero | hone
  · exact absurd hzero h
  · exact hone

/-! ## One output -/

theorem validSig_of_feeds (hc : s.control = true) (h : s.Feeds x y) :
    s.validSig i y = (s.ends y || i.dinValid x) := by
  simp [validSig, hc, source_of_feeds h]

theorem transferred_of_feeds (hc : s.control = true) (h : s.Feeds x y) :
    s.transferred i y =
      if i.dinValid x && i.doutReady y && !s.ends y then some (i.din x) else none := by
  have hs := source_of_feeds h
  cases he : s.ends y with
  | true => simp [transferred, he]
  | false => simp [transferred, beatSig, validSig_of_feeds hc h, he, hc, hs]

theorem acceptedFor_of_feeds (hc : s.control = true) (h : s.Feeds x y) :
    s.acceptedFor i y = s.accepted i x := by
  simp [acceptedFor, hc, source_of_feeds h]

/-- An input is accepted when none of its outputs holds it up and the output of its number
does not change. -/
theorem readySig_iff (hc : s.control = true) :
    s.readySig i x = true ↔ s.held x = false ∧ ∀ y, s.Feeds x y → i.doutReady y = true := by
  have hall : ((List.finRange 8).all fun y => s.readyCheck i x y) = true ↔
      ∀ y, s.Feeds x y → i.doutReady y = true := by
    simp only [List.all_eq_true, List.mem_finRange, true_implies]
    refine forall_congr' fun y => ?_
    by_cases hf : s.outpControl y = oneHot x <;> simp [readyCheck, Feeds, hf]
  have hoff : s.inputEnabled x = false → ∀ y, s.Feeds x y → i.doutReady y = true := by
    intro hno y hf
    have hbit : (s.outpControl y).getLsbD x.val = true := by
      rw [hf]
      exact oneHot_bit x
    have hany : s.inputEnabled x = true :=
      List.any_eq_true.mpr ⟨y, List.mem_finRange y, hbit⟩
    rw [hno] at hany
    exact absurd hany (by decide)
  unfold readySig
  rw [hc]
  cases hh : s.held x with
  | true =>
      unfold held at hh
      simp [hh]
  | false =>
      unfold held at hh
      simp only [Bool.not_true, Bool.false_eq_true, if_false, hh, Bool.or_eq_true,
        Bool.and_eq_true, Bool.not_eq_true', hall, true_and]
      constructor
      · rintro (h | ⟨h, _⟩)
        · exact h
        · exact hoff h
      · intro h
        exact Or.inl h

/-! ## One cycle -/

theorem stopped_of_not_ready (hc : s.control = true) (hready : s.readySig i x = false) :
    s.held x = true ∨ ∃ y, s.Feeds x y ∧ i.doutReady y = false := by
  by_contra hno
  have hfree : s.held x = false := by
    rw [← Bool.not_eq_true]
    exact fun hh => hno (Or.inl hh)
  have hall : ∀ y, s.Feeds x y → i.doutReady y = true := by
    intro y hf
    rw [← Bool.not_eq_false]
    exact fun hd => hno (Or.inr ⟨y, hf, hd⟩)
  rw [(readySig_iff hc).mpr ⟨hfree, hall⟩] at hready
  exact absurd hready (by decide)

theorem accepted_eq_some {b : Beat pix} :
    s.accepted i x = some b ↔ i.dinValid x = true ∧ s.readySig i x = true ∧ i.din x = b := by
  unfold accepted
  cases i.dinValid x <;> cases s.readySig i x <;> simp

theorem delivered_iff (hc : s.control = true) (h : s.Feeds x y) :
    s.transferred i y = s.acceptedFor i y ↔
      (i.dinValid x = true →
        (s.readySig i x = true ↔ s.ends y = false ∧ i.doutReady y = true)) := by
  rw [transferred_of_feeds hc h, acceptedFor_of_feeds hc h, accepted]
  cases i.dinValid x <;> cases s.readySig i x <;> cases s.ends y <;> cases i.doutReady y <;> simp

theorem delivered_of_off (h : s.outpControl y = 0) : s.transferred i y = s.acceptedFor i y := by
  have hs : source (s.outpControl y) = none := by
    rw [h]
    exact source_zero
  simp [transferred, acceptedFor, validSig, hs]

theorem delivered_of_control_off (h : s.control = false) :
    s.transferred i y = s.acceptedFor i y := by
  simp [transferred, acceptedFor, validSig, h]

theorem readySig_of_passesOn (hc : s.control = true) (h : s.PassesOn i x) :
    s.readySig i x = true :=
  (readySig_iff hc).mpr ⟨h.free, fun y hf => (h.all y hf).2⟩

theorem readySig_of_stays (hc : s.control = true) (h : s.Stays i x) : s.readySig i x = false := by
  cases hr : s.readySig i x with
  | false => rfl
  | true =>
      obtain ⟨hfree, hall⟩ := (readySig_iff hc).mp hr
      rcases h.stopped with hheld | ⟨y, hf, hno⟩
      · rw [hfree] at hheld
        exact absurd hheld (by decide)
      · rw [hall y hf] at hno
        exact absurd hno (by decide)

theorem readySig_of_idle (hc : s.control = true) (h : ∀ y, ¬ s.Feeds x y) :
    s.readySig i x = !s.held x := by
  have hiff := @readySig_iff pix s i x hc
  cases hh : s.held x with
  | false => exact hiff.mpr ⟨hh, fun y hf => absurd hf (h y)⟩
  | true =>
      cases hr : s.readySig i x with
      | false => rfl
      | true =>
          have hfree := (hiff.mp hr).1
          rw [hh] at hfree
          exact absurd hfree (by decide)

theorem CycleOk.delivered (hr : Routing (s.outpControl y)) (hc : s.control = true)
    (h : s.CycleOk i) : s.transferred i y = s.acceptedFor i y := by
  rcases hr with hzero | ⟨x, hx⟩
  · exact delivered_of_off hzero
  · refine (delivered_iff hc hx).mpr fun hv => ?_
    rcases h.fed x hv ⟨y, hx⟩ with hpass | hstay
    · exact ⟨fun _ => hpass.all y hx, fun _ => readySig_of_passesOn hc hpass⟩
    · rw [readySig_of_stays hc hstay]
      constructor
      · intro hno
        exact absurd hno (by decide)
      · rintro ⟨hends, hready⟩
        rcases hstay.none y hx with he | he
        · rw [hends] at he
          exact absurd he (by decide)
        · rw [hready] at he
          exact absurd he (by decide)

theorem CycleOk.handshakes (hr : ∀ y, Routing (s.outpControl y)) (hc : s.control = true)
    (h : s.CycleOk i) : s.Handshakes i where
  taken := by
    intro x b hacc y hf
    rw [h.delivered (hr y) hc, acceptedFor_of_feeds hc hf, hacc]
  ended := by
    intro y he hne
    obtain ⟨x, hf⟩ := exists_feeds (hr y) hne
    have hs := source_of_feeds hf
    refine ⟨?_, h.ends y he hne, ?_, ?_⟩
    · rw [validSig_of_feeds hc hf, he]
      rfl
    · simp [beatSig, hc, hs, he]
    · simp [beatSig, hc, hs, he]
  flows := by
    intro hsw x hv hall hsome
    refine accepted_eq_some.mpr ⟨hv, ?_, rfl⟩
    by_cases hfeeds : ∃ y, s.Feeds x y
    · rcases h.fed x hv hfeeds with hpass | hstay
      · exact readySig_of_passesOn hc hpass
      · obtain ⟨y, hf⟩ := hfeeds
        obtain ⟨hends, hready⟩ := hall y hf
        rcases hstay.none y hf with he | he
        · rw [hends] at he
          exact absurd he (by decide)
        · rw [hready] at he
          exact absurd he (by decide)
    · have hnone : ∀ y, ¬ s.Feeds x y := fun y hf => hfeeds ⟨y, hf⟩
      rw [readySig_of_idle hc hnone, ← h.idle x hv hnone]
      rcases hsome with hf | hconsume
      · exact absurd hf hfeeds
      · exact hconsume
  drained := by
    intro x b hacc hnone
    obtain ⟨hv, hready, _⟩ := accepted_eq_some.mp hacc
    rw [h.idle x hv hnone, ← @readySig_of_idle pix s i x hc hnone]
    exact hready

/-- A cycle in which all is as asked goes well. -/
theorem cycleOk_of_handshakes (hc : s.control = true)
    (hdel : ∀ y, s.transferred i y = s.acceptedFor i y) (h : s.Handshakes i) : s.CycleOk i where
  ends := fun y he hne => (h.ended y he hne).ready
  fed := by
    intro x hv _
    have hagree := fun y hf => (@delivered_iff pix s i x y hc hf).mp (hdel y) hv
    cases hready : s.readySig i x with
    | true =>
        exact Or.inl ⟨((readySig_iff hc).mp hready).1, fun y hf => (hagree y hf).mp hready⟩
    | false =>
        refine Or.inr ⟨?_, ?_⟩
        · exact stopped_of_not_ready hc hready
        · intro y hf
          have hiff := hagree y hf
          rw [hready] at hiff
          cases he : s.ends y with
          | true => exact Or.inl rfl
          | false =>
              cases hd : i.doutReady y with
              | true => exact absurd (hiff.mpr ⟨he, hd⟩) (by decide)
              | false => exact Or.inr rfl
  idle := by
    intro x hv hnone
    have hready := @readySig_of_idle pix s i x hc hnone
    cases hh : s.held x with
    | false =>
        rw [hh] at hready
        exact h.drained x _ (accepted_eq_some.mpr ⟨hv, hready, rfl⟩) hnone
    | true =>
        rw [hh] at hready
        have hsw : s.outputSwitch = true := by
          unfold held at hh
          exact (Bool.and_eq_true_iff.mp hh).1
        cases hm : s.consumeMode.getLsbD x with
        | false => rfl
        | true =>
            have hacc := h.flows hsw x hv (fun y hf => absurd hf (hnone y)) (Or.inr hm)
            rw [(accepted_eq_some.mp hacc).2.1] at hready
            exact absurd hready (by decide)

/-! ## Control writes -/

theorem takeOver_routing (h : ∀ y, Routing (s.outpControl y) ∧ Routing (s.nextOutpControl y)) :
    ∀ y, Routing (s.takeOver.outpControl y) ∧ Routing (s.takeOver.nextOutpControl y) := by
  intro y
  unfold takeOver
  split
  · exact ⟨(h y).2, (h y).2⟩
  · exact h y

theorem write_routing (h : ∀ y, Routing (s.outpControl y) ∧ Routing (s.nextOutpControl y))
    {address : BitVec 5} {data : BitVec 32}
    (hw : ∀ y, addressed address = some y → Routing (data.setWidth 8)) :
    ∀ y, Routing ((s.write address data).outpControl y) ∧
      Routing ((s.write address data).nextOutpControl y) := by
  intro y
  unfold write
  split
  · exact h y
  split
  · exact h y
  split
  · exact h y
  cases ha : addressed address with
  | none => exact h y
  | some z =>
      refine ⟨(h y).1, ?_⟩
      by_cases hyz : y = z
      · rw [hyz]
        simpa using hw z ha
      · simpa [Function.update_of_ne hyz] using (h y).2

theorem step_routing (h : ∀ y, Routing (s.outpControl y) ∧ Routing (s.nextOutpControl y))
    (hroute : RoutesOneHot i) :
    ∀ y, Routing ((s.step i).outpControl y) ∧ Routing ((s.step i).nextOutpControl y) := by
  have htaken := takeOver_routing h
  unfold step
  cases hw : i.controlWrite with
  | true => exact write_routing htaken (hroute hw)
  | false => exact htaken

end Regs

/-! ## Whole runs -/

section Run

variable {readdata : BitVec 32} {inp : Nat → Input pix}

theorem routing_run (hroute : ∀ n, RoutesOneHot (inp n)) (n : Nat) :
    ∀ y, Routing ((switchRun readdata inp n).outpControl y) ∧
      Routing ((switchRun readdata inp n).nextOutpControl y) := by
  induction n with
  | zero => exact fun _ => ⟨Or.inl rfl, Or.inl rfl⟩
  | succ n ih => exact Regs.step_routing ih (hroute n)

/-- The switch does what it is for on exactly those runs whose cycles all go well. -/
theorem switches_iff (readdata : BitVec 32) (inp : Nat → Input pix)
    (hroute : ∀ n, RoutesOneHot (inp n)) :
    (∀ n, Switches readdata inp n) ↔
      ∀ n, (switchRun readdata inp n).control = true →
        (switchRun readdata inp n).CycleOk (inp n) := by
  constructor
  · intro h n hc
    have hdel : ∀ y, (switchRun readdata inp n).transferred (inp n) y =
        (switchRun readdata inp n).acceptedFor (inp n) y :=
      fun y => events_eq_iff.mp (fun m => (h m).delivered y) n
    exact Regs.cycleOk_of_handshakes hc hdel ((h n).handshakes hc)
  · intro h n
    refine ⟨fun y => events_eq_iff.mpr (fun k => ?_) n, ?_⟩
    · cases hc : (switchRun readdata inp k).control with
      | false => exact Regs.delivered_of_control_off hc
      | true => exact (h k hc).delivered (routing_run hroute k y).1 hc
    · intro hc
      exact (h n hc).handshakes (fun y => (routing_run hroute n y).1) hc

end Run

/-! ## One input on two outputs -/

/-- The control is switched on, the outputs 0 and 1 are subscribed to input 0, and the
switch is made in cycle 4. Input 0 has a beat from cycle 5 until it is accepted in cycle
6; output 0 is always ready, output 1 only from cycle 6 on. -/
def fanOut (n : Nat) : Input 1 where
  controlRead := false
  controlWrite := n < 4
  controlAddress := if n = 0 then 0 else if n = 1 then 4 else if n = 2 then 5 else 3
  controlWritedata := 1
  din := fun _ => ⟨0, true, false, 0⟩
  dinValid := fun x => x == 0 && (n == 5 || n == 6)
  doutReady := fun y => y == 0 || 6 ≤ n

theorem fanOut_routes (n : Nat) : RoutesOneHot (fanOut n) := by
  intro _ _ _
  exact Or.inr ⟨0, rfl⟩

/-- Output 0 hands the beat on twice. -/
theorem beat_twice :
    ¬ (∀ n, Switches 0 fanOut n) ∧
    events (fun k => (switchRun 0 fanOut k).transferred (fanOut k) 0) 7 =
      [⟨0, true, false, 0⟩, ⟨0, true, false, 0⟩] ∧
    events (fun k => (switchRun 0 fanOut k).acceptedFor (fanOut k) 0) 7 =
      [⟨0, true, false, 0⟩] := by
  have htwice : events (fun k => (switchRun 0 fanOut k).transferred (fanOut k) 0) 7 =
      [⟨0, true, false, 0⟩, ⟨0, true, false, 0⟩] := by decide
  have honce : events (fun k => (switchRun 0 fanOut k).acceptedFor (fanOut k) 0) 7 =
      [⟨0, true, false, 0⟩] := by decide
  refine ⟨fun h => ?_, htwice, honce⟩
  have hdel := (h 7).delivered 0
  rw [htwice, honce] at hdel
  exact absurd hdel (by decide)

/-- For example, in that run. -/
theorem switches_iff_fanOut :
    (∀ n, Switches 0 fanOut n) ↔
      ∀ n, (switchRun 0 fanOut n).control = true → (switchRun 0 fanOut n).CycleOk (fanOut n) :=
  switches_iff 0 fanOut fanOut_routes

end Mfi.Switch
