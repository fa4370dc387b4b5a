import Mfi.Arinc429.RxIdle
import Mfi.Arinc429.WordPort

/-!
# The words of the receiver are far apart

After a valid strobe `sig_valid` stays high until a gap on the line clears the bit
counter, and then 32 further bits have to be counted: the outputs of the receiver
are a word port as the receive controller needs it.
-/

namespace Mfi.Arinc429

open Core

/-- `sig_valid` is high only with the bit counter at its end. -/
def RxBits.Sound (b : RxBits) : Prop := b.sigValid = true → 31 ≤ b.cntBit

theorem RxBits.Sound.shift {b : RxBits} (bit : Bool) : (b.shift bit).Sound := by
  intro hvalid
  have hcnt : 31 ≤ b.cntBit := of_decide_eq_true hvalid
  simp only [RxBits.shift]
  rw [if_neg (by omega)]
  exact hcnt

theorem follow_cases (b : RxBits) (r r' : RxFront) :
    b.follow r r' = b ∨ b.follow r r' = .reset ∨ ∃ bit, b.follow r r' = b.shift bit := by
  unfold RxBits.follow
  split
  · exact Or.inr (Or.inl rfl)
  · split
    · exact Or.inr (Or.inr ⟨_, rfl⟩)
    · exact Or.inl rfl

namespace Arinc429Rx

variable {E f : Nat} {s : Arinc429Rx} {pins : Nat → RxPins} {i : RxPins}

def port (s : Arinc429Rx) : RxPort := ⟨s.srcRxValid, s.srcRxData, s.parErr⟩

theorem bits_cases (h : Running E s) (hi : rxDevider f i.speed = E) :
    (s.step f i).bits = s.bits ∨ (s.step f i).bits = .reset ∨
      ∃ bit, (s.step f i).bits = s.bits.shift bit := by
  have hbits := congrArg RxSampled.bits (cycle h hi).sampled
  change (s.step f i).bits = _ at hbits
  rw [hbits]
  split
  · exact follow_cases _ _ _
  · exact Or.inl rfl

theorem bits_sound (h : Running E s) (hi : rxDevider f i.speed = E) (hs : s.bits.Sound) :
    (s.step f i).bits.Sound := by
  rcases bits_cases h hi with hb | hb | ⟨bit, hb⟩
  · rw [hb]
    exact hs
  · rw [hb]
    intro hvalid
    cases hvalid
  · rw [hb]
    exact .shift bit

/-- In cycle `j` after a valid strobe no new one is due. -/
def Spent (j : Nat) (s : Arinc429Rx) : Prop :=
  s.d1Trigger = true ∧ s.bits.sigValid = true ∨ s.bits.sigValid = false ∧ s.bits.cntBit ≤ j

theorem Spent.no_strobe {j : Nat} (h : Spent j s) : (s.bits.sigValid && !s.d1Trigger) = false := by
  rcases h with ⟨hd1, hvalid⟩ | ⟨hvalid, _⟩
  · rw [hd1, Bool.not_true, Bool.and_false]
  · rw [hvalid, Bool.false_and]

theorem spent_step (h : Running E s) (hi : rxDevider f i.speed = E) (hs : s.bits.Sound) {j : Nat}
    (hj : j < 31) (hspent : s.bits.sigValid = true ∨ s.bits.cntBit ≤ j) :
    Spent (j + 1) (s.step f i) := by
  have hd1 := (cycle h hi).d1Trigger
  cases hvalid : s.bits.sigValid with
  | true =>
      have hcnt := hs hvalid
      rw [hvalid] at hd1
      rcases bits_cases h hi with hb | hb | ⟨bit, hb⟩
      · exact Or.inl ⟨hd1, by rw [hb, hvalid]⟩
      · exact Or.inr ⟨by rw [hb]; rfl, by rw [hb]; exact Nat.zero_le _⟩
      · refine Or.inl ⟨hd1, ?_⟩
        rw [hb]
        exact decide_eq_true hcnt
  | false =>
      have hcnt : s.bits.cntBit ≤ j := by
        rcases hspent with ht | hle
        · rw [hvalid] at ht
          cases ht
        · exact hle
      rcases bits_cases h hi with hb | hb | ⟨bit, hb⟩
      · exact Or.inr ⟨by rw [hb, hvalid], by rw [hb]; omega⟩
      · exact Or.inr ⟨by rw [hb]; rfl, by rw [hb]; exact Nat.zero_le _⟩
      · refine Or.inr ⟨?_, ?_⟩ <;> rw [hb]
        · exact decide_eq_false (by omega)
        · simp only [RxBits.shift]
          split <;> omega

/-- The outputs of a running receiver keep the rule of the word port. -/
theorem wordPort (h : Sound E s) (hs : s.bits.Sound) (hlow : s.srcRxValid = false)
    (hspeed : ∀ n, rxDevider f (pins n).speed = E) :
    WordPort fun n => (trace (step f) s pins n).port := by
  have hrun := running_run h.running hspeed
  have hsound : ∀ n, (trace (step f) s pins n).bits.Sound :=
    trace_invariant (fun _ (s : Arinc429Rx) => s.bits.Sound) hs
      fun n hn => bits_sound (hrun n) (hspeed n) hn
  have hcycle := fun n => cycle (hrun n) (hspeed n)
  refine ⟨fun n k hn hpos hk => ?_, fun n hn => ?_, fun n hn => ?_⟩
  · obtain ⟨m, rfl⟩ : ∃ m, n = m + 1 := by
      cases n with
      | zero => exact absurd hn (by simp [port, hlow])
      | succ m => exact ⟨m, rfl⟩
    have hstrobe : ((trace (step f) s pins m).bits.sigValid &&
        !(trace (step f) s pins m).d1Trigger) = true := (hcycle m).srcRxValid.symm.trans hn
    have hvalid := (Bool.and_eq_true _ _ ▸ hstrobe).1
    -- the strobe is spent, cycle by cycle
    have hspent : ∀ j ≤ 16, Spent (j + 1) (trace (step f) s pins (m + 1 + j)) := by
      intro j hj
      induction j with
      | zero => exact spent_step (hrun m) (hspeed m) (hsound m) (by omega) (Or.inl hvalid)
      | succ j ih =>
          apply spent_step (hrun _) (hspeed _) (hsound _) (by omega)
          rcases ih (by omega) with ⟨_, hv⟩ | ⟨_, hle⟩
          · exact Or.inl hv
          · exact Or.inr hle
    obtain ⟨j, rfl⟩ : ∃ j, k = j + 1 := ⟨k - 1, by omega⟩
    unfold wordGap at hk
    exact (hcycle (m + 1 + j)).srcRxValid.trans (hspent j (by omega)).no_strobe
  · have hlow : ((trace (step f) s pins n).bits.sigValid &&
        !(trace (step f) s pins n).d1Trigger) = false := (hcycle n).srcRxValid.symm.trans hn
    have hdata := (hcycle n).srcRxData
    rw [hlow] at hdata
    exact hdata
  · have hlow : ((trace (step f) s pins n).bits.sigValid &&
        !(trace (step f) s pins n).d1Trigger) = false := (hcycle n).srcRxValid.symm.trans hn
    have herr := (hcycle n).parErr
    rw [hlow] at herr
    exact herr

end Arinc429Rx

end Mfi.Arinc429
