import Mfi.Adv7613Check
import Mfi.Core.Timer

/-!
# Times of the watch over the video receivers

Two times are given to the master in microseconds: the wait between its passes and the
reset of the receivers. Both are multiplied by the frequency of the clock in 32 bits
before the division, and are counted in 16 bits. A product that fits into its 32 bits
gives a time that the counter reaches; one that does not gives another time, or none.
Only the wait is ever counted: the error that starts the reset is set by reads alone.
-/

namespace Mfi.Adv7613Check

open Core

/-! ## What the times are meant to be -/

def Params.cycles (p : Params) (mks : BitVec 32) : Nat :=
  mks.toNat * p.inClkHz.toNat / 1000000

/-- The product of the time and the frequency is a number of its 32 bits. -/
def Params.Fits (p : Params) (mks : BitVec 32) : Prop :=
  mks.toNat * p.inClkHz.toNat < if p.signed then 2147483648 else 4294967296

/-- The master enters state `s` with cycle `n`. -/
def Enters (rs : Nat → Regs) (s : AmmState) (n : Nat) : Prop :=
  (rs n).ammCurrentState ≠ s ∧ (rs (n + 1)).ammCurrentState = s

/-- From cycle `n` on the master is in state `s` for exactly `t` cycles, and then in `next`. -/
def Lasts (rs : Nat → Regs) (s next : AmmState) (n t : Nat) : Prop :=
  (∀ k < t, (rs (n + k)).ammCurrentState = s) ∧ (rs (n + t)).ammCurrentState = next

/-- Each wait and each reset along the run has its time. -/
structure KeepsTimes (p : Params) (rs : Nat → Regs) : Prop where
  waits : ∀ n, Enters rs .waitTimerDone n →
    Lasts rs .waitTimerDone .work (n + 1) (p.cycles p.timerDelayMks)
  resets : ∀ n, Enters rs .workDone n → (rs (n + 1)).error = true →
    Lasts rs .workDone .waitTimerDone (n + 1) (p.cycles p.adv7613TimerResetMks)

/-! ## What the parameters give -/

theorem ticks_of_low {p : Params} {mks : BitVec 32}
    (h : p.signed = false ∨ (mks * p.inClkHz).msb = false) :
    (p.ticks mks).toNat = (mks * p.inClkHz).toNat / 1000000 := by
  unfold Params.ticks
  cases hsigned : p.signed with
  | false => exact BitVec.toNat_udiv
  | true =>
      have hmsb : (mks * p.inClkHz).msb = false := by
        rcases h with hplain | hmsb
        · rw [hsigned] at hplain
          cases hplain
        · exact hmsb
      rw [if_pos rfl, BitVec.sdiv_eq, hmsb]
      exact BitVec.toNat_udiv

theorem ticks_of_high {p : Params} {mks : BitVec 32} (hsigned : p.signed = true)
    (hmsb : (mks * p.inClkHz).msb = true) :
    (p.ticks mks).toNat =
      (4294967296 - (4294967296 - (mks * p.inClkHz).toNat) % 4294967296 / 1000000) %
        4294967296 := by
  rw [Params.ticks, hsigned, if_pos rfl, BitVec.sdiv_eq, hmsb]
  show (-(-(mks * p.inClkHz) / 1000000#32)).toNat = _
  rw [BitVec.toNat_neg, BitVec.toNat_udiv, BitVec.toNat_neg]
  rfl

/-- The limit of a counter is the time less one, and the counter reaches it, exactly if the
product fits. A zero or a negative quotient gives a limit near the end of 32 bits. -/
theorem limit_iff (p : Params) (mks : BitVec 32) (h : 1 ≤ p.cycles mks) :
    ((p.ticks mks - 1).toNat < 2 ^ 16 ∧ p.cycles mks = (p.ticks mks - 1).toNat + 1) ↔
      p.Fits mks := by
  have hproduct : (mks * p.inClkHz).toNat = mks.toNat * p.inClkHz.toNat % 4294967296 :=
    BitVec.toNat_mul mks p.inClkHz
  have hlimit : (p.ticks mks - 1).toNat = (4294967295 + (p.ticks mks).toNat) % 4294967296 :=
    BitVec.toNat_sub (p.ticks mks) 1
  rw [hlimit]
  unfold Params.cycles Params.Fits at *
  generalize mks.toNat * p.inClkHz.toNat = product at *
  cases hsigned : p.signed with
  | false =>
      rw [ticks_of_low (Or.inl hsigned), if_neg Bool.false_ne_true]
      omega
  | true =>
      rw [if_pos rfl]
      cases hmsb : (mks * p.inClkHz).msb with
      | false =>
          have hlow := BitVec.toNat_lt_of_msb_false hmsb
          rw [ticks_of_low (Or.inr hmsb)]
          omega
      | true =>
          have hhigh := BitVec.toNat_ge_of_msb_true hmsb
          rw [ticks_of_high hsigned hmsb]
          omega

/-! ## The counters along a run -/

section Run

variable {p : Params} {r : Regs} {inp : Nat → Input}

/-- What holds in every run: there is no read and no error, and a write belongs to a pass. -/
structure Sound (r : Regs) : Prop where
  write : r.ammCurrentState = .write → r.ammPrevState = .work
  noRead : r.ammCurrentState ≠ .read ∧ r.ammCurrentState ≠ .ack
  noError : r.error = false

theorem step_of_work (i : Input) (hstate : r.ammCurrentState = .work) :
    (step p r i).ammPrevState = .work ∧ (step p r i).error = r.error ∧
      ((step p r i).ammCurrentState = .write ∨
        (step p r i).ammCurrentState = .workDone ∧ (step p r i).ammCnt = 0#16) := by
  unfold step
  rw [hstate]
  dsimp only
  rw [workArray_isRead, if_neg Bool.false_ne_true]
  by_cases hindex : r.ammIndex.toNat < 2
  · rw [if_pos hindex]
    exact ⟨rfl, rfl, Or.inl rfl⟩
  · rw [if_neg hindex]
    exact ⟨rfl, rfl, Or.inr ⟨rfl, rfl⟩⟩

theorem step_of_write (i : Input) (hstate : r.ammCurrentState = .write) :
    step p r i = r ∨
      (step p r i).error = r.error ∧ (step p r i).ammCurrentState = r.ammPrevState := by
  unfold step
  rw [hstate]
  dsimp only
  cases i.waitrequest with
  | true => exact Or.inl rfl
  | false => exact Or.inr ⟨rfl, rfl⟩

theorem step_of_wait (i : Input) (hstate : r.ammCurrentState = .waitTimerDone) :
    (step p r i).error = false ∧
      (r.ammCnt.toNat < (p.timerDelay - 1).toNat ∧
          (step p r i).ammCurrentState = .waitTimerDone ∧ (step p r i).ammCnt = r.ammCnt + 1 ∨
        (p.timerDelay - 1).toNat ≤ r.ammCnt.toNat ∧ (step p r i).ammCurrentState = .work) := by
  unfold step
  rw [hstate]
  dsimp only
  by_cases hless : r.ammCnt.toNat < (p.timerDelay - 1).toNat
  · rw [if_pos hless, if_pos hless]
    exact ⟨rfl, Or.inl ⟨hless, rfl, rfl⟩⟩
  · rw [if_neg hless]
    exact ⟨rfl, Or.inr ⟨Nat.le_of_not_lt hless, rfl⟩⟩

theorem step_of_done (i : Input) (hstate : r.ammCurrentState = .workDone)
    (herror : r.error = false) : step p r i = r := by
  unfold step
  rw [hstate]
  dsimp only
  rw [herror, if_neg Bool.false_ne_true]

theorem sound_of_state {r : Regs} {s : AmmState} (hstate : r.ammCurrentState = s)
    (hs : s = .init ∨ s = .waitTimerDone ∨ s = .work ∨ s = .workDone)
    (herror : r.error = false) : Sound r := by
  subst hstate
  constructor
  · intro hwrite
    rw [hwrite] at hs
    simp at hs
  · constructor
    · intro hread
      rw [hread] at hs
      simp at hs
    · intro hack
      rw [hack] at hs
      simp at hs
  · exact herror

theorem sound_step (h : Sound r) (i : Input) : Sound (step p r i) := by
  cases hstate : r.ammCurrentState with
  | read => exact absurd hstate h.noRead.1
  | ack => exact absurd hstate h.noRead.2
  | write =>
      rcases step_of_write (p := p) i hstate with hsame | ⟨herror, hnext⟩
      · rw [hsame]
        exact h
      · apply sound_of_state (hnext.trans (h.write hstate)) _ (herror.trans h.noError)
        exact Or.inr (Or.inr (Or.inl rfl))
  | work =>
      obtain ⟨hprev, herror, hnext⟩ := step_of_work (p := p) i hstate
      rcases hnext with hwrite | ⟨hdone, _⟩
      · exact ⟨fun _ => hprev, by simp [hwrite], herror.trans h.noError⟩
      · apply sound_of_state hdone _ (herror.trans h.noError)
        exact Or.inr (Or.inr (Or.inr rfl))
  | reset =>
      apply sound_of_state (s := .init)
      · rw [step, hstate]
      · exact Or.inl rfl
      · rw [step, hstate]
  | init =>
      apply sound_of_state (s := .waitTimerDone)
      · rw [step, hstate]
      · exact Or.inr (Or.inl rfl)
      · rw [step, hstate]
  | waitTimerDone =>
      obtain ⟨herror, ⟨_, hnext, _⟩ | ⟨_, hnext⟩⟩ := step_of_wait (p := p) i hstate
      · exact sound_of_state hnext (Or.inr (Or.inl rfl)) herror
      · exact sound_of_state hnext (Or.inr (Or.inr (Or.inl rfl))) herror
  | workDone =>
      rw [step_of_done i hstate h.noError]
      exact h

theorem sound_run (n : Nat) : Sound (run p inp n) := by
  induction n with
  | zero => exact ⟨nofun, ⟨nofun, nofun⟩, rfl⟩
  | succ n ih => exact sound_step ih (inp n)

theorem clear_of_enters {n : Nat} (henter : Enters (run p inp) .waitTimerDone n) :
    (run p inp (n + 1)).ammCnt = 0#16 := by
  obtain ⟨hbefore, hafter⟩ := henter
  have hsound : Sound (run p inp n) := sound_run n
  rw [run_succ] at hafter ⊢
  cases hstate : (run p inp n).ammCurrentState with
  | read => exact absurd hstate hsound.noRead.1
  | ack => exact absurd hstate hsound.noRead.2
  | waitTimerDone => exact absurd hstate hbefore
  | write =>
      rcases step_of_write (p := p) (inp n) hstate with hsame | ⟨_, hnext⟩
      · rw [hsame, hstate] at hafter
        cases hafter
      · rw [hnext, hsound.write hstate] at hafter
        cases hafter
  | work =>
      rcases (step_of_work (p := p) (inp n) hstate).2.2 with hnext | ⟨_, hclear⟩
      · rw [hnext] at hafter
        cases hafter
      · exact hclear
  | reset => rw [step, hstate]
  | init => rw [step, hstate]
  | workDone =>
      rw [step_of_done _ hstate hsound.noError, hstate] at hafter
      cases hafter

theorem counts_wait {n : Nat} (henter : Enters (run p inp) .waitTimerDone n) :
    Counts (p.timerDelay - 1).toNat
      (fun k => (run p inp (n + 1 + k)).ammCurrentState = .waitTimerDone)
      (fun k => (run p inp (n + 1 + k)).ammCurrentState = .work)
      (fun k => (run p inp (n + 1 + k)).ammCnt) where
  starts := henter.2
  clear := clear_of_enters henter
  counts := by
    intro k hbusy hless
    rcases (step_of_wait (p := p) (inp (n + 1 + k)) hbusy).2 with ⟨_, hnext, hcnt⟩ | ⟨hfar, _⟩
    · exact ⟨hnext, hcnt⟩
    · omega
  ends := by
    intro k hbusy hfar
    rcases (step_of_wait (p := p) (inp (n + 1 + k)) hbusy).2 with ⟨hless, _⟩ | ⟨_, hnext⟩
    · omega
    · exact hnext

theorem lasts_wait_iff {n : Nat} (henter : Enters (run p inp) .waitTimerDone n)
    (htime : 1 ≤ p.cycles p.timerDelayMks) :
    Lasts (run p inp) .waitTimerDone .work (n + 1) (p.cycles p.timerDelayMks) ↔
      p.Fits p.timerDelayMks := by
  rw [← limit_iff p p.timerDelayMks htime]
  apply (counts_wait henter).lasts_iff (fun _ hbusy => hbusy)
  intro k hwait hwork
  rw [hwait] at hwork
  cases hwork

theorem enters_wait : Enters (run p inp) .waitTimerDone 1 := by
  constructor
  · exact nofun
  · rfl

end Run

/-! ## When the times are kept -/

/-- The times are kept in a run exactly if the product of the wait fits into 32 bits, or into 31
where it is computed with sign. -/
theorem keepsTimes_iff (p : Params) (inp : Nat → Input) (hdelay : 1 ≤ p.cycles p.timerDelayMks) :
    KeepsTimes p (run p inp) ↔ p.Fits p.timerDelayMks := by
  constructor
  · exact fun hkeeps => (lasts_wait_iff enters_wait hdelay).1 (hkeeps.waits 1 enters_wait)
  · intro hfits
    constructor
    · exact fun n henter => (lasts_wait_iff henter hdelay).2 hfits
    · intro n _ herror
      rw [(sound_run (n + 1)).noError] at herror
      cases herror

/-- The default parameters. -/
theorem keepsTimes_default :
    KeepsTimes ⟨50000000#32, 1#32, 0#32, 3#32, 10000#32, false⟩
      (run ⟨50000000#32, 1#32, 0#32, 3#32, 10000#32, false⟩ (fun _ => ⟨0#8, false⟩)) := by
  apply (keepsTimes_iff _ _ (by decide)).2
  unfold Params.Fits
  decide

/-- The instance of the system, with a wait of half a second at 80 MHz: of the product only the
remainder is left, and the wait ends after 969 cycles. -/
theorem instance_misses :
    ¬ KeepsTimes ⟨80000000#32, 500000#32, 0#32, 0#32, 10000#32, true⟩
      (run ⟨80000000#32, 500000#32, 0#32, 0#32, 10000#32, true⟩ (fun _ => ⟨0#8, false⟩)) := by
  intro hkeeps
  have hfits := (lasts_wait_iff enters_wait (by decide)).1 (hkeeps.waits 1 enters_wait)
  unfold Params.Fits at hfits
  revert hfits
  decide

end Mfi.Adv7613Check
