import Mfi.Core.Clamp
import Mfi.Pu.ServedTable

/-!
# The brightness level

When the coefficients are read, the level of each channel is computed in two clock
cycles: the sum of three of them, then the comparison with the limits. The sum register
has the width of a coefficient, so that the sum wraps before it is compared.
-/

namespace Mfi.Pu

open Core

/-! ## The pipeline -/

structure BkltLevel where
  loadShift : BitVec 3
  regPwmLoad : Fin 3 → Bool
  regPwmValue : Fin 3 → BitVec 12
  sumValues : Fin 3 → BitVec 12

namespace Coefficients

/-- The value selected by `light_cnt`. -/
def cntValue (t : Coefficients) (j : Fin 3) : BitVec 12 := t.values ⟨j.val, by omega⟩

/-- The value selected by `light_mcu`. -/
def mcuValue (t : Coefficients) (j : Fin 3) : BitVec 12 := t.values ⟨3 + j.val, by omega⟩

end Coefficients

namespace BkltLevel

def reset : BkltLevel := ⟨0, fun _ => false, fun _ => 0, fun _ => 0⟩

def step (p : BkltLevel) (b : Backlight) : BkltLevel where
  loadShift := p.loadShift.extractLsb' 0 2 ++ BitVec.ofBool b.control.load
  regPwmLoad _ := p.loadShift.getLsbD 2
  regPwmValue j :=
    if b.coefficients.maximum j < p.sumValues j then b.coefficients.maximum j
    else if p.sumValues j < b.coefficients.minimum j then b.coefficients.minimum j
    else p.sumValues j
  sumValues j :=
    b.coefficients.cntValue j + b.coefficients.mcuValue j + b.coefficients.illuminance

end BkltLevel

def levelRun (base timer : BitVec 32) (inp : Nat → BkltInput) : Nat → BkltLevel :=
  trace BkltLevel.step .reset (bkltRun base timer inp)

/-! ## The scan pauses after a load -/

/-- The timer is at zero from the begin of a phase to its end. -/
structure Paced (c : BkltControl) : Prop where
  timer : c.Active → c.timer = 0
  loaded : c.load = true → c.state = .idle ∧ c.timer = 0

section Pause

variable {c : BkltControl} {base timer : BitVec 32} {i : BkltInput} {inp : Nat → BkltInput}

theorem respond_timer (c d : BkltControl) : (c.respond d).timer = d.timer := by
  unfold BkltControl.respond
  cases c.phase <;> dsimp only <;> split <;> rfl

theorem respond_idle {c d : BkltControl} (hload : (c.respond d).load = true) :
    (c.respond d).state = .idle := by
  revert hload
  unfold BkltControl.respond
  cases c.phase <;> dsimp only <;> split
  all_goals first
    | exact fun _ => rfl
    | exact nofun

theorem Paced.of_idle (hs : c.state = .idle) (hload : c.load = false) : Paced c := by
  constructor
  · intro hactive
    exact absurd hactive (not_active hs)
  · intro htrue
    rw [hload] at htrue
    cases htrue

theorem Paced.of_zero (htimer : c.timer = 0) (hidle : c.load = true → c.state = .idle) :
    Paced c where
  timer _ := htimer
  loaded hload := ⟨hidle hload, htimer⟩

theorem Paced.step (h : Paced c) : Paced (c.step base i) := by
  cases hs : c.state with
  | idle =>
      rw [BkltControl.step_idle hs]
      cases c.timerEvent with
      | true => exact .of_zero rfl (fun hload => by cases hload)
      | false => exact .of_idle rfl rfl
  | read =>
      have htimer := h.timer (Or.inl hs)
      cases ha : c.accepts i with
      | true =>
          apply Paced.of_zero
          · simpa [BkltControl.step, BkltControl.scan, hs, ha, BkltControl.restart_eq] using htimer
          · simp [BkltControl.step, BkltControl.scan, hs, ha]
      | false =>
          rw [BkltControl.step_offer hs ha]
          exact .of_zero htimer (fun hload => by cases hload)
  | ack =>
      have htimer := h.timer (Or.inr hs)
      cases hv : i.bkltReaddatavalid with
      | false =>
          rw [BkltControl.step_wait hs hv]
          refine .of_zero htimer fun hload => ?_
          have hidle := (h.loaded hload).1
          rw [hs] at hidle
          cases hidle
      | true =>
          have hstep : c.step base i =
              { c.respond c.restart with nightMeta := i.night, nightLatch := c.nightMeta } := by
            simp only [BkltControl.step, BkltControl.scan, hs, hv, if_true]
          rw [hstep]
          apply Paced.of_zero
          · exact (respond_timer c c.restart).trans (by rw [BkltControl.restart_eq, htimer])
          · exact respond_idle
  | reset =>
      rw [BkltControl.step_reset hs]
      exact .of_idle rfl rfl

theorem paced_run (n : Nat) : Paced (bkltRun base timer inp n).control := by
  induction n with
  | zero =>
      constructor
      · intro hactive
        cases hactive with
        | inl hread => cases hread
        | inr hack => cases hack
      · intro hload
        cases hload
  | succ n ih => exact ih.step

/-- Four cycles after a load the scan still rests, with the coefficients as they were. -/
theorem rest_after_load {m : Nat} (hload : (bkltRun base timer inp m).control.load = true)
    {k : Nat} (hk : k ≤ 4) :
    (bkltRun base timer inp (m + k)).control.state = .idle ∧
      (bkltRun base timer inp (m + k)).control.timer = BitVec.ofNat 32 k ∧
      (bkltRun base timer inp (m + k)).coefficients = (bkltRun base timer inp m).coefficients := by
  induction k with
  | zero =>
      have hpaced := (paced_run m).loaded hload
      exact ⟨hpaced.1, hpaced.2, rfl⟩
  | succ k ih =>
      obtain ⟨hstate, htimer, hcoef⟩ := ih (by omega)
      have hevent : (bkltRun base timer inp (m + k)).control.timerEvent = false := by
        have hcases : k = 0 ∨ k = 1 ∨ k = 2 ∨ k = 3 := by omega
        rw [BkltControl.timerEvent, htimer]
        rcases hcases with rfl | rfl | rfl | rfl <;> rfl
      have hcontrol : (bkltRun base timer inp (m + k + 1)).control =
          (bkltRun base timer inp (m + k)).control.step base (inp (m + k)) := rfl
      have hnext : (bkltRun base timer inp (m + k + 1)).coefficients =
          (bkltRun base timer inp (m + k)).coefficients.step
            (bkltRun base timer inp (m + k)).control (inp (m + k)) := rfl
      rw [← Nat.add_assoc, hcontrol, hnext, BkltControl.step_idle hstate, hevent, htimer]
      refine ⟨rfl, ?_, ?_⟩
      · rw [BitVec.ofNat_add]
        rfl
      · rw [Coefficients.step, hstate]
        exact hcoef

end Pause

/-! ## A load of the channels -/

section Level

variable {base timer : BitVec 32} {inp : Nat → BkltInput}

theorem levelRun_succ (n : Nat) : levelRun base timer inp (n + 1) =
    (levelRun base timer inp n).step (bkltRun base timer inp n) := rfl

theorem loadShift_succ (n : Nat) {i : Nat} (hi : i + 1 < 3) :
    (levelRun base timer inp (n + 1)).loadShift.getLsbD (i + 1) =
      (levelRun base timer inp n).loadShift.getLsbD i := by
  rw [levelRun_succ, BkltLevel.step]
  dsimp only
  rw [BitVec.getLsbD_append, if_neg (by omega), BitVec.getLsbD_extractLsb',
    decide_eq_true (by omega), Bool.true_and, Nat.zero_add, Nat.add_sub_cancel]

theorem loadShift_bit (m : Nat) {i : Nat} (hi : i < 3) :
    (levelRun base timer inp (m + (i + 1))).loadShift.getLsbD i =
      (bkltRun base timer inp m).control.load := by
  induction i with
  | zero =>
      rw [levelRun_succ, BkltLevel.step]
      dsimp only
      rw [BitVec.getLsbD_append, if_pos (by decide)]
      cases (bkltRun base timer inp m).control.load <;> rfl
  | succ i ih => rw [← Nat.add_assoc, loadShift_succ _ hi, ih (by omega)]

theorem loadShift_early {n i : Nat} (hn : n ≤ i) (hi : i < 3) :
    (levelRun base timer inp n).loadShift.getLsbD i = false := by
  induction n generalizing i with
  | zero => exact BitVec.getLsbD_zero
  | succ n ih =>
      cases i with
      | zero => omega
      | succ i => rw [loadShift_succ n hi, ih (by omega) (by omega)]

theorem regPwmLoad_eq (m : Nat) (j : Fin 3) : (levelRun base timer inp (m + 4)).regPwmLoad j =
    (bkltRun base timer inp m).control.load := loadShift_bit m (by decide)

theorem load_before {n : Nat} {j : Fin 3}
    (hload : (levelRun base timer inp n).regPwmLoad j = true) :
    ∃ m, n = m + 4 ∧ (bkltRun base timer inp m).control.load = true := by
  by_cases hn : 4 ≤ n
  · obtain ⟨m, rfl⟩ := Nat.exists_eq_add_of_le' hn
    rw [regPwmLoad_eq] at hload
    exact ⟨m, rfl, hload⟩
  · cases n with
    | zero => cases hload
    | succ n =>
        have hbit : (levelRun base timer inp n).loadShift.getLsbD 2 = true := hload
        rw [loadShift_early (by omega) (by decide)] at hbit
        cases hbit

def Coefficients.sum (t : Coefficients) (j : Fin 3) : Nat :=
  (t.cntValue j).toNat + (t.mcuValue j).toNat + t.illuminance.toNat

theorem sumValues_toNat (p : BkltLevel) (b : Backlight) (j : Fin 3) :
    ((p.step b).sumValues j).toNat = b.coefficients.sum j % 4096 := by
  simp only [BkltLevel.step, BitVec.toNat_add, Nat.mod_add_mod]
  rfl

theorem regPwmValue_toNat (p : BkltLevel) (b : Backlight) {j : Fin 3}
    (hlimits : b.coefficients.minimum j ≤ b.coefficients.maximum j) :
    ((p.step b).regPwmValue j).toNat = clamp (b.coefficients.minimum j).toNat
      (b.coefficients.maximum j).toNat (p.sumValues j).toNat := by
  rw [clamp_eq_ite (BitVec.le_def.mp hlimits)]
  simp only [BkltLevel.step, BitVec.lt_def]
  split
  · rfl
  · split <;> rfl

/-- What a channel is loaded with: the wrapped sum, clamped. -/
theorem loaded_value {n : Nat} {j : Fin 3}
    (hload : (levelRun base timer inp n).regPwmLoad j = true)
    (hlimits : (bkltRun base timer inp n).coefficients.minimum j ≤
      (bkltRun base timer inp n).coefficients.maximum j) :
    ((levelRun base timer inp n).regPwmValue j).toNat =
      clamp ((bkltRun base timer inp n).coefficients.minimum j).toNat
        ((bkltRun base timer inp n).coefficients.maximum j).toNat
        ((bkltRun base timer inp n).coefficients.sum j % 4096) := by
  obtain ⟨m, rfl, hm⟩ := load_before hload
  have hrest : ∀ k ≤ 4, (bkltRun base timer inp (m + k)).coefficients =
      (bkltRun base timer inp m).coefficients := fun k hk => (rest_after_load hm hk).2.2
  rw [hrest 4 (by decide), ← hrest 3 (by decide)] at hlimits
  have hsum := sumValues_toNat (levelRun base timer inp (m + 2)) (bkltRun base timer inp (m + 2)) j
  have hvalue := regPwmValue_toNat (levelRun base timer inp (m + 3)) _ hlimits
  rw [← levelRun_succ] at hsum hvalue
  rw [hrest 4 (by decide), hvalue, hsum, hrest 3 (by decide), hrest 2 (by decide)]

end Level

/-! ## The level that is meant -/

/-- A load of a channel in a run from reset, with its limits in order. -/
structure ChannelLoad where
  base : BitVec 32
  timer : BitVec 32
  inp : Nat → BkltInput
  cycle : Nat
  channel : Fin 3
  loads : (levelRun base timer inp cycle).regPwmLoad channel = true
  limits : (bkltRun base timer inp cycle).coefficients.minimum channel ≤
    (bkltRun base timer inp cycle).coefficients.maximum channel

namespace ChannelLoad

def coefficients (l : ChannelLoad) : Coefficients :=
  (bkltRun l.base l.timer l.inp l.cycle).coefficients

/-- The value on `pwm_value`. -/
def value (l : ChannelLoad) : Nat :=
  ((levelRun l.base l.timer l.inp l.cycle).regPwmValue l.channel).toNat

def low (l : ChannelLoad) : Nat := (l.coefficients.minimum l.channel).toNat

def high (l : ChannelLoad) : Nat := (l.coefficients.maximum l.channel).toNat

def sum (l : ChannelLoad) : Nat := l.coefficients.sum l.channel

structure Right (l : ChannelLoad) : Prop where
  clamped : l.value = clamp l.low l.high l.sum
  inRange : l.low ≤ l.value ∧ l.value ≤ l.high

structure Below (l l' : ChannelLoad) : Prop where
  low : l.low = l'.low
  high : l.high = l'.high
  cntValue : l.coefficients.cntValue l.channel ≤ l'.coefficients.cntValue l'.channel
  mcuValue : l.coefficients.mcuValue l.channel ≤ l'.coefficients.mcuValue l'.channel
  illuminance : l.coefficients.illuminance ≤ l'.coefficients.illuminance

/-- The wrapped sum is clamped to the same level as the exact one. -/
def SumFits (l : ChannelLoad) : Prop :=
  l.sum < 4096 ∨ l.high ≤ l.sum % 4096 ∨ l.low = l.high

theorem limits_le (l : ChannelLoad) : l.low ≤ l.high := BitVec.le_def.mp l.limits

theorem value_eq (l : ChannelLoad) : l.value = clamp l.low l.high (l.sum % 4096) :=
  loaded_value l.loads l.limits

theorem inRange (l : ChannelLoad) : l.low ≤ l.value ∧ l.value ≤ l.high := by
  rw [l.value_eq]
  exact ⟨le_clamp _ _ _, clamp_le l.limits_le _⟩

theorem clamped_iff (l : ChannelLoad) : l.value = clamp l.low l.high l.sum ↔ l.SumFits := by
  have hhigh : l.high < 4096 := (l.coefficients.maximum l.channel).isLt
  rw [l.value_eq]
  exact clamp_mod_iff l.limits_le hhigh

theorem Below.sum_le {l l' : ChannelLoad} (h : l.Below l') : l.sum ≤ l'.sum :=
  Nat.add_le_add (Nat.add_le_add (BitVec.le_def.mp h.cntValue) (BitVec.le_def.mp h.mcuValue))
    (BitVec.le_def.mp h.illuminance)

end ChannelLoad

/-- The level is right exactly if the sum does not wrap below the upper limit, and among such
loads it grows with each of the addends. -/
theorem level_right_iff (l : ChannelLoad) :
    (l.Right ↔ l.SumFits) ∧
      ∀ l' : ChannelLoad, l.Below l' → l.SumFits → l'.SumFits → l.value ≤ l'.value := by
  constructor
  · constructor
    · intro hright
      exact l.clamped_iff.mp hright.clamped
    · intro hfits
      exact ⟨l.clamped_iff.mpr hfits, l.inRange⟩
  · intro l' hbelow hfits hfits'
    rw [l.clamped_iff.mpr hfits, l'.clamped_iff.mpr hfits', hbelow.low, hbelow.high]
    exact clamp_mono hbelow.sum_le

/-- Whatever the memory holds and whatever is selected, the coefficients of the day table are
loaded in some run. -/
theorem exists_load {mem : BitVec 32 → BitVec 32} {sel : Selectors} {j : Fin 3}
    (hlimits : (dayCoefficients mem sel).minimum j ≤ (dayCoefficients mem sel).maximum j) :
    ∃ l : ChannelLoad, l.inp = served mem sel ∧ l.channel = j ∧
      FromTable mem 0 sel false l.coefficients ∧ l.coefficients = dayCoefficients mem sel := by
  obtain ⟨m, hrun⟩ : ∃ m, bkltRun 0 0 (served mem sel) m =
      ⟨atPause .values true 7 0, dayCoefficients mem sel⟩ := ⟨servedCycle, served_loads mem sel⟩
  have hload : (bkltRun 0 0 (served mem sel) m).control.load = true := by
    rw [hrun]
    rfl
  have hcoef : (bkltRun 0 0 (served mem sel) (m + 4)).coefficients = dayCoefficients mem sel := by
    rw [(rest_after_load hload (Nat.le_refl 4)).2.2, hrun]
  have htable : FromTable mem 0 sel false
      (bkltRun 0 0 (served mem sel) (m + 4)).coefficients := by
    rw [hcoef]
    exact dayCoefficients_fromTable mem sel
  rw [← hcoef] at hlimits
  exact ⟨⟨0, 0, served mem sel, m + 4, j, (regPwmLoad_eq m j).trans hload, hlimits⟩, rfl, rfl,
    htable, hcoef⟩

/-! ## The shipped table -/

def cntRow : List Nat :=
  [0, 25, 51, 76, 102, 128, 153, 179, 207, 230, 256, 273, 292, 314, 340, 368, 400, 436, 475, 518,
    565, 617, 673, 733, 798, 868, 942, 1022, 1106, 1197, 1292, 1393]

def mcuRow : List Nat :=
  [0, 0, 0, 51, 102, 153, 204, 255, 306, 357, 408, 459, 510, 561, 612, 663, 714, 765, 816, 867,
    918, 969, 1020, 1071, 1122, 1173, 1224, 1275, 1326, 1377, 1290, 1393]

/-- The upper half of `backlight.mif`. -/
def dayTable (address : BitVec 32) : BitVec 32 :=
  let page := address.toNat / 32 % 8
  let index := address.toNat % 32
  BitVec.ofNat 32
    (if page = 7 then 0
    else if 3 ≤ page ∧ page < 6 then mcuRow.getD index 0
    else cntRow.getD index 0)

def brightest : Selectors := ⟨false, 31, 31, 31⟩

theorem brightest_coefficients :
    ((dayCoefficients dayTable brightest).minimum 0).toNat = 25 ∧
      ((dayCoefficients dayTable brightest).maximum 0).toNat = 1393 ∧
      (dayCoefficients dayTable brightest).sum 0 = 4179 := by
  decide

/-- With the shipped table the greatest level of all is loaded as 83 instead of 1393. -/
theorem brightest_level_wraps :
    ∃ l : ChannelLoad, l.inp = served dayTable brightest ∧ l.low = 25 ∧ l.high = 1393 ∧
      l.sum = 4179 ∧ l.value = 83 ∧ ¬ l.Right := by
  obtain ⟨hminimum, hmaximum, hsum⟩ := brightest_coefficients
  have hlimits : (dayCoefficients dayTable brightest).minimum 0 ≤
      (dayCoefficients dayTable brightest).maximum 0 := by
    rw [BitVec.le_def, hminimum, hmaximum]
    decide
  obtain ⟨l, hinp, hchannel, _, hcoef⟩ := exists_load hlimits
  have hlow : l.low = 25 := by rw [ChannelLoad.low, hcoef, hchannel, hminimum]
  have hhigh : l.high = 1393 := by rw [ChannelLoad.high, hcoef, hchannel, hmaximum]
  have htotal : l.sum = 4179 := by rw [ChannelLoad.sum, hcoef, hchannel, hsum]
  have hvalue := l.value_eq
  rw [hlow, hhigh, htotal] at hvalue
  refine ⟨l, hinp, hlow, hhigh, htotal, hvalue, fun hright => ?_⟩
  have hclamped := hright.clamped
  rw [hvalue, hlow, hhigh, htotal] at hclamped
  exact absurd hclamped (by decide)

end Mfi.Pu
