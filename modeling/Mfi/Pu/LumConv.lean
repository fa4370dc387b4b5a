import Mfi.Core.Lpm
import Mfi.Core.Trace

/-!
# Brightness of the surroundings

A light sensor gives a mantissa and an exponent. A converter multiplies the mantissa by
the power of two and takes five bits of the product, or all ones where the product is too
large for them. The larger of two sensors counts.
-/

namespace Mfi.Pu.LumConv

open Core

/-! ## The converter -/

/-- The output. It tests four bits above the five that it takes. -/
def lumOut (lumE : BitVec 4) (lumResult : BitVec 24) : BitVec 5 :=
  if lumE = 0b1111#4 ∨ lumResult.extractLsb' 13 4 ≠ 0#4 then 0b11111#5
  else lumResult.extractLsb' 8 5

def lumResultNext (resetN : Bool) (lumE : BitVec 4) (lumM : BitVec 8) (lumResult : BitVec 24) :
    BitVec 24 :=
  mulNext resetN lumResult (0x0001#16 <<< lumE) lumM

/-! ## Both sensors -/

def lumE (reading : BitVec 12) : BitVec 4 := reading.extractLsb' 8 4

def lumM (reading : BitVec 12) : BitVec 8 := reading.extractLsb' 0 8

structure Input where
  resetN : Bool
  illuminanceLeft : BitVec 12
  illuminanceRight : BitVec 12
  deriving DecidableEq, Repr

structure Regs where
  lumResultLeft : BitVec 24
  lumResultRight : BitVec 24
  deriving DecidableEq, Repr

def step (r : Regs) (i : Input) : Regs :=
  { lumResultLeft :=
      lumResultNext i.resetN (lumE i.illuminanceLeft) (lumM i.illuminanceLeft) r.lumResultLeft
    lumResultRight :=
      lumResultNext i.resetN (lumE i.illuminanceRight) (lumM i.illuminanceRight)
        r.lumResultRight }

def illuminanceLeftValue (r : Regs) (i : Input) : BitVec 5 :=
  lumOut (lumE i.illuminanceLeft) r.lumResultLeft

def illuminanceRightValue (r : Regs) (i : Input) : BitVec 5 :=
  lumOut (lumE i.illuminanceRight) r.lumResultRight

def illuminanceMax (r : Regs) (i : Input) : BitVec 5 :=
  if illuminanceLeftValue r i > illuminanceRightValue r i then illuminanceLeftValue r i
  else illuminanceRightValue r i

/-! ## The value that is meant -/

def product (reading : BitVec 12) : Nat := (lumM reading).toNat * 2 ^ (lumE reading).toNat

/-- The product in units of 256, at most 31. The largest exponent stands for an overflow of the
sensor. -/
def luminance (reading : BitVec 12) : Nat :=
  if lumE reading = 0b1111#4 then 31 else min 31 (product reading / 256)

/-- The product is too large, but not in the bits that are tested. -/
def Overlooked (reading : BitVec 12) : Prop :=
  lumE reading ≠ 0b1111#4 ∧ 131072 ≤ product reading ∧ product reading % 131072 < 8192

def Saturated (reading : BitVec 12) : Prop :=
  (lumE reading = 0b1111#4 ∨ 7936 ≤ product reading) ∧ ¬Overlooked reading

/-- A reading that is overlooked does no harm where the other one is at the limit anyway. -/
def Fits (left right : BitVec 12) : Prop :=
  (Overlooked left → Saturated right) ∧ (Overlooked right → Saturated left)

instance (reading : BitVec 12) : Decidable (Overlooked reading) :=
  inferInstanceAs (Decidable (_ ∧ _))

instance (reading : BitVec 12) : Decidable (Saturated reading) :=
  inferInstanceAs (Decidable (_ ∧ _))

instance (left right : BitVec 12) : Decidable (Fits left right) :=
  inferInstanceAs (Decidable (_ ∧ _))

def converted (reading : BitVec 12) : Nat :=
  if lumE reading = 0b1111#4 ∨ product reading / 8192 % 16 ≠ 0 then 31
  else product reading / 256 % 32

theorem lumResultNext_toNat (lumResult : BitVec 24) (reading : BitVec 12) :
    (lumResultNext true (lumE reading) (lumM reading) lumResult).toNat = product reading := by
  have hpow : (0x0001#16 <<< lumE reading).toNat = 2 ^ (lumE reading).toNat := by
    have hlt : 2 ^ (lumE reading).toNat < 2 ^ 16 :=
      Nat.pow_lt_pow_right (by omega) (lumE reading).isLt
    rw [BitVec.shiftLeft_eq', BitVec.toNat_shiftLeft, Nat.shiftLeft_eq]
    simpa using hlt
  unfold lumResultNext product
  rw [mulNext_toNat, hpow, Nat.mul_comm]

theorem lumOut_toNat {lumResult : BitVec 24} {reading : BitVec 12}
    (h : lumResult.toNat = product reading) :
    (lumOut (lumE reading) lumResult).toNat = converted reading := by
  have hbits : lumResult.extractLsb' 13 4 = 0#4 ↔ product reading / 8192 % 16 = 0 := by
    rw [← BitVec.toNat_inj, BitVec.extractLsb'_toNat, h, Nat.shiftRight_eq_div_pow]
    rfl
  have hvalue : (lumResult.extractLsb' 8 5).toNat = product reading / 256 % 32 := by
    rw [BitVec.extractLsb'_toNat, h, Nat.shiftRight_eq_div_pow]
  unfold lumOut converted
  simp only [ne_eq, hbits]
  split
  · rfl
  · exact hvalue

/-- A product of 2 ^ 17 or more has an exponent of ten or more. -/
theorem product_dvd {reading : BitVec 12} (h : 131072 ≤ product reading) :
    1024 ∣ product reading := by
  have hm := (lumM reading).isLt
  have he : 10 ≤ (lumE reading).toNat := by
    rcases Nat.lt_or_ge (lumE reading).toNat 10 with hlow | hge
    · have hpow : 2 ^ (lumE reading).toNat ≤ 2 ^ 9 := Nat.pow_le_pow_right (by omega) (by omega)
      have hle := Nat.mul_le_mul (show (lumM reading).toNat ≤ 255 by omega) hpow
      unfold product at h
      omega
    · exact hge
  exact Nat.dvd_trans (Nat.pow_dvd_pow 2 he) (Nat.dvd_mul_left _ _)

theorem luminance_le (reading : BitVec 12) : luminance reading ≤ 31 := by
  unfold luminance
  split
  · exact Nat.le_refl 31
  · exact Nat.min_le_left 31 _

theorem luminance_eq_iff (reading : BitVec 12) :
    luminance reading = 31 ↔ lumE reading = 0b1111#4 ∨ 7936 ≤ product reading := by
  unfold luminance
  split
  · simp [*]
  · rename_i hlow
    simp only [hlow, false_or]
    omega

/-- The converter gives what is meant except where a product is overlooked; then it gives too
little. -/
theorem converted_eq {reading : BitVec 12} (h : ¬Overlooked reading) :
    converted reading = luminance reading := by
  unfold Overlooked at h
  unfold converted luminance
  by_cases he : lumE reading = 0b1111#4
  · simp [he]
  · simp only [he, not_false_eq_true, ne_eq, true_and, false_or, if_false] at h ⊢
    split <;> omega

theorem converted_lt {reading : BitVec 12} (h : Overlooked reading) : converted reading < 31 := by
  rcases h with ⟨he, hlarge, hlow⟩
  rcases product_dvd hlarge with ⟨k, hk⟩
  unfold converted
  rw [if_neg (by simp only [he, ne_eq, false_or, not_not]; omega)]
  omega

theorem luminance_of_overlooked {reading : BitVec 12} (h : Overlooked reading) :
    luminance reading = 31 := by
  rw [luminance_eq_iff]
  have hlarge := h.2.1
  omega

theorem converted_le (reading : BitVec 12) : converted reading ≤ luminance reading := by
  by_cases h : Overlooked reading
  · rw [luminance_of_overlooked h]
    exact (converted_lt h).le
  · exact (converted_eq h).le

theorem saturated_iff (reading : BitVec 12) : Saturated reading ↔ converted reading = 31 := by
  unfold Saturated
  rw [← luminance_eq_iff]
  constructor
  · intro h
    rw [converted_eq h.2]
    exact h.1
  · intro h
    have hle := converted_le reading
    have hmax := luminance_le reading
    constructor
    · omega
    · intro hover
      have hlt := converted_lt hover
      omega

theorem converted_max_iff (left right : BitVec 12) :
    max (converted left) (converted right) = max (luminance left) (luminance right) ↔
      Fits left right := by
  unfold Fits
  rw [saturated_iff, saturated_iff]
  have hleft := luminance_le left
  have hright := luminance_le right
  by_cases hl : Overlooked left
  · have hlumL := luminance_of_overlooked hl
    have hltL := converted_lt hl
    by_cases hr : Overlooked right
    · have hltR := converted_lt hr
      simp only [hl, hr, true_implies]
      omega
    · have heqR := converted_eq hr
      simp only [hl, hr, true_implies, false_implies, and_true]
      omega
  · have heqL := converted_eq hl
    by_cases hr : Overlooked right
    · have hlumR := luminance_of_overlooked hr
      have hltR := converted_lt hr
      simp only [hl, hr, true_implies, false_implies, true_and]
      omega
    · have heqR := converted_eq hr
      simp only [hl, hr, false_implies, and_true, iff_true]
      omega

theorem luminance_mono {reading reading' : BitVec 12} (he : lumE reading ≤ lumE reading')
    (hm : lumM reading ≤ lumM reading') : luminance reading ≤ luminance reading' := by
  by_cases htop : lumE reading' = 0b1111#4
  · have hmax := luminance_le reading
    unfold luminance at hmax ⊢
    rw [if_pos htop]
    exact hmax
  · have hbelow : lumE reading ≠ 0b1111#4 := by
      intro heq
      have hle := BitVec.le_def.mp (heq ▸ he)
      have hlt := (lumE reading').isLt
      exact htop (BitVec.eq_of_toNat_eq (by simp at hle ⊢; omega))
    have hprod : product reading ≤ product reading' :=
      Nat.mul_le_mul (BitVec.le_def.mp hm)
        (Nat.pow_le_pow_right (by omega) (BitVec.le_def.mp he))
    unfold luminance
    rw [if_neg htop, if_neg hbelow]
    exact min_le_min_left 31 (Nat.div_le_div_right hprod)

/-! ## Readings that do not change -/

/-- The readings are constant, and there is an edge out of reset. -/
structure Held (inp : Nat → Input) (left right : BitVec 12) : Prop where
  left : ∀ n, (inp n).illuminanceLeft = left
  right : ∀ n, (inp n).illuminanceRight = right
  runs : ∃ k, (inp k).resetN = true

/-- From some cycle on the larger value is `value`. -/
def SettlesTo (s : Regs) (inp : Nat → Input) (value : Nat) : Prop :=
  ∃ N, ∀ n, N ≤ n → (illuminanceMax (trace step s inp n) (inp n)).toNat = value

theorem products_hold {s : Regs} {inp : Nat → Input} {left right : BitVec 12}
    (h : Held inp left right) :
    ∃ N, ∀ n, N ≤ n →
      (trace step s inp n).lumResultLeft.toNat = product left ∧
        (trace step s inp n).lumResultRight.toNat = product right := by
  rcases h.runs with ⟨k, hk⟩
  use k + 1
  intro n hn
  induction hn with
  | refl =>
      rw [trace_succ]
      simp only [step, h.left, h.right, hk]
      exact ⟨lumResultNext_toNat _ left, lumResultNext_toNat _ right⟩
  | step hn ih =>
      rename_i m
      rw [trace_succ]
      simp only [step, h.left, h.right]
      cases hreset : (inp m).resetN with
      | false => exact ih
      | true => exact ⟨lumResultNext_toNat _ left, lumResultNext_toNat _ right⟩

theorem illuminanceMax_toNat {r : Regs} {i : Input}
    (hleft : r.lumResultLeft.toNat = product i.illuminanceLeft)
    (hright : r.lumResultRight.toNat = product i.illuminanceRight) :
    (illuminanceMax r i).toNat =
      max (converted i.illuminanceLeft) (converted i.illuminanceRight) := by
  have hl : (illuminanceLeftValue r i).toNat = converted i.illuminanceLeft := lumOut_toNat hleft
  have hr : (illuminanceRightValue r i).toNat = converted i.illuminanceRight := lumOut_toNat hright
  unfold illuminanceMax
  simp only [gt_iff_lt, BitVec.lt_def]
  split <;> omega

theorem settlesTo_converted {s : Regs} {inp : Nat → Input} {left right : BitVec 12}
    (h : Held inp left right) :
    SettlesTo s inp (max (converted left) (converted right)) := by
  rcases products_hold (s := s) h with ⟨N, hN⟩
  use N
  intro n hn
  have hprod := hN n hn
  have hvalue : _ = max _ _ :=
    illuminanceMax_toNat (i := inp n) (by rw [h.left]; exact hprod.1)
      (by rw [h.right]; exact hprod.2)
  rw [hvalue, h.left, h.right]

theorem settlesTo_unique {s : Regs} {inp : Nat → Input} {value value' : Nat}
    (h : SettlesTo s inp value) (h' : SettlesTo s inp value') : value = value' := by
  rcases h with ⟨N, hN⟩
  rcases h' with ⟨N', hN'⟩
  have hone := hN (N + N') (Nat.le_add_right N N')
  have hother := hN' (N + N') (Nat.le_add_left N' N)
  exact hone.symm.trans hother

/-- The larger value settles to the brightness that is meant exactly if no overlooked product
matters, and among such readings more light never gives less. -/
theorem illuminanceMax_settles_iff (s s' : Regs) (inp inp' : Nat → Input)
    (left right left' right' : BitVec 12) (h : Held inp left right) (h' : Held inp' left' right') :
    (SettlesTo s inp (max (luminance left) (luminance right)) ↔ Fits left right) ∧
      (Fits left right → Fits left' right' →
        lumE left ≤ lumE left' → lumM left ≤ lumM left' →
        lumE right ≤ lumE right' → lumM right ≤ lumM right' →
        ∃ value value', SettlesTo s inp value ∧ SettlesTo s' inp' value' ∧ value ≤ value') := by
  have hsettles := settlesTo_converted (s := s) h
  have hsettles' := settlesTo_converted (s := s') h'
  constructor
  · rw [← converted_max_iff]
    constructor
    · intro hmeant
      exact settlesTo_unique hsettles hmeant
    · intro heq
      rw [← heq]
      exact hsettles
  · intro hfits hfits' hel hml her hmr
    refine ⟨_, _, hsettles, hsettles', ?_⟩
    rw [(converted_max_iff left right).mpr hfits, (converted_max_iff left' right').mpr hfits']
    exact max_le_max (luminance_mono hel hml) (luminance_mono her hmr)

/-- Two sensors without overlooked products. -/
theorem illuminanceMax_settles_iff_at :
    SettlesTo ⟨0#24, 0#24⟩ (fun _ => ⟨true, 0x7FF#12, 0x200#12⟩) 31 ∧
      ∃ value value', SettlesTo ⟨0#24, 0#24⟩ (fun _ => ⟨true, 0x7FF#12, 0x200#12⟩) value ∧
        SettlesTo ⟨0#24, 0#24⟩ (fun _ => ⟨true, 0x8FF#12, 0x201#12⟩) value' ∧ value ≤ value' := by
  have hheld : Held (fun _ => ⟨true, 0x7FF#12, 0x200#12⟩) 0x7FF#12 0x200#12 :=
    ⟨fun _ => rfl, fun _ => rfl, 0, rfl⟩
  have hheld' : Held (fun _ => ⟨true, 0x8FF#12, 0x201#12⟩) 0x8FF#12 0x201#12 :=
    ⟨fun _ => rfl, fun _ => rfl, 0, rfl⟩
  have hboth := illuminanceMax_settles_iff ⟨0#24, 0#24⟩ ⟨0#24, 0#24⟩ _ _ _ _ _ _ hheld hheld'
  constructor
  · exact hboth.1.mpr (by decide)
  · exact hboth.2 (by decide) (by decide) (by decide) (by decide) (by decide) (by decide)

/-- A mantissa of 128 with an exponent of ten reads as darkness, one of 127 as full light. -/
theorem illuminanceMax_overlooks :
    ¬SettlesTo ⟨0#24, 0#24⟩ (fun _ => ⟨true, 0xA80#12, 0x000#12⟩)
        (max (luminance 0xA80#12) (luminance 0x000#12)) ∧
      SettlesTo ⟨0#24, 0#24⟩ (fun _ => ⟨true, 0xA80#12, 0x000#12⟩) 0 ∧
      SettlesTo ⟨0#24, 0#24⟩ (fun _ => ⟨true, 0xA7F#12, 0x000#12⟩) 31 := by
  have hheld : Held (fun _ => ⟨true, 0xA80#12, 0x000#12⟩) 0xA80#12 0x000#12 :=
    ⟨fun _ => rfl, fun _ => rfl, 0, rfl⟩
  have hheld' : Held (fun _ => ⟨true, 0xA7F#12, 0x000#12⟩) 0xA7F#12 0x000#12 :=
    ⟨fun _ => rfl, fun _ => rfl, 0, rfl⟩
  have hdark : SettlesTo ⟨0#24, 0#24⟩ (fun _ => ⟨true, 0xA80#12, 0x000#12⟩) 0 :=
    settlesTo_converted hheld
  constructor
  · intro hmeant
    exact absurd (settlesTo_unique hdark hmeant) (by decide)
  · constructor
    · exact hdark
    · exact settlesTo_converted hheld'

end Mfi.Pu.LumConv
