import Mathlib.Algebra.Group.Nat.Defs
import Mathlib.Tactic.ByContra
import Mfi.Core.Clamp
import Mfi.Core.Trace

/-!
# Level of the test inputs

Three test inputs are turned into a level between two limits: each gives a term that grows
with it, two of the terms have limits of their own, and the sum is clamped. The circuit is a
pipeline of four stages. The products that the two terms are divided from have as many bits
as their factors.
-/

namespace Mfi.PwmCalc

open Core

structure Input where
  pwmMax : BitVec 16
  pwmMin : BitVec 16
  testManual : BitVec 16
  testSensors : BitVec 16
  testAnalogext : BitVec 16
  deriving DecidableEq, Repr

structure Regs where
  lVal : BitVec 20
  lSens : BitVec 20
  lExt : BitVec 20
  lValTh : BitVec 20
  lSensTh : BitVec 20
  lExtTh : BitVec 20
  lTotal : BitVec 32
  lTotalTh : BitVec 32
  deriving DecidableEq, Repr

/-! ## The circuit -/

def sensMax : BitVec 16 := 0xFFF#16
def analogMax : BitVec 16 := 0x1FF#16

def pwmD (i : Input) : BitVec 16 := i.pwmMax - i.pwmMin

def sensMaxVal (i : Input) : BitVec 20 := ((pwmD i >>> 1) + i.pwmMin).signExtend 20

def extMaxVal (i : Input) : BitVec 20 := (sensMaxVal i).sshiftRight 2

def sensMinVal (i : Input) : BitVec 20 := (i.pwmMin - (pwmD i).sshiftRight 1).signExtend 20

def extMinVal (i : Input) : BitVec 20 := (sensMinVal i).sshiftRight 2

/-- The divisor has no sign, so nothing in this expression has. -/
def lValNext (i : Input) : BitVec 20 :=
  (i.testManual.setWidth 20 - 1#20) * (pwmD i).setWidth 20 / 0xE#20 + i.pwmMin.setWidth 20

/-- Each cast makes the width of its operand its own, so the product has 16 bits. -/
def term (i : Input) (test limit : BitVec 16) : BitVec 20 :=
  (i.pwmMin + ((test <<< 1 - limit) * pwmD i).sdiv (limit <<< 1)).signExtend 20

def limited {w : Nat} (lo hi x : BitVec w) : BitVec w :=
  if x.slt lo then lo else if hi.slt x then hi else x

def step (r : Regs) (i : Input) : Regs :=
  { lVal := lValNext i
    lSens := term i i.testSensors sensMax
    lExt := term i i.testAnalogext analogMax
    lValTh := limited (i.pwmMin.signExtend 20) (i.pwmMax.signExtend 20) r.lVal
    lSensTh := limited (sensMinVal i) (sensMaxVal i) r.lSens
    lExtTh := limited (extMinVal i) (extMaxVal i) r.lExt
    lTotal := r.lValTh.signExtend 32 + r.lSensTh.signExtend 32 + r.lExtTh.signExtend 32
    lTotalTh := limited (i.pwmMin.signExtend 32) (i.pwmMax.signExtend 32) r.lTotal }

def pwmVal (source : BitVec 17) (r : Regs) : BitVec 16 :=
  if source.getLsbD 16 then source.setWidth 16 else r.lTotalTh.setWidth 16

/-! ## What it is meant to compute -/

structure Limits where
  pwmMax : BitVec 16
  pwmMin : BitVec 16
  nonneg : 0 ≤ pwmMin.toInt
  min_le : pwmMin.toInt ≤ pwmMax.toInt
  max_le : pwmMax.toInt ≤ 4095

structure Test where
  testManual : BitVec 16
  testSensors : BitVec 16
  testAnalogext : BitVec 16
  manual_ge : 1 ≤ testManual.toInt
  manual_le : testManual.toInt ≤ 15
  sensors_ge : 0 ≤ testSensors.toInt
  sensors_le : testSensors.toInt ≤ 4095
  analogext_ge : 0 ≤ testAnalogext.toInt
  analogext_le : testAnalogext.toInt ≤ 511

def Limits.d (l : Limits) : Int := l.pwmMax.toInt - l.pwmMin.toInt

def input (l : Limits) (t : Test) : Input :=
  { pwmMax := l.pwmMax, pwmMin := l.pwmMin, testManual := t.testManual,
    testSensors := t.testSensors, testAnalogext := t.testAnalogext }

/-- The level after `n` cycles with constant inputs and no override. -/
def value (l : Limits) (t : Test) (r : Regs) (n : Nat) : Int :=
  (pwmVal 0#17 (trace step r (fun _ => input l t) n)).toInt

def manualTerm (l : Limits) (manual : Int) : Int :=
  ((manual - 1) * l.d).tdiv 14 + l.pwmMin.toInt

/-- A term with the product as it is, or as it is wrapped. -/
def sensTerm (l : Limits) (wrap : Int → Int) (sensors : Int) : Int :=
  clamp (l.pwmMin.toInt - l.d / 2) (l.pwmMin.toInt + l.d / 2)
    (l.pwmMin.toInt + (wrap ((2 * sensors - 4095) * l.d)).tdiv 8190)

def extTerm (l : Limits) (wrap : Int → Int) (analogext : Int) : Int :=
  clamp ((l.pwmMin.toInt - l.d / 2) / 4) ((l.pwmMin.toInt + l.d / 2) / 4)
    (l.pwmMin.toInt + (wrap ((2 * analogext - 511) * l.d)).tdiv 1022)

def level (l : Limits) (wrap : Int → Int) (t : Test) : Int :=
  clamp l.pwmMin.toInt l.pwmMax.toInt (manualTerm l t.testManual.toInt +
    sensTerm l wrap t.testSensors.toInt + extTerm l wrap t.testAnalogext.toInt)

/-- The level settles to the clamped sum of the exact terms, and grows with each test input. -/
structure Computes (l : Limits) : Prop where
  settles : ∀ t r, ∀ n ≥ 4, value l t r n = level l id t
  grows : ∀ t t' r r', t.testManual.toInt ≤ t'.testManual.toInt →
    t.testSensors.toInt ≤ t'.testSensors.toInt →
    t.testAnalogext.toInt ≤ t'.testAnalogext.toInt →
    ∀ n ≥ 4, ∀ n' ≥ 4, value l t r n ≤ value l t' r' n'

/-! ## Words -/

section Words

theorem bmod16 {x : Int} (hlo : -32768 ≤ x) (hhi : x < 32768) : x.bmod (2 ^ 16) = x := by
  apply Int.bmod_eq_of_le_mul_two
  · show -65536 ≤ x * 2
    omega
  · show x * 2 < 65536
    omega

theorem bmod16_range (x : Int) : -32768 ≤ x.bmod (2 ^ 16) ∧ x.bmod (2 ^ 16) < 32768 := by
  have hlo := Int.le_bmod (x := x) (show 0 < 2 ^ 16 by omega)
  have hhi := Int.bmod_lt (x := x) (show 0 < 2 ^ 16 by omega)
  constructor
  · exact hlo
  · exact hhi

theorem bmod32 {x : Int} (hlo : -32768 ≤ x) (hhi : x < 32768) : x.bmod (2 ^ 32) = x := by
  apply Int.bmod_eq_of_le_mul_two
  · show -4294967296 ≤ x * 2
    omega
  · show x * 2 < 4294967296
    omega

theorem toNat_of_nonneg {w : Nat} {x : BitVec w} (h : 0 ≤ x.toInt) : (x.toNat : Int) = x.toInt := by
  have hcond := BitVec.toInt_eq_toNat_cond x
  have hlt := x.isLt
  split at hcond
  · exact hcond.symm
  · omega

theorem limited_toInt {w : Nat} {lo hi : BitVec w} (h : lo.toInt ≤ hi.toInt) (x : BitVec w) :
    (limited lo hi x).toInt = clamp lo.toInt hi.toInt x.toInt := by
  unfold limited
  rw [clamp_eq_ite h]
  simp only [BitVec.slt_iff_toInt_lt]
  by_cases hlow : x.toInt < lo.toInt
  · rw [if_pos hlow, if_neg (by omega), if_pos hlow]
  · rw [if_neg hlow, if_neg hlow]
    split <;> rfl

end Words

/-! ## The stages -/

section Stages

variable (l : Limits) (t : Test)

theorem toInt_pwmD : (pwmD (input l t)).toInt = l.d := by
  have hmin := l.nonneg
  have hle := l.min_le
  have hmax := l.max_le
  show (l.pwmMax - l.pwmMin).toInt = _
  rw [BitVec.toInt_sub]
  unfold Limits.d
  exact bmod16 (by omega) (by omega)

theorem Limits.d_range : 0 ≤ l.d ∧ l.d ≤ 4095 := by
  have hmin := l.nonneg
  have hle := l.min_le
  have hmax := l.max_le
  unfold Limits.d
  omega

theorem toInt_half : (pwmD (input l t) >>> 1).toInt = l.d / 2 ∧
    ((pwmD (input l t)).sshiftRight 1).toInt = l.d / 2 := by
  have hd := l.d_range
  have hpwmD := toInt_pwmD l t
  have hnat : ((pwmD (input l t)).toNat : Int) = l.d := by
    rw [toNat_of_nonneg (by omega), hpwmD]
  constructor
  · have hshift : (pwmD (input l t) >>> 1).toNat = (pwmD (input l t)).toNat / 2 :=
      BitVec.toNat_ushiftRight _ 1
    rw [BitVec.toInt_eq_toNat_of_lt (by rw [hshift]; omega), hshift]
    omega
  · rw [BitVec.toInt_sshiftRight, hpwmD]
    exact Int.shiftRight_eq_div_pow l.d 1

theorem toInt_sensMaxVal : (sensMaxVal (input l t)).toInt = l.pwmMin.toInt + l.d / 2 := by
  have hd := l.d_range
  have hmin := l.nonneg
  have hle := l.min_le
  have hmax := l.max_le
  unfold sensMaxVal
  rw [BitVec.toInt_signExtend_of_le (by omega), BitVec.toInt_add, (toInt_half l t).1]
  show (l.d / 2 + l.pwmMin.toInt).bmod (2 ^ 16) = _
  rw [bmod16 (by omega) (by omega), Int.add_comm]

theorem toInt_sensMinVal : (sensMinVal (input l t)).toInt = l.pwmMin.toInt - l.d / 2 := by
  have hd := l.d_range
  have hmin := l.nonneg
  have hle := l.min_le
  have hmax := l.max_le
  unfold sensMinVal
  rw [BitVec.toInt_signExtend_of_le (by omega), BitVec.toInt_sub, (toInt_half l t).2]
  show (l.pwmMin.toInt - l.d / 2).bmod (2 ^ 16) = _
  exact bmod16 (by omega) (by omega)

theorem toInt_extMaxVal : (extMaxVal (input l t)).toInt = (l.pwmMin.toInt + l.d / 2) / 4 := by
  unfold extMaxVal
  rw [BitVec.toInt_sshiftRight, toInt_sensMaxVal]
  exact Int.shiftRight_eq_div_pow _ 2

theorem toInt_extMinVal : (extMinVal (input l t)).toInt = (l.pwmMin.toInt - l.d / 2) / 4 := by
  unfold extMinVal
  rw [BitVec.toInt_sshiftRight, toInt_sensMinVal]
  exact Int.shiftRight_eq_div_pow _ 2

theorem toInt_term (test limit : BitVec 16) (htest : 0 ≤ test.toInt) (hfits : test.toInt < 8192)
    (hlimit : 511 ≤ limit.toInt) (hsmall : limit.toInt ≤ 4095) :
    (term (input l t) test limit).toInt = l.pwmMin.toInt +
      (((2 * test.toInt - limit.toInt) * l.d).bmod (2 ^ 16)).tdiv (2 * limit.toInt) := by
  have hd := l.d_range
  have hmin := l.nonneg
  have hle := l.min_le
  have hmax := l.max_le
  have hdouble : ∀ x : BitVec 16, 0 ≤ x.toInt → x.toInt < 8192 →
      (x <<< 1).toInt = 2 * x.toInt := by
    intro x hx hx'
    have hnat := toNat_of_nonneg hx
    rw [BitVec.toInt_shiftLeft, Nat.shiftLeft_eq]
    rw [show ((x.toNat * 2 ^ 1 : Nat) : Int) = 2 * x.toInt by omega]
    exact bmod16 (by omega) (by omega)
  have hfactor : (test <<< 1 - limit).toInt = 2 * test.toInt - limit.toInt := by
    rw [BitVec.toInt_sub, hdouble test htest hfits]
    exact bmod16 (by omega) (by omega)
  have hdivisor : (limit <<< 1).toInt = 2 * limit.toInt := hdouble limit (by omega) (by omega)
  have hne : limit <<< 1 ≠ -1#16 := by
    intro heq
    rw [heq] at hdivisor
    have hneg : (-1#16 : BitVec 16).toInt = -1 := by decide
    omega
  have hproduct := bmod16_range ((2 * test.toInt - limit.toInt) * l.d)
  have hquotient : ((((2 * test.toInt - limit.toInt) * l.d).bmod (2 ^ 16)).tdiv
      (2 * limit.toInt)).natAbs ≤ 32768 / 1022 := by
    rw [Int.natAbs_tdiv]
    exact Nat.div_le_div (by omega) (by omega) (by omega)
  unfold term
  rw [BitVec.toInt_signExtend_of_le (by omega), BitVec.toInt_add,
    BitVec.toInt_sdiv_of_ne_or_ne _ _ (Or.inr hne), BitVec.toInt_mul, hfactor, hdivisor,
    toInt_pwmD]
  generalize (((2 * test.toInt - limit.toInt) * l.d).bmod (2 ^ 16)).tdiv (2 * limit.toInt) = c
    at hquotient
  show (l.pwmMin.toInt + c).bmod (2 ^ 16) = _
  exact bmod16 (by omega) (by omega)

theorem toInt_lValNext :
    (lValNext (input l t)).toInt = manualTerm l t.testManual.toInt ∧
      l.pwmMin.toInt ≤ manualTerm l t.testManual.toInt ∧
      manualTerm l t.testManual.toInt ≤ l.pwmMax.toInt := by
  have hd := l.d_range
  have hmin := l.nonneg
  have hle := l.min_le
  have hmax := l.max_le
  have hspan : l.d = l.pwmMax.toInt - l.pwmMin.toInt := rfl
  have hmanual := t.manual_ge
  have hmanual' := t.manual_le
  have hm := toNat_of_nonneg (x := t.testManual) (by omega)
  have hmn := toNat_of_nonneg hmin
  have hdn := toNat_of_nonneg (x := pwmD (input l t)) (by rw [toInt_pwmD]; omega)
  rw [toInt_pwmD] at hdn
  have hm1 : (t.testManual.setWidth 20 - 1#20).toNat = t.testManual.toNat - 1 := by
    rw [BitVec.toNat_sub_of_le]
    · rw [BitVec.toNat_setWidth, Nat.mod_eq_of_lt (by omega)]
      rfl
    · rw [BitVec.le_def, BitVec.toNat_setWidth, Nat.mod_eq_of_lt (by omega)]
      show 1 ≤ _
      omega
  have hd20 : ((pwmD (input l t)).setWidth 20).toNat = (pwmD (input l t)).toNat := by
    rw [BitVec.toNat_setWidth, Nat.mod_eq_of_lt (by omega)]
  have hmin20 : (l.pwmMin.setWidth 20).toNat = l.pwmMin.toNat := by
    rw [BitVec.toNat_setWidth, Nat.mod_eq_of_lt (by omega)]
  generalize hfactor : t.testManual.toNat - 1 = a at hm1
  generalize hspanNat : (pwmD (input l t)).toNat = b at hd20 hdn
  have hmul : a * b ≤ 14 * b := Nat.mul_le_mul_right b (by omega)
  have hproduct : ((t.testManual.setWidth 20 - 1#20) * (pwmD (input l t)).setWidth 20).toNat =
      a * b := by
    rw [BitVec.toNat_mul, hm1, hd20, Nat.mod_eq_of_lt (by omega)]
  have hnat : (lValNext (input l t)).toNat = a * b / 14 + l.pwmMin.toNat := by
    show ((t.testManual.setWidth 20 - 1#20) * (pwmD (input l t)).setWidth 20 / 0xE#20 +
      l.pwmMin.setWidth 20).toNat = _
    rw [BitVec.toNat_add, BitVec.toNat_udiv, hproduct, hmin20]
    show (a * b / 14 + l.pwmMin.toNat) % 2 ^ 20 = _
    exact Nat.mod_eq_of_lt (by omega)
  have hterm : manualTerm l t.testManual.toInt = ((a * b / 14 + l.pwmMin.toNat : Nat) : Int) := by
    unfold manualTerm
    rw [show t.testManual.toInt - 1 = (a : Int) by omega, ← hdn, ← hmn]
    rfl
  constructor
  · rw [BitVec.toInt_eq_toNat_of_lt (by rw [hnat]; omega), hnat, hterm]
  · rw [hterm]
    omega

def wrapped (x : Int) : Int := x.bmod (2 ^ 16)

theorem toInt_lSensTh : (limited (sensMinVal (input l t)) (sensMaxVal (input l t))
    (term (input l t) t.testSensors sensMax)).toInt =
      sensTerm l wrapped t.testSensors.toInt := by
  have hd := l.d_range
  have hmax : sensMax.toInt = 4095 := by decide
  have hterm := toInt_term l t t.testSensors sensMax t.sensors_ge
    (by have hle := t.sensors_le; omega) (by omega) (by omega)
  rw [hmax] at hterm
  rw [limited_toInt (by rw [toInt_sensMinVal, toInt_sensMaxVal]; omega), toInt_sensMinVal,
    toInt_sensMaxVal, hterm]
  rfl

theorem toInt_lExtTh : (limited (extMinVal (input l t)) (extMaxVal (input l t))
    (term (input l t) t.testAnalogext analogMax)).toInt =
      extTerm l wrapped t.testAnalogext.toInt := by
  have hd := l.d_range
  have hmax : analogMax.toInt = 511 := by decide
  have hterm := toInt_term l t t.testAnalogext analogMax t.analogext_ge
    (by have hle := t.analogext_le; omega) (by omega) (by omega)
  rw [hmax] at hterm
  rw [limited_toInt (by rw [toInt_extMinVal, toInt_extMaxVal]; omega), toInt_extMinVal,
    toInt_extMaxVal, hterm]
  rfl

end Stages

/-! ## The settled level -/

section Settled

variable {l : Limits} {t : Test}

theorem sensTerm_range (wrap : Int → Int) (x : Int) :
    l.pwmMin.toInt - l.d / 2 ≤ sensTerm l wrap x ∧
      sensTerm l wrap x ≤ l.pwmMin.toInt + l.d / 2 := by
  have hd := l.d_range
  exact ⟨le_clamp _ _ _, clamp_le (by omega) _⟩

theorem extTerm_range (wrap : Int → Int) (x : Int) :
    (l.pwmMin.toInt - l.d / 2) / 4 ≤ extTerm l wrap x ∧
      extTerm l wrap x ≤ (l.pwmMin.toInt + l.d / 2) / 4 := by
  have hd := l.d_range
  exact ⟨le_clamp _ _ _, clamp_le (by omega) _⟩

theorem toInt_min {w : Nat} (h : 16 ≤ w) (l : Limits) :
    (l.pwmMin.signExtend w).toInt = l.pwmMin.toInt := BitVec.toInt_signExtend_of_le h

theorem toInt_max {w : Nat} (h : 16 ≤ w) (l : Limits) :
    (l.pwmMax.signExtend w).toInt = l.pwmMax.toInt := BitVec.toInt_signExtend_of_le h

theorem toInt_limited {w : Nat} (h : 16 ≤ w) (l : Limits) (x : BitVec w) :
    (limited (l.pwmMin.signExtend w) (l.pwmMax.signExtend w) x).toInt =
      clamp l.pwmMin.toInt l.pwmMax.toInt x.toInt := by
  rw [limited_toInt, toInt_min h, toInt_max h]
  rw [toInt_min h, toInt_max h]
  exact l.min_le

variable (r : Regs) (n : Nat)

theorem stage_terms :
    (trace step r (fun _ => input l t) (n + 2)).lValTh.toInt = manualTerm l t.testManual.toInt ∧
      (trace step r (fun _ => input l t) (n + 2)).lSensTh.toInt =
        sensTerm l wrapped t.testSensors.toInt ∧
      (trace step r (fun _ => input l t) (n + 2)).lExtTh.toInt =
        extTerm l wrapped t.testAnalogext.toInt := by
  have hval := toInt_lValNext l t
  constructor
  · show (limited (l.pwmMin.signExtend 20) (l.pwmMax.signExtend 20)
      (lValNext (input l t))).toInt = _
    rw [toInt_limited (by omega), hval.1]
    unfold clamp
    omega
  constructor
  · exact toInt_lSensTh l t
  · exact toInt_lExtTh l t

theorem stage_total :
    (trace step r (fun _ => input l t) (n + 3)).lTotal.toInt =
      manualTerm l t.testManual.toInt + sensTerm l wrapped t.testSensors.toInt +
        extTerm l wrapped t.testAnalogext.toInt := by
  have hd := l.d_range
  have hmin := l.nonneg
  have hmax := l.max_le
  have hle := l.min_le
  have hval := toInt_lValNext l t
  have hsens := sensTerm_range (l := l) wrapped t.testSensors.toInt
  have hext := extTerm_range (l := l) wrapped t.testAnalogext.toInt
  have hterms := stage_terms (l := l) (t := t) r n
  rw [trace_succ]
  generalize trace step r (fun _ => input l t) (n + 2) = s at hterms
  have hsum : (manualTerm l t.testManual.toInt + sensTerm l wrapped t.testSensors.toInt).bmod
      (2 ^ 32) = manualTerm l t.testManual.toInt + sensTerm l wrapped t.testSensors.toInt :=
    bmod32 (by omega) (by omega)
  show (s.lValTh.signExtend 32 + s.lSensTh.signExtend 32 + s.lExtTh.signExtend 32).toInt = _
  rw [BitVec.toInt_add, BitVec.toInt_add, BitVec.toInt_signExtend_of_le (by omega),
    BitVec.toInt_signExtend_of_le (by omega), BitVec.toInt_signExtend_of_le (by omega), hterms.1,
    hterms.2.1, hterms.2.2, hsum]
  exact bmod32 (by omega) (by omega)

theorem stage_level :
    (trace step r (fun _ => input l t) (n + 4)).lTotalTh.toInt = level l wrapped t := by
  have htotal := stage_total (l := l) (t := t) r n
  rw [trace_succ]
  generalize trace step r (fun _ => input l t) (n + 3) = s at htotal
  show (limited (l.pwmMin.signExtend 32) (l.pwmMax.signExtend 32) s.lTotal).toInt = _
  rw [toInt_limited (by omega), htotal]
  rfl

/-- The level settles to the sum of the terms with wrapped products. -/
theorem value_settled (l : Limits) (t : Test) (r : Regs) {n : Nat} (hn : 4 ≤ n) :
    value l t r n = level l wrapped t := by
  have hmin := l.nonneg
  have hmax := l.max_le
  have htotal : (trace step r (fun _ => input l t) n).lTotalTh.toInt = level l wrapped t := by
    obtain ⟨k, rfl⟩ := Nat.exists_eq_add_of_le' hn
    exact stage_level r k
  have hlow : l.pwmMin.toInt ≤ level l wrapped t := le_clamp _ _ _
  have hhigh : level l wrapped t ≤ l.pwmMax.toInt := clamp_le l.min_le _
  unfold value
  show ((trace step r (fun _ => input l t) n).lTotalTh.setWidth 16).toInt = _
  rw [← htotal] at hlow hhigh ⊢
  generalize (trace step r (fun _ => input l t) n).lTotalTh = x at hlow hhigh
  have hnat := toNat_of_nonneg (x := x) (by omega)
  have hword : (x.setWidth 16).toNat = x.toNat := by
    rw [BitVec.toNat_setWidth, Nat.mod_eq_of_lt (by omega)]
  rw [BitVec.toInt_eq_toNat_of_lt (by rw [hword]; omega), hword]
  exact hnat

end Settled

/-! ## The terms -/

section Terms

variable {l : Limits} {x y : Int}

theorem manualTerm_mono (h : x ≤ y) : manualTerm l x ≤ manualTerm l y := by
  have hd := l.d_range
  have hmul : (x - 1) * l.d ≤ (y - 1) * l.d := Int.mul_le_mul_of_nonneg_right (by omega) hd.1
  have hdiv := Int.tdiv_le_tdiv (c := 14) (by omega) hmul
  unfold manualTerm
  omega

theorem sensTerm_mono (h : x ≤ y) : sensTerm l id x ≤ sensTerm l id y := by
  have hd := l.d_range
  have hmul : (2 * x - 4095) * l.d ≤ (2 * y - 4095) * l.d :=
    Int.mul_le_mul_of_nonneg_right (by omega) hd.1
  have hdiv := Int.tdiv_le_tdiv (c := 8190) (by omega) hmul
  apply clamp_mono
  exact Int.add_le_add_left hdiv _

theorem extTerm_mono (h : x ≤ y) : extTerm l id x ≤ extTerm l id y := by
  have hd := l.d_range
  have hmul : (2 * x - 511) * l.d ≤ (2 * y - 511) * l.d :=
    Int.mul_le_mul_of_nonneg_right (by omega) hd.1
  have hdiv := Int.tdiv_le_tdiv (c := 1022) (by omega) hmul
  apply clamp_mono
  exact Int.add_le_add_left hdiv _

theorem level_mono {t t' : Test} (hmanual : t.testManual.toInt ≤ t'.testManual.toInt)
    (hsensors : t.testSensors.toInt ≤ t'.testSensors.toInt)
    (hext : t.testAnalogext.toInt ≤ t'.testAnalogext.toInt) : level l id t ≤ level l id t' := by
  have hm := manualTerm_mono (l := l) hmanual
  have hs := sensTerm_mono (l := l) hsensors
  have he := extTerm_mono (l := l) hext
  exact clamp_mono (by omega)

end Terms

/-! ## Where the products wrap -/

/-- The span is so narrow that no product wraps, or the lower limit so high above it that the sum is
never below the upper one. -/
def Harmless (l : Limits) : Prop :=
  l.d ≤ 8 ∨ l.d + l.d / 2 ≤ l.pwmMin.toInt + (l.pwmMin.toInt + l.d / 2) / 4

section Wrap

variable {l : Limits} {t : Test}

theorem wrapped_of_fits {x c : Int} (hlo : -c ≤ x) (hhi : x ≤ c) (hc : c * l.d ≤ 32767) :
    wrapped (x * l.d) = x * l.d := by
  have hd := l.d_range
  have hbelow : -c * l.d ≤ x * l.d := Int.mul_le_mul_of_nonneg_right hlo hd.1
  have habove : x * l.d ≤ c * l.d := Int.mul_le_mul_of_nonneg_right hhi hd.1
  have hneg : -c * l.d = -(c * l.d) := Int.neg_mul c l.d
  exact bmod16 (by omega) (by omega)

/-- Test inputs whose products fit their words give the exact level. -/
theorem level_of_fits
    (hsens : wrapped ((2 * t.testSensors.toInt - 4095) * l.d) =
      (2 * t.testSensors.toInt - 4095) * l.d)
    (hext : wrapped ((2 * t.testAnalogext.toInt - 511) * l.d) =
      (2 * t.testAnalogext.toInt - 511) * l.d) : level l wrapped t = level l id t := by
  unfold level sensTerm extTerm
  rw [hsens, hext]
  rfl

theorem level_of_narrow (h : l.d ≤ 8) (t : Test) : level l wrapped t = level l id t := by
  have hsensors := t.sensors_ge
  have hsensors' := t.sensors_le
  have hext := t.analogext_ge
  have hext' := t.analogext_le
  apply level_of_fits
  · exact wrapped_of_fits (c := 4095) (by omega) (by omega) (by omega)
  · exact wrapped_of_fits (c := 511) (by omega) (by omega) (by omega)

theorem tdiv_neg_half (c d : Int) (hc : 0 < c) : (-c * d).tdiv (2 * c) = -(d.tdiv 2) := by
  rw [Int.neg_mul, Int.neg_tdiv, Int.mul_comm 2 c, Int.mul_tdiv_mul_of_pos _ _ hc]

theorem ext_quotient (hwide : 0 ≤ l.d) (x : Int) (hx : 0 ≤ x) :
    -(l.d / 2) ≤ ((2 * x - 511) * l.d).tdiv 1022 := by
  have hmul : -511 * l.d ≤ (2 * x - 511) * l.d := Int.mul_le_mul_of_nonneg_right (by omega) hwide
  have hdiv := Int.tdiv_le_tdiv (c := 1022) (by omega) hmul
  have hleast := tdiv_neg_half 511 l.d (by omega)
  have hhalf : l.d.tdiv 2 = l.d / 2 := Int.tdiv_eq_ediv_of_nonneg hwide
  have heq : (-511 * l.d).tdiv 1022 = -(l.d / 2) := by
    rw [← hhalf]
    exact hleast
  omega

theorem ext_quotient_wrapped (x : Int) (hx : 0 ≤ x) (hx' : x ≤ 511) :
    -(l.d / 2) ≤ (wrapped ((2 * x - 511) * l.d)).tdiv 1022 := by
  have hd := l.d_range
  rcases lt_or_ge 64 l.d with hwide | hnarrow
  · have hrange := (bmod16_range ((2 * x - 511) * l.d)).1
    have hdiv : (-32768 : Int).tdiv 1022 ≤ (wrapped ((2 * x - 511) * l.d)).tdiv 1022 :=
      Int.tdiv_le_tdiv (by omega) hrange
    have hleast : (-32768 : Int).tdiv 1022 = -32 := by decide
    omega
  · rw [wrapped_of_fits (c := 511) (by omega) (by omega) (by omega)]
    exact ext_quotient hd.1 x hx

/-- Above the span the level is at its upper limit, whatever the sensors say. -/
theorem level_of_high (wrap : Int → Int) (hwide : 8 < l.d)
    (h : l.d + l.d / 2 ≤ l.pwmMin.toInt + (l.pwmMin.toInt + l.d / 2) / 4)
    (hquotient : -(l.d / 2) ≤ (wrap ((2 * t.testAnalogext.toInt - 511) * l.d)).tdiv 1022) :
    level l wrap t = l.pwmMax.toInt := by
  have hspan : l.d = l.pwmMax.toInt - l.pwmMin.toInt := rfl
  have hsens := (sensTerm_range (l := l) wrap t.testSensors.toInt).1
  have hmanual := (toInt_lValNext l t).2.1
  have hext : extTerm l wrap t.testAnalogext.toInt = (l.pwmMin.toInt + l.d / 2) / 4 := by
    unfold extTerm
    exact clamp_of_hi_le (by omega) (by omega)
  unfold level
  rw [hext]
  exact clamp_of_hi_le l.min_le (by omega)

theorem level_of_harmless (h : Harmless l) (t : Test) : level l wrapped t = level l id t := by
  rcases lt_or_ge 8 l.d with hwide | hnarrow
  · have hhigh := h.resolve_left (by omega)
    have hd := l.d_range
    have hcircuit : level l wrapped t = l.pwmMax.toInt :=
      level_of_high wrapped hwide hhigh (ext_quotient_wrapped _ t.analogext_ge t.analogext_le)
    have hexact : level l id t = l.pwmMax.toInt :=
      level_of_high id hwide hhigh (ext_quotient hd.1 _ t.analogext_ge)
    rw [hcircuit, hexact]
  · exact level_of_narrow hnarrow t

/-- Without light the second term is too high by more than its own lower half. -/
theorem dark_sensTerm (hwide : 8 < l.d) :
    sensTerm l id 0 = l.pwmMin.toInt - l.d / 2 ∧
      l.pwmMin.toInt - l.d / 2 < sensTerm l wrapped 0 ∧
      l.pwmMin.toInt - 4 ≤ sensTerm l wrapped 0 := by
  have hd := l.d_range
  have hhalf : l.d.tdiv 2 = l.d / 2 := Int.tdiv_eq_ediv_of_nonneg hd.1
  have hexact : ((2 * 0 - 4095) * l.d).tdiv 8190 = -(l.d / 2) := by
    rw [← hhalf]
    exact tdiv_neg_half 4095 l.d (by omega)
  have hrange := bmod16_range ((2 * 0 - 4095) * l.d)
  have hleast : (-32768 : Int).tdiv 8190 ≤ (wrapped ((2 * 0 - 4095) * l.d)).tdiv 8190 :=
    Int.tdiv_le_tdiv (by omega) hrange.1
  have hfour : (-32768 : Int).tdiv 8190 = -4 := by decide
  have hnine : l.d = 9 → (wrapped ((2 * 0 - 4095) * l.d)).tdiv 8190 = 3 := by
    intro heq
    rw [heq]
    decide
  unfold sensTerm
  generalize (wrapped ((2 * 0 - 4095) * l.d)).tdiv 8190 = c at hleast hnine ⊢
  show clamp _ _ (l.pwmMin.toInt + ((2 * 0 - 4095) * l.d).tdiv 8190) = _ ∧ _
  rw [hexact]
  unfold clamp
  omega

theorem clamp_lt {lo hi x y : Int} (hlim : lo < hi) (hxy : x < y) (hx : x < hi) (hy : lo < y) :
    clamp lo hi x < clamp lo hi y := by
  unfold clamp
  omega

/-- Otherwise it shows without light and with the third input in the middle. -/
theorem exists_wrong (h : ¬ Harmless l) : ∃ t : Test, level l wrapped t ≠ level l id t := by
  have hd := l.d_range
  have hmin := l.nonneg
  have hspan : l.d = l.pwmMax.toInt - l.pwmMin.toInt := rfl
  unfold Harmless at h
  have hdark := dark_sensTerm (l := l) (by omega)
  have hsame : extTerm l wrapped 255 = extTerm l id 255 := by
    unfold extTerm
    rw [wrapped_of_fits (c := 1) (by omega) (by omega) (by omega)]
    rfl
  have hrange := extTerm_range (l := l) id 255
  have hfirst : manualTerm l 1 = l.pwmMin.toInt := by
    unfold manualTerm
    rw [Int.sub_self, Int.zero_mul, Int.zero_tdiv, Int.zero_add]
  have hlast : manualTerm l 15 = l.d + l.pwmMin.toInt := by
    unfold manualTerm
    rw [show (15 : Int) - 1 = 14 by omega, Int.mul_tdiv_cancel_left _ (by omega)]
  rcases lt_or_ge (l.pwmMin.toInt - l.d / 2 + extTerm l id 255) 0 with hlow | hhigh
  · apply Exists.intro (Test.mk 15#16 0#16 255#16 (by decide) (by decide) (by decide) (by decide)
      (by decide) (by decide))
    apply ne_of_gt
    show clamp _ _ (manualTerm l 15 + sensTerm l id 0 + extTerm l id 255) <
      clamp _ _ (manualTerm l 15 + sensTerm l wrapped 0 + extTerm l wrapped 255)
    rw [hsame, hlast]
    exact clamp_lt (by omega) (by omega) (by omega) (by omega)
  · apply Exists.intro (Test.mk 1#16 0#16 255#16 (by decide) (by decide) (by decide) (by decide)
      (by decide) (by decide))
    apply ne_of_gt
    show clamp _ _ (manualTerm l 1 + sensTerm l id 0 + extTerm l id 255) <
      clamp _ _ (manualTerm l 1 + sensTerm l wrapped 0 + extTerm l wrapped 255)
    rw [hsame, hfirst]
    exact clamp_lt (by omega) (by omega) (by omega) (by omega)

end Wrap

/-- The circuit computes the level for exactly the limits for which the wrapping of the products
does no harm. -/
theorem computes_iff (l : Limits) : Computes l ↔ Harmless l := by
  constructor
  · intro hcomputes
    by_contra hharm
    cases exists_wrong hharm with
    | intro t hwrong =>
        let r : Regs := ⟨0#20, 0#20, 0#20, 0#20, 0#20, 0#20, 0#32, 0#32⟩
        apply hwrong
        rw [← value_settled l t r (Nat.le_refl 4), hcomputes.settles t r 4 (Nat.le_refl 4)]
  · intro hharmless
    constructor
    · intro t r n hn
      rw [value_settled l t r hn, level_of_harmless hharmless]
    · intro t t' r r' hmanual hsensors hext n hn n' hn'
      rw [value_settled l t r hn, value_settled l t' r' hn', level_of_harmless hharmless,
        level_of_harmless hharmless]
      exact level_mono hmanual hsensors hext

/-- The limits of the comments in the source, with no light on either sensor: the level is 271
instead of 35. -/
theorem dark_level_wrong : ∃ (l : Limits) (t : Test), l.pwmMax = 800#16 ∧ l.pwmMin = 35#16 ∧
    t.testManual = 4#16 ∧ t.testSensors = 0#16 ∧ t.testAnalogext = 0#16 ∧
    level l id t = 35 ∧ ∀ r, ∀ n ≥ 4, value l t r n = 271 := by
  apply Exists.intro (Limits.mk 800#16 35#16 (by decide) (by decide) (by decide))
  apply Exists.intro (Test.mk 4#16 0#16 0#16 (by decide) (by decide) (by decide) (by decide)
    (by decide) (by decide))
  refine ⟨rfl, rfl, rfl, rfl, rfl, by decide, ?_⟩
  intro r n hn
  rw [value_settled _ _ r hn]
  decide

end Mfi.PwmCalc
