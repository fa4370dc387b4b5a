import Mathlib.Algebra.BigOperators.Group.Finset.Basic
import Mathlib.Algebra.Order.Group.Int
import Mathlib.Algebra.Order.Group.Abs
import Mathlib.Data.Int.GCD
import Mfi.Core.Words

/-!
# Sigma-delta clock divider

The output toggles after each half period. What the half period is too short is summed up,
and when the sum is a whole cycle the divider waits for one. The sum is compared with one
less than a cycle.
-/

namespace Mfi.ClockDivider

open Core

/-- The parameters of the instance as 32 bit values. The quotients are computed with sign if the
instance gives plain numbers. -/
structure Params where
  inputFrequency : BitVec 32
  outputFrequency : BitVec 32
  signed : Bool
  deriving DecidableEq, Repr

def Params.divider (p : Params) : BitVec 32 := p.outputFrequency * 2#32

def Params.halfPeriod (p : Params) : BitVec 32 :=
  if p.signed then p.inputFrequency.sdiv p.divider else p.inputFrequency.udiv p.divider

def Params.delta (p : Params) : BitVec 32 :=
  if p.signed then p.inputFrequency.srem p.divider else p.inputFrequency.umod p.divider

structure Regs where
  resetNMeta : Bool
  resetNLatch : Bool
  clockTimer : BitVec 32
  clockSigma : BitVec 32
  clockOutput : Bool
  deriving DecidableEq, Repr

def reset : Regs :=
  { resetNMeta := false, resetNLatch := false, clockTimer := 0#32, clockSigma := 0#32,
    clockOutput := false }

/-- The divider, which its own copy of the reset keeps at zero. -/
def dividerNext (p : Params) (r : Regs) : Regs :=
  if !r.resetNLatch then
    { r with clockTimer := 0#32, clockSigma := 0#32, clockOutput := false }
  else if r.clockTimer < p.halfPeriod - 1#32 then { r with clockTimer := r.clockTimer + 1#32 }
  else if r.clockSigma < p.divider - 1#32 then
    { r with
      clockTimer := 0#32, clockSigma := r.clockSigma + p.delta, clockOutput := !r.clockOutput }
  else { r with clockSigma := r.clockSigma - p.divider }

def step (p : Params) (r : Regs) : Regs :=
  { dividerNext p r with resetNMeta := r.resetNLatch, resetNLatch := true }

/-- The registers after `n` cycles. -/
def run (p : Params) : Nat → Regs
  | 0 => reset
  | n + 1 => step p (run p n)

/-- How often the output has changed in the first `n` cycles. -/
def toggles (p : Params) (n : Nat) : Nat :=
  ∑ k ∈ Finset.range n, if (run p (k + 1)).clockOutput ≠ (run p k).clockOutput then 1 else 0

/-- The output frequency is possible, and neither the products nor, with sign, the input frequency
leave the 32 bits. -/
structure InRange (p : Params) : Prop where
  pos : 0 < p.outputFrequency.toNat
  le : 2 * p.outputFrequency.toNat ≤ p.inputFrequency.toNat
  products : 4 * p.outputFrequency.toNat < 4294967296
  sign : p.signed = true → p.inputFrequency.toNat < 2147483648

/-- The sum does not underflow, and the output toggles as often as it should, up to two. -/
def Divides (p : Params) : Prop :=
  (∀ n, (run p n).clockSigma.toNat < 4 * p.outputFrequency.toNat) ∧
    ∀ n, |((p.inputFrequency.toNat * toggles p n : Nat) : Int) -
      (2 * p.outputFrequency.toNat * n : Nat)| ≤ (2 * p.inputFrequency.toNat : Nat)

/-! ## The constants -/

section Constants

variable {p : Params}

theorem divider_toNat (h : InRange p) : p.divider.toNat = 2 * p.outputFrequency.toNat := by
  have hlt := h.products
  unfold Params.divider
  rw [BitVec.toNat_mul, Nat.mod_eq_of_lt] <;> simp <;> omega

theorem msb_false {a : BitVec 32} (h : a.toNat < 2147483648) : a.msb = false := by
  rw [BitVec.msb_eq_false_iff_two_mul_lt]
  omega

theorem halfPeriod_toNat (h : InRange p) :
    p.halfPeriod.toNat = p.inputFrequency.toNat / (2 * p.outputFrequency.toNat) := by
  have hdivider := divider_toNat h
  have hlt := h.products
  unfold Params.halfPeriod
  split
  · rename_i hsigned
    rw [BitVec.sdiv_eq, msb_false (h.sign hsigned), msb_false (by omega)]
    show (p.inputFrequency.udiv p.divider).toNat = _
    rw [← hdivider]
    rfl
  · rw [← hdivider]
    rfl

theorem delta_toNat (h : InRange p) :
    p.delta.toNat = p.inputFrequency.toNat % (2 * p.outputFrequency.toNat) := by
  have hdivider := divider_toNat h
  have hlt := h.products
  unfold Params.delta
  split
  · rename_i hsigned
    rw [BitVec.srem_eq, msb_false (h.sign hsigned), msb_false (by omega)]
    show (p.inputFrequency.umod p.divider).toNat = _
    rw [← hdivider]
    rfl
  · rw [← hdivider]
    rfl

end Constants

/-! ## The account -/

section Account

variable {p : Params} {r : Regs} {n t : Nat}

/-- After `n` active cycles with `t` toggles. Each toggle stands for `input_frequency` units, each
cycle for `divider` units; the timer and the sum hold the difference. -/
structure Even (p : Params) (r : Regs) (n t : Nat) : Prop where
  latch : r.resetNLatch = true
  timer : r.clockTimer.toNat < p.inputFrequency.toNat / (2 * p.outputFrequency.toNat)
  sigma : r.clockSigma.toNat < 2 * (2 * p.outputFrequency.toNat)
  account : 2 * p.outputFrequency.toNat * n + r.clockSigma.toNat =
    2 * p.outputFrequency.toNat * r.clockTimer.toNat + p.inputFrequency.toNat * t

def Over (p : Params) (r : Regs) : Prop :=
  ¬r.clockTimer.toNat < p.inputFrequency.toNat / (2 * p.outputFrequency.toNat) - 1

theorem step_count (h : InRange p) (he : Even p r n t) (hover : ¬Over p r) :
    (step p r).clockTimer.toNat = r.clockTimer.toNat + 1 ∧
      (step p r).clockSigma = r.clockSigma ∧ (step p r).clockOutput = r.clockOutput := by
  have hperiod := halfPeriod_toNat h
  have hlt := p.halfPeriod.isLt
  have hbelow := not_not.mp hover
  have hguard : r.clockTimer < p.halfPeriod - 1#32 := by
    rw [BitVec.lt_def, show (p.halfPeriod - 1#32).toNat = p.halfPeriod.toNat - 1 from
      toNat_sub_one (by omega)]
    omega
  have hsucc : (r.clockTimer + 1#32).toNat = r.clockTimer.toNat + 1 := toNat_add_one (by omega)
  have hnext : dividerNext p r = { r with clockTimer := r.clockTimer + 1#32 } := by
    unfold dividerNext
    rw [he.latch, if_neg (by decide), if_pos hguard]
  unfold step
  rw [hnext]
  exact ⟨hsucc, rfl, rfl⟩

theorem step_over (h : InRange p) (he : Even p r n t) (hover : Over p r) :
    dividerNext p r = if r.clockSigma.toNat < 2 * p.outputFrequency.toNat - 1 then
      { r with
        clockTimer := 0#32, clockSigma := r.clockSigma + p.delta, clockOutput := !r.clockOutput }
      else { r with clockSigma := r.clockSigma - p.divider } := by
  have hperiod := halfPeriod_toNat h
  have hdivider := divider_toNat h
  have htimer := he.timer
  have hpos := h.pos
  unfold Over at hover
  have hguard : ¬r.clockTimer < p.halfPeriod - 1#32 := by
    rw [BitVec.lt_def, show (p.halfPeriod - 1#32).toNat = p.halfPeriod.toNat - 1 from
      toNat_sub_one (by omega)]
    omega
  have hsigma : r.clockSigma < p.divider - 1#32 ↔
      r.clockSigma.toNat < 2 * p.outputFrequency.toNat - 1 := by
    rw [BitVec.lt_def, show (p.divider - 1#32).toNat = p.divider.toNat - 1 from
      toNat_sub_one (by omega), hdivider]
  unfold dividerNext
  rw [he.latch, if_neg (by decide), if_neg hguard]
  simp only [hsigma]

theorem step_toggle (h : InRange p) (he : Even p r n t) (hover : Over p r)
    (hsigma : r.clockSigma.toNat < 2 * p.outputFrequency.toNat - 1) :
    Even p (step p r) (n + 1) (t + 1) ∧ (step p r).clockOutput ≠ r.clockOutput := by
  have hnext := step_over h he hover
  rw [if_pos hsigma] at hnext
  have hdelta := delta_toNat h
  have hmod := Nat.mod_lt p.inputFrequency.toNat (show 0 < 2 * p.outputFrequency.toNat by
    have hpos := h.pos
    omega)
  have hdiv := Nat.div_add_mod p.inputFrequency.toNat (2 * p.outputFrequency.toNat)
  have hproducts := h.products
  have hsum : (r.clockSigma + p.delta).toNat = r.clockSigma.toNat + p.delta.toNat :=
    BitVec.toNat_add_of_lt (by omega)
  have htimer := he.timer
  have haccount := he.account
  unfold Over at hover
  have hlast : r.clockTimer.toNat + 1 =
      p.inputFrequency.toNat / (2 * p.outputFrequency.toNat) := by omega
  unfold step
  rw [hnext]
  constructor
  · constructor
    · rfl
    · show 0 < _
      omega
    · show (r.clockSigma + p.delta).toNat < _
      omega
    · show _ * (n + 1) + (r.clockSigma + p.delta).toNat = _ * 0 + _ * (t + 1)
      rw [← hlast, Nat.mul_add] at hdiv
      rw [hsum, Nat.mul_add, Nat.mul_add]
      omega
  · exact Bool.not_ne_self _

theorem step_wait (h : InRange p) (he : Even p r n t) (hover : Over p r)
    (hsigma : 2 * p.outputFrequency.toNat ≤ r.clockSigma.toNat) :
    Even p (step p r) (n + 1) t ∧ (step p r).clockOutput = r.clockOutput := by
  have hnext := step_over h he hover
  rw [if_neg (by omega)] at hnext
  have hdivider := divider_toNat h
  have hsub : (r.clockSigma - p.divider).toNat = r.clockSigma.toNat - p.divider.toNat :=
    BitVec.toNat_sub_of_le (by rw [BitVec.le_def]; omega)
  have hbound := he.sigma
  have haccount := he.account
  unfold step
  rw [hnext]
  constructor
  · constructor
    · rfl
    · exact he.timer
    · show (r.clockSigma - p.divider).toNat < _
      omega
    · show _ * (n + 1) + (r.clockSigma - p.divider).toNat = _ * r.clockTimer.toNat + _
      rw [hsub, Nat.mul_add]
      omega
  · rfl

/-- A sum of one less than a cycle underflows. -/
theorem step_underflow (h : InRange p) (he : Even p r n t) (hover : Over p r)
    (hsigma : r.clockSigma.toNat + 1 = 2 * p.outputFrequency.toNat) :
    (step p r).clockSigma.toNat = 4294967295 := by
  have hnext := step_over h he hover
  rw [if_neg (by omega)] at hnext
  have hdivider := divider_toNat h
  have hlt := p.divider.isLt
  unfold step
  rw [hnext]
  show (r.clockSigma - p.divider).toNat = _
  rw [BitVec.toNat_sub]
  omega

theorem even_step (h : InRange p) (he : Even p r n t)
    (hno : Over p r → r.clockSigma.toNat + 1 ≠ 2 * p.outputFrequency.toNat) :
    Even p (step p r) (n + 1) (t + if (step p r).clockOutput ≠ r.clockOutput then 1 else 0) := by
  by_cases hover : Over p r
  · rcases Nat.lt_or_ge r.clockSigma.toNat (2 * p.outputFrequency.toNat - 1) with hlow | hhigh
    · rcases step_toggle h he hover hlow with ⟨heven, htoggles⟩
      rw [if_pos htoggles]
      exact heven
    · have hne := hno hover
      rcases step_wait h he hover (by omega) with ⟨heven, hkeeps⟩
      rw [if_neg (not_not.mpr hkeeps)]
      exact heven
  · rcases step_count h he hover with ⟨htimer, hsigma, houtput⟩
    have hbelow := not_not.mp hover
    have haccount := he.account
    rw [if_neg (not_not.mpr houtput)]
    constructor
    · rfl
    · omega
    · rw [hsigma]
      exact he.sigma
    · rw [htimer, hsigma, Nat.mul_add, Nat.mul_add, Nat.add_zero]
      omega

theorem of_toggle (h : InRange p) (he : Even p r n t)
    (hne : (step p r).clockOutput ≠ r.clockOutput) :
    r.clockSigma.toNat < 2 * p.outputFrequency.toNat - 1 := by
  by_cases hover : Over p r
  · have hnext := step_over h he hover
    split at hnext
    · assumption
    · unfold step at hne
      rw [hnext] at hne
      exact absurd rfl hne
  · exact absurd (step_count h he hover).2.2 hne

theorem gcd_dvd_sigma (he : Even p r n t) :
    Nat.gcd p.inputFrequency.toNat (2 * p.outputFrequency.toNat) ∣ r.clockSigma.toNat := by
  have hin := Nat.gcd_dvd_left p.inputFrequency.toNat (2 * p.outputFrequency.toNat)
  have hout := Nat.gcd_dvd_right p.inputFrequency.toNat (2 * p.outputFrequency.toNat)
  have hright : Nat.gcd p.inputFrequency.toNat (2 * p.outputFrequency.toNat) ∣
      2 * p.outputFrequency.toNat * n + r.clockSigma.toNat := by
    rw [he.account]
    exact Nat.dvd_add (Nat.dvd_mul_right_of_dvd hout _) (Nat.dvd_mul_right_of_dvd hin _)
  exact (Nat.dvd_add_right (Nat.dvd_mul_right_of_dvd hout _)).mp hright

theorem sigma_ne (he : Even p r n t)
    (hcommon : ¬Nat.Coprime p.inputFrequency.toNat (2 * p.outputFrequency.toNat)) :
    r.clockSigma.toNat + 1 ≠ 2 * p.outputFrequency.toNat := by
  intro heq
  have hsigma := gcd_dvd_sigma he
  have hout := Nat.gcd_dvd_right p.inputFrequency.toNat (2 * p.outputFrequency.toNat)
  have hone : Nat.gcd p.inputFrequency.toNat (2 * p.outputFrequency.toNat) ∣ 1 := by
    apply (Nat.dvd_add_right hsigma).mp
    rw [heq]
    exact hout
  exact hcommon (Nat.dvd_one.mp hone)

end Account

/-! ## Runs -/

section Run

variable {p : Params}

theorem toggles_succ (n : Nat) :
    toggles p (n + 1) =
      toggles p n + if (run p (n + 1)).clockOutput ≠ (run p n).clockOutput then 1 else 0 :=
  Finset.sum_range_succ _ n

theorem even_first (h : InRange p) : Even p (run p 1) 0 (toggles p 1) := by
  have hpos := h.pos
  have hperiod : 0 < p.inputFrequency.toNat / (2 * p.outputFrequency.toNat) :=
    Nat.div_pos h.le (by omega)
  have hnone : toggles p 1 = 0 := by
    rw [toggles_succ]
    rfl
  rw [hnone]
  constructor
  · rfl
  · exact hperiod
  · show 0 < _
    omega
  · rfl

theorem even_run (h : InRange p)
    (hno : ∀ n t, Even p (run p (n + 1)) n t → Over p (run p (n + 1)) →
      (run p (n + 1)).clockSigma.toNat + 1 ≠ 2 * p.outputFrequency.toNat) (n : Nat) :
    Even p (run p (n + 1)) n (toggles p (n + 1)) := by
  induction n with
  | zero => exact even_first h
  | succ n ih =>
      rw [toggles_succ]
      exact even_step h ih (hno n _ ih)

/-- The account keeps the output within two toggles. -/
theorem rate_of_even (h : InRange p) {n : Nat} (he : Even p (run p (n + 1)) n (toggles p (n + 1))) :
    |((p.inputFrequency.toNat * toggles p (n + 1) : Nat) : Int) -
      (2 * p.outputFrequency.toNat * (n + 1) : Nat)| ≤ (2 * p.inputFrequency.toNat : Nat) := by
  have haccount := he.account
  have hsigma := he.sigma
  have hle := h.le
  have hbelow : 2 * p.outputFrequency.toNat * ((run p (n + 1)).clockTimer.toNat + 1) ≤
      p.inputFrequency.toNat :=
    Nat.le_trans (Nat.mul_le_mul_left _ he.timer) (Nat.mul_div_le _ _)
  rw [Nat.mul_add] at hbelow
  rw [Nat.mul_add, abs_le]
  omega

theorem divides_of_common (h : InRange p)
    (hcommon : ¬Nat.Coprime p.inputFrequency.toNat (2 * p.outputFrequency.toNat)) : Divides p := by
  have heven := even_run h fun n t he _ => sigma_ne he hcommon
  constructor
  · intro n
    cases n with
    | zero =>
        have hpos := h.pos
        show 0 < _
        omega
    | succ n =>
        have hsigma := (heven n).sigma
        omega
  · intro n
    cases n with
    | zero =>
        show |((p.inputFrequency.toNat * 0 : Nat) : Int) -
          (2 * p.outputFrequency.toNat * 0 : Nat)| ≤ _
        rw [Nat.mul_zero, Nat.mul_zero, sub_self, abs_zero]
        exact Int.natCast_nonneg _
    | succ n => exact rate_of_even h (heven n)

theorem toggles_le (h : InRange p) (heven : ∀ n, Even p (run p (n + 1)) n (toggles p (n + 1)))
    {k : Nat} (hk : p.inputFrequency.toNat * k % (2 * p.outputFrequency.toNat) =
      2 * p.outputFrequency.toNat - 1) (n : Nat) : toggles p (n + 1) ≤ k := by
  induction n with
  | zero =>
      rw [toggles_succ]
      exact Nat.zero_le k
  | succ n ih =>
      rw [toggles_succ]
      split
      · rename_i hne
        have hsigma := of_toggle h (heven n) hne
        have haccount := congrArg (· % (2 * p.outputFrequency.toNat)) (heven n).account
        simp only [Nat.mul_add_mod] at haccount
        rw [Nat.mod_eq_of_lt (show (run p (n + 1)).clockSigma.toNat < 2 * p.outputFrequency.toNat
          by omega)] at haccount
        rcases Nat.eq_or_lt_of_le ih with heq | hlt
        · rw [heq, hk] at haccount
          omega
        · omega
      · exact ih

/-- Without a common divisor the toggles come to an end, or the sum underflows. -/
theorem not_divides_of_coprime (h : InRange p)
    (hcoprime : Nat.Coprime p.inputFrequency.toNat (2 * p.outputFrequency.toNat)) :
    ¬Divides p := by
  intro hdivides
  have hpos := h.pos
  have hproducts := h.products
  have heven := even_run h fun n t he hover hsigma => by
    have hnext := hdivides.1 (n + 2)
    rw [show run p (n + 2) = step p (run p (n + 1)) from rfl,
      step_underflow h he hover hsigma] at hnext
    omega
  rcases Nat.exists_mul_mod_eq_of_coprime (2 * p.outputFrequency.toNat - 1) hcoprime (by omega) with
    ⟨k, _, hk⟩
  rw [Nat.mod_eq_of_lt (show 2 * p.outputFrequency.toNat - 1 < 2 * p.outputFrequency.toNat
    by omega)] at hk
  have hmany := toggles_le h heven hk (p.inputFrequency.toNat * (k + 3))
  have hrate := hdivides.2 (p.inputFrequency.toNat * (k + 3) + 1)
  have hin : 0 < p.inputFrequency.toNat := by
    have hle := h.le
    omega
  have htoggles := Nat.mul_le_mul_left p.inputFrequency.toNat hmany
  have hcycles : p.inputFrequency.toNat * (k + 3) ≤
      2 * p.outputFrequency.toNat * (p.inputFrequency.toNat * (k + 3) + 1) :=
    Nat.le_trans (Nat.le_succ _) (Nat.le_mul_of_pos_left _ (by omega))
  rw [abs_le] at hrate
  rw [Nat.mul_add p.inputFrequency.toNat] at hcycles hmany htoggles hrate
  omega

/-- The divider is right exactly if the input frequency and twice the output frequency have a
common divisor. -/
theorem divides_iff (p : Params) (h : InRange p) :
    Divides p ↔ ¬Nat.Coprime p.inputFrequency.toNat (2 * p.outputFrequency.toNat) := by
  constructor
  · intro hdivides hcoprime
    exact not_divides_of_coprime h hcoprime hdivides
  · exact divides_of_common h

/-- The default parameters have a common divisor. -/
theorem divides_default : Divides ⟨100000000#32, 16000000#32, true⟩ :=
  (divides_iff ⟨100000000#32, 16000000#32, true⟩
    ⟨by decide, by decide, by decide, fun _ => by decide⟩).mpr (by decide)

/-- A fifth of the input frequency cannot be made: the second sum underflows. -/
theorem sigma_underflows :
    InRange ⟨5#32, 1#32, true⟩ ∧ (run ⟨5#32, 1#32, true⟩ 5).clockSigma.toNat = 4294967295 ∧
      ¬Divides ⟨5#32, 1#32, true⟩ := by
  have hunderflow : (run ⟨5#32, 1#32, true⟩ 5).clockSigma.toNat = 4294967295 := by decide
  constructor
  · exact ⟨by decide, by decide, by decide, fun _ => by decide⟩
  constructor
  · exact hunderflow
  · intro hdivides
    have hbound := hdivides.1 5
    rw [hunderflow] at hbound
    exact absurd hbound (by decide)

end Run

end Mfi.ClockDivider
