import Mathlib.Tactic.ByContra
import Mathlib.Tactic.Ring
import Mfi.Core.FullPeriod
import Mfi.Core.Trace
import Mfi.Core.Words

/-!
# Pulse width modulator

A prescaler ticks a counter, and each channel compares the count with its duty value. The
count is read with its bits reversed, which spreads the pulse over the period, or folded
into a triangle by its top bit. Either way the output is active in the part of the ticks
that the duty value says.
-/

namespace Mfi.AvalonPwm

open Core

/-- The parameters of the instance; the widths and the number of outputs are at most 32. -/
structure Params where
  clkPrescalerWidth : Nat
  pwmCounterWidth : Nat
  pwmOutputsCount : Nat
  preloadRegs : Bool
  constantMax : Bool
  pulseDither : Bool

structure Regs (p : Params) where
  fdivReg : BitVec p.clkPrescalerWidth
  fdivCnt : BitVec p.clkPrescalerWidth
  dutyReg : Fin p.pwmOutputsCount → BitVec p.pwmCounterWidth
  dutyVal : Fin p.pwmOutputsCount → BitVec p.pwmCounterWidth
  pwmCnt : BitVec (p.pwmCounterWidth + 1)
  polReg : BitVec p.pwmOutputsCount
  ctrlReg : BitVec 4
  irq : Bool
  pwmOut : Fin p.pwmOutputsCount → Bool

structure Input where
  chipselect : Bool
  address : BitVec 6
  write : Bool
  writedata : BitVec 32

/-- The registers after the reset, which leaves the interrupt line as it is. -/
def reset (p : Params) (irq : Bool) : Regs p :=
  { fdivReg := 0
    fdivCnt := 0
    dutyReg := fun _ => 0
    dutyVal := fun _ => 0
    pwmCnt := 0
    polReg := 0
    ctrlReg := 0b0011#4
    irq := irq
    pwmOut := fun _ => false }

section Step

variable {p : Params}

/-! ## The registers of the host -/

/-- A write to one of the three registers that the channels share. -/
def regWr (i : Input) (address : BitVec 6) : Bool :=
  i.chipselect && i.write && i.address == address

def dutyWr (i : Input) (k : Nat) : Bool :=
  i.chipselect && i.write && i.address.getLsbD 5 && (i.address.extractLsb' 0 5).toNat == k

/-! ## Counters and outputs -/

def tick (r : Regs p) : Bool := r.fdivCnt == r.fdivReg

def lowCnt (cnt : BitVec (p.pwmCounterWidth + 1)) : BitVec p.pwmCounterWidth :=
  cnt.setWidth p.pwmCounterWidth

def pwmVal (p : Params) (cnt : BitVec (p.pwmCounterWidth + 1)) : BitVec p.pwmCounterWidth :=
  if p.pulseDither then (lowCnt cnt).reverse
  else
    lowCnt cnt ^^^
      if cnt.getLsbD p.pwmCounterWidth then BitVec.allOnes p.pwmCounterWidth else 0

/-- The duty value of a channel: its register, or the copy that is taken at the count of zero. -/
def duty (r : Regs p) (k : Fin p.pwmOutputsCount) : BitVec p.pwmCounterWidth :=
  if p.preloadRegs then r.dutyVal k else r.dutyReg k

def pwmOutNext (r : Regs p) (k : Fin p.pwmOutputsCount) : Bool :=
  if r.ctrlReg.getLsbD 0 = false then false
  else if pwmVal p r.pwmCnt < duty r k then !r.polReg.getLsbD k
  else if duty r k < pwmVal p r.pwmCnt then r.polReg.getLsbD k
  else if p.constantMax = false then r.polReg.getLsbD k
  else r.pwmOut k

def step (r : Regs p) (i : Input) : Regs p :=
  { fdivReg := if regWr i 0#6 then i.writedata.setWidth p.clkPrescalerWidth else r.fdivReg
    polReg := if regWr i 1#6 then i.writedata.setWidth p.pwmOutputsCount else r.polReg
    ctrlReg := if regWr i 2#6 then i.writedata.setWidth 4 else r.ctrlReg
    dutyReg := fun k =>
      if dutyWr i k then i.writedata.setWidth p.pwmCounterWidth else r.dutyReg k
    fdivCnt :=
      if tick r then 0 else if r.ctrlReg.getLsbD 1 then r.fdivCnt + 1 else r.fdivCnt
    pwmCnt := if tick r then r.pwmCnt + 1 else r.pwmCnt
    irq :=
      if tick r && lowCnt r.pwmCnt == 0 then
        (!r.pwmCnt.getLsbD p.pwmCounterWidth && r.ctrlReg.getLsbD 2) ||
          (r.pwmCnt.getLsbD p.pwmCounterWidth && r.ctrlReg.getLsbD 3)
      else r.irq
    dutyVal := fun k =>
      if p.preloadRegs && tick r && lowCnt r.pwmCnt == 0 then r.dutyReg k else r.dutyVal k
    pwmOut := pwmOutNext r }

end Step

/-! ## What the duty value means -/

section Run

variable {p : Params}

/-- The registers that the host sets are constant along a run, the outputs and the counter are
enabled, and channel `k` has the duty value `d`. -/
structure Constant (rs : Nat → Regs p) (k : Fin p.pwmOutputsCount) (d : BitVec p.pwmCounterWidth) :
    Prop where
  fdivReg : ∀ n, (rs n).fdivReg = (rs 0).fdivReg
  polReg : ∀ n, (rs n).polReg = (rs 0).polReg
  outputs : ∀ n, (rs n).ctrlReg.getLsbD 0 = true
  counter : ∀ n, (rs n).ctrlReg.getLsbD 1 = true
  duty : ∀ n, duty (rs n) k = d

/-- The number of ticks in `len` cycles from cycle `a` on. -/
def ticks (rs : Nat → Regs p) (a len : Nat) : Nat :=
  Nat.count (fun n => tick (rs (a + n)) = true) len

/-- The output that is taken with cycle `n` is active. -/
def active (rs : Nat → Regs p) (k : Fin p.pwmOutputsCount) (n : Nat) : Bool :=
  (rs (n + 1)).pwmOut k == !(rs n).polReg.getLsbD k

/-- The number of these ticks at which the output is active. -/
def activeTicks (rs : Nat → Regs p) (k : Fin p.pwmOutputsCount) (a len : Nat) : Nat :=
  Nat.count (fun n => tick (rs (a + n)) = true ∧ active rs k (a + n) = true) len

/-- The counter goes on forever in even ticks, and the output changes with a tick only. The dithered
output is active in `d` of the ticks of every period of the count, and both outputs in twice as
many of every period with the direction. -/
structure DutyCycle (rs : Nat → Regs p) (k : Fin p.pwmOutputsCount) (d : BitVec p.pwmCounterWidth) :
    Prop where
  goesOn : ∀ a m, ∃ len, ticks rs a len = m
  even : ∀ n, tick (rs n) = true → ∀ j ≤ (rs 0).fdivReg.toNat,
    (tick (rs (n + 1 + j)) = true ↔ j = (rs 0).fdivReg.toNat)
  held : ∀ n, tick (rs n) = false → active rs k (n + 1) = active rs k n
  dithered : p.pulseDither = true → ∀ a len, ticks rs a len = 2 ^ p.pwmCounterWidth →
    activeTicks rs k a len = d.toNat
  triangle : p.pulseDither = false → ∀ a len, ticks rs a len = 2 ^ (p.pwmCounterWidth + 1) →
    activeTicks rs k a len = 2 * d.toNat
  sameRatio : ∀ a len, ticks rs a len = 2 ^ (p.pwmCounterWidth + 1) →
    activeTicks rs k a len * 2 ^ p.pwmCounterWidth = d.toNat * ticks rs a len

/-! ## What the channels see in a period -/

theorem words_reverse {w : Nat} (d : BitVec w) :
    words (fun x : BitVec w => decide (x.reverse < d)) = d.toNat := by
  rw [words_comp (fun x => decide (x < d)) (fun _ => BitVec.reverse_reverse_eq), words_below]

theorem words_not {w : Nat} (d : BitVec w) :
    words (fun x : BitVec w => decide (~~~x < d)) = d.toNat := by
  rw [words_comp (fun x => decide (x < d)) (fun _ => BitVec.not_not), words_below]

theorem lowCnt_cons (b : Bool) (x : BitVec p.pwmCounterWidth) :
    lowCnt (p := p) (BitVec.cons b x) = x := BitVec.setWidth_cons

theorem lowCnt_add (c : BitVec (p.pwmCounterWidth + 1)) (j : Nat) :
    lowCnt (c + BitVec.ofNat _ j) = lowCnt c + BitVec.ofNat p.pwmCounterWidth j := by
  unfold lowCnt
  rw [BitVec.setWidth_add _ _ (Nat.le_succ _), BitVec.setWidth_ofNat_of_le (Nat.le_succ _)]

theorem pwmVal_dithered (hdither : p.pulseDither = true) (c : BitVec (p.pwmCounterWidth + 1)) :
    pwmVal p c = (lowCnt c).reverse := by
  rw [pwmVal, if_pos hdither]

theorem pwmVal_up (hdither : p.pulseDither = false) (x : BitVec p.pwmCounterWidth) :
    pwmVal p (BitVec.cons false x) = x := by
  rw [pwmVal, hdither, lowCnt_cons, BitVec.getLsbD_cons, if_pos rfl]
  exact BitVec.xor_zero

theorem pwmVal_down (hdither : p.pulseDither = false) (x : BitVec p.pwmCounterWidth) :
    pwmVal p (BitVec.cons true x) = ~~~x := by
  rw [pwmVal, hdither, lowCnt_cons, BitVec.getLsbD_cons, if_pos rfl]
  exact BitVec.xor_allOnes

theorem words_pwmVal (d : BitVec p.pwmCounterWidth) :
    words (fun c => decide (pwmVal p c < d)) = 2 * d.toNat := by
  rw [words_succ, Nat.two_mul]
  cases hdither : p.pulseDither with
  | false =>
      simp only [pwmVal_up hdither, pwmVal_down hdither]
      rw [words_below, words_not]
  | true =>
      simp only [pwmVal_dithered hdither, lowCnt_cons]
      rw [words_reverse]

/-! ## Along a run -/

variable {r : Regs p} {inp : Nat → Input} {k : Fin p.pwmOutputsCount}
  {d : BitVec p.pwmCounterWidth}

theorem pwmCnt_succ (n : Nat) : (trace step r inp (n + 1)).pwmCnt =
    if tick (trace step r inp n) then (trace step r inp n).pwmCnt + 1
    else (trace step r inp n).pwmCnt := rfl

theorem active_eq (hmax : p.constantMax = false) (h : Constant (trace step r inp) k d) (n : Nat) :
    active (trace step r inp) k n =
      decide (pwmVal p (trace step r inp n).pwmCnt < d) := by
  have houtputs := h.outputs n
  have hduty := h.duty n
  show (pwmOutNext (trace step r inp n) k == _) = _
  generalize trace step r inp n = now at *
  unfold pwmOutNext
  rw [houtputs, hduty, hmax]
  by_cases hless : pwmVal p now.pwmCnt < d
  · simp [hless]
  · simp [hless]

/-- The active ticks are the consecutive counts below the duty value. -/
theorem activeTicks_eq (hmax : p.constantMax = false) (h : Constant (trace step r inp) k d)
    (a len : Nat) :
    activeTicks (trace step r inp) k a len =
      Nat.count (fun j => decide
          (pwmVal p ((trace step r inp a).pwmCnt + BitVec.ofNat _ j) < d) = true)
        (ticks (trace step r inp) a len) := by
  unfold activeTicks
  simp only [active_eq hmax h]
  exact count_ticks (fun n => (trace step r inp n).pwmCnt) (fun n => tick (trace step r inp n))
    pwmCnt_succ (fun c => decide (pwmVal p c < d)) a len

theorem activeTicks_dithered (hmax : p.constantMax = false) (h : Constant (trace step r inp) k d)
    (hdither : p.pulseDither = true) {a len : Nat}
    (hticks : ticks (trace step r inp) a len = 2 ^ p.pwmCounterWidth) :
    activeTicks (trace step r inp) k a len = d.toNat := by
  rw [activeTicks_eq hmax h, hticks]
  simp only [pwmVal_dithered hdither, lowCnt_add]
  rw [words_from (fun x => decide (x.reverse < d)), words_reverse]

theorem activeTicks_period (hmax : p.constantMax = false) (h : Constant (trace step r inp) k d)
    {a len : Nat} (hticks : ticks (trace step r inp) a len = 2 ^ (p.pwmCounterWidth + 1)) :
    activeTicks (trace step r inp) k a len = 2 * d.toNat := by
  rw [activeTicks_eq hmax h, hticks, words_from (fun c => decide (pwmVal p c < d)), words_pwmVal]

/-! ## The prescaler -/

theorem fdivCnt_succ (h : Constant (trace step r inp) k d) {n : Nat}
    (htick : tick (trace step r inp n) = false) :
    (trace step r inp (n + 1)).fdivCnt = (trace step r inp n).fdivCnt + 1 := by
  show (if tick (trace step r inp n) then 0 else _) = _
  rw [htick, h.counter n]
  rfl

theorem tick_iff (h : Constant (trace step r inp) k d) (n : Nat) :
    tick (trace step r inp n) = true ↔ (trace step r inp n).fdivCnt = r.fdivReg := by
  unfold tick
  rw [h.fdivReg n, beq_iff_eq]
  rfl

theorem exists_tick (h : Constant (trace step r inp) k d) (n : Nat) :
    ∃ j, tick (trace step r inp (n + j)) = true := by
  by_contra hnone
  have hcounts : ∀ j, (trace step r inp (n + j)).fdivCnt =
      (trace step r inp n).fdivCnt + BitVec.ofNat _ j := by
    intro j
    induction j with
    | zero => exact (BitVec.add_zero _).symm
    | succ j ih =>
        have hno : tick (trace step r inp (n + j)) = false := by
          cases htick : tick (trace step r inp (n + j)) with
          | false => rfl
          | true => exact absurd ⟨j, htick⟩ hnone
        rw [← Nat.add_assoc, fdivCnt_succ h hno, ih, BitVec.ofNat_add, BitVec.add_assoc]
        rfl
  apply hnone
  apply Exists.intro (r.fdivReg - (trace step r inp n).fdivCnt).toNat
  rw [tick_iff h, hcounts, BitVec.ofNat_toNat, BitVec.setWidth_eq, BitVec.add_comm,
    BitVec.sub_add_cancel]

theorem fdivCnt_after (h : Constant (trace step r inp) k d) {n : Nat}
    (htick : tick (trace step r inp n) = true) {j : Nat} (hj : j ≤ r.fdivReg.toNat) :
    (trace step r inp (n + 1 + j)).fdivCnt.toNat = j := by
  induction j with
  | zero =>
      have hzero : (trace step r inp (n + 1)).fdivCnt = 0 := if_pos htick
      rw [Nat.add_zero, hzero]
      exact BitVec.toNat_zero
  | succ j ih =>
      have hlt := r.fdivReg.isLt
      have hnow := ih (by omega)
      have hno : tick (trace step r inp (n + 1 + j)) = false := by
        cases hagain : tick (trace step r inp (n + 1 + j)) with
        | false => rfl
        | true =>
            rw [tick_iff h] at hagain
            rw [hagain] at hnow
            omega
      rw [← Nat.add_assoc, fdivCnt_succ h hno, toNat_add_one (by omega), hnow]

theorem tick_after_iff (h : Constant (trace step r inp) k d) {n : Nat}
    (htick : tick (trace step r inp n) = true) {j : Nat} (hj : j ≤ r.fdivReg.toNat) :
    tick (trace step r inp (n + 1 + j)) = true ↔ j = r.fdivReg.toNat := by
  rw [tick_iff h, ← BitVec.toNat_inj, fdivCnt_after h htick hj]

/-! ## Constant registers -/

theorem regWr_eq_false {i : Input} (h : i.write = false) (address : BitVec 6) :
    regWr i address = false := by
  simp [regWr, h]

theorem dutyWr_eq_false {i : Input} (h : i.write = false) (j : Nat) : dutyWr i j = false := by
  simp [dutyWr, h]

structure Kept (r s : Regs p) : Prop where
  fdivReg : s.fdivReg = r.fdivReg
  polReg : s.polReg = r.polReg
  ctrlReg : s.ctrlReg = r.ctrlReg
  dutyReg : s.dutyReg = r.dutyReg

theorem kept_step (r : Regs p) {i : Input} (h : i.write = false) : Kept r (step r i) where
  fdivReg := by
    show (if regWr i 0#6 then _ else _) = _
    rw [regWr_eq_false h, if_neg Bool.false_ne_true]
  polReg := by
    show (if regWr i 1#6 then _ else _) = _
    rw [regWr_eq_false h, if_neg Bool.false_ne_true]
  ctrlReg := by
    show (if regWr i 2#6 then _ else _) = _
    rw [regWr_eq_false h, if_neg Bool.false_ne_true]
  dutyReg := by
    funext j
    show (if dutyWr i j then _ else _) = _
    rw [dutyWr_eq_false h, if_neg Bool.false_ne_true]

theorem kept_trace (hwrite : ∀ n, (inp n).write = false) (n : Nat) :
    Kept r (trace step r inp n) := by
  induction n with
  | zero => exact ⟨rfl, rfl, rfl, rfl⟩
  | succ n ih =>
      have hstep := kept_step (trace step r inp n) (hwrite n)
      exact
        { fdivReg := hstep.fdivReg.trans ih.fdivReg
          polReg := hstep.polReg.trans ih.polReg
          ctrlReg := hstep.ctrlReg.trans ih.ctrlReg
          dutyReg := hstep.dutyReg.trans ih.dutyReg }

theorem dutyVal_step (r : Regs p) (i : Input) (h : r.dutyVal k = r.dutyReg k) :
    (step r i).dutyVal k = r.dutyReg k := by
  show (if _ then r.dutyReg k else r.dutyVal k) = _
  rw [h, ite_self]

theorem dutyVal_trace (hwrite : ∀ n, (inp n).write = false) (h : r.dutyVal k = r.dutyReg k)
    (n : Nat) : (trace step r inp n).dutyVal k = r.dutyReg k := by
  induction n with
  | zero => exact h
  | succ n ih =>
      have hreg : (trace step r inp n).dutyReg k = r.dutyReg k :=
        congrFun (kept_trace hwrite n).dutyReg k
      rw [trace_succ, dutyVal_step _ _ (ih.trans hreg.symm), hreg]

theorem constant_of_no_write (hwrite : ∀ n, (inp n).write = false)
    (houtputs : r.ctrlReg.getLsbD 0 = true) (hcounter : r.ctrlReg.getLsbD 1 = true)
    (hduty : r.dutyVal k = r.dutyReg k) : Constant (trace step r inp) k (r.dutyReg k) where
  fdivReg := fun n => (kept_trace hwrite n).fdivReg
  polReg := fun n => (kept_trace hwrite n).polReg
  outputs := by
    intro n
    rw [(kept_trace hwrite n).ctrlReg, houtputs]
  counter := by
    intro n
    rw [(kept_trace hwrite n).ctrlReg, hcounter]
  duty := by
    intro n
    unfold duty
    rw [dutyVal_trace hwrite hduty, (kept_trace hwrite n).dutyReg, ite_self]

/-- Every channel keeps its duty value, from any registers and any count. -/
theorem dutyCycle_of_constant (hmax : p.constantMax = false)
    (h : Constant (trace step r inp) k d) : DutyCycle (trace step r inp) k d where
  goesOn := exists_ticks (fun n => tick (trace step r inp n)) (exists_tick h)
  even := fun _ htick _ hj => tick_after_iff h htick hj
  held := by
    intro n htick
    rw [active_eq hmax h, active_eq hmax h, pwmCnt_succ, htick, if_neg Bool.false_ne_true]
  dithered := fun hdither _ _ hticks => activeTicks_dithered hmax h hdither hticks
  triangle := fun _ _ _ hticks => activeTicks_period hmax h hticks
  sameRatio := by
    intro a len hticks
    rw [activeTicks_period hmax h hticks, hticks, Nat.pow_succ]
    ring

end Run

/-- A counter of two bits with reversed bits, and a duty value of three. -/
theorem dutyCycle_two_bits :
    DutyCycle
      (trace step { reset ⟨4, 2, 1, false, false, true⟩ false with dutyReg := fun _ => 3#2,
                                                                   dutyVal := fun _ => 3#2 }
        (fun _ => ⟨false, 0#6, false, 0#32⟩))
      ⟨0, Nat.one_pos⟩ 3#2 :=
  dutyCycle_of_constant rfl (constant_of_no_write (fun _ => rfl) rfl rfl rfl)

end Mfi.AvalonPwm
