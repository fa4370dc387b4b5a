import Mathlib.Algebra.Group.Nat.Defs
import Mfi.Core.Period
import Mfi.Core.Stretches
import Mfi.Core.Trace

/-!
# LED interface for error codes

`led_interface.sv`: a pause, then for each bit of the code, the highest first, eight slots with a
start mark and the bit, then a pause again. The code is taken over between two frames. The
toplevel has three of these LEDs, whose pauses let them speak in turn.
-/

namespace Mfi.LedInterface

open Core

/-- The parameters of an instance. The products fit an integer, and the timers can reach them. -/
structure Params where
  clockFreq : Nat
  blinkPeriodMs : Nat
  pauseBeforeMs : Nat
  pauseAfterMs : Nat
  bitsCount : Nat
  blink_pos : 0 < blinkPeriodMs * (clockFreq / 1000)
  blink_fits : blinkPeriodMs * (clockFreq / 1000) < 2 ^ 31
  before_fits : pauseBeforeMs * (clockFreq / 1000) < 2 ^ 31
  after_fits : pauseAfterMs * (clockFreq / 1000) < 2 ^ 31
  bits_pos : 0 < bitsCount
  bits_fit : bitsCount ≤ 256

namespace Params

variable (p : Params)

def pauseBefore : Nat := p.pauseBeforeMs * (p.clockFreq / 1000)

def pauseAfter : Nat := p.pauseAfterMs * (p.clockFreq / 1000)

def blinkPeriod : Nat := p.blinkPeriodMs * (p.clockFreq / 1000)

end Params

@[ext] structure Counters where
  stateCounter : Nat
  bitCounter : Nat
  beforeTimer : Nat
  afterTimer : Nat
  blinkTimer : Nat
  deriving DecidableEq

structure Regs (w : Nat) where
  counters : Counters
  codeMeta : BitVec w
  codeLatch : BitVec w
  currentCode : BitVec w
  serialCodeReg : Bool

namespace Counters

variable (p : Params) (c : Counters)

def first : Counters := ⟨0, p.bitsCount - 1, 0, 0, 0⟩

/-- The frame is over, and the next code is taken over. -/
def restarts : Bool :=
  !(decide (0 < p.pauseBefore) && decide (c.beforeTimer < p.pauseBefore - 1)) &&
    !(decide (0 < c.bitCounter) || decide (c.stateCounter < 7)) &&
    !(decide (0 < p.pauseAfter) && decide (c.afterTimer < p.pauseAfter - 1))

def next : Counters :=
  if 0 < p.pauseBefore ∧ c.beforeTimer < p.pauseBefore - 1 then
    { c with beforeTimer := c.beforeTimer + 1 }
  else if 0 < c.bitCounter ∨ c.stateCounter < 7 then
    if c.blinkTimer < p.blinkPeriod - 1 then { c with blinkTimer := c.blinkTimer + 1 }
    else if c.stateCounter < 7 then
      { c with stateCounter := c.stateCounter + 1, blinkTimer := 0 }
    else { c with stateCounter := 0, bitCounter := c.bitCounter - 1, blinkTimer := 0 }
  else if 0 < p.pauseAfter ∧ c.afterTimer < p.pauseAfter - 1 then
    { c with afterTimer := c.afterTimer + 1 }
  else
    { c with beforeTimer := 0, afterTimer := 0, stateCounter := 0, bitCounter := p.bitsCount - 1 }

def output {w : Nat} (c : Counters) (currentCode : BitVec w) : Bool :=
  if c.stateCounter = 3 ∨ c.stateCounter = 4 ∨ c.stateCounter = 5 then
    currentCode.getLsbD c.bitCounter
  else decide (c.stateCounter = 2)

end Counters

section Step

variable (p : Params)

def reset : Regs p.bitsCount := ⟨.first p, 0, 0, 0, false⟩

/-- One cycle of `clk`. -/
def step (r : Regs p.bitsCount) (parallelCode : BitVec p.bitsCount) : Regs p.bitsCount where
  counters := r.counters.next p
  codeMeta := parallelCode
  codeLatch := r.codeMeta
  currentCode := if r.counters.restarts p then r.codeLatch else r.currentCode
  serialCodeReg := r.counters.output r.currentCode

end Step

/-! ## The frame -/

section Frame

variable (p : Params)

def lead : Nat := p.pauseBefore - 1

/-- The cycles of the slots; the last one goes over into the pause. -/
def coded : Nat := (8 * p.bitsCount - 1) * p.blinkPeriod

def period : Nat := lead p + coded p + (p.pauseAfter - 1) + 1

/-- The slot of cycle `x` of a frame. -/
def slot (x : Nat) : Nat := min ((x - lead p) / p.blinkPeriod) (8 * p.bitsCount - 1)

/-- The counters in cycle `x` of a frame. -/
def Counters.inFrame (x : Nat) : Counters where
  stateCounter := slot p x % 8
  bitCounter := p.bitsCount - 1 - slot p x / 8
  beforeTimer := min x (lead p)
  afterTimer := x - lead p - coded p
  blinkTimer := if x - lead p < coded p then (x - lead p) % p.blinkPeriod else 0

theorem coded_add : coded p + p.blinkPeriod = 8 * p.bitsCount * p.blinkPeriod := by
  unfold coded
  rw [← Nat.succ_mul]
  congr 1
  have hbits := p.bits_pos
  omega

theorem coded_pos : 0 < coded p := by
  have hbits := p.bits_pos
  exact Nat.mul_pos (by omega) p.blink_pos

theorem slot_of_lt {x : Nat} (hx : x - lead p < coded p) :
    slot p x = (x - lead p) / p.blinkPeriod ∧ slot p x < 8 * p.bitsCount - 1 := by
  have hlt : (x - lead p) / p.blinkPeriod < 8 * p.bitsCount - 1 :=
    Nat.div_lt_of_lt_mul (by rw [Nat.mul_comm]; exact hx)
  unfold slot
  omega

theorem slot_of_le {x : Nat} (hx : coded p ≤ x - lead p) : slot p x = 8 * p.bitsCount - 1 := by
  have hle : 8 * p.bitsCount - 1 ≤ (x - lead p) / p.blinkPeriod :=
    (Nat.le_div_iff_mul_le p.blink_pos).mpr hx
  unfold slot
  omega

theorem inFrame_zero : Counters.inFrame p 0 = .first p := by
  have hslot : slot p 0 = 0 := by
    unfold slot
    simp only [Nat.zero_sub, Nat.zero_div, Nat.zero_min]
  unfold Counters.inFrame Counters.first
  simp only [hslot, Nat.zero_mod, Nat.zero_div, Nat.sub_zero, Nat.zero_sub, Nat.zero_min, ite_self]

variable {p} {x : Nat} {c : Counters}

theorem next_of_before (h : 0 < p.pauseBefore ∧ c.beforeTimer < p.pauseBefore - 1) :
    c.next p = { c with beforeTimer := c.beforeTimer + 1 } ∧ c.restarts p = false := by
  constructor
  · unfold Counters.next
    rw [if_pos h]
  · unfold Counters.restarts
    simp only [h.1, h.2, decide_true, Bool.and_self, Bool.not_true, Bool.false_and]

theorem next_of_code (hbefore : ¬(0 < p.pauseBefore ∧ c.beforeTimer < p.pauseBefore - 1))
    (hcode : 0 < c.bitCounter ∨ c.stateCounter < 7) :
    c.next p = (if c.blinkTimer < p.blinkPeriod - 1 then { c with blinkTimer := c.blinkTimer + 1 }
      else if c.stateCounter < 7 then
        { c with stateCounter := c.stateCounter + 1, blinkTimer := 0 }
      else { c with stateCounter := 0, bitCounter := c.bitCounter - 1, blinkTimer := 0 }) ∧
      c.restarts p = false := by
  constructor
  · unfold Counters.next
    rw [if_neg hbefore, if_pos hcode]
  · unfold Counters.restarts
    rw [← Bool.decide_or, decide_eq_true hcode]
    simp only [Bool.not_true, Bool.and_false, Bool.false_and]

theorem next_of_over (hbefore : ¬(0 < p.pauseBefore ∧ c.beforeTimer < p.pauseBefore - 1))
    (hcode : ¬(0 < c.bitCounter ∨ c.stateCounter < 7)) :
    c.next p = (if c.afterTimer < p.pauseAfter - 1 then { c with afterTimer := c.afterTimer + 1 }
      else ⟨0, p.bitsCount - 1, 0, 0, c.blinkTimer⟩) ∧
      c.restarts p = !decide (c.afterTimer < p.pauseAfter - 1) := by
  have hafter : (0 < p.pauseAfter ∧ c.afterTimer < p.pauseAfter - 1) ↔
      c.afterTimer < p.pauseAfter - 1 := by omega
  constructor
  · unfold Counters.next
    rw [if_neg hbefore, if_neg hcode]
    simp only [hafter]
  · unfold Counters.restarts
    rw [← Bool.decide_and, ← Bool.decide_or, ← Bool.decide_and, decide_eq_false hbefore,
      decide_eq_false hcode]
    simp only [hafter, Bool.not_false, Bool.true_and]

theorem next_lead (hx : x < lead p) :
    (Counters.inFrame p x).next p = .inFrame p (x + 1) ∧
      (Counters.inFrame p x).restarts p = false := by
  have hbefore : 0 < p.pauseBefore ∧ min x (lead p) < p.pauseBefore - 1 := by
    unfold lead at *
    omega
  have hrest : x + 1 - lead p = x - lead p := by omega
  have htimer : min x (lead p) + 1 = min (x + 1) (lead p) := by omega
  obtain ⟨hnext, hrestarts⟩ := next_of_before (c := .inFrame p x) hbefore
  apply And.intro _ hrestarts
  rw [hnext]
  unfold Counters.inFrame slot
  rw [hrest, htimer]

theorem slot_succ (hlead : lead p ≤ x) (hx : x - lead p < coded p) :
    if (x - lead p) % p.blinkPeriod + 1 = p.blinkPeriod then
      slot p (x + 1) = slot p x + 1 ∧ (Counters.inFrame p (x + 1)).blinkTimer = 0
    else slot p (x + 1) = slot p x ∧
      (Counters.inFrame p (x + 1)).blinkTimer = (x - lead p) % p.blinkPeriod + 1 := by
  obtain ⟨hslot, hlast⟩ := slot_of_lt p hx
  have hsub : x + 1 - lead p = x - lead p + 1 := by omega
  have hnext := succ_div_mod (x - lead p) p.blink_pos
  change if (x - lead p) % p.blinkPeriod + 1 = p.blinkPeriod then
      (x - lead p + 1) / p.blinkPeriod = (x - lead p) / p.blinkPeriod + 1 ∧
        (x - lead p + 1) % p.blinkPeriod = 0
    else (x - lead p + 1) / p.blinkPeriod = (x - lead p) / p.blinkPeriod ∧
      (x - lead p + 1) % p.blinkPeriod = (x - lead p) % p.blinkPeriod + 1 at hnext
  have hnow : slot p (x + 1) = min ((x - lead p + 1) / p.blinkPeriod) (8 * p.bitsCount - 1) := by
    unfold slot
    rw [hsub]
  unfold Counters.inFrame
  dsimp only
  rw [hsub, hnow]
  by_cases hfull : (x - lead p) % p.blinkPeriod + 1 = p.blinkPeriod
  · rw [if_pos hfull] at hnext ⊢
    obtain ⟨hdiv, hmod⟩ := hnext
    rw [hmod, ite_self]
    omega
  · rw [if_neg hfull] at hnext ⊢
    obtain ⟨hdiv, hmod⟩ := hnext
    have hin : x - lead p + 1 < coded p := by
      rcases Nat.lt_or_eq_of_le (Nat.succ_le_of_lt hx) with hless | hend
      · exact hless
      · -- A full number of slots leaves no rest.
        have hzero : (x - lead p + 1) % p.blinkPeriod = 0 := by
          rw [show x - lead p + 1 = coded p from hend]
          unfold coded
          exact Nat.mul_mod_left _ _
        omega
    rw [if_pos hin]
    omega

theorem next_coded (hlead : lead p ≤ x) (hx : x - lead p < coded p) :
    (Counters.inFrame p x).next p = .inFrame p (x + 1) ∧
      (Counters.inFrame p x).restarts p = false := by
  obtain ⟨hslot, hlast⟩ := slot_of_lt p hx
  have hbefore : ¬(0 < p.pauseBefore ∧ min x (lead p) < p.pauseBefore - 1) := by
    unfold lead at *
    omega
  have hcode : 0 < p.bitsCount - 1 - slot p x / 8 ∨ slot p x % 8 < 7 := by omega
  obtain ⟨hnext, hrestarts⟩ := next_of_code (c := .inFrame p x) hbefore hcode
  apply And.intro _ hrestarts
  have hrest : (Counters.inFrame p x).blinkTimer = (x - lead p) % p.blinkPeriod := if_pos hx
  have hafter : x + 1 - lead p - coded p = x - lead p - coded p := by omega
  have htimer : min (x + 1) (lead p) = min x (lead p) := by omega
  have hlt : (x - lead p) % p.blinkPeriod < p.blinkPeriod := Nat.mod_lt _ p.blink_pos
  have hsucc := slot_succ hlead hx
  rw [hnext, hrest]
  split at hsucc
  · obtain ⟨hgrown, hzero⟩ := hsucc
    rw [if_neg (by omega)]
    by_cases hstate : slot p x % 8 < 7
    · rw [if_pos (show (Counters.inFrame p x).stateCounter < 7 from hstate)]
      ext
      · change slot p x % 8 + 1 = slot p (x + 1) % 8
        omega
      · change p.bitsCount - 1 - slot p x / 8 = p.bitsCount - 1 - slot p (x + 1) / 8
        omega
      · exact htimer.symm
      · exact hafter.symm
      · exact hzero.symm
    · rw [if_neg (show ¬(Counters.inFrame p x).stateCounter < 7 from hstate)]
      ext
      · change 0 = slot p (x + 1) % 8
        omega
      · change p.bitsCount - 1 - slot p x / 8 - 1 = p.bitsCount - 1 - slot p (x + 1) / 8
        omega
      · exact htimer.symm
      · exact hafter.symm
      · exact hzero.symm
  · obtain ⟨hsame, hmore⟩ := hsucc
    rw [if_pos (by omega)]
    ext
    · change slot p x % 8 = slot p (x + 1) % 8
      rw [hsame]
    · change p.bitsCount - 1 - slot p x / 8 = p.bitsCount - 1 - slot p (x + 1) / 8
      rw [hsame]
    · exact htimer.symm
    · exact hafter.symm
    · exact hmore.symm

theorem next_pause (hx : coded p ≤ x - lead p) :
    (Counters.inFrame p x).next p =
        (if x + 1 < period p then Counters.inFrame p (x + 1) else .first p) ∧
      (Counters.inFrame p x).restarts p = !decide (x + 1 < period p) := by
  have hbits := p.bits_pos
  have hslot := slot_of_le p hx
  have hslot' := slot_of_le p (show coded p ≤ x + 1 - lead p by omega)
  have hcodedpos := coded_pos p
  have hbefore : ¬(0 < p.pauseBefore ∧ min x (lead p) < p.pauseBefore - 1) := by
    unfold lead at *
    omega
  have hcode : ¬(0 < p.bitsCount - 1 - slot p x / 8 ∨ slot p x % 8 < 7) := by omega
  have hafter : (Counters.inFrame p x).afterTimer < p.pauseAfter - 1 ↔ x + 1 < period p := by
    change x - lead p - coded p < p.pauseAfter - 1 ↔ x + 1 < period p
    unfold period
    omega
  have hrest : (Counters.inFrame p x).blinkTimer = 0 := if_neg (by omega)
  have hrest' : (Counters.inFrame p (x + 1)).blinkTimer = 0 := if_neg (by omega)
  obtain ⟨hnext, hrestarts⟩ := next_of_over (c := .inFrame p x) hbefore hcode
  constructor
  · rw [hnext]
    by_cases hlast : x + 1 < period p
    · rw [if_pos hlast, if_pos (hafter.2 hlast)]
      ext
      · change slot p x % 8 = slot p (x + 1) % 8
        rw [hslot, hslot']
      · change p.bitsCount - 1 - slot p x / 8 = p.bitsCount - 1 - slot p (x + 1) / 8
        rw [hslot, hslot']
      · change min x (lead p) = min (x + 1) (lead p)
        omega
      · change x - lead p - coded p + 1 = x + 1 - lead p - coded p
        omega
      · exact hrest.trans hrest'.symm
    · rw [if_neg hlast, if_neg fun hless => hlast (hafter.1 hless), hrest]
      rfl
  · rw [hrestarts]
    exact congrArg _ (decide_eq_decide.2 hafter)

/-- The counters follow the frame from its first cycle to its last one. -/
theorem next_inFrame (x : Nat) :
    (Counters.inFrame p x).next p =
        (if x + 1 < period p then Counters.inFrame p (x + 1) else .inFrame p 0) ∧
      (Counters.inFrame p x).restarts p = !decide (x + 1 < period p) := by
  rw [inFrame_zero]
  rcases Nat.lt_or_ge x (lead p) with hlead | hlead
  · have hless : x + 1 < period p := by
      have hcodedpos := coded_pos p
      unfold period
      omega
    rw [if_pos hless, decide_eq_true hless]
    exact next_lead hlead
  rcases Nat.lt_or_ge (x - lead p) (coded p) with hcoded | hcoded
  · have hless : x + 1 < period p := by
      unfold period
      omega
    rw [if_pos hless, decide_eq_true hless]
    exact next_coded hlead hcoded
  · exact next_pause hcoded

/-- No counter leaves its register. -/
theorem inFrame_fits (hx : x < period p) :
    (Counters.inFrame p x).stateCounter < 2 ^ 3 ∧ (Counters.inFrame p x).bitCounter < 2 ^ 8 ∧
      (Counters.inFrame p x).beforeTimer < 2 ^ 32 ∧ (Counters.inFrame p x).afterTimer < 2 ^ 32 ∧
      (Counters.inFrame p x).blinkTimer < 2 ^ 32 := by
  have hblink : p.blinkPeriod < 2 ^ 31 := p.blink_fits
  have hbefore : p.pauseBefore < 2 ^ 31 := p.before_fits
  have hafter : p.pauseAfter < 2 ^ 31 := p.after_fits
  have hbits := p.bits_fit
  have hbitspos := p.bits_pos
  have hlt : (x - lead p) % p.blinkPeriod < p.blinkPeriod := Nat.mod_lt _ p.blink_pos
  have htimer : (Counters.inFrame p x).blinkTimer ≤ (x - lead p) % p.blinkPeriod := by
    unfold Counters.inFrame
    dsimp only
    split
    · exact Nat.le_refl _
    · exact Nat.zero_le _
  refine ⟨?_, ?_, ?_, ?_, by omega⟩
  · change slot p x % 8 < 2 ^ 3
    omega
  · change p.bitsCount - 1 - slot p x / 8 < 2 ^ 8
    omega
  · change min x (lead p) < 2 ^ 32
    unfold lead
    omega
  · change x - lead p - coded p < 2 ^ 32
    unfold period at hx
    omega

/-- The first cycle of the light for bit `i`, the highest bit first. -/
def mark (p : Params) (i : Nat) : Nat := lead p + (8 * i + 2) * p.blinkPeriod

/-- The slots that are lit for bit `i`: the mark only, or the mark and the bit. -/
def litSlots {w : Nat} (code : BitVec w) (i : Nat) : Nat := if code.getMsbD i then 4 else 1

theorem litSlots_pos {w : Nat} (code : BitVec w) (i : Nat) : 0 < litSlots code i := by
  unfold litSlots
  split <;> omega

theorem litSlots_le {w : Nat} (code : BitVec w) (i : Nat) : litSlots code i ≤ 4 := by
  unfold litSlots
  split <;> omega

theorem mark_add_le {i k : Nat} (hi : i < p.bitsCount) (hk : k ≤ 4) :
    mark p i + k * p.blinkPeriod + 2 * p.blinkPeriod ≤
      lead p + 8 * p.bitsCount * p.blinkPeriod := by
  have hslots : 8 * i + 2 + k + 2 ≤ 8 * p.bitsCount := by omega
  have hmul := Nat.mul_le_mul_right p.blinkPeriod hslots
  simp only [Nat.add_mul] at hmul
  unfold mark
  rw [Nat.add_mul]
  omega

theorem mark_add_lt_period {i k : Nat} (hi : i < p.bitsCount) (hk : k ≤ 4) :
    mark p i + k * p.blinkPeriod + p.blinkPeriod < period p := by
  have hle := mark_add_le hi hk
  have hcoded := coded_add p
  unfold period
  omega

theorem output_slot (code : BitVec p.bitsCount) {s : Nat} (hs : s < 8 * p.bitsCount) :
    (if s % 8 = 3 ∨ s % 8 = 4 ∨ s % 8 = 5 then code.getLsbD (p.bitsCount - 1 - s / 8)
      else decide (s % 8 = 2)) = true ↔
      ∃ i < p.bitsCount, 8 * i + 2 ≤ s ∧ s < 8 * i + 2 + litSlots code i := by
  have hbit : code.getMsbD (s / 8) = code.getLsbD (p.bitsCount - 1 - s / 8) := by
    unfold BitVec.getMsbD
    rw [decide_eq_true (by omega), Bool.true_and]
  have hle := litSlots_le code
  constructor
  · intro hlit
    refine ⟨s / 8, by omega, ?_⟩
    unfold litSlots
    rw [hbit]
    split at hlit
    · rw [hlit, if_pos rfl]
      omega
    · have hmark := of_decide_eq_true hlit
      split <;> omega
  · rintro ⟨i, hi, hfrom, hto⟩
    have hlit := hle i
    have hdiv : s / 8 = i := by omega
    unfold litSlots at hto
    rw [← hdiv, hbit] at hto
    split
    · split at hto
      · assumption
      · omega
    · rw [decide_eq_true_eq]
      split at hto <;> omega

/-- When the output is lit in a frame. -/
theorem output_iff (code : BitVec p.bitsCount) (x : Nat) :
    (Counters.inFrame p x).output code = true ↔
      ∃ i < p.bitsCount, mark p i ≤ x ∧ x < mark p i + litSlots code i * p.blinkPeriod := by
  have hbits := p.bits_pos
  have hslots : slot p x < 8 * p.bitsCount := by
    unfold slot
    omega
  refine (output_slot code hslots).trans (exists_congr fun i => and_congr_right fun hi => ?_)
  have hpos : 0 < p.blinkPeriod := p.blink_pos
  have hlit := litSlots_le code i
  have hend := mark_add_le (p := p) hi (litSlots_le code i)
  rcases Nat.lt_or_ge (x - lead p) (coded p) with hcoded | hcoded
  · obtain ⟨hslot, _⟩ := slot_of_lt p hcoded
    rw [hslot, Nat.le_div_iff_mul_le hpos, Nat.div_lt_iff_lt_mul hpos, Nat.add_mul _ (litSlots _ _)]
    have hmarkpos : 0 < (8 * i + 2) * p.blinkPeriod := Nat.mul_pos (by omega) hpos
    unfold mark
    omega
  · have hslot := slot_of_le p hcoded
    have hmore := coded_add p
    have hcodedpos := coded_pos p
    omega

end Frame

/-! ## Runs -/

section Run

variable (p : Params) (inp : Nat → BitVec p.bitsCount)

/-- The registers before cycle `n` after the reset, with the code of every cycle. -/
abbrev run (n : Nat) : Regs p.bitsCount := trace (step p) (reset p) inp n

def serialCode (n : Nat) : Bool := (run p inp n).serialCodeReg

/-- The code of a frame. The first frame has none; a later one shows the code that the input had
three cycles before the frame. -/
def shown : Nat → BitVec p.bitsCount
  | 0 => 0
  | j + 1 => inp ((j + 1) * period p - 3)

theorem period_pos : 0 < period p := by
  unfold period
  omega

theorem seven_le_coded : 7 ≤ coded p := by
  have hbits := p.bits_pos
  have hpos : 0 < p.blinkPeriod := p.blink_pos
  exact Nat.le_trans (show 7 ≤ 8 * p.bitsCount - 1 by omega) (Nat.le_mul_of_pos_right _ hpos)

theorem run_counters (n : Nat) : (run p inp n).counters = .inFrame p (n % period p) := by
  induction n with
  | zero =>
      rw [Nat.zero_mod]
      exact (inFrame_zero p).symm
  | succ n ih =>
      have hmod := succ_div_mod n (period_pos p)
      have hlt := Nat.mod_lt n (period_pos p)
      have hnext : (run p inp (n + 1)).counters = (run p inp n).counters.next p := rfl
      rw [hnext, ih, (next_inFrame _).1]
      split at hmod
      · rw [if_neg (by omega), hmod.2]
      · rw [if_pos (by omega), hmod.2]

theorem run_counters_fit (n : Nat) :
    (run p inp n).counters.stateCounter < 2 ^ 3 ∧ (run p inp n).counters.bitCounter < 2 ^ 8 ∧
      (run p inp n).counters.beforeTimer < 2 ^ 32 ∧ (run p inp n).counters.afterTimer < 2 ^ 32 ∧
      (run p inp n).counters.blinkTimer < 2 ^ 32 := by
  rw [run_counters]
  exact inFrame_fits (Nat.mod_lt n (period_pos p))

theorem run_codeLatch (n : Nat) : (run p inp (n + 2)).codeLatch = inp n := rfl

theorem run_restarts (n : Nat) :
    (run p inp n).counters.restarts p = !decide (n % period p + 1 < period p) := by
  rw [run_counters, (next_inFrame _).2]

theorem run_currentCode (n : Nat) : (run p inp n).currentCode = shown p inp (n / period p) := by
  induction n with
  | zero => rw [Nat.zero_div]; rfl
  | succ n ih =>
      have hmod := succ_div_mod n (period_pos p)
      have hlt := Nat.mod_lt n (period_pos p)
      have hcode : (run p inp (n + 1)).currentCode =
          if (run p inp n).counters.restarts p then (run p inp n).codeLatch
          else (run p inp n).currentCode := rfl
      rw [hcode, run_restarts, ih]
      split at hmod
      · rename_i hlast
        have hseven := seven_le_coded p
        have hle : coded p ≤ period p := by
          unfold period
          omega
        have hdiv := Nat.div_add_mod n (period p)
        have hn : n = n - 2 + 2 := by
          have hmodle := Nat.mod_le n (period p)
          omega
        have htaken : (n / period p + 1) * period p - 3 = n - 2 := by
          rw [Nat.succ_mul, Nat.mul_comm]
          omega
        rw [decide_eq_false (by omega), hmod.1, shown, htaken, ← run_codeLatch p inp (n - 2), ← hn]
        rfl
      · rw [decide_eq_true (by omega), hmod.1]
        rfl

theorem serialCode_succ (n : Nat) :
    serialCode p inp (n + 1) =
      (Counters.inFrame p (n % period p)).output (shown p inp (n / period p)) := by
  rw [← run_counters p inp, ← run_currentCode]
  rfl

/-- The first cycle of light number `k`. -/
def start (k : Nat) : Nat := k / p.bitsCount * period p + mark p (k % p.bitsCount) + 1

/-- The cycles of light number `k`. -/
def lit (k : Nat) : Nat :=
  litSlots (shown p inp (k / p.bitsCount)) (k % p.bitsCount) * p.blinkPeriod

theorem start_gap (k : Nat) : start p k + lit p inp k < start p (k + 1) := by
  have hbits := p.bits_pos
  have hpos : 0 < p.blinkPeriod := p.blink_pos
  have hmod := succ_div_mod k hbits
  have hle := litSlots_le (shown p inp (k / p.bitsCount)) (k % p.bitsCount)
  have hmul := Nat.mul_le_mul_right p.blinkPeriod hle
  unfold start lit
  split at hmod
  · have hend := mark_add_lt_period (Nat.mod_lt k hbits) hle
    rw [hmod.1, Nat.succ_mul]
    omega
  · have hnext : mark p (k % p.bitsCount + 1) = mark p (k % p.bitsCount) + 8 * p.blinkPeriod := by
      unfold mark
      rw [show 8 * (k % p.bitsCount + 1) + 2 = 8 * (k % p.bitsCount) + 2 + 8 by omega, Nat.add_mul]
      omega
    rw [hmod.1, hmod.2, hnext]
    omega

theorem serialCode_iff (n : Nat) :
    serialCode p inp n = true ↔ ∃ k, start p k ≤ n ∧ n < start p k + lit p inp k := by
  have hbits := p.bits_pos
  cases n with
  | zero =>
      constructor
      · intro hlit
        exact absurd hlit Bool.false_ne_true
      · rintro ⟨k, hle, _⟩
        unfold start at hle
        omega
  | succ n =>
      rw [serialCode_succ, output_iff]
      constructor
      · rintro ⟨i, hi, hfrom, hto⟩
        have hdiv := Nat.div_add_mod n (period p)
        rw [Nat.mul_comm] at hdiv
        obtain ⟨hframe, hbit⟩ := div_mod_of_eq (x := p.bitsCount * (n / period p) + i) hi rfl
        refine ⟨p.bitsCount * (n / period p) + i, ?_⟩
        unfold start lit
        rw [hframe, hbit]
        omega
      · rintro ⟨k, hfrom, hto⟩
        have hi := Nat.mod_lt k hbits
        have hend := mark_add_lt_period hi
          (litSlots_le (shown p inp (k / p.bitsCount)) (k % p.bitsCount))
        unfold start at hfrom hto
        unfold lit at hto
        obtain ⟨hframe, hbit⟩ := div_mod_of_eq (x := n)
          (r := n - k / p.bitsCount * period p) (T := period p) (q := k / p.bitsCount)
          (by omega) (by rw [Nat.mul_comm]; omega)
        rw [hframe, hbit]
        exact ⟨k % p.bitsCount, hi, by omega, by omega⟩

theorem serialCode_highIn : HighIn (serialCode p inp) (start p) (lit p inp) where
  pos := fun _ => Nat.mul_pos (litSlots_pos _ _) p.blink_pos
  gap := start_gap p inp
  high_iff := serialCode_iff p inp

/-- Somebody who looks at the LED sees the codes: its lights are, frame by frame and bit by bit,
four slots long for a one and one slot long for a zero, and there are no others. -/
theorem lights_tell_codes (s len : Nat) :
    Stretch (serialCode p inp) s len ↔
      ∃ k, s = start p k ∧
        len = if (shown p inp (k / p.bitsCount)).getMsbD (k % p.bitsCount) then 4 * p.blinkPeriod
          else p.blinkPeriod := by
  have hlit : ∀ k, lit p inp k =
      if (shown p inp (k / p.bitsCount)).getMsbD (k % p.bitsCount) then 4 * p.blinkPeriod
      else p.blinkPeriod := by
    intro k
    unfold lit litSlots
    split
    · rfl
    · rw [Nat.one_mul]
  rw [(serialCode_highIn p inp).stretch_iff]
  simp only [hlit]

end Run

/-! ## The LEDs of the toplevel -/

section Toplevel

/-- For `ddr_error_code`. -/
def ledInterface0 : Params where
  clockFreq := 80000000
  blinkPeriodMs := 100
  pauseBeforeMs := 1000
  pauseAfterMs := 10000
  bitsCount := 8
  blink_pos := by decide
  blink_fits := by decide
  before_fits := by decide
  after_fits := by decide
  bits_pos := by decide
  bits_fit := by decide

/-- For `clock_error_code`. -/
def ledInterface1 : Params where
  clockFreq := 80000000
  blinkPeriodMs := 100
  pauseBeforeMs := 8400
  pauseAfterMs := 2600
  bitsCount := 8
  blink_pos := by decide
  blink_fits := by decide
  before_fits := by decide
  after_fits := by decide
  bits_pos := by decide
  bits_fit := by decide

/-- For `device_status`. -/
def ledInterface2 : Params where
  clockFreq := 80000000
  blinkPeriodMs := 100
  pauseBeforeMs := 15800
  pauseAfterMs := 0
  bitsCount := 2
  blink_pos := by decide
  blink_fits := by decide
  before_fits := by decide
  after_fits := by decide
  bits_pos := by decide
  bits_fit := by decide

theorem period_ledInterface0 : period ledInterface0 = 1383999999 := by decide

theorem period_ledInterface1 : period ledInterface1 = 1383999999 := by decide

theorem period_ledInterface2 : period ledInterface2 = 1384000000 := by decide

variable (p : Params) (inp : Nat → BitVec p.bitsCount)

theorem serialCode_window {n : Nat} (h : serialCode p inp (n + 1) = true) :
    mark p 0 ≤ n % period p ∧
      n % period p + 2 * p.blinkPeriod < lead p + 8 * p.bitsCount * p.blinkPeriod := by
  rw [serialCode_succ, output_iff] at h
  obtain ⟨i, hi, hfrom, hto⟩ := h
  have hend := mark_add_le (p := p) hi (litSlots_le (shown p inp (n / period p)) i)
  have hfirst : mark p 0 ≤ mark p i := by
    unfold mark
    exact Nat.add_le_add_left (Nat.mul_le_mul_right _ (by omega)) _
  omega

theorem window_ledInterface0 {inp : Nat → BitVec 8} {n : Nat}
    (h : serialCode ledInterface0 inp (n + 1) = true) :
    95999999 ≤ n % 1383999999 ∧ n % 1383999999 < 575999999 := by
  have hwindow := serialCode_window ledInterface0 inp h
  rw [period_ledInterface0] at hwindow
  have hmark : mark ledInterface0 0 = 95999999 := by decide
  have hblink : ledInterface0.blinkPeriod = 8000000 := by decide
  have hlead : lead ledInterface0 = 79999999 := by decide
  have hbits : ledInterface0.bitsCount = 8 := rfl
  rw [hmark, hblink, hlead, hbits] at hwindow
  omega

theorem window_ledInterface1 {inp : Nat → BitVec 8} {n : Nat}
    (h : serialCode ledInterface1 inp (n + 1) = true) :
    687999999 ≤ n % 1383999999 ∧ n % 1383999999 < 1167999999 := by
  have hwindow := serialCode_window ledInterface1 inp h
  rw [period_ledInterface1] at hwindow
  have hmark : mark ledInterface1 0 = 687999999 := by decide
  have hblink : ledInterface1.blinkPeriod = 8000000 := by decide
  have hlead : lead ledInterface1 = 671999999 := by decide
  have hbits : ledInterface1.bitsCount = 8 := rfl
  rw [hmark, hblink, hlead, hbits] at hwindow
  omega

theorem window_ledInterface2 {inp : Nat → BitVec 2} {n : Nat}
    (h : serialCode ledInterface2 inp (n + 1) = true) :
    1279999999 ≤ n % 1384000000 ∧ n % 1384000000 < 1375999999 := by
  have hwindow := serialCode_window ledInterface2 inp h
  rw [period_ledInterface2] at hwindow
  have hmark : mark ledInterface2 0 = 1279999999 := by decide
  have hblink : ledInterface2.blinkPeriod = 8000000 := by decide
  have hlead : lead ledInterface2 = 1263999999 := by decide
  have hbits : ledInterface2.bitsCount = 2 := rfl
  rw [hmark, hblink, hlead, hbits] at hwindow
  omega

/-- The frames of the third LED are a cycle longer than those of the others: before this cycle they
have not yet come together. -/
def meeting : Nat := 104000000 * 1384000000 + 1375999999

/-- The frame of the third LED has moved by a cycle with each frame. -/
theorem moved_window {n : Nat} (hn : n + 1 < meeting)
    (hfrom : 1279999999 ≤ n % 1384000000) (hto : n % 1384000000 < 1375999999) :
    n % 1383999999 < 95999999 ∨ 1167999999 ≤ n % 1383999999 := by
  unfold meeting at hn
  have hdiv := Nat.div_add_mod n 1384000000
  rcases Nat.lt_or_ge (n % 1384000000 + n / 1384000000) 1383999999 with hless | hover
  · have hmod := (div_mod_of_eq (x := n) (q := n / 1384000000) hless (by omega)).2
    omega
  · have hmod := (div_mod_of_eq (x := n) (T := 1383999999) (q := n / 1384000000 + 1)
      (r := n % 1384000000 + n / 1384000000 - 1383999999) (by omega) (by omega)).2
    omega

theorem first_at_meeting (inp : Nat → BitVec 8) : serialCode ledInterface0 inp meeting = true := by
  have hstart : start ledInterface0 (8 * 104000001) = meeting := by decide
  have hpos := (serialCode_highIn ledInterface0 inp).pos (8 * 104000001)
  exact (serialCode_iff ledInterface0 inp _).2 ⟨8 * 104000001, by omega, by omega⟩

theorem third_at_meeting (inp : Nat → BitVec ledInterface2.bitsCount) :
    serialCode ledInterface2 inp meeting = (inp (104000000 * 1384000000 - 3)).getLsbD 0 := by
  have hcycle : meeting = 104000000 * 1384000000 + 1375999998 + 1 := rfl
  have hframe : (104000000 * 1384000000 + 1375999998) / period ledInterface2 = 103999999 + 1 := by
    decide
  have hplace : (104000000 * 1384000000 + 1375999998) % period ledInterface2 = 1375999998 := by
    decide
  have hstate : (Counters.inFrame ledInterface2 1375999998).stateCounter = 5 := by decide
  have hbit : (Counters.inFrame ledInterface2 1375999998).bitCounter = 0 := by decide
  rw [hcycle, serialCode_succ, hframe, hplace, shown, period_ledInterface2]
  unfold Counters.output
  rw [hstate, hbit]
  rfl

/-- The LEDs speak in turn: the first two are never lit together, and the third one is lit with
neither of them, until, 104000000 frames after the reset, the mark of the first one meets the last
bit of the third one. -/
theorem leds_in_turn (inp0 inp1 : Nat → BitVec 8) (inp2 : Nat → BitVec 2) :
    (∀ n, serialCode ledInterface0 inp0 n = true → serialCode ledInterface1 inp1 n = false) ∧
      (∀ n < meeting, serialCode ledInterface2 inp2 n = true →
        serialCode ledInterface0 inp0 n = false ∧ serialCode ledInterface1 inp1 n = false) ∧
      serialCode ledInterface0 inp0 meeting = true ∧
      serialCode ledInterface2 inp2 meeting = (inp2 (104000000 * 1384000000 - 3)).getLsbD 0 := by
  refine ⟨?_, ?_, ?_, ?_⟩
  · intro n hlit
    rw [Bool.eq_false_iff]
    intro hboth
    cases n with
    | zero => exact Bool.false_ne_true hlit
    | succ n =>
        have hfirst := window_ledInterface0 hlit
        have hsecond := window_ledInterface1 hboth
        omega
  · intro n hn hlit
    cases n with
    | zero => exact absurd hlit Bool.false_ne_true
    | succ n =>
        have hthird := window_ledInterface2 hlit
        have hmoved := moved_window hn hthird.1 hthird.2
        constructor
        · rw [Bool.eq_false_iff]
          intro hboth
          have hfirst := window_ledInterface0 hboth
          omega
        · rw [Bool.eq_false_iff]
          intro hboth
          have hsecond := window_ledInterface1 hboth
          omega
  · exact first_at_meeting inp0
  · exact third_at_meeting inp2

end Toplevel

end Mfi.LedInterface
