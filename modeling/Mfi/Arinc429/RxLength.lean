import Mathlib.Tactic.Ring
import Mfi.Arinc429.RxHalves

/-!
# Messages of any length

Any number of symbols between two gaps of a null line. The bit counter of the receiver
stops at 31 and its valid flag stays up, so that a message of more than 32 bits gives a
word as well: its first 32 bits. A shorter one gives none.
-/

namespace Mfi.Arinc429

open Core

/-! ## The counter at its end -/

theorem rxBits_cntBit_full (bits : Nat → Bool) {n : Nat} (hn : 31 ≤ n) :
    (rxBits bits n).cntBit = 31 := by
  induction hn with
  | refl => exact rxBits_cntBit bits (Nat.le_refl 31)
  | step _ ih =>
      simp only [rxBits, RxBits.shift, ih]
      rfl

theorem rxBits_sigValid_full (bits : Nat → Bool) {n : Nat} (hn : 32 ≤ n) :
    (rxBits bits n).sigValid = true := by
  cases n with
  | zero => omega
  | succ n =>
      rw [rxBits_sigValid_succ, rxBits_cntBit_full bits (show 31 ≤ n by omega)]
      rfl

namespace Arinc429Rx

variable {E f : Nat} {s : Arinc429Rx} {pins : Nat → RxPins}

/-! ## One symbol -/

/-- The cycles of a half of a symbol: 7 to 11 samples at every phase of the sampling clock. -/
def ValidHalf (E cycles : Nat) : Prop := 14 * E ≤ cycles ∧ cycles ≤ 22 * E

instance (E cycles : Nat) : Decidable (ValidHalf E cycles) :=
  inferInstanceAs (Decidable (_ ∧ _))

def bitRate (speed : BitVec 2) : Nat :=
  if speed = 1#2 then 12500 else if speed = 2#2 then 50000 else 100000

theorem validHalf_of_divider {rate half : Nat} (hrate : 0 < rate) (hE : 4 ≤ f / rate / 32)
    (hlo : 95 * f ≤ 200 * (rate * half)) (hhi : 200 * (rate * half) ≤ 105 * f) :
    ValidHalf (f / rate / 32) half := by
  rw [Nat.div_div_eq_div_mul] at hE ⊢
  have hbelow := Nat.div_mul_le_self f (rate * 32)
  have habove := Nat.lt_mul_div_succ f (show 0 < rate * 32 by omega)
  generalize f / (rate * 32) = E at hE hbelow habove ⊢
  have hfast : rate * (3040 * E) ≤ rate * (200 * half) := by
    calc rate * (3040 * E) = 95 * (E * (rate * 32)) := by ring
      _ ≤ 95 * f := Nat.mul_le_mul_left 95 hbelow
      _ ≤ 200 * (rate * half) := hlo
      _ = rate * (200 * half) := by ring
  have hslow : rate * (200 * half) ≤ rate * (3360 * (E + 1)) := by
    calc rate * (200 * half) = 200 * (rate * half) := by ring
      _ ≤ 105 * f := hhi
      _ ≤ 105 * (rate * 32 * (E + 1)) := Nat.mul_le_mul_left 105 (Nat.le_of_lt habove)
      _ = rate * (3360 * (E + 1)) := by ring
  have hlow := Nat.le_of_mul_le_mul_left hfast hrate
  have hhigh := Nat.le_of_mul_le_mul_left hslow hrate
  constructor <;> omega

/-- Half a bit time of the configured speed is valid, with five per cent more or less, if the
divider is not too coarse. -/
theorem validHalf_of_rate {speed : BitVec 2} (hf : f < 4294967296) (hE : 4 ≤ rxDevider f speed)
    {half : Nat} (hlo : 95 * f ≤ 200 * (bitRate speed * half))
    (hhi : 200 * (bitRate speed * half) ≤ 105 * f) : ValidHalf (rxDevider f speed) half := by
  unfold rxDevider at hE ⊢
  unfold bitRate at hlo hhi
  by_cases h1 : speed = 1#2
  · simp only [if_pos h1] at hE hlo hhi ⊢
    rw [Nat.mod_eq_of_lt (by omega)] at hE ⊢
    exact validHalf_of_divider (by decide) hE hlo hhi
  · by_cases h2 : speed = 2#2
    · simp only [if_neg h1, if_pos h2] at hE hlo hhi ⊢
      rw [Nat.mod_eq_of_lt (by omega)] at hE ⊢
      exact validHalf_of_divider (by decide) hE hlo hhi
    · by_cases h3 : speed = 3#2
      · simp only [if_neg h1, if_neg h2, if_pos h3] at hE hlo hhi ⊢
        rw [Nat.mod_eq_of_lt (by omega)] at hE ⊢
        exact validHalf_of_divider (by decide) hE hlo hhi
      · simp only [if_neg h1, if_neg h2, if_neg h3] at hE
        omega

theorem ValidHalf.samples {cycles phase : Nat} (h : ValidHalf E cycles) (hp : phase < 2 * E) :
    7 ≤ (phase + cycles) / (2 * E) ∧ (phase + cycles) / (2 * E) ≤ 11 := by
  have hlo := h.1
  have hhi := h.2
  constructor
  · exact (Nat.le_div_iff_mul_le (by omega)).mpr (by omega)
  · exact Nat.lt_succ_iff.mp ((Nat.div_lt_iff_lt_mul (by omega)).mpr (by omega))

section Symbol

variable {b : Bool} {hi lo : Nat}

theorem high_run (h : Running E s) (hspeed : ∀ n, rxDevider f (pins n).speed = E)
    (hawaits : AwaitsSymbol s.sampled) (hvalid : ValidHalf E hi)
    (hline : ∀ k < hi, (pins k).line = .symbol b) :
    (∀ j ≤ hi, (trace (step f) s pins j).bits = s.bits) ∧
      ∃ m ≤ 4, Ready (.symbol b) b m (trace (step f) s pins hi).sampled := by
  cases hawaits.ready with
  | intro bit hready =>
      obtain ⟨m, hready, hm⟩ := hready
      have hsamples := hvalid.samples (phase_lt h)
      constructor
      · intro j hj
        have hle : (s.phase E + j) / (2 * E) ≤ (s.phase E + hi) / (2 * E) :=
          Nat.div_le_div_right (by omega)
        have hrun := (constant_line h hspeed j (fun k hk => hline k (by omega))).2
        have hbits := hready.high (b := b) hm (k := (s.phase E + j) / (2 * E)) (by omega)
        rw [← hrun] at hbits
        exact hbits
      · have hrun := (constant_line h hspeed hi hline).2
        have hnext := hready.high_next (b := b) hm hsamples.1 hsamples.2
        rw [← hrun] at hnext
        exact ⟨_, by omega, hnext⟩

theorem low_run (h : Running E s) (hspeed : ∀ n, rxDevider f (pins n).speed = E) {m : Nat}
    (hready : Ready (.symbol b) b m s.sampled) (hm : m ≤ 4) (hvalid : ValidHalf E lo)
    (hline : ∀ k < lo, (pins k).line = .null) :
    (∃ a ≤ lo, (∀ j < a, (trace (step f) s pins j).bits = s.bits) ∧
      ∀ j, a ≤ j → j ≤ lo → (trace (step f) s pins j).bits = s.bits.shift b) ∧
      AwaitsSymbol (trace (step f) s pins lo).sampled := by
  have hphase := phase_lt h
  have hlo := hvalid.1
  have hsamples := hvalid.samples hphase
  have hbits : ∀ j ≤ lo, (trace (step f) s pins j).bits =
      if (s.phase E + j) / (2 * E) < 7 then s.bits else s.bits.shift b := by
    intro j hj
    have hle : (s.phase E + j) / (2 * E) ≤ (s.phase E + lo) / (2 * E) :=
      Nat.div_le_div_right (by omega)
    have hrun := (constant_line h hspeed j (fun k hk => hline k (by omega))).2
    have hlow := hready.low hm (k := (s.phase E + j) / (2 * E)) (by omega)
    rw [← hrun] at hlow
    exact hlow
  constructor
  · -- the cycle of the seventh null sample
    refine ⟨14 * E - s.phase E, by omega, fun j hj => ?_, fun j hj hjlo => ?_⟩
    · rw [hbits j (by omega), if_pos]
      exact (Nat.div_lt_iff_lt_mul (by omega)).mpr (by omega)
    · rw [hbits j hjlo, if_neg]
      exact Nat.not_lt.mpr ((Nat.le_div_iff_mul_le (by omega)).mpr (by omega))
  · have hrun := (constant_line h hspeed lo hline).2
    have hnext := hready.low_next hm hsamples.1 hsamples.2
    rw [← hrun] at hnext
    exact ⟨b, _, hnext, Or.inl (by omega)⟩

theorem symbol_run (h : Running E s) (hspeed : ∀ n, rxDevider f (pins n).speed = E)
    (hawaits : AwaitsSymbol s.sampled) (hhi : ValidHalf E hi) (hlo : ValidHalf E lo)
    (hhigh : ∀ k < hi, (pins k).line = .symbol b)
    (hnull : ∀ k < lo, (pins (hi + k)).line = .null) :
    (∃ a ≤ hi + lo, (∀ j < a, (trace (step f) s pins j).bits = s.bits) ∧
      ∀ j, a ≤ j → j ≤ hi + lo → (trace (step f) s pins j).bits = s.bits.shift b) ∧
      AwaitsSymbol (trace (step f) s pins (hi + lo)).sampled := by
  obtain ⟨hkept, m, hm, hready⟩ := high_run h hspeed hawaits hhi hhigh
  have hrun := running_run h hspeed hi
  obtain ⟨⟨a, ha, hbefore, hafter⟩, hnext⟩ :=
    low_run hrun (fun n => hspeed (hi + n)) hready hm hlo hnull
  have hmid := hkept hi (Nat.le_refl hi)
  constructor
  · refine ⟨hi + a, by omega, fun j hj => ?_, fun j hj hjlo => ?_⟩
    · by_cases hhalf : j ≤ hi
      · exact hkept j hhalf
      · have hlate := hbefore (j - hi) (by omega)
        rwa [← trace_add, show hi + (j - hi) = j by omega, hmid] at hlate
    · have hlate := hafter (j - hi) (by omega) (by omega)
      rwa [← trace_add, show hi + (j - hi) = j by omega, hmid] at hlate
  · rw [trace_add]
    exact hnext

end Symbol

/-! ## A message -/

/-- The first cycle of symbol `i`, from the beginning of the message. -/
def symbolAt (high low : Nat → Nat) : Nat → Nat
  | 0 => 0
  | i + 1 => symbolAt high low i + (high i + low i)

/-- The line carries `n` symbols with the given bits, each half with a length of its own. -/
structure Symbols (E : Nat) (pins : Nat → RxPins) (bits : Nat → Bool) (n : Nat)
    (high low : Nat → Nat) : Prop where
  highValid : ∀ i < n, ValidHalf E (high i)
  lowValid : ∀ i < n, ValidHalf E (low i)
  isHigh : ∀ i < n, ∀ k < high i, (pins (symbolAt high low i + k)).line = .symbol (bits i)
  isNull : ∀ i < n, ∀ k < low i, (pins (symbolAt high low i + (high i + k))).line = .null

section Message

variable {bits : Nat → Bool} {n : Nat} {high low : Nat → Nat}

theorem Symbols.shorter (h : Symbols E pins bits n high low) {i : Nat} (hi : i ≤ n) :
    Symbols E pins bits i high low where
  highValid j hj := h.highValid j (by omega)
  lowValid j hj := h.lowValid j (by omega)
  isHigh j hj := h.isHigh j (by omega)
  isNull j hj := h.isNull j (by omega)

/-- What symbol `n` of a message does to the bits of the symbols before it. -/
structure Enters (run : Nat → Arinc429Rx) (bits : Nat → Bool) (n begins ends : Nat) : Prop where
  shift : ∃ a, begins ≤ a ∧ a ≤ ends ∧
    (∀ m, begins ≤ m → m < a → (run m).bits = rxBits bits n) ∧
    ∀ m, a ≤ m → m ≤ ends → (run m).bits = rxBits bits (n + 1)

theorem symbols_run_any (h : Idle E s) (hspeed : ∀ n, rxDevider f (pins n).speed = E)
    (hline : Symbols E pins bits n high low) :
    AwaitsSymbol (trace (step f) s pins (symbolAt high low n)).sampled ∧
      (trace (step f) s pins (symbolAt high low n)).bits = rxBits bits n ∧
      ∀ i < n, Enters (trace (step f) s pins) bits i (symbolAt high low i)
        (symbolAt high low (i + 1)) := by
  induction n with
  | zero =>
      refine ⟨?_, h.bits, fun i hi => by omega⟩
      cases h.sampled with
      | intro bit hs =>
          change AwaitsSymbol s.sampled
          rw [hs]
          exact .idle bit
  | succ n ih =>
      obtain ⟨hawaits, hbits, hold⟩ := ih (hline.shorter (Nat.le_succ n))
      have hrun := running_run h.running hspeed (symbolAt high low n)
      have hnew := symbol_run hrun (fun k => hspeed _) hawaits (hline.highValid n (by omega))
        (hline.lowValid n (by omega)) (hline.isHigh n (by omega)) (hline.isNull n (by omega))
      obtain ⟨⟨a, ha, hbefore, hafter⟩, hnext⟩ := hnew
      rw [hbits] at hbefore hafter
      have henters : Enters (trace (step f) s pins) bits n (symbolAt high low n)
          (symbolAt high low (n + 1)) := by
        have hend : symbolAt high low (n + 1) = symbolAt high low n + (high n + low n) := rfl
        refine ⟨symbolAt high low n + a, by omega, by omega, fun m hm hma => ?_,
          fun m hm hme => ?_⟩
        · have hkept := hbefore (m - symbolAt high low n) (by omega)
          rwa [← trace_add, Nat.add_sub_cancel' hm] at hkept
        · have hshift := hafter (m - symbolAt high low n) (by omega) (by omega)
          rwa [← trace_add, Nat.add_sub_cancel' (show symbolAt high low n ≤ m by omega)] at hshift
      refine ⟨?_, ?_, fun i hi => ?_⟩
      · rw [← trace_add] at hnext
        exact hnext
      · have hlast := hafter (high n + low n) ha (Nat.le_refl _)
        rw [← trace_add] at hlast
        exact hlast
      · by_cases hlast : i = n
        · rw [hlast]
          exact henters
        · exact hold i (by omega)

theorem few_symbols {run : Nat → Arinc429Rx} (hfirst : (run 0).bits = .reset)
    (henters : ∀ i < n, Enters run bits i (symbolAt high low i) (symbolAt high low (i + 1)))
    (hn : n ≤ 31) : ∀ m ≤ symbolAt high low n, (run m).bits.sigValid = false := by
  induction n with
  | zero =>
      intro m hm
      have hzero : m = 0 := Nat.le_zero.mp hm
      rw [hzero, hfirst]
      rfl
  | succ n ih =>
      intro m hm
      have hold := ih (fun i hi => henters i (by omega)) (by omega)
      obtain ⟨a, _, _, hbefore, hafter⟩ := (henters n (by omega)).shift
      by_cases hbegun : m ≤ symbolAt high low n
      · exact hold m hbegun
      · by_cases hshift : m < a
        · rw [hbefore m (by omega) hshift]
          exact rxBits_sigValid bits (by omega)
        · rw [hafter m (by omega) hm]
          exact rxBits_sigValid bits hn

/-- The word of the first 32 symbols is complete in cycle `a` and stays marked as valid. -/
structure WordFrom (run : Nat → Arinc429Rx) (bits : Nat → Bool) (ends a : Nat) : Prop where
  within : a ≤ ends
  before : ∀ m < a, (run m).bits.sigValid = false
  word : (run a).bits = rxBits bits 32
  after : ∀ m, a ≤ m → m ≤ ends → (run m).bits.sigValid = true

theorem many_symbols {run : Nat → Arinc429Rx} (hfirst : (run 0).bits = .reset)
    (henters : ∀ i < n, Enters run bits i (symbolAt high low i) (symbolAt high low (i + 1)))
    (hn : 32 ≤ n) : ∃ a, WordFrom run bits (symbolAt high low n) a := by
  induction hn with
  | refl =>
      have hfew := few_symbols hfirst (fun i (hi : i < 31) => henters i (by omega))
        (Nat.le_refl 31)
      obtain ⟨a, hbegins, hends, hbefore, hafter⟩ := (henters 31 (by omega)).shift
      refine ⟨a, hends, fun m hm => ?_, hafter a (Nat.le_refl a) hends, fun m hm hme => ?_⟩
      · by_cases hbegun : m ≤ symbolAt high low 31
        · exact hfew m hbegun
        · rw [hbefore m (by omega) hm]
          exact rxBits_sigValid bits (Nat.le_refl 31)
      · rw [hafter m hm hme]
        exact rxBits_sigValid_last bits
  | @step n hn ih =>
      obtain ⟨a, ha⟩ := ih (fun i hi => henters i (Nat.lt_succ_of_lt hi))
      obtain ⟨c, hbegins, hends, hbefore, hafter⟩ := (henters n (Nat.lt_succ_self n)).shift
      have hwithin := Nat.le_trans ha.within (Nat.le_trans hbegins hends)
      refine ⟨a, hwithin, ha.before, ha.word, fun m hm hme => ?_⟩
      by_cases hbegun : m ≤ symbolAt high low n
      · exact ha.after m hm hbegun
      · by_cases hshift : m < c
        · rw [hbefore m (by omega) hshift]
          exact rxBits_sigValid_full bits hn
        · rw [hafter m (by omega) hme]
          exact rxBits_sigValid_full bits (Nat.le_succ_of_le hn)

end Message

/-! ## The gap after it -/

theorem null_gap (h : Running E s) (hspeed : ∀ n, rxDevider f (pins n).speed = E)
    (hawaits : AwaitsSymbol s.sampled) {m : Nat} (hnull : ∀ k < m, (pins k).line = .null) {j : Nat}
    (hj : j < m) (hvalid : (trace (step f) s pins (j + 1)).bits.sigValid = true) :
    (trace (step f) s pins j).bits.sigValid = true := by
  have hrun := (constant_line h hspeed j (fun k hk => hnull k (by omega))).2
  have hc := (cycle (running_run h hspeed j) (hspeed j)).sampled
  rw [← trace_succ (step f) s pins j, hnull j hj] at hc
  split at hc
  · obtain ⟨bit, k, hready, _⟩ := hawaits.ready
    obtain ⟨rstN, hfront⟩ := hready.front
    obtain ⟨rstN', hticks⟩ := RxFront.settled_ticks hready.fits s.sampled.front.sigClkState rstN
      ((s.phase E + j) / (2 * E))
    have hsettled : (trace (step f) s pins j).sampled.front = .settled .null bit
        (enters s.sampled.front.sigClkState true ((s.phase E + j) / (2 * E))) rstN' := by
      rw [hrun, ticks_front, hfront]
      exact hticks
    have hbits := congrArg RxSampled.bits hc
    change (trace (step f) s pins (j + 1)).bits = _ at hbits
    rw [hbits] at hvalid
    rcases settled_null_tick hsettled with hkept | hreset
    · rw [hkept] at hvalid
      exact hvalid
    · rw [hreset] at hvalid
      cases hvalid
  · have hbits := congrArg RxSampled.bits hc
    change (trace (step f) s pins (j + 1)).bits = (trace (step f) s pins j).bits at hbits
    rwa [hbits] at hvalid

/-! ## The valid strobe -/

theorem strobe_iff (h : Idle E s) (hspeed : ∀ n, rxDevider f (pins n).speed = E) (k : Nat) :
    (trace (step f) s pins k).srcRxValid = true ↔
      ∃ j, k = j + 2 ∧ (trace (step f) s pins j).bits.sigValid = false ∧
        (trace (step f) s pins (j + 1)).bits.sigValid = true := by
  match k with
  | 0 =>
      rw [trace_zero, h.srcRxValid]
      simp
  | 1 =>
      have hlow : s.bits.sigValid = false := by
        rw [h.bits]
        rfl
      rw [trace_succ, (cycle (running_run h.running hspeed 0) (hspeed 0)).srcRxValid, trace_zero,
        hlow]
      simp
  | j + 2 =>
      have hc := cycle (running_run h.running hspeed (j + 1)) (hspeed (j + 1))
      have hd := (cycle (running_run h.running hspeed j) (hspeed j)).d1Trigger
      rw [← trace_succ (step f) s pins j] at hd
      rw [trace_succ, hc.srcRxValid, hd, Bool.and_eq_true, Bool.not_eq_true']
      constructor
      · intro hrise
        exact ⟨j, rfl, hrise.2, hrise.1⟩
      · intro hexists
        obtain ⟨i, hi, hlow, hhigh⟩ := hexists
        have hij : i = j := by omega
        subst hij
        exact ⟨hhigh, hlow⟩

section Message

variable {bits : Nat → Bool} {n : Nat} {high low : Nat → Nat} {last : Nat}

/-- A message of `n` symbols from cycle 0 on, and the line null from then to cycle `last`. -/
structure LineMessage (E : Nat) (pins : Nat → RxPins) (bits : Nat → Bool) (n : Nat)
    (high low : Nat → Nat) (last : Nat) : Prop where
  symbols : Symbols E pins bits n high low
  ends : symbolAt high low n < last
  gap : ∀ t, symbolAt high low n ≤ t → t < last → (pins t).line = .null

theorem LineMessage.no_rise (hline : LineMessage E pins bits n high low last) (h : Idle E s)
    (hspeed : ∀ n, rxDevider f (pins n).speed = E) {j : Nat} (hlo : symbolAt high low n ≤ j)
    (hhi : j < last) (hvalid : (trace (step f) s pins (j + 1)).bits.sigValid = true) :
    (trace (step f) s pins j).bits.sigValid = true := by
  have hawaits := (symbols_run_any h hspeed hline.symbols).1
  have hrun := running_run h.running hspeed (symbolAt high low n)
  have hends := hline.ends
  have hgap : ∀ k < last - symbolAt high low n, (pins (symbolAt high low n + k)).line = .null :=
    fun k hk => hline.gap _ (by omega) (by omega)
  have hback := null_gap hrun (fun k => hspeed _) hawaits hgap
    (j := j - symbolAt high low n) (by omega)
  rw [← trace_add, ← trace_add, ← Nat.add_assoc, Nat.add_sub_cancel' hlo] at hback
  exact hback hvalid

theorem LineMessage.delivers_nothing (hline : LineMessage E pins bits n high low last)
    (h : Idle E s) (hspeed : ∀ n, rxDevider f (pins n).speed = E) (hn : n ≤ 31) {k : Nat}
    (hk : k ≤ last) : (trace (step f) s pins k).srcRxValid = false := by
  have henters := (symbols_run_any h hspeed hline.symbols).2.2
  have hfew := few_symbols h.bits henters hn
  cases hvalid : (trace (step f) s pins k).srcRxValid with
  | false => rfl
  | true =>
      obtain ⟨j, rfl, hlow, hhigh⟩ := (strobe_iff h hspeed k).mp hvalid
      by_cases hin : j + 1 ≤ symbolAt high low n
      · rw [hfew (j + 1) hin] at hhigh
        cases hhigh
      · rw [hline.no_rise h hspeed (by omega) (by omega) hhigh] at hlow
        cases hlow

/-- From 32 symbols on the first 32 bits are delivered as one word. -/
theorem LineMessage.delivers_word (hline : LineMessage E pins bits n high low last)
    (h : Idle E s) (hspeed : ∀ n, rxDevider f (pins n).speed = E) (hn : 32 ≤ n) :
    ∃ k, DeliversOnce (trace (step f) s pins) bits last k := by
  have henters := (symbols_run_any h hspeed hline.symbols).2.2
  obtain ⟨a, ha⟩ := many_symbols h.bits henters hn
  have hends := hline.ends
  have hwithin := ha.within
  have hfull : (trace (step f) s pins a).bits.sigValid = true :=
    ha.after a (Nat.le_refl a) hwithin
  have hzero : (trace (step f) s pins 0).bits.sigValid = false := by
    rw [trace_zero, h.bits]
    rfl
  obtain ⟨c, rfl⟩ : ∃ c, a = c + 1 := by
    cases a with
    | zero =>
        rw [hzero] at hfull
        cases hfull
    | succ c => exact ⟨c, rfl⟩
  have hlow := ha.before c (Nat.lt_succ_self c)
  have hpe : ((trace (step f) s pins (c + 1)).bits.sigValid &&
      !(trace (step f) s pins (c + 1)).d1Trigger) = true := by
    rw [hfull, trace_succ, (cycle (running_run h.running hspeed c) (hspeed c)).d1Trigger, hlow]
    rfl
  have hc := cycle (running_run h.running hspeed (c + 1)) (hspeed (c + 1))
  refine ⟨c + 2, by omega, (strobe_iff h hspeed (c + 2)).mpr ⟨c, rfl, hlow, hfull⟩, ?_, ?_, ?_⟩
  · intro k hk hvalid
    obtain ⟨j, rfl, hjlow, hjhigh⟩ := (strobe_iff h hspeed k).mp hvalid
    rcases Nat.lt_trichotomy j c with hearly | hsame | hlate
    · rw [ha.before (j + 1) (by omega)] at hjhigh
      cases hjhigh
    · omega
    · by_cases hin : j ≤ symbolAt high low n
      · rw [ha.after j hlate hin] at hjlow
        cases hjlow
      · rw [hline.no_rise h hspeed (by omega) (by omega) hjhigh] at hjlow
        cases hjlow
  · intro j hj
    rw [trace_succ, hc.srcRxData, if_pos hpe, ha.word]
    have hdata := rxBits_sigData bits hj (Nat.le_refl 32)
    rwa [Nat.sub_self, Nat.zero_add] at hdata
  · rw [trace_succ, hc.parErr, if_pos hpe, ha.word, rxBits_sigPar]

end Message

/-! ## Between two gaps -/

/-- A message from cycle `start` on, after a gap of 21 samples at least. The gap after it is
followed for `last` cycles from `start` on. -/
structure BetweenGaps (E : Nat) (pins : Nat → RxPins) (bits : Nat → Bool) (n : Nat)
    (high low : Nat → Nat) (start last : Nat) : Prop where
  settles : 42 * E ≤ start
  before : ∀ t, start ≤ t + 42 * E → t < start → (pins t).line = .null
  message : LineMessage E (fun t => pins (start + t)) bits n high low last

/-- A word is delivered for a message of 32 bits only: its bits, once, with its parity. -/
structure MessageLength (run : Nat → Arinc429Rx) (bits : Nat → Bool) (n last : Nat) : Prop where
  delivers : (∃ k ≤ last, (run k).srcRxValid = true) ↔ n = 32
  word : n = 32 → ∃ k, DeliversOnce run bits last k

def runAt (f : Nat) (speed : BitVec 2) (pins : Nat → RxPins) : Nat → Arinc429Rx :=
  trace (step f) (.reset (rxDevider f speed) false) pins

section Length

variable {speed : BitVec 2} {bits : Nat → Bool} {n : Nat} {high low : Nat → Nat}
  {start last : Nat}

theorem rxDevider_fits (hf : f < 4294967296) (speed : BitVec 2) : rxDevider f speed ≤ 65536 := by
  unfold rxDevider
  split
  · omega
  · split
    · omega
    · split <;> omega

theorem BetweenGaps.idle (h : BetweenGaps (rxDevider f speed) pins bits n high low start last)
    (hf : f < 4294967296) (hon : 0 < rxDevider f speed) (hspeed : ∀ n, (pins n).speed = speed) :
    Idle (rxDevider f speed) (runAt f speed pins start) := by
  have hdevider : ∀ k, rxDevider f (pins k).speed = rxDevider f speed := fun k => by rw [hspeed]
  have hsettles := h.settles
  have hsound := sound_run (.reset hon (rxDevider_fits hf speed) false) hdevider
    (start - 42 * rxDevider f speed)
  have hidle := null_line_idles hsound (fun k => hdevider _) (Nat.le_refl _)
    (fun k hk => h.before (start - 42 * rxDevider f speed + k) (by omega) (by omega))
  rw [← trace_add, Nat.sub_add_cancel hsettles] at hidle
  exact hidle

theorem runAt_add (f : Nat) (speed : BitVec 2) (pins : Nat → RxPins) (start k : Nat) :
    runAt f speed pins (start + k) =
      trace (step f) (runAt f speed pins start) (fun t => pins (start + t)) k :=
  trace_add ..

/-- The receiver tells 32 bits from fewer, but not from more. -/
theorem messageLength_iff (hf : f < 4294967296) (hon : 0 < rxDevider f speed)
    (hspeed : ∀ n, (pins n).speed = speed)
    (hline : BetweenGaps (rxDevider f speed) pins bits n high low start last) :
    MessageLength (fun k => runAt f speed pins (start + k)) bits n last ↔ n ≤ 32 := by
  have hidle := hline.idle hf hon hspeed
  have hdevider : ∀ k, rxDevider f (pins (start + k)).speed = rxDevider f speed :=
    fun k => by rw [hspeed]
  simp only [runAt_add]
  constructor
  · intro hlength
    by_contra hlong
    obtain ⟨k, hk⟩ := hline.message.delivers_word hidle hdevider (show 32 ≤ n by omega)
    have hexact := hlength.delivers.mp ⟨k, hk.within, hk.valid⟩
    omega
  · intro hn
    by_cases hshort : n ≤ 31
    · constructor
      · constructor
        · rintro ⟨k, hk, hvalid⟩
          rw [hline.message.delivers_nothing hidle hdevider hshort hk] at hvalid
          cases hvalid
        · omega
      · omega
    · have hword := hline.message.delivers_word hidle hdevider (show 32 ≤ n by omega)
      constructor
      · constructor
        · omega
        · intro _
          obtain ⟨k, hk⟩ := hword
          exact ⟨k, hk.within, hk.valid⟩
      · intro _
        exact hword

end Length

/-! ## Messages with equal halves -/

/-- A message from cycle 2000 on whose halves have `half` cycles each. -/
def evenMessage (speed : BitVec 2) (half n : Nat) (bits : Nat → Bool) (t : Nat) : RxPins where
  speed := speed
  line :=
    if 2000 ≤ t ∧ (t - 2000) / (2 * half) < n ∧ (t - 2000) % (2 * half) < half then
      .symbol (bits ((t - 2000) / (2 * half)))
    else .null

theorem symbolAt_even (half n : Nat) :
    symbolAt (fun _ => half) (fun _ => half) n = 2 * half * n := by
  induction n with
  | zero => rfl
  | succ n ih =>
      rw [symbolAt, ih, Nat.mul_add]
      omega

theorem evenMessage_betweenGaps (speed : BitVec 2) {half : Nat} (n : Nat) (bits : Nat → Bool)
    (hE : 42 * E ≤ 2000) (hvalid : ValidHalf E half) (hpos : 0 < half) :
    BetweenGaps E (evenMessage speed half n bits) bits n (fun _ => half) (fun _ => half) 2000
      (2 * half * n + 2000) := by
  have hquot : ∀ i k, k < 2 * half → (2 * half * i + k) / (2 * half) = i ∧
      (2 * half * i + k) % (2 * half) = k := fun i k hk => div_mod_of_eq hk rfl
  have hsymbols : Symbols E (fun t => evenMessage speed half n bits (2000 + t)) bits n
      (fun _ => half) (fun _ => half) := by
    constructor
    · exact fun _ _ => hvalid
    · exact fun _ _ => hvalid
    · intro i hi k hk
      obtain ⟨hdiv, hmod⟩ := hquot i k (by omega)
      rw [symbolAt_even]
      simp only [evenMessage, Nat.add_sub_cancel_left, hdiv, hmod]
      rw [if_pos ⟨by omega, hi, hk⟩]
    · intro i hi k hk
      obtain ⟨hdiv, hmod⟩ := hquot i (half + k) (by omega)
      rw [symbolAt_even]
      simp only [evenMessage, Nat.add_sub_cancel_left, hdiv, hmod]
      rw [if_neg (by omega)]
  refine ⟨hE, fun t _ ht => ?_, hsymbols, ?_, fun t ht _ => ?_⟩
  · simp only [evenMessage]
    rw [if_neg (by omega)]
  · rw [symbolAt_even]
    omega
  · rw [symbolAt_even] at ht
    have hle : n ≤ t / (2 * half) := (Nat.le_div_iff_mul_le (by omega)).mpr (by
      rw [Nat.mul_comm]
      exact ht)
    simp only [evenMessage, Nat.add_sub_cancel_left]
    rw [if_neg (by omega)]

/-- 32 bits at 100 kbit/s and the default clock. -/
theorem messageLength_full_word :
    MessageLength (fun k => runAt 50000000 3#2 (evenMessage 3#2 250 32 (· % 3 == 0)) (2000 + k))
      (· % 3 == 0) 32 18000 := by
  have hline : BetweenGaps (rxDevider 50000000 3#2) (evenMessage 3#2 250 32 (· % 3 == 0))
      (· % 3 == 0) 32 (fun _ => 250) (fun _ => 250) 2000 18000 :=
    evenMessage_betweenGaps 3#2 32 _ (by decide) (by decide) (by decide)
  exact (messageLength_iff (show 50000000 < 4294967296 by decide)
    (show 0 < rxDevider 50000000 3#2 by decide) (fun _ => rfl) hline).mpr (Nat.le_refl 32)

/-- 33 zeros at the same speed: the first 32 are delivered. -/
theorem long_message_delivered :
    ¬ MessageLength (fun k => runAt 50000000 3#2 (evenMessage 3#2 250 33 (fun _ => false))
      (2000 + k)) (fun _ => false) 33 18500 := by
  intro hlength
  have hdevider : ∀ k, rxDevider 50000000
      (evenMessage 3#2 250 33 (fun _ => false) (2000 + k)).speed = rxDevider 50000000 3#2 :=
    fun _ => rfl
  have hline : BetweenGaps (rxDevider 50000000 3#2) (evenMessage 3#2 250 33 (fun _ => false))
      (fun _ => false) 33 (fun _ => 250) (fun _ => 250) 2000 18500 :=
    evenMessage_betweenGaps 3#2 33 _ (by decide) (by decide) (by decide)
  have hidle := hline.idle (by decide) (by decide) (fun _ => rfl)
  obtain ⟨k, hk⟩ := hline.message.delivers_word hidle hdevider (by decide)
  simp only [runAt_add] at hlength
  have hexact := hlength.delivers.mp ⟨k, hk.within, hk.valid⟩
  omega

end Arinc429Rx

end Mfi.Arinc429
