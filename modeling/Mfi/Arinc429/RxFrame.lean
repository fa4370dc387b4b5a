import Mfi.Arinc429.RxSymbols
import Mfi.Arinc429.TxFrame

/-!
# One word received

A frame of 32 symbols on the line of an idle receiver gives one valid strobe, with
the bits of the frame as the word. The bit time `4 * D` of the line and the divider
`E` of the receiver are related by `8 * E ≤ D ≤ 9 * E`: half a bit time is then 8 or
9 samples at every phase of the sampling clock.
-/

namespace Mfi.Arinc429

open Core

/-! ## The bits of a frame -/

/-- The received bits after `n` symbols. -/
def rxBits (bits : Nat → Bool) : Nat → RxBits
  | 0 => .reset
  | n + 1 => (rxBits bits n).shift (bits n)

theorem rxBits_cntBit (bits : Nat → Bool) {n : Nat} (hn : n ≤ 31) : (rxBits bits n).cntBit = n := by
  induction n with
  | zero => rfl
  | succ n ih =>
      simp only [rxBits, RxBits.shift, ih (by omega)]
      exact if_pos (by omega)

theorem rxBits_sigValid (bits : Nat → Bool) {n : Nat} (hn : n ≤ 31) :
    (rxBits bits n).sigValid = false := by
  cases n with
  | zero => rfl
  | succ n =>
      simp only [rxBits, RxBits.shift, rxBits_cntBit bits (show n ≤ 31 by omega)]
      exact decide_eq_false (by omega)

theorem rxBits_sigValid_succ (bits : Nat → Bool) (n : Nat) :
    (rxBits bits (n + 1)).sigValid = decide (31 ≤ (rxBits bits n).cntBit) := rfl

theorem rxBits_sigValid_last (bits : Nat → Bool) : (rxBits bits (31 + 1)).sigValid = true := by
  rw [rxBits_sigValid_succ, rxBits_cntBit bits (Nat.le_refl 31)]
  rfl

theorem shift_sigData (b : RxBits) (bit : Bool) {j : Nat} (hj : j < 32) :
    (b.shift bit).sigData.getLsbD j = if j = 31 then bit else b.sigData.getLsbD (j + 1) := by
  simp only [RxBits.shift]
  rw [BitVec.getLsbD_append, BitVec.getLsbD_extractLsb']
  by_cases h31 : j = 31
  · rw [if_pos h31, if_neg (by omega), h31]
    cases bit <;> rfl
  · rw [if_neg h31, if_pos (by omega), decide_eq_true (by omega), Bool.true_and, Nat.add_comm]

theorem rxBits_sigData (bits : Nat → Bool) {n j : Nat} (hj : j < n) (hn : n ≤ 32) :
    (rxBits bits n).sigData.getLsbD (32 - n + j) = bits j := by
  induction n with
  | zero => omega
  | succ n ih =>
      rw [rxBits, shift_sigData _ _ (by omega)]
      by_cases hlast : j = n
      · rw [if_pos (by omega), hlast]
      · rw [if_neg (by omega), show 32 - (n + 1) + j + 1 = 32 - n + j by omega,
          ih (by omega) (by omega)]

theorem rxBits_sigPar (bits : Nat → Bool) (n : Nat) :
    (rxBits bits n).sigPar = decide ((List.range n).countP bits % 2 = 1) := by
  induction n with
  | zero => rfl
  | succ n ih =>
      simp only [rxBits, RxBits.shift]
      rw [ih, xor_parity, List.range_succ, List.countP_append, List.countP_singleton]
      cases bits n <;> rfl

/-! ## Half a bit time -/

namespace Arinc429Rx

variable {D E f : Nat} {s : Arinc429Rx} {pins : Nat → RxPins}

theorem half_samples (hlo : 8 * E ≤ D) (hhi : D ≤ 9 * E) {phase : Nat} (hp : phase < 2 * E) :
    (phase + 2 * D) / (2 * E) ∈ [8, 9] := by
  have hpos : 0 < 2 * E := by omega
  have hge : 8 ≤ (phase + 2 * D) / (2 * E) := (Nat.le_div_iff_mul_le hpos).mpr (by omega)
  have hlt : (phase + 2 * D) / (2 * E) < 10 := (Nat.div_lt_iff_lt_mul hpos).mpr (by omega)
  have hcases : (phase + 2 * D) / (2 * E) = 8 ∨ (phase + 2 * D) / (2 * E) = 9 := by omega
  simpa using hcases

section Symbol

variable {bit : Bool}

theorem null_half (h : Running E s) (hspeed : ∀ n, rxDevider f (pins n).speed = E)
    (hhigh : ∀ k < 2 * D, (pins k).line = .symbol bit) {j : Nat}
    (hnull : ∀ k < j, (pins (2 * D + k)).line = .null) :
    (trace (step f) s pins (2 * D + j)).sampled =
      (s.sampled.ticks (.symbol bit) ((s.phase E + 2 * D) / (2 * E))).ticks .null
        (((s.phase E + 2 * D) % (2 * E) + j) / (2 * E)) := by
  have hmid := constant_line h hspeed (2 * D) hhigh
  have hrun := running_run h hspeed (2 * D)
  have hlow := (constant_line hrun (fun n => hspeed (2 * D + n)) j hnull).2
  rw [hmid.1, hmid.2] at hlow
  rw [trace_add]
  exact hlow

variable (h : Running E s) (hspeed : ∀ n, rxDevider f (pins n).speed = E)
  (hlo : 8 * E ≤ D) (hhi : D ≤ 9 * E) (hstart : SymbolStart s.sampled)
  (hhigh : ∀ k < 2 * D, (pins k).line = .symbol bit)

include h hspeed hlo hhi hstart hhigh

theorem high_half {j : Nat} (hj : j ≤ 2 * D) : (trace (step f) s pins j).bits = s.bits := by
  have hrun := (constant_line h hspeed j (fun k hk => hhigh k (by omega))).2
  have hle : (s.phase E + j) / (2 * E) ≤ (s.phase E + 2 * D) / (2 * E) :=
    Nat.div_le_div_right (by omega)
  have hbits := hstart.high (b := bit) (half_samples hlo hhi (phase_lt h)) hle
  rw [← hrun] at hbits
  exact hbits

/-- During a symbol the received bits are those before it or have its bit shifted in. -/
theorem symbol_bits (hnull : ∀ k < 2 * D, (pins (2 * D + k)).line = .null) {j : Nat}
    (hj : j ≤ 4 * D) :
    (trace (step f) s pins j).bits = s.bits ∨
      (trace (step f) s pins j).bits = s.bits.shift bit := by
  by_cases hhalf : j ≤ 2 * D
  · exact Or.inl (high_half h hspeed hlo hhi hstart hhigh hhalf)
  · have hlt := h.cnt_lt
    have hmod := Nat.mod_lt (s.phase E + 2 * D) (show 0 < 2 * E by omega)
    have hrun := null_half h hspeed hhigh (j := j - 2 * D) (fun k hk => hnull k (by omega))
    rw [show 2 * D + (j - 2 * D) = j by omega] at hrun
    have hk : ((s.phase E + 2 * D) % (2 * E) + (j - 2 * D)) / (2 * E) < 20 :=
      (Nat.div_lt_iff_lt_mul (by omega)).mpr (by omega)
    have hbits := hstart.null (b := bit) (half_samples hlo hhi (phase_lt h)) hk
    rw [← hrun] at hbits
    change (trace (step f) s pins j).bits = _ at hbits
    rw [hbits]
    split
    · exact Or.inl rfl
    · exact Or.inr rfl

theorem symbol_next (hnull : ∀ k < 2 * D, (pins (2 * D + k)).line = .null) :
    SymbolStart (trace (step f) s pins (4 * D)).sampled ∧
      (trace (step f) s pins (4 * D)).bits = s.bits.shift bit := by
  have hlt := h.cnt_lt
  have hp := half_samples hlo hhi (phase_lt h)
  have hmod := Nat.mod_lt (s.phase E + 2 * D) (show 0 < 2 * E by omega)
  have hq := half_samples hlo hhi hmod
  have hrun := null_half h hspeed hhigh (j := 2 * D) hnull
  rw [show 2 * D + 2 * D = 4 * D by omega] at hrun
  constructor
  · rw [hrun]
    exact hstart.next hp hq
  · have hcases : ((s.phase E + 2 * D) % (2 * E) + 2 * D) / (2 * E) = 8 ∨
        ((s.phase E + 2 * D) % (2 * E) + 2 * D) / (2 * E) = 9 := by simpa using hq
    have hbits := hstart.null (b := bit) hp
      (k := ((s.phase E + 2 * D) % (2 * E) + 2 * D) / (2 * E)) (by omega)
    rw [← hrun, if_neg (by omega)] at hbits
    exact hbits

/-- A last symbol, with the line null for `m` cycles after its high half: its bit is
shifted in at some cycle, and the bits are cleared at a later one. -/
theorem last_symbol {m : Nat} (hm : 16 * D ≤ m)
    (hnull : ∀ k < m, (pins (2 * D + k)).line = .null) :
    ∃ n₁ n₂, 2 * D < n₁ ∧ n₁ < n₂ ∧ n₂ + 2 ≤ 2 * D + m ∧
      (∀ n < n₁, (trace (step f) s pins n).bits = s.bits) ∧
      (∀ n, n₁ ≤ n → n < n₂ → (trace (step f) s pins n).bits = s.bits.shift bit) ∧
      (∀ n, n₂ ≤ n → n ≤ 2 * D + m →
        (trace (step f) s pins n).sampled = ⟨.idle bit, .reset⟩) := by
  have hlt := h.cnt_lt
  have hpos : 0 < 2 * E := by omega
  have hp := half_samples hlo hhi (phase_lt h)
  have hmod := Nat.mod_lt (s.phase E + 2 * D) hpos
  have hrun : ∀ n, 2 * D ≤ n → n ≤ 2 * D + m → (trace (step f) s pins n).sampled =
      (s.sampled.ticks (.symbol bit) ((s.phase E + 2 * D) / (2 * E))).ticks .null
        (((s.phase E + 2 * D) % (2 * E) + (n - 2 * D)) / (2 * E)) := by
    intro n hn hnm
    have hnull' := null_half h hspeed hhigh (j := n - 2 * D) (fun k hk => hnull k (by omega))
    rwa [show 2 * D + (n - 2 * D) = n by omega] at hnull'
  generalize (s.phase E + 2 * D) % (2 * E) = phase at hmod hrun
  -- the cycles of the seventh and the twentieth null sample
  refine ⟨2 * D + (14 * E - phase), 2 * D + (40 * E - phase), by omega, by omega, by omega,
    ?_, ?_, ?_⟩
  · intro n hn
    by_cases hhalf : n ≤ 2 * D
    · exact high_half h hspeed hlo hhi hstart hhigh hhalf
    · have hk : (phase + (n - 2 * D)) / (2 * E) < 7 :=
        (Nat.div_lt_iff_lt_mul hpos).mpr (by omega)
      have hbits := hstart.null (b := bit) hp (show _ < 20 from Nat.lt_trans hk (by omega))
      rw [← hrun n (by omega) (by omega), if_pos hk] at hbits
      exact hbits
  · intro n hn hn2
    have hlow : 7 ≤ (phase + (n - 2 * D)) / (2 * E) :=
      (Nat.le_div_iff_mul_le hpos).mpr (by omega)
    have hk : (phase + (n - 2 * D)) / (2 * E) < 20 :=
      (Nat.div_lt_iff_lt_mul hpos).mpr (by omega)
    have hbits := hstart.null (b := bit) hp hk
    rw [← hrun n (by omega) (by omega), if_neg (by omega)] at hbits
    exact hbits
  · intro n hn hnm
    have hk : 20 ≤ (phase + (n - 2 * D)) / (2 * E) :=
      (Nat.le_div_iff_mul_le hpos).mpr (by omega)
    rw [hrun n (by omega) hnm]
    exact hstart.finish hp hk

end Symbol

/-! ## The frame -/

/-- Idle between words: nothing is counted and nothing is on its way out. -/
structure Idle (E : Nat) (s : Arinc429Rx) : Prop where
  running : Running E s
  sampled : ∃ bit, s.sampled = ⟨.idle bit, .reset⟩
  d1Trigger : s.d1Trigger = false
  srcRxValid : s.srcRxValid = false

theorem Idle.symbolStart (h : Idle E s) : SymbolStart s.sampled := by
  obtain ⟨bit, hs⟩ := h.sampled
  rw [hs]
  exact .idle bit

theorem Idle.bits (h : Idle E s) : s.bits = .reset := by
  obtain ⟨bit, hs⟩ := h.sampled
  exact congrArg RxSampled.bits hs

theorem Idle.next {i : RxPins} (h : Idle E s) (hi : rxDevider f i.speed = E)
    (hline : i.line = .null) : Idle E (s.step f i) := by
  have hc := cycle h.running hi
  obtain ⟨bit, hs⟩ := h.sampled
  have hvalid : s.bits.sigValid = false := by
    rw [h.bits]
    rfl
  refine ⟨hc.running, ⟨bit, ?_⟩, ?_, ?_⟩
  · rw [hc.sampled, hline, hs]
    split
    · exact idle_ticks bit 1
    · rfl
  · rw [hc.d1Trigger, hvalid]
  · rw [hc.srcRxValid, hvalid]
    rfl

/-- The line carries the first `n` symbols with the given bits. -/
def LineHas (D : Nat) (pins : Nat → RxPins) (bits : Nat → Bool) (n : Nat) : Prop :=
  ∀ i < n, (∀ k < 2 * D, (pins (4 * D * i + k)).line = .symbol (bits i)) ∧
    ∀ k < 2 * D, (pins (4 * D * i + 2 * D + k)).line = .null

/-- After `n` symbols on the idle receiver, with fewer than 32 of them no word. -/
theorem symbols_run (h : Idle E s) (hspeed : ∀ n, rxDevider f (pins n).speed = E)
    (hlo : 8 * E ≤ D) (hhi : D ≤ 9 * E) {bits : Nat → Bool} {n : Nat} (hn : n ≤ 31)
    (hline : LineHas D pins bits n) :
    SymbolStart (trace (step f) s pins (4 * D * n)).sampled ∧
      (trace (step f) s pins (4 * D * n)).bits = rxBits bits n ∧
      ∀ m ≤ 4 * D * n, (trace (step f) s pins m).bits.sigValid = false := by
  induction n with
  | zero =>
      refine ⟨h.symbolStart, h.bits, fun m hm => ?_⟩
      rw [Nat.mul_zero, Nat.le_zero] at hm
      rw [hm, trace_zero, h.bits]
      rfl
  | succ n ih =>
      obtain ⟨hstart, hbits, hvalid⟩ := ih (by omega) (fun i hi => hline i (by omega))
      have hrun := running_run h.running hspeed (4 * D * n)
      have hspeed' : ∀ k, rxDevider f (pins (4 * D * n + k)).speed = E := fun k => hspeed _
      obtain ⟨hhigh, hnull⟩ := hline n (by omega)
      have hnull' : ∀ k < 2 * D, (pins (4 * D * n + (2 * D + k))).line = .null := by
        intro k hk
        rw [← Nat.add_assoc]
        exact hnull k hk
      have hnext := symbol_next hrun hspeed' hlo hhi hstart hhigh hnull'
      have hsplit : 4 * D * (n + 1) = 4 * D * n + 4 * D := by rw [Nat.mul_add, Nat.mul_one]
      rw [hsplit, trace_add]
      refine ⟨hnext.1, by rw [hnext.2, hbits]; rfl, fun m hm => ?_⟩
      by_cases hold : m ≤ 4 * D * n
      · exact hvalid m hold
      · have hduring := symbol_bits hrun hspeed' hlo hhi hstart hhigh hnull'
          (j := m - 4 * D * n) (by omega)
        rw [← trace_add, show 4 * D * n + (m - 4 * D * n) = m by omega, hbits] at hduring
        rcases hduring with hkept | hshift
        · rw [hkept, rxBits_sigValid bits (by omega)]
        · rw [hshift, ← rxBits, rxBits_sigValid bits hn]

/-- A word is delivered in cycle `n`, and no other one up to cycle `m`. -/
structure DeliversOnce (run : Nat → Arinc429Rx) (bits : Nat → Bool) (m n : Nat) : Prop where
  within : n ≤ m
  valid : (run n).srcRxValid = true
  once : ∀ k ≤ m, (run k).srcRxValid = true → k = n
  data : ∀ j < 32, (run n).srcRxData.getLsbD j = bits j
  parity : (run n).parErr = !decide ((List.range 32).countP bits % 2 = 1)

theorem valid_pulse (h : Idle E s) (hspeed : ∀ n, rxDevider f (pins n).speed = E) {a b m : Nat}
    (hab : a < b) (hlow : ∀ n < a, (trace (step f) s pins n).bits.sigValid = false)
    (hhigh : ∀ n, a ≤ n → n < b → (trace (step f) s pins n).bits.sigValid = true)
    (hend : ∀ n, b ≤ n → n ≤ m → (trace (step f) s pins n).bits.sigValid = false) (k : Nat)
    (hk : k ≤ m) : (trace (step f) s pins k).srcRxValid = true ↔ k = a + 1 := by
  have hvalid : ∀ n ≤ m, (trace (step f) s pins n).bits.sigValid = decide (a ≤ n ∧ n < b) := by
    intro n hn
    by_cases ha : n < a
    · rw [hlow n ha, decide_eq_false (by omega)]
    · by_cases hb : n < b
      · rw [hhigh n (by omega) hb, decide_eq_true (by omega)]
      · rw [hend n (by omega) hn, decide_eq_false (by omega)]
  have hd1 : ∀ n ≤ m, (trace (step f) s pins n).d1Trigger = decide (a < n ∧ n ≤ b) := by
    intro n hn
    cases n with
    | zero =>
        rw [trace_zero, h.d1Trigger, decide_eq_false (by omega)]
    | succ n =>
        rw [trace_succ, (cycle (running_run h.running hspeed n) (hspeed n)).d1Trigger,
          hvalid n (by omega)]
        exact decide_eq_decide.mpr (by omega)
  cases k with
  | zero =>
      rw [trace_zero, h.srcRxValid]
      simp
  | succ k =>
      rw [trace_succ, (cycle (running_run h.running hspeed k) (hspeed k)).srcRxValid,
        hvalid k (by omega), hd1 k (by omega)]
      simp only [Bool.and_eq_true, decide_eq_true_eq, Bool.not_eq_true', decide_eq_false_iff_not]
      omega

/-- A frame of 32 symbols and at least four bit times of null on the line of an idle
receiver: exactly one word is delivered, and the receiver is idle again. -/
theorem receives_frame (h : Idle E s) (hspeed : ∀ n, rxDevider f (pins n).speed = E)
    (hlo : 8 * E ≤ D) (hhi : D ≤ 9 * E) {bits : Nat → Bool} (hline : LineHas D pins bits 32)
    {gap : Nat} (hgap : 16 * D ≤ gap) (hnull : ∀ k < gap, (pins (128 * D + k)).line = .null) :
    (∃ n, DeliversOnce (trace (step f) s pins) bits (128 * D + gap) n) ∧
      Idle E (trace (step f) s pins (128 * D + gap)) := by
  obtain ⟨hstart, hbits, hvalid⟩ := symbols_run h hspeed hlo hhi (Nat.le_refl 31)
    (fun i hi => hline i (by omega))
  have hrun := running_run h.running hspeed (4 * D * 31)
  obtain ⟨hlast, hlow⟩ := hline 31 (by omega)
  have htail : ∀ k < 2 * D + gap, (pins (4 * D * 31 + (2 * D + k))).line = .null := by
    intro k hk
    by_cases hsym : k < 2 * D
    · rw [← Nat.add_assoc]
      exact hlow k hsym
    · have hpos := hnull (k - 2 * D) (by omega)
      rwa [show 128 * D + (k - 2 * D) = 4 * D * 31 + (2 * D + k) by omega] at hpos
  obtain ⟨n₁, n₂, hn₁, hn₁₂, hn₂, hbefore, hafter, hend⟩ :=
    last_symbol hrun (fun k => hspeed _) hlo hhi hstart hlast (m := 2 * D + gap) (by omega) htail
  rw [hbits] at hbefore hafter
  have hwait : ∀ n < 4 * D * 31 + n₁, (trace (step f) s pins n).bits.sigValid = false := by
    intro n hn
    by_cases hold : n ≤ 4 * D * 31
    · exact hvalid n hold
    · have hkept := hbefore (n - 4 * D * 31) (by omega)
      rw [← trace_add, show 4 * D * 31 + (n - 4 * D * 31) = n by omega] at hkept
      rw [hkept, rxBits_sigValid bits (Nat.le_refl 31)]
  have hfull : ∀ n, 4 * D * 31 + n₁ ≤ n → n < 4 * D * 31 + n₂ →
      (trace (step f) s pins n).bits = rxBits bits 32 := by
    intro n hn hn2
    have hshift := hafter (n - 4 * D * 31) (by omega) (by omega)
    rwa [← trace_add, show 4 * D * 31 + (n - 4 * D * 31) = n by omega] at hshift
  have hidle : ∀ n, 4 * D * 31 + n₂ ≤ n → n ≤ 128 * D + gap →
      (trace (step f) s pins n).sampled = ⟨.idle (bits 31), .reset⟩ := by
    intro n hn hm
    have hquiet := hend (n - 4 * D * 31) (by omega) (by omega)
    rwa [← trace_add, show 4 * D * 31 + (n - 4 * D * 31) = n by omega] at hquiet
  have hdone : ∀ n, 4 * D * 31 + n₂ ≤ n → n ≤ 128 * D + gap →
      (trace (step f) s pins n).bits.sigValid = false := fun n hn hm =>
    congrArg (fun r : RxSampled => r.bits.sigValid) (hidle n hn hm)
  constructor
  · have hpulse := valid_pulse h hspeed (by omega) hwait
      (fun n hn hn2 => by rw [hfull n hn hn2]; exact rxBits_sigValid_last bits) hdone
    have hc := cycle (running_run h.running hspeed (4 * D * 31 + n₁)) (hspeed (4 * D * 31 + n₁))
    have hpe := hpulse (4 * D * 31 + n₁ + 1) (by omega)
    rw [trace_succ, hc.srcRxValid, eq_self_iff_true, iff_true] at hpe
    have hword := hfull (4 * D * 31 + n₁) (Nat.le_refl _) (by omega)
    refine ⟨4 * D * 31 + n₁ + 1, by omega, ?_, fun k hk => (hpulse k hk).mp, ?_, ?_⟩
    · rw [trace_succ, hc.srcRxValid, hpe]
    · intro j hj
      rw [trace_succ, hc.srcRxData, if_pos hpe, hword]
      have hdata := rxBits_sigData bits hj (Nat.le_refl 32)
      rwa [Nat.sub_self, Nat.zero_add] at hdata
    · rw [trace_succ, hc.parErr, if_pos hpe, hword, rxBits_sigPar]
  · obtain ⟨m, hm⟩ : ∃ m, 128 * D + gap = m + 1 := ⟨128 * D + gap - 1, by omega⟩
    have hc := cycle (running_run h.running hspeed m) (hspeed m)
    have hlow := hdone m (by omega) (by omega)
    refine ⟨running_run h.running hspeed _, ⟨_, hidle _ (by omega) (Nat.le_refl _)⟩, ?_, ?_⟩
    · rw [hm, trace_succ, hc.d1Trigger, hlow]
    · rw [hm, trace_succ, hc.srcRxValid, hlow]
      rfl

end Arinc429Rx

end Mfi.Arinc429
