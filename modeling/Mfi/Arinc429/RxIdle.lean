import Mfi.Arinc429.RxFrame

/-!
# A null line makes the receiver idle

From any state that a run can reach, twenty samples of a null line fill the history
of `sig_clk` with ones, which holds the bit counter in reset. A receiver that was
reset once needs nothing else before a word: no state is stuck.
-/

namespace Mfi.Arinc429

open Core

/-! ## The filter -/

/-- The counter of the filter is at its end only when the input has reached the output. -/
structure FilterInput.Sound (p : FilterInput) : Prop where
  cnt_le : p.cntTime ≤ 3
  settled : p.cntTime = 3 → p.out = p.delayIn

theorem FilterInput.Sound.clkEdge {p : FilterInput} (h : p.Sound) (input : Line) :
    (p.clkEdge input).Sound := by
  have hle := h.cnt_le
  constructor
  · simp only [FilterInput.clkEdge]
    split
    · omega
    · split <;> omega
  · simp only [FilterInput.clkEdge]
    intro hcnt
    by_cases hmoved : p.delayIn ≠ input
    · rw [if_pos hmoved] at hcnt
      omega
    · have hsame : p.delayIn = input := by simpa using hmoved
      rw [if_neg hmoved] at hcnt
      by_cases h2 : p.cntTime = 2
      · rw [if_pos h2, hsame]
      · have h3 : p.cntTime = 3 := by
          split at hcnt <;> omega
        rw [if_neg h2, h.settled h3, hsame]

/-! ## Samples of a null line -/

/-- What is known after `k` samples of a null line: it moves through the stages of
`DDIN`, the filter, the bit clock and its history. -/
structure RxFront.NullFor (k : Nat) (r : RxFront) : Prop where
  filter : r.filterInputRx.Sound
  dTrigger0 : 1 ≤ k → r.dTrigger0 = .null
  dTrigger1 : 2 ≤ k → r.dTrigger1 = .null
  delayIn : 3 ≤ k → r.filterInputRx.delayIn = .null
  cntTime : 3 ≤ k → min (k - 3) 3 ≤ r.filterInputRx.cntTime
  sigClk : 7 ≤ k → r.sigClk = true
  sigClkState : ∀ j < 12, j + 8 ≤ k → r.sigClkState.getLsbD j = true
  sigRstN : 20 ≤ k → r.sigRstN = false

theorem RxFront.NullFor.out {k : Nat} {r : RxFront} (h : r.NullFor k) (hk : 6 ≤ k) :
    r.filterInputRx.out = .null := by
  have hcnt := h.cntTime (by omega)
  have hle := h.filter.cnt_le
  rw [h.filter.settled (by omega), h.delayIn (by omega)]

theorem RxFront.NullFor.full {k : Nat} {r : RxFront} (h : r.NullFor k) (hk : 19 ≤ k) :
    r.sigClkState = 0xfff#12 := by
  have hones : ∀ j < 12, (0xfff#12).getLsbD j = true := by decide
  apply BitVec.eq_of_getLsbD_eq
  intro j hj
  rw [h.sigClkState j hj (by omega), hones j hj]

theorem RxFront.NullFor.tick {k : Nat} {r : RxFront} (h : r.NullFor k) :
    (r.tick .null).NullFor (k + 1) := by
  refine ⟨h.filter.clkEdge _, fun _ => rfl, fun hk => h.dTrigger0 (by omega),
    fun hk => h.dTrigger1 (by omega), fun hk => ?_, fun hk => ?_, fun j hj hk => ?_, fun hk => ?_⟩
  · simp only [RxFront.tick, FilterInput.clkEdge]
    by_cases hold : 3 ≤ k
    · have hcnt := h.cntTime hold
      rw [h.delayIn hold, h.dTrigger1 (by omega), if_neg (by simp)]
      split <;> omega
    · omega
  · simp only [RxFront.tick, h.out (show 6 ≤ k by omega)]
    rfl
  · simp only [RxFront.tick]
    rw [BitVec.getLsbD_append]
    by_cases h0 : j < 1
    · rw [if_pos h0, h.sigClk (by omega), show j = 0 by omega]
      rfl
    · rw [if_neg h0, BitVec.getLsbD_extractLsb', decide_eq_true (by omega), Bool.true_and,
        Nat.zero_add, h.sigClkState (j - 1) (by omega) (by omega)]
  · simp only [RxFront.tick, h.full (show 19 ≤ k by omega)]
    rfl

theorem RxFront.NullFor.idle {k : Nat} {r : RxFront} (h : r.NullFor k) (hk : 20 ≤ k) :
    r = .idle r.sigBit := by
  have hcnt := h.cntTime (by omega)
  have hle := h.filter.cnt_le
  have h3 : r.filterInputRx.cntTime = 3 := by omega
  obtain ⟨d0, d1, ⟨delayIn, cntTime, out⟩, sigClk, sigBit, state, rst⟩ := r
  simp only [RxFront.idle, RxFront.mk.injEq, FilterInput.mk.injEq, true_and]
  exact ⟨h.dTrigger0 (by omega), h.dTrigger1 (by omega),
    ⟨h.delayIn (by omega), h3, h.out (by omega)⟩,
    h.sigClk (by omega), h.full (by omega), h.sigRstN hk⟩

theorem null_ticks {r : RxSampled} (h : r.front.filterInputRx.Sound) (k : Nat) :
    (r.ticks .null k).front.NullFor k := by
  induction k with
  | zero =>
      refine ⟨h, ?_, ?_, ?_, ?_, ?_, ?_, ?_⟩ <;> omega
  | succ k ih => exact ih.tick

theorem null_idles {r : RxSampled} (h : r.front.filterInputRx.Sound) {k : Nat} (hk : 20 ≤ k) :
    ∃ bit, r.ticks .null k = ⟨.idle bit, .reset⟩ := by
  have hfront := (null_ticks h k).idle hk
  refine ⟨(r.ticks .null k).front.sigBit, RxSampled.ext hfront ?_⟩
  obtain ⟨j, rfl⟩ : ∃ j, k = j + 1 := ⟨k - 1, by omega⟩
  have hreset : ((r.ticks .null j).front.tick .null).sigRstN = false :=
    (null_ticks h (j + 1)).sigRstN hk
  change (r.ticks .null j).bits.follow _ ((r.ticks .null j).front.tick .null) = _
  unfold RxBits.follow
  rw [hreset]
  rfl

/-! ## The receiver -/

namespace Arinc429Rx

variable {E f : Nat} {s : Arinc429Rx} {pins : Nat → RxPins}

/-- What holds in every cycle after a reset with the divider `E`. -/
structure Sound (E : Nat) (s : Arinc429Rx) : Prop where
  running : Running E s
  filter : s.front.filterInputRx.Sound

theorem Sound.reset (hE : 0 < E) (hfits : E ≤ 65536) (d1Trigger : Bool) :
    Sound E (Arinc429Rx.reset E d1Trigger) :=
  ⟨⟨rfl, hfits, hE⟩, ⟨Nat.zero_le 3, fun _ => rfl⟩⟩

theorem Sound.step {i : RxPins} (h : Sound E s) (hi : rxDevider f i.speed = E) :
    Sound E (s.step f i) := by
  have hc := cycle h.running hi
  refine ⟨hc.running, ?_⟩
  have hfront := congrArg RxSampled.front hc.sampled
  change (s.step f i).front = _ at hfront
  rw [hfront]
  split
  · exact h.filter.clkEdge _
  · exact h.filter

theorem sound_run (h : Sound E s) (hspeed : ∀ n, rxDevider f (pins n).speed = E) (n : Nat) :
    Sound E (trace (Arinc429Rx.step f) s pins n) :=
  trace_invariant (fun _ => Sound E) h (fun n hn => hn.step (hspeed n)) n

/-- After twenty-one samples of a null line the receiver is idle. -/
theorem null_line_idles (h : Sound E s) (hspeed : ∀ n, rxDevider f (pins n).speed = E) {m : Nat}
    (hm : 42 * E ≤ m) (hnull : ∀ k < m, (pins k).line = .null) :
    Idle E (trace (Arinc429Rx.step f) s pins m) := by
  have hlt := h.running.cnt_lt
  obtain ⟨j, rfl⟩ : ∃ j, m = j + 1 := ⟨m - 1, by omega⟩
  have hidle : ∀ n, j ≤ n → n ≤ j + 1 → ∃ bit,
      (trace (Arinc429Rx.step f) s pins n).sampled = ⟨.idle bit, .reset⟩ := by
    intro n hn hm'
    rw [(constant_line h.running hspeed n (fun k hk => hnull k (by omega))).2]
    exact null_idles h.filter ((Nat.le_div_iff_mul_le (by omega)).mpr (by omega))
  obtain ⟨bit, hj⟩ := hidle j (Nat.le_refl j) (by omega)
  have hlow : (trace (Arinc429Rx.step f) s pins j).bits.sigValid = false :=
    congrArg (fun r : RxSampled => r.bits.sigValid) hj
  have hc := cycle (running_run h.running hspeed j) (hspeed j)
  refine ⟨running_run h.running hspeed _, hidle _ (by omega) (Nat.le_refl _), ?_, ?_⟩
  · rw [trace_succ, hc.d1Trigger, hlow]
  · rw [trace_succ, hc.srcRxValid, hlow]
    rfl

theorem idle_run_null (h : Idle E s) (hspeed : ∀ n, rxDevider f (pins n).speed = E) {m : Nat}
    (hnull : ∀ k < m, (pins k).line = .null) : Idle E (trace (Arinc429Rx.step f) s pins m) := by
  induction m with
  | zero => exact h
  | succ m ih => exact (ih fun k hk => hnull k (by omega)).next (hspeed m) (hnull m (by omega))

end Arinc429Rx

end Mfi.Arinc429
