import Mfi.Core.Period
import Mfi.Arinc429.Receiver

/-!
# The sampling clock of the deserialiser

`clk_16x` is a counter modulo `2 * E`, where `E` is the divider. While the line is
constant the sampled registers after `j` cycles are those after `(phase + j) / (2 * E)`
samples. The valid strobe follows `sig_valid` by one cycle.
-/

namespace Mfi.Arinc429

open Core

@[ext] structure RxSampled where
  front : RxFront
  bits : RxBits
  deriving DecidableEq

def RxSampled.tick (r : RxSampled) (line : Line) : RxSampled :=
  ⟨r.front.tick line, r.bits.follow r.front (r.front.tick line)⟩

/-- `k` samples of a constant line. -/
def RxSampled.ticks (r : RxSampled) (line : Line) : Nat → RxSampled
  | 0 => r
  | k + 1 => (r.ticks line k).tick line

theorem RxSampled.ticks_add (r : RxSampled) (line : Line) (m n : Nat) :
    r.ticks line (m + n) = (r.ticks line m).ticks line n := by
  induction n with
  | zero => rfl
  | succ n ih =>
      rw [← Nat.add_assoc]
      exact congrArg (RxSampled.tick · line) ih

namespace Arinc429Rx

def sampled (s : Arinc429Rx) : RxSampled := ⟨s.front, s.bits⟩

def phase (E : Nat) (s : Arinc429Rx) : Nat := (if s.clk16x then 0 else E) + s.cntClk

/-- The receiver runs with divider `E`. -/
structure Running (E : Nat) (s : Arinc429Rx) : Prop where
  devider : s.clkDevider = E
  fits : E ≤ 65536
  cnt_lt : s.cntClk < E

variable {E f : Nat} {s : Arinc429Rx} {i : RxPins}

theorem phase_lt (h : Running E s) : s.phase E < 2 * E := by
  have hlt := h.cnt_lt
  unfold phase
  cases s.clk16x <;> simp <;> omega

structure Cycle (E f : Nat) (s : Arinc429Rx) (i : RxPins) : Prop where
  running : Running E (s.step f i)
  phase : (s.step f i).phase E = if s.phase E + 1 = 2 * E then 0 else s.phase E + 1
  sampled : (s.step f i).sampled =
    if s.phase E + 1 = 2 * E then s.sampled.tick i.line else s.sampled
  d1Trigger : (s.step f i).d1Trigger = s.bits.sigValid
  srcRxValid : (s.step f i).srcRxValid = (s.bits.sigValid && !s.d1Trigger)
  srcRxData : (s.step f i).srcRxData =
    if s.bits.sigValid && !s.d1Trigger then s.bits.sigData else s.srcRxData
  parErr : (s.step f i).parErr =
    if s.bits.sigValid && !s.d1Trigger then !s.bits.sigPar else s.parErr

theorem step_running (h : Running E s) (hi : rxDevider f i.speed = E) :
    s.step f i =
      let n := s.avsEdge E
      if n.clk16x && !s.clk16x then n.tick i.line else n := by
  have hpos := h.cnt_lt
  have hne : ¬(E = 0 ∨ E = 0) := by omega
  unfold step
  simp only [h.devider, hi, ite_self, if_neg hne]

theorem Running.phase_last (h : Running E s) :
    s.phase E + 1 = 2 * E ↔ s.cntClk = E - 1 ∧ s.clk16x = false := by
  have hlt := h.cnt_lt
  unfold phase
  cases s.clk16x <;> simp <;> omega

theorem Running.avsEdge_cntClk (h : Running E s) :
    (s.avsEdge E).cntClk = if s.cntClk = E - 1 then 0 else s.cntClk + 1 := by
  have hlt := h.cnt_lt
  have hfits := h.fits
  simp only [avsEdge, h.devider]
  by_cases hend : s.cntClk = E - 1
  · rw [if_neg (by omega), if_pos hend]
  · rw [if_pos (by omega), if_neg hend]
    exact Nat.mod_eq_of_lt (by omega)

theorem Running.avsEdge_clk16x (h : Running E s) :
    (s.avsEdge E).clk16x = if s.cntClk = E - 1 then !s.clk16x else s.clk16x := by
  have hlt := h.cnt_lt
  simp only [avsEdge, h.devider]
  by_cases hend : s.cntClk = E - 1
  · rw [if_pos (by omega), if_pos hend]
  · rw [if_neg (by omega), if_neg hend]

theorem cycle (h : Running E s) (hi : rxDevider f i.speed = E) : Cycle E f s i := by
  have hlt := h.cnt_lt
  have hfits := h.fits
  have hlast := h.phase_last
  have hcnt := h.avsEdge_cntClk
  have hclk := h.avsEdge_clk16x
  by_cases hrise : s.phase E + 1 = 2 * E
  · obtain ⟨hend, hlow⟩ := hlast.mp hrise
    rw [if_pos hend] at hcnt hclk
    have hstep : s.step f i = (s.avsEdge E).tick i.line := by
      rw [step_running h hi]
      simp [hclk, hlow]
    refine ⟨⟨?_, hfits, ?_⟩, ?_, ?_, ?_, ?_, ?_, ?_⟩ <;> rw [hstep]
    · rfl
    · change (s.avsEdge E).cntClk < E
      omega
    · rw [if_pos hrise]
      change (if (s.avsEdge E).clk16x then 0 else E) + (s.avsEdge E).cntClk = 0
      simp [hclk, hlow, hcnt]
    · rw [if_pos hrise]
      rfl
    · rfl
    · rfl
    · rfl
    · rfl
  · have hstep : s.step f i = s.avsEdge E := by
      rw [step_running h hi]
      have hno : ((s.avsEdge E).clk16x && !s.clk16x) = false := by
        rw [hclk]
        by_cases hend : s.cntClk = E - 1
        · cases hc : s.clk16x with
          | true => simp
          | false => exact absurd (hlast.mpr ⟨hend, hc⟩) hrise
        · simp [hend]
      simp [hno]
    refine ⟨⟨?_, hfits, ?_⟩, ?_, ?_, ?_, ?_, ?_, ?_⟩ <;> rw [hstep]
    · rfl
    · rw [hcnt]
      split <;> omega
    · rw [if_neg hrise]
      unfold phase at hrise ⊢
      rw [hcnt, hclk]
      by_cases hend : s.cntClk = E - 1
      · have hhigh : s.clk16x = true := by
          cases hc : s.clk16x with
          | true => rfl
          | false => exact absurd (hlast.mpr ⟨hend, hc⟩) (by unfold phase; exact hrise)
        simp [hend, hhigh]
        omega
      · simp [hend]
        omega
    · rw [if_neg hrise]
      rfl
    · rfl
    · rfl
    · rfl
    · rfl

/-! ## A constant line -/

variable {pins : Nat → RxPins}

theorem running_run (h : Running E s) (hspeed : ∀ n, rxDevider f (pins n).speed = E) (n : Nat) :
    Running E (trace (step f) s pins n) :=
  trace_invariant (fun _ => Running E) h (fun n hn => (cycle hn (hspeed n)).running) n

theorem constant_line (h : Running E s) (hspeed : ∀ n, rxDevider f (pins n).speed = E)
    {line : Line} (j : Nat) (hline : ∀ k < j, (pins k).line = line) :
    (trace (step f) s pins j).phase E = (s.phase E + j) % (2 * E) ∧
      (trace (step f) s pins j).sampled =
        s.sampled.ticks line ((s.phase E + j) / (2 * E)) := by
  have hlt := phase_lt h
  induction j with
  | zero =>
      rw [Nat.add_zero, Nat.mod_eq_of_lt hlt, Nat.div_eq_of_lt hlt]
      exact ⟨rfl, rfl⟩
  | succ j ih =>
      obtain ⟨hphase, hsampled⟩ := ih (fun k hk => hline k (by omega))
      have hc := cycle (running_run h hspeed j) (hspeed j)
      have hsucc := succ_div_mod (s.phase E + j) (show 0 < 2 * E by omega)
      rw [← Nat.add_assoc, trace_succ]
      rw [hc.phase, hc.sampled, hphase, hsampled, hline j (by omega)]
      split
      · rename_i hlast
        rw [if_pos hlast] at hsucc
        rw [hsucc.1, hsucc.2]
        exact ⟨rfl, rfl⟩
      · rename_i hlast
        rw [if_neg hlast] at hsucc
        rw [hsucc.1, hsucc.2]
        exact ⟨rfl, rfl⟩

end Arinc429Rx

end Mfi.Arinc429
