import Mfi.Tmds.Encoder

/-!
# The balance of ones and zeros

The register `bias` is the disparity of all that was sent since the last blanking, and the
choice between a byte and its inverse keeps it between −8 and 8. The line itself strays a
little further within a word.
-/

namespace Mfi.Tmds

open Core

/-! ## The account of one word -/

theorem balance_toInt (q : BitVec 9) :
    (balance q).toInt = disparity (lsbFirst (q.extractLsb' 0 8)) := by
  revert q
  decide +kernel

theorem balance_bounds (q : BitVec 9) :
    (balance q).toInt % 2 = 0 ∧ -8 ≤ (balance q).toInt ∧ (balance q).toInt ≤ 8 := by
  revert q
  decide +kernel

/-- What the encoder keeps in `bias`. -/
structure Balanced (bias : BitVec 5) : Prop where
  even : bias.toInt % 2 = 0
  low : -8 ≤ bias.toInt
  high : bias.toInt ≤ 8

theorem disparity_dataWord (inverted : Bool) (q : BitVec 9) :
    disparity (lsbFirst (dataWord inverted q)) =
      (if inverted then -(balance q).toInt else (balance q).toInt) + level (q.getLsbD 8) +
        level inverted := by
  rw [lsbFirst_dataWord, disparity_append, balance_toInt]
  cases inverted with
  | false =>
      simp only [Bool.false_eq_true, if_false, disparity_cons, disparity_nil]
      omega
  | true =>
      simp only [if_true, disparity_cons, disparity_nil, disparity_not]
      omega

/-! ## The register -/

theorem sameSign_iff (bias balance : BitVec 5) :
    sameSign bias balance = true ↔
      0 < bias.toInt ∧ 0 < balance.toInt ∨ bias.toInt < 0 ∧ balance.toInt < 0 := by
  unfold sameSign
  rw [Bool.or_eq_true, Bool.and_eq_true, Bool.and_eq_true, BitVec.slt_iff_toInt_lt,
    BitVec.slt_iff_toInt_lt, BitVec.slt_iff_toInt_lt, BitVec.slt_iff_toInt_lt]
  rfl

theorem toInt_add_small {x y : BitVec 5} (hlow : -16 ≤ x.toInt + y.toInt)
    (hhigh : x.toInt + y.toInt < 16) : (x + y).toInt = x.toInt + y.toInt := by
  rw [BitVec.toInt_add]
  exact Int.bmod_eq_of_le hlow hhigh

theorem toInt_sub_small {x y : BitVec 5} (hlow : -16 ≤ x.toInt - y.toInt)
    (hhigh : x.toInt - y.toInt < 16) : (x - y).toInt = x.toInt - y.toInt := by
  rw [BitVec.toInt_sub]
  exact Int.bmod_eq_of_le hlow hhigh

theorem toInt_two (b : Bool) : (0#3 ++ BitVec.ofBool b ++ 0#1 : BitVec 5).toInt = level b + 1 := by
  cases b <;> rfl

theorem Balanced.of_toInt {bias : BitVec 5} {t : Int} (h : bias.toInt = t)
    (ht : t % 2 = 0 ∧ -8 ≤ t ∧ t ≤ 8) : bias.toInt = t ∧ Balanced bias :=
  ⟨h, { even := h ▸ ht.1, low := h ▸ ht.2.1, high := h ▸ ht.2.2 }⟩

/-- One colour byte: the register takes up the disparity of the word and stays in bounds. The
sign of the byte is chosen against the sign of the account. -/
theorem pixel_bias {r : Encoder} {q : BitVec 9} (h : Balanced r.bias) :
    (r.pixel q).bias.toInt = r.bias.toInt + disparity (lsbFirst (r.pixel q).oTmds) ∧
      Balanced (r.pixel q).bias := by
  obtain ⟨heven, hlow, hhigh⟩ := h
  obtain ⟨hbyte, hbyteLow, hbyteHigh⟩ := balance_bounds q
  have hzero : r.bias = 0#5 ∨ balance q = 0#5 ↔ r.bias.toInt = 0 ∨ (balance q).toInt = 0 := by
    rw [← BitVec.toInt_inj, ← BitVec.toInt_inj]
    rfl
  rw [pixel_oTmds, disparity_dataWord]
  unfold Encoder.pixel inverts
  dsimp only
  by_cases hrest : r.bias = 0#5 ∨ balance q = 0#5
  · have hnum := hzero.mp hrest
    rw [if_pos hrest, if_pos hrest]
    cases hbit : q.getLsbD 8 with
    | false =>
        simp only [Bool.not_false, if_true, level_false, level_true]
        have hnew := toInt_sub_small (x := r.bias) (y := balance q) (by omega) (by omega)
        exact Balanced.of_toInt (by omega) (by omega)
    | true =>
        simp only [Bool.not_true, Bool.false_eq_true, if_false, level_false, level_true]
        have hnew := toInt_add_small (x := r.bias) (y := balance q) (by omega) (by omega)
        exact Balanced.of_toInt (by omega) (by omega)
  · have hnum : ¬ (r.bias.toInt = 0 ∨ (balance q).toInt = 0) := fun hn => hrest (hzero.mpr hn)
    have hsign := sameSign_iff r.bias (balance q)
    have htwo := toInt_two (q.getLsbD 8)
    have htwo' := toInt_two (!q.getLsbD 8)
    have hlevel : level (!q.getLsbD 8) = -level (q.getLsbD 8) := level_not _
    have hbit : level (q.getLsbD 8) = 1 ∨ level (q.getLsbD 8) = -1 := by
      cases q.getLsbD 8 with
      | false => exact Or.inr rfl
      | true => exact Or.inl rfl
    rw [if_neg hrest, if_neg hrest]
    cases hsame : sameSign r.bias (balance q) with
    | false =>
        rw [hsame] at hsign
        simp only [Bool.false_eq_true, false_iff] at hsign
        simp only [Bool.false_eq_true, if_false, level_false]
        have hsub := toInt_sub_small (x := r.bias) (y := 0#3 ++ BitVec.ofBool (!q.getLsbD 8) ++ 0#1)
          (by omega) (by omega)
        have hnew := toInt_add_small
          (x := r.bias - (0#3 ++ BitVec.ofBool (!q.getLsbD 8) ++ 0#1)) (y := balance q)
          (by omega) (by omega)
        exact Balanced.of_toInt (by omega) (by omega)
    | true =>
        rw [hsame] at hsign
        simp only [true_iff] at hsign
        simp only [if_true, level_true]
        have hadd := toInt_add_small (x := r.bias) (y := 0#3 ++ BitVec.ofBool (q.getLsbD 8) ++ 0#1)
          (by omega) (by omega)
        have hnew := toInt_sub_small
          (x := r.bias + (0#3 ++ BitVec.ofBool (q.getLsbD 8) ++ 0#1)) (y := balance q)
          (by omega) (by omega)
        exact Balanced.of_toInt (by omega) (by omega)

/-! ## A stretch of colour -/

section Stretch

variable {r : Encoder} {inp : Nat → EncoderInput} {m : Nat}

/-- Word `k` of the line after the clock in which the encoder was in `r`. -/
def sentWord (r : Encoder) (inp : Nat → EncoderInput) (k : Nat) : List Bool :=
  lsbFirst (encoderRun r inp (k + 1)).oTmds

def EncoderInput.Active (i : EncoderInput) : Prop := i.iRstN = true ∧ i.iDe = true

theorem step_active {r : Encoder} {i : EncoderInput} (h : i.Active) :
    r.step i = r.pixel (encQm i.iData) := by
  unfold Encoder.step
  rw [h.1, h.2]
  rfl

theorem step_blank {r : Encoder} {i : EncoderInput} (h : ¬ i.Active) : (r.step i).bias = 0#5 := by
  unfold Encoder.step
  unfold EncoderInput.Active at h
  cases hreset : i.iRstN with
  | false => rfl
  | true =>
      cases hde : i.iDe with
      | false => rfl
      | true => exact absurd ⟨hreset, hde⟩ h

/-- Along a stretch of colour the register keeps the account and stays in bounds. -/
theorem run_balanced (h0 : Balanced r.bias) (h : ∀ k < m, (inp k).Active) :
    ∀ k ≤ m, Balanced (encoderRun r inp k).bias := by
  intro k hk
  induction k with
  | zero => exact h0
  | succ k ih =>
      rw [encoderRun, trace_succ, step_active (h k hk)]
      exact (pixel_bias (ih (Nat.le_of_lt hk))).2

theorem run_account (h0 : Balanced r.bias) (h : ∀ k < m, (inp k).Active) :
    ∀ k < m, (encoderRun r inp (k + 1)).bias.toInt =
      (encoderRun r inp k).bias.toInt + disparity (sentWord r inp k) := by
  intro k hk
  have hbalanced := run_balanced h0 h k (Nat.le_of_lt hk)
  rw [sentWord, encoderRun, trace_succ, step_active (h k hk)]
  exact (pixel_bias hbalanced).1

/-- At no bit of a stretch is the line further than 13 from where it began. -/
theorem run_bounded (h0 : Balanced r.bias) (h : ∀ k < m, (inp k).Active) {p : List Bool}
    (hp : p <+: lineOf (sentWord r inp) m) : |r.bias.toInt + disparity p| ≤ 13 := by
  let account := fun k => (encoderRun r inp k).bias.toInt
  have haccount : ∀ k < m, account (k + 1) = account k + disparity (sentWord r inp k) :=
    run_account h0 h
  refine account_bounded haccount ?_ ?_ hp
  · rw [abs_le]
    obtain ⟨_, hlow, hhigh⟩ := h0
    show -13 ≤ r.bias.toInt ∧ r.bias.toInt ≤ 13
    omega
  · intro k hk q hq
    obtain ⟨_, hlow, hhigh⟩ := run_balanced h0 h k (Nat.le_of_lt hk)
    obtain ⟨_, hlow', hhigh'⟩ := run_balanced h0 h (k + 1) hk
    have hword := run_account h0 h k hk
    have hprefix := disparity_prefix hq
    have hlength : (sentWord r inp k).length = 10 := length_lsbFirst _
    rw [hlength] at hprefix
    rw [abs_le]
    show -13 ≤ (encoderRun r inp k).bias.toInt + disparity q ∧
      (encoderRun r inp k).bias.toInt + disparity q ≤ 13
    omega

end Stretch

/-- In every run and for every stretch of colour bytes after a blanking clock, the register holds
the disparity of all the bits sent in the stretch, after a word it is at most 8, and within the
words it is at most 13: the line has no direct component. -/
theorem line_balanced (r : Encoder) (inp : Nat → EncoderInput) (n m : Nat)
    (hblank : ¬ (inp n).Active) (hactive : ∀ k < m, (inp (n + 1 + k)).Active) :
    (encoderRun r inp (n + 1 + m)).bias.toInt =
        disparity (lineOf (fun k => lsbFirst (encoderRun r inp (n + 1 + k + 1)).oTmds) m) ∧
      |(encoderRun r inp (n + 1 + m)).bias.toInt| ≤ 8 ∧
      ∀ p, p <+: lineOf (fun k => lsbFirst (encoderRun r inp (n + 1 + k + 1)).oTmds) m →
        |disparity p| ≤ 13 := by
  have hstart : (encoderRun r inp (n + 1)).bias = 0#5 := step_blank hblank
  have h0 : Balanced (encoderRun r inp (n + 1)).bias := by
    rw [hstart]
    exact { even := rfl, low := by decide, high := by decide }
  have hzero : (encoderRun r inp (n + 1)).bias.toInt = 0 := by rw [hstart]; rfl
  have hrun : ∀ k, encoderRun r inp (n + 1 + k) =
      encoderRun (encoderRun r inp (n + 1)) (fun k => inp (n + 1 + k)) k :=
    fun k => trace_add Encoder.step r inp (n + 1) k
  have hline : (fun k => lsbFirst (encoderRun r inp (n + 1 + k + 1)).oTmds) =
      sentWord (encoderRun r inp (n + 1)) (fun k => inp (n + 1 + k)) := by
    funext k
    rw [Nat.add_assoc (n + 1) k 1, hrun]
    rfl
  let account := fun k =>
    (encoderRun (encoderRun r inp (n + 1)) (fun k => inp (n + 1 + k)) k).bias.toInt
  have haccount : ∀ k < m, account (k + 1) = account k +
      disparity (sentWord (encoderRun r inp (n + 1)) (fun k => inp (n + 1 + k)) k) :=
    run_account h0 hactive
  have hsum := disparity_lineOf haccount
  obtain ⟨_, hlow, hhigh⟩ := run_balanced h0 hactive m (Nat.le_refl m)
  rw [hline, hrun]
  refine ⟨?_, abs_le.mpr ⟨hlow, hhigh⟩, ?_⟩
  · have hfirst : account 0 = 0 := hzero
    have hlast : account m = (encoderRun (encoderRun r inp (n + 1))
        (fun k => inp (n + 1 + k)) m).bias.toInt := rfl
    rw [hsum]
    omega
  · intro p hp
    have hbound := run_bounded h0 hactive hp
    rwa [hzero, Int.zero_add] at hbound

/-- A line of 1920 points after its blanking. -/
theorem line_balanced_full :
    |(encoderRun ⟨0, 0⟩ (fun k => ⟨true, BitVec.ofNat 8 k, 0, k != 0⟩) (0 + 1 + 1920)).bias.toInt|
      ≤ 8 :=
  (line_balanced ⟨0, 0⟩ (fun k => ⟨true, BitVec.ofNat 8 k, 0, k != 0⟩) 0 1920 (fun h => by
    exact absurd h.2 (by decide)) (fun k _ => ⟨rfl, by simp⟩)).2.1

end Mfi.Tmds
