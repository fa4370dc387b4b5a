import Mfi.Core.Trace

/-!
# Deserializer of the first LVDS receiver

`lvds_deser.sv`: seven edges of the fast clock shift the bits of a lane in, an edge of the slow
clock takes the last fourteen over. A counter of the lane, moved by `rx_channel_data_align`, says
which seven of the fourteen are the word. The two clocks come from a PLL, whose phase stays while
bit 3 of the counters is clear.
-/

namespace Mfi.LdiBasic

open Core

structure Lane where
  data : BitVec 14
  dataLatch : BitVec 14
  dataSlow : BitVec 14
  dataLatSlow : BitVec 14
  dataLatchSlow : BitVec 14
  dataAlignCntr : BitVec 8
  dataAlignSig : Bool
  rxOut : BitVec 7
  deriving DecidableEq, Repr

namespace Lane

def fast (l : Lane) (rxIn : Bool) : Lane :=
  { l with
    data := l.data.extractLsb' 0 13 ++ BitVec.ofBool rxIn
    dataLatch := l.data }

/-- The first `k` fast edges after a slow one. -/
def fasts (l : Lane) (rxIn : Nat → Bool) : Nat → Lane
  | 0 => l
  | k + 1 => (fasts l rxIn k).fast (rxIn k)

/-- The counter with a request for this channel, and one for any channel. -/
def alignNext (l : Lane) (align anyAlign : Bool) : BitVec 8 :=
  if anyAlign && l.dataAlignCntr.getLsbD 3 then 0
  else if !l.dataAlignSig && align then l.dataAlignCntr + 1
  else l.dataAlignCntr

def slow (l : Lane) (align anyAlign : Bool) : Lane :=
  { l with
    dataSlow := l.dataLatch
    dataLatSlow := l.dataSlow
    dataLatchSlow := l.dataLatSlow >>> (l.dataAlignCntr.extractLsb' 0 3).toNat
    dataAlignCntr := l.alignNext align anyAlign
    dataAlignSig := align
    rxOut := l.dataLatchSlow.extractLsb' 0 7 }

def step (l : Lane) (align anyAlign : Bool) (rxIn : Nat → Bool) : Lane :=
  (l.slow align anyAlign).fasts rxIn 7

def shift (l : Lane) : Nat := (l.dataAlignCntr.extractLsb' 0 3).toNat

/-! ## The fast edges -/

section Fast

variable (l : Lane) (rxIn : Nat → Bool) (k : Nat)

theorem fast_getLsbD (b : Bool) {j : Nat} (hj : j < 14) :
    (l.fast b).data.getLsbD j = if j = 0 then b else l.data.getLsbD (j - 1) := by
  unfold fast
  rw [BitVec.getLsbD_append, BitVec.getLsbD_ofBool, BitVec.getLsbD_extractLsb']
  cases j with
  | zero => rfl
  | succ j =>
      rw [Nat.add_sub_cancel, Nat.zero_add, decide_eq_true (show j < 13 by omega), Bool.true_and]
      rfl

theorem fasts_getLsbD {j : Nat} (hj : j < 14) :
    (l.fasts rxIn k).data.getLsbD j =
      if j < k then rxIn (k - 1 - j) else l.data.getLsbD (j - k) := by
  induction k generalizing j with
  | zero => rfl
  | succ k ih =>
      rw [fasts, fast_getLsbD _ _ hj]
      cases j with
      | zero => rfl
      | succ j =>
          rw [if_neg (Nat.succ_ne_zero j), Nat.add_sub_cancel, ih (by omega)]
          simp only [Nat.add_lt_add_iff_right, Nat.add_sub_add_right]
          rw [show k + 1 - 1 - (j + 1) = k - 1 - j by omega]

theorem fasts_dataLatch : (l.fasts rxIn (k + 1)).dataLatch = (l.fasts rxIn k).data := rfl

theorem fasts_slow :
    (l.fasts rxIn k).dataSlow = l.dataSlow ∧ (l.fasts rxIn k).dataLatSlow = l.dataLatSlow ∧
      (l.fasts rxIn k).dataLatchSlow = l.dataLatchSlow ∧
      (l.fasts rxIn k).dataAlignCntr = l.dataAlignCntr ∧
      (l.fasts rxIn k).dataAlignSig = l.dataAlignSig ∧ (l.fasts rxIn k).rxOut = l.rxOut := by
  induction k with
  | zero => exact ⟨rfl, rfl, rfl, rfl, rfl, rfl⟩
  | succ k ih => exact ih

end Fast

/-! ## Runs -/

section Run

variable (l : Lane) (align anyAlign rxIn : Nat → Bool) (n : Nat)

/-- Before slow edge `n`. The bits are numbered by the fast edges. -/
def run (n : Nat) : Lane :=
  trace (fun l i => step l i.1 i.2.1 i.2.2) l
    (fun n => (align n, anyAlign n, fun k => rxIn (7 * n + k))) n

theorem run_succ :
    run l align anyAlign rxIn (n + 1) =
      (run l align anyAlign rxIn n).step (align n) (anyAlign n) fun k => rxIn (7 * n + k) := rfl

theorem run_data {j : Nat} (hj : j < 14) (hn : j < 7 * n) :
    (run l align anyAlign rxIn n).data.getLsbD j = rxIn (7 * n - 1 - j) := by
  induction n generalizing j with
  | zero => omega
  | succ n ih =>
      rw [run_succ, step, fasts_getLsbD _ _ _ hj]
      split
      · congr 1
        omega
      · refine (ih (by omega) (by omega)).trans ?_
        congr 1
        omega

theorem run_dataLatch {j : Nat} (hj : j < 14) (hn : j + 1 < 7 * n) :
    (run l align anyAlign rxIn n).dataLatch.getLsbD j = rxIn (7 * n - 2 - j) := by
  obtain ⟨m, rfl⟩ := Nat.exists_eq_add_of_le' (show 1 ≤ n by omega)
  rw [run_succ, step, fasts_dataLatch, fasts_getLsbD _ _ _ hj]
  split
  · congr 1
    omega
  · refine (run_data l align anyAlign rxIn m (by omega) (by omega)).trans ?_
    congr 1
    omega

theorem run_slow :
    (run l align anyAlign rxIn (n + 1)).dataSlow = (run l align anyAlign rxIn n).dataLatch ∧
      (run l align anyAlign rxIn (n + 1)).dataLatSlow = (run l align anyAlign rxIn n).dataSlow ∧
      (run l align anyAlign rxIn (n + 1)).dataLatchSlow =
        (run l align anyAlign rxIn n).dataLatSlow >>> (run l align anyAlign rxIn n).shift ∧
      (run l align anyAlign rxIn (n + 1)).dataAlignCntr =
        (run l align anyAlign rxIn n).alignNext (align n) (anyAlign n) ∧
      (run l align anyAlign rxIn (n + 1)).dataAlignSig = align n ∧
      (run l align anyAlign rxIn (n + 1)).rxOut =
        (run l align anyAlign rxIn n).dataLatchSlow.extractLsb' 0 7 :=
  fasts_slow _ _ 7

theorem shift_lt (l : Lane) : l.shift < 8 := (l.dataAlignCntr.extractLsb' 0 3).isLt

theorem shift_eq (l : Lane) : l.shift = l.dataAlignCntr.toNat % 8 := by
  unfold shift
  rw [BitVec.extractLsb'_toNat]
  rfl

/-- The word is a window of the line, as far back as the shift says. -/
theorem rxOut_window (hn : 3 ≤ n) {j : Nat} (hj : j < 7) :
    (run l align anyAlign rxIn (n + 4)).rxOut.getLsbD j =
      rxIn (7 * n - 2 - ((run l align anyAlign rxIn (n + 2)).shift + j)) := by
  have hlt := shift_lt (run l align anyAlign rxIn (n + 2))
  rw [(run_slow l align anyAlign rxIn (n + 3)).2.2.2.2.2, BitVec.getLsbD_extractLsb',
    (run_slow l align anyAlign rxIn (n + 2)).2.2.1, BitVec.getLsbD_ushiftRight,
    (run_slow l align anyAlign rxIn (n + 1)).2.1, (run_slow l align anyAlign rxIn n).1,
    decide_eq_true hj, Bool.true_and, Nat.zero_add]
  exact run_dataLatch l align anyAlign rxIn n (by omega) (by omega)

/-- The line carries word `m` of `w`, the highest bit first, `phase` fast edges late. -/
def Carries (rxIn : Nat → Bool) (phase : Nat) (w : Nat → BitVec 7) (m : Nat) : Prop :=
  ∀ k < 7, rxIn (7 * m + phase + k) = (w m).getLsbD (6 - k)

/-- With the shift that fits the phase the channel puts out the words of the line. -/
theorem rxOut_word {phase : Nat} {w : Nat → BitVec 7} (hw : Carries rxIn phase w (n - 6))
    (hn : 7 ≤ n) (hshift : (run l align anyAlign rxIn (n - 2)).shift + phase = 6) :
    (run l align anyAlign rxIn n).rxOut = w (n - 6) := by
  obtain ⟨m, rfl⟩ := Nat.exists_eq_add_of_le' (show 4 ≤ n by omega)
  rw [show m + 4 - 2 = m + 2 by omega] at hshift
  apply BitVec.eq_of_getLsbD_eq
  intro j hj
  have hbit := hw (6 - j) (by omega)
  rw [show 6 - (6 - j) = j by omega] at hbit
  rw [rxOut_window l align anyAlign rxIn m (by omega) hj, ← hbit]
  congr 1
  omega

end Run

end Lane

end Mfi.LdiBasic
