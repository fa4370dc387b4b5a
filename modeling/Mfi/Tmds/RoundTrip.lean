import Mfi.Core.Period
import Mfi.Tmds.Transmitter

/-!
# Round trip over TMDS

Time is counted in fast clocks. The slow clock rises in every tenth of them and is high for
five, as the fast clock finds it, with any delay between the two.
-/

namespace Mfi.Tmds

open Core

/-- The transmitter and its clocks. The slow registers move in the fast clocks with rest
`phase`; `late` places the level of the slow clock among the fast clocks. -/
structure Link where
  tx : Transmitter
  phase : Nat
  late : Nat

def Link.slowClock (l : Link) (n : Nat) : Bool := (n + l.late) % 10 < 5

/-- The transmitter before fast clock `n`. Slow clock `m` samples `v m`. -/
def Link.run (l : Link) (v : Nat → Video) : Nat → Transmitter :=
  trace Transmitter.step l.tx fun n =>
    { resetN := true, edge := n % 10 == l.phase, slowClock := l.slowClock n, video := v (n / 10) }

section Slow

variable {l : Link} (v : Nat → Video)

theorem run_succ (n : Nat) :
    l.run v (n + 1) = (l.run v n).step
      { resetN := true, edge := n % 10 == l.phase, slowClock := l.slowClock n
        video := v (n / 10) } := rfl

theorem run_edge (hphase : l.phase < 10) (m : Nat) :
    (l.run v (10 * m + l.phase + 1)).videoMeta = v m ∧
    (l.run v (10 * m + l.phase + 1)).videoLatch = (l.run v (10 * m + l.phase)).videoMeta ∧
    ∀ lane, (l.run v (10 * m + l.phase + 1)).encoder lane =
      ((l.run v (10 * m + l.phase)).encoder lane).step
        (encoderInput true (l.run v (10 * m + l.phase)).videoLatch lane) := by
  obtain ⟨hdiv, hmod⟩ := div_mod_of_eq hphase (rfl : 10 * m + l.phase = 10 * m + l.phase)
  rw [run_succ, hdiv, hmod, beq_self_eq_true]
  exact ⟨rfl, rfl, fun _ => rfl⟩

theorem run_between (m : Nat) {j : Nat} (hj : j ≤ 9) :
    (l.run v (10 * m + l.phase + 1 + j)).videoMeta = (l.run v (10 * m + l.phase + 1)).videoMeta ∧
    (l.run v (10 * m + l.phase + 1 + j)).videoLatch =
      (l.run v (10 * m + l.phase + 1)).videoLatch ∧
    ∀ lane, (l.run v (10 * m + l.phase + 1 + j)).encoder lane =
      (l.run v (10 * m + l.phase + 1)).encoder lane := by
  induction j with
  | zero => exact ⟨rfl, rfl, fun _ => rfl⟩
  | succ j ih =>
      have hno : ((10 * m + l.phase + 1 + j) % 10 == l.phase) = false := by
        rw [beq_eq_false_iff_ne]
        omega
      obtain ⟨hmeta, hlatch, hencoder⟩ := ih (by omega)
      rw [← Nat.add_assoc, run_succ, hno]
      exact ⟨hmeta, hlatch, hencoder⟩

/-- The words of video `m` stand at the encoders for the ten clocks after edge `m + 2`. -/
theorem run_encoded (hphase : l.phase < 10) (m : Nat) {j : Nat} (hj : j ≤ 9) (lane : Fin 3) :
    decode ((l.run v (10 * (m + 2) + l.phase + 1 + j)).encoder lane).oTmds =
      (v m).character lane := by
  have hone : 10 * (m + 1) + l.phase = 10 * m + l.phase + 1 + 9 := by omega
  have htwo : 10 * (m + 2) + l.phase = 10 * (m + 1) + l.phase + 1 + 9 := by omega
  have hmeta : (l.run v (10 * (m + 1) + l.phase)).videoMeta = v m := by
    rw [hone, (run_between v m (Nat.le_refl 9)).1, (run_edge v hphase m).1]
  have hlatch : (l.run v (10 * (m + 2) + l.phase)).videoLatch = v m := by
    rw [htwo, (run_between v (m + 1) (Nat.le_refl 9)).2.1, (run_edge v hphase (m + 1)).2.1, hmeta]
  rw [(run_between v (m + 2) hj).2.2 lane, (run_edge v hphase (m + 2)).2.2 lane,
    (step_word _ _).1, hlatch, encoderInput_character]

end Slow

section Fast

variable {l : Link} (v : Nat → Video)

theorem run_clockMeta (n : Nat) : (l.run v (n + 1)).clockMeta = l.slowClock n := rfl

theorem run_clockLatch (n : Nat) :
    (l.run v (n + 1)).clockLatch =
      BitVec.ofBool ((l.run v n).clockLatch.getLsbD 0) ++ BitVec.ofBool (l.run v n).clockMeta := rfl

theorem run_dataShift (n : Nat) (lane : Fin 3) :
    (l.run v (n + 1)).dataShift lane =
      shiftOut ((l.run v n).dataShift lane) ((l.run v n).tmdsLoad.getLsbD lane)
        ((l.run v n).tmdsEncodedLatch lane) := rfl

/-- The load follows the rising edge of the slow clock after four fast clocks. -/
theorem run_tmdsLoad (n : Nat) (lane : Fin 3) :
    (l.run v (n + 4)).tmdsLoad.getLsbD lane = (!l.slowClock n && l.slowClock (n + 1)) := by
  have hclock : (l.run v (n + 3)).clockLatch =
      BitVec.ofBool (l.slowClock n) ++ BitVec.ofBool (l.slowClock (n + 1)) := by
    have hbit : ∀ a b : Bool, (BitVec.ofBool a ++ BitVec.ofBool b).getLsbD 0 = b := by decide
    rw [run_clockLatch, run_clockLatch v (n + 1), hbit, run_clockMeta, run_clockMeta]
  have hload : (l.run v (n + 4)).tmdsLoad =
      if (l.run v (n + 3)).clockLatch = 0b01#2 then 0b111#3 else 0b000#3 := rfl
  rw [hload, hclock]
  revert lane
  cases l.slowClock n <;> cases l.slowClock (n + 1) <;> decide

/-- The fast clocks in which the shift registers take their words. -/
def Link.Loads (l : Link) (n : Nat) : Prop := 4 ≤ n ∧ (n + l.late) % 10 = 3

theorem run_load_iff {n : Nat} (hn : 4 ≤ n) (lane : Fin 3) :
    (l.run v n).tmdsLoad.getLsbD lane = true ↔ l.Loads n := by
  obtain ⟨k, rfl⟩ := Nat.exists_eq_add_of_le' hn
  rw [run_tmdsLoad, Bool.and_eq_true, Bool.not_eq_true', Link.slowClock, Link.slowClock,
    decide_eq_false_iff_not, decide_eq_true_iff, Link.Loads]
  omega

theorem run_encodedLatch (n : Nat) (lane : Fin 3) :
    (l.run v (n + 2)).tmdsEncodedLatch lane = ((l.run v n).encoder lane).oTmds := rfl

theorem shiftOut_idle (dataShift data : BitVec 10) :
    shiftOut dataShift false data = dataShift >>> 1 := by
  apply BitVec.eq_of_getLsbD_eq
  intro k hk
  rw [shiftOut, if_neg Bool.false_ne_true, BitVec.getLsbD_ushiftRight, BitVec.getLsbD_append]
  split
  · next hlow =>
      rw [BitVec.getLsbD_extractLsb']
      simp only [hlow, decide_true, Bool.true_and]
  · next hhigh =>
      rw [BitVec.getLsbD_zero, BitVec.getLsbD_of_ge _ _ (by omega)]

theorem run_serialData {n : Nat} (h : l.Loads n) (lane : Fin 3) {j : Nat} (hj : j < 10) :
    serialData (l.run v (n + 1 + j)) lane = ((l.run v n).tmdsEncodedLatch lane).getLsbD j := by
  have hload : (l.run v (n + 1)).dataShift lane = (l.run v n).tmdsEncodedLatch lane := by
    have hon := (run_load_iff v h.1 lane).mpr h
    rw [run_dataShift, hon]
    rfl
  have hshift : ∀ j, j + 1 < 10 → (l.run v (n + 1 + j + 1)).dataShift lane =
      (l.run v (n + 1 + j)).dataShift lane >>> 1 := by
    intro j hj
    have hoff : (l.run v (n + 1 + j)).tmdsLoad.getLsbD lane = false := by
      apply Bool.eq_false_of_not_eq_true
      rw [run_load_iff v (by have := h.1; omega) lane]
      rintro ⟨_, hrest⟩
      have hthis := h.2
      omega
    rw [run_dataShift, hoff, shiftOut_idle]
  let reg := fun n => (l.run v n).dataShift lane
  have hbit : (reg (n + 1 + j)).getLsbD 0 = (reg (n + 1)).getLsbD j :=
    shiftOut_getLsbD hshift hj
  have hfirst : reg (n + 1) = _ := hload
  rw [hfirst] at hbit
  exact hbit

end Fast

/-- The ten bits of a lane from fast clock `n` on. -/
def Link.wordAt (l : Link) (v : Nat → Video) (lane : Fin 3) (n : Nat) : BitVec 10 :=
  gather (fun j => serialData (l.run v (n + j)) lane) 10

theorem wordAt_load {l : Link} (v : Nat → Video) {n : Nat} (h : l.Loads (n + 2)) (lane : Fin 3) :
    l.wordAt v lane (n + 3) = ((l.run v n).encoder lane).oTmds := by
  apply gather_eq
  intro j hj
  rw [← run_encodedLatch v n lane]
  exact run_serialData v h lane hj

/-- From any state of the registers and for any phase between the two clocks, a receiver that
cuts the three lanes into words of ten bits finds on each of them the characters of the video
stream, each once and in order, after a constant delay. -/
theorem lanes_decode {l : Link} (hphase : l.phase < 10) :
    ∃ delay, ∀ (v : Nat → Video) (m : Nat) (lane : Fin 3),
      decode (l.wordAt v lane (10 * m + delay)) = (v m).character lane := by
  obtain ⟨j, hj, hload⟩ : ∃ j ≤ 9, (20 + l.phase + 1 + j + 2 + l.late) % 10 = 3 :=
    ⟨(20 - (20 + l.phase + l.late) % 10) % 10, by omega, by omega⟩
  refine ⟨20 + l.phase + 1 + j + 3, ?_⟩
  intro v m lane
  have hloads : l.Loads (10 * (m + 2) + l.phase + 1 + j + 2) := ⟨by omega, by omega⟩
  have htime : 10 * m + (20 + l.phase + 1 + j + 3) = 10 * (m + 2) + l.phase + 1 + j + 3 := by omega
  rw [htime, wordAt_load v hloads, run_encoded v hphase m hj lane]

/-- The slow clock in the middle between two fast clocks, all registers cleared. -/
theorem lanes_decode_from_zero :
    ∃ delay, ∀ (v : Nat → Video) (m : Nat) (lane : Fin 3),
      decode ((⟨⟨noVideo, noVideo, fun _ => ⟨0#10, 0#5⟩, 0#3, 0#2, false, fun _ => 0#10,
        fun _ => 0#10, fun _ => 0#10⟩, 4, 7⟩ : Link).wordAt v lane (10 * m + delay)) =
        (v m).character lane :=
  lanes_decode (by decide)

end Mfi.Tmds
