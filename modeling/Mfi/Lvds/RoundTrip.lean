import Mathlib.Logic.Function.Iterate
import Mathlib.Tactic.IntervalCases
import Mfi.Core.Period
import Mfi.Core.Trace
import Mfi.Lvds.Receiver

/-!
# Round trip over LVDS

Time is counted in serial clocks. Both sides have a parallel clock of seven of
them, each with its own phase. The receiver's phase is right when its shift
registers hold the seven bits of one word at its edge.
-/

namespace Mfi.Lvds

open Core

/-! ## The two permutations -/

/-- The four words of a pixel as the receiver gathers them. -/
def wordOf (colorMode : Bool) (v : Video) : BitVec 28 :=
  Receiver.sideBySide (Transmitter.encode colorMode v)

def received (r : Receiver.Regs) : Bool × Bool × Bool × BitVec 24 :=
  (Receiver.hsyncN r, Receiver.vsyncN r, Receiver.de r, Receiver.data 0#10 r)

/-- What the transmitter was given, with the pixel as one word. -/
def Video.tuple (v : Video) : Bool × Bool × Bool × BitVec 24 :=
  (v.hsync, v.vsync, v.blank, v.red ++ v.green ++ v.blue)

/-- In both colour modes every bit of a colour comes back to its place. -/
theorem data_wordOf {r : Receiver.Regs} {v : Video}
    (h : r.dataLatch = wordOf r.colorModeLatch v) :
    Receiver.data 0#10 r = v.red ++ v.green ++ v.blue := by
  have hsel : Receiver.colorModeSel 0#10 r = r.colorModeLatch := rfl
  rw [Receiver.data, hsel, h]
  apply BitVec.eq_of_getLsbD_eq
  intro i hi
  cases r.colorModeLatch with
  | false =>
      simp only [wordOf, Receiver.sideBySide, Transmitter.encode, Bool.false_eq_true, if_false,
        BitVec.getLsbD_append, BitVec.getLsbD_extractLsb', BitVec.getLsbD_ofBool]
      interval_cases i <;> rfl
  | true =>
      simp only [wordOf, Receiver.sideBySide, Transmitter.encode, if_true, BitVec.getLsbD_append,
        BitVec.getLsbD_extractLsb', BitVec.getLsbD_ofBool]
      interval_cases i <;> rfl

theorem sync_wordOf (colorMode : Bool) (v : Video) :
    (wordOf colorMode v).getLsbD 18 = v.hsync ∧ (wordOf colorMode v).getLsbD 19 = v.vsync ∧
      (wordOf colorMode v).getLsbD 20 = v.blank := by
  cases colorMode with
  | false =>
      simp only [wordOf, Receiver.sideBySide, Transmitter.encode, Bool.false_eq_true, if_false,
        BitVec.getLsbD_append, BitVec.getLsbD_ofBool]
      exact ⟨rfl, rfl, rfl⟩
  | true =>
      simp only [wordOf, Receiver.sideBySide, Transmitter.encode, if_true, BitVec.getLsbD_append,
        BitVec.getLsbD_ofBool]
      exact ⟨rfl, rfl, rfl⟩

theorem received_wordOf {r : Receiver.Regs} {v : Video}
    (h : r.dataLatch = wordOf r.colorModeLatch v) : received r = v.tuple := by
  obtain ⟨hhsync, hvsync, hblank⟩ := sync_wordOf r.colorModeLatch v
  rw [← h] at hhsync hvsync hblank
  rw [received, Video.tuple, data_wordOf h, Receiver.hsyncN, hhsync, Receiver.vsyncN, hvsync,
    Receiver.de, hblank]

/-! ## The transmitter in time -/

/-- The two sides and what they are fed with. The parallel edges come in the serial clocks
with rest `txPhase` and `rxPhase`, the edges of the receiver's system clock at any time. -/
structure Link where
  colorMode : Bool
  tx : Transmitter.Regs
  rx : Receiver.Regs
  txPhase : Nat
  rxPhase : Nat
  system : Nat → Bool

/-- The transmitter before serial clock `n`. Parallel clock `m` samples `v m`. -/
def Link.txRun (l : Link) (v : Nat → Video) (n : Nat) : Transmitter.Regs :=
  trace (fun r i => Transmitter.step 0#2 l.colorMode r i.1 i.2) l.tx
    (fun n => (n % 7 == l.txPhase, v (n / 7))) n

/-- The receiver before serial clock `n`. -/
def Link.rxRun (l : Link) (v : Nat → Video) (n : Nat) : Receiver.Regs :=
  trace (fun r i => Receiver.step r i.1 i.2.1 l.colorMode i.2.2) l.rx
    (fun n => (n % 7 == l.rxPhase, l.system n, (l.txRun v n).lvdsData)) n

def Link.Loads (l : Link) (n : Nat) : Prop :=
  1 ≤ n ∧ Transmitter.cntNext^[n] l.tx.cnt = 0#3

/-- The receiver samples at word boundaries: its parallel edge comes eleven serial clocks after
a word was loaded, four for the registers on the way and seven for the bits. -/
structure Link.Aligned (l : Link) : Prop where
  txPhase : l.txPhase < 7
  rxPhase : ∀ n, l.Loads n → (n + 11) % 7 = l.rxPhase
  colorMode : l.rx.colorModeMeta = l.colorMode ∧ l.rx.colorModeLatch = l.colorMode

section Transmit

variable {l : Link} (v : Nat → Video)

theorem txRun_succ (n : Nat) :
    l.txRun v (n + 1) = Transmitter.step 0#2 l.colorMode (l.txRun v n) (n % 7 == l.txPhase)
      (v (n / 7)) := rfl

theorem txRun_cnt (n : Nat) : (l.txRun v n).cnt = Transmitter.cntNext^[n] l.tx.cnt := by
  induction n with
  | zero => rfl
  | succ n ih =>
      rw [Function.iterate_succ_apply', ← ih]
      rfl

theorem txRun_edge (hphase : l.txPhase < 7) (m : Nat) :
    (l.txRun v (7 * m + l.txPhase + 1)).d = v m ∧
    (l.txRun v (7 * m + l.txPhase + 1)).q = (l.txRun v (7 * m + l.txPhase)).d ∧
    (l.txRun v (7 * m + l.txPhase + 1)).encodedData =
      Transmitter.encode l.colorMode (l.txRun v (7 * m + l.txPhase)).q := by
  obtain ⟨hdiv, hmod⟩ := div_mod_of_eq hphase (rfl : 7 * m + l.txPhase = 7 * m + l.txPhase)
  rw [txRun_succ, hdiv, hmod, beq_self_eq_true]
  exact ⟨rfl, rfl, rfl⟩

theorem txRun_between (m : Nat) {j : Nat} (hj : j ≤ 6) :
    (l.txRun v (7 * m + l.txPhase + 1 + j)).d = (l.txRun v (7 * m + l.txPhase + 1)).d ∧
    (l.txRun v (7 * m + l.txPhase + 1 + j)).q = (l.txRun v (7 * m + l.txPhase + 1)).q ∧
    (l.txRun v (7 * m + l.txPhase + 1 + j)).encodedData =
      (l.txRun v (7 * m + l.txPhase + 1)).encodedData := by
  induction j with
  | zero => exact ⟨rfl, rfl, rfl⟩
  | succ j ih =>
      have hno : ((7 * m + l.txPhase + 1 + j) % 7 == l.txPhase) = false := by
        rw [beq_eq_false_iff_ne]
        omega
      obtain ⟨hd, hq, he⟩ := ih (by omega)
      rw [← Nat.add_assoc, txRun_succ, hno]
      exact ⟨hd, hq, he⟩

/-- The words of video `m` stand at the serializers for the seven clocks after edge `m + 2`. -/
theorem txRun_encoded (hphase : l.txPhase < 7) (m : Nat) {j : Nat} (hj : j ≤ 6) :
    (l.txRun v (7 * (m + 2) + l.txPhase + 1 + j)).encodedData =
      Transmitter.encode l.colorMode (v m) := by
  have hone : 7 * (m + 1) + l.txPhase = 7 * m + l.txPhase + 1 + 6 := by omega
  have htwo : 7 * (m + 2) + l.txPhase = 7 * (m + 1) + l.txPhase + 1 + 6 := by omega
  have hd : (l.txRun v (7 * (m + 1) + l.txPhase)).d = v m := by
    rw [hone, (txRun_between v m (Nat.le_refl 6)).1, (txRun_edge v hphase m).1]
  have hq : (l.txRun v (7 * (m + 2) + l.txPhase)).q = v m := by
    rw [htwo, (txRun_between v (m + 1) (Nat.le_refl 6)).2.1,
      (txRun_edge v hphase (m + 1)).2.1, hd]
  rw [(txRun_between v (m + 2) hj).2.2, (txRun_edge v hphase (m + 2)).2.2, hq]

/-! ## The serializers -/

theorem cntNext_eq (cnt : BitVec 3) :
    (Transmitter.cntNext cnt).toNat = if cnt.toNat < 6 then cnt.toNat + 1 else 0 := by
  revert cnt
  decide

theorem cnt_iterate {cnt : BitVec 3} (h : cnt.toNat ≤ 6) (i : Nat) :
    (Transmitter.cntNext^[i] cnt).toNat = (cnt.toNat + i) % 7 := by
  induction i with
  | zero =>
      show cnt.toNat = (cnt.toNat + 0) % 7
      omega
  | succ i ih =>
      rw [Function.iterate_succ_apply', cntNext_eq, ih]
      split <;> omega

theorem cnt_after_load {n : Nat} (h : l.Loads n) (i : Nat) :
    (Transmitter.cntNext^[n + i] l.tx.cnt).toNat = i % 7 := by
  have hzero : (0#3).toNat ≤ 6 := by decide
  rw [Nat.add_comm, Function.iterate_add_apply, h.2, cnt_iterate hzero]
  exact congrArg (· % 7) (Nat.zero_add i)

theorem loads_add {n : Nat} (h : l.Loads n) (m : Nat) : l.Loads (n + 7 * m) := by
  refine ⟨Nat.le_add_right_of_le h.1, ?_⟩
  apply BitVec.eq_of_toNat_eq
  rw [cnt_after_load h, Nat.mul_mod_right]
  rfl

theorem exists_load (l : Link) {s : Nat} (hs : 1 ≤ s) : ∃ j ≤ 6, l.Loads (s + j) := by
  obtain ⟨p, rfl⟩ := Nat.exists_eq_add_of_le' hs
  have hle : (Transmitter.cntNext^[p + 1] l.tx.cnt).toNat ≤ 6 := by
    rw [Function.iterate_succ_apply', cntNext_eq]
    split <;> omega
  refine ⟨(7 - (Transmitter.cntNext^[p + 1] l.tx.cnt).toNat) % 7, by omega, by omega, ?_⟩
  apply BitVec.eq_of_toNat_eq
  rw [Nat.add_comm, Function.iterate_add_apply, cnt_iterate hle, BitVec.toNat_ofNat]
  omega

theorem txRun_updEn (n : Nat) :
    (l.txRun v (n + 1)).updEn =
      if (Transmitter.cntNext^[n] l.tx.cnt).toNat < 6 then 15#4 else 0#4 := by
  rw [← txRun_cnt v n]
  rfl

theorem txRun_take {n : Nat} {lane : Fin 4} (h : (l.txRun v n).updEn.getLsbD lane.val = false) :
    (l.txRun v (n + 1)).shiftReg lane = (l.txRun v n).encodedData lane :=
  if_neg (ne_true_of_eq_false h)

theorem txRun_shift {n : Nat} {lane : Fin 4} (h : (l.txRun v n).updEn.getLsbD lane.val = true) :
    (l.txRun v (n + 1)).shiftReg lane =
      ((l.txRun v n).shiftReg lane).extractLsb' 0 6 ++ 0#1 :=
  if_pos h

theorem txRun_shiftReg {n : Nat} (h : l.Loads n) (lane : Fin 4) {i : Nat} (hi : i ≤ 6) :
    ((l.txRun v (n + 1 + i)).shiftReg lane).getLsbD 6 =
      ((l.txRun v n).encodedData lane).getLsbD (6 - i) := by
  have hload : (l.txRun v (n + 1)).shiftReg lane = (l.txRun v n).encodedData lane := by
    obtain ⟨p, rfl⟩ := Nat.exists_eq_add_of_le' h.1
    have hzero := h.2
    rw [Function.iterate_succ_apply'] at hzero
    have hend : ¬ (Transmitter.cntNext^[p] l.tx.cnt).toNat < 6 := by
      intro hlt
      have hnat := congrArg BitVec.toNat hzero
      rw [cntNext_eq, if_pos hlt] at hnat
      exact absurd hnat (Nat.succ_ne_zero _)
    apply txRun_take
    rw [txRun_updEn, if_neg hend, BitVec.getLsbD_zero]
  have hshift : ∀ i, i ≤ 6 → ∀ k, k + i ≤ 6 →
      ((l.txRun v (n + 1 + i)).shiftReg lane).getLsbD (k + i) =
        ((l.txRun v n).encodedData lane).getLsbD k := by
    intro i
    induction i with
    | zero =>
        intro _ k _
        rw [Nat.add_zero, hload, Nat.add_zero]
    | succ i ih =>
        intro hi k hk
        have hon : (l.txRun v (n + 1 + i)).updEn.getLsbD lane.val = true := by
          have hcnt := cnt_after_load h i
          have hlane : ∀ j : Fin 4, (15#4).getLsbD j.val = true := by decide
          rw [show n + 1 + i = n + i + 1 by omega, txRun_updEn, if_pos (by omega), hlane]
        rw [← ih (by omega) k (by omega), ← Nat.add_assoc (n + 1), txRun_shift v hon,
          BitVec.getLsbD_append, if_neg (by omega), BitVec.getLsbD_extractLsb',
          show k + (i + 1) - 1 = k + i by omega]
        simp only [Nat.zero_add, show k + i < 6 by omega, decide_true, Bool.true_and]
  have hbit := hshift i hi (6 - i) (by omega)
  rwa [show 6 - i + i = 6 by omega] at hbit

theorem txRun_lvdsData {n : Nat} (h : l.Loads n) (lane : Fin 4) {i : Nat} (hi : i ≤ 6) :
    (l.txRun v (n + 2 + i)).lvdsData lane = ((l.txRun v n).encodedData lane).getLsbD (6 - i) := by
  rw [← txRun_shiftReg v h lane hi, show n + 2 + i = n + 1 + i + 1 by omega, txRun_succ]
  rfl

end Transmit

/-! ## The receiver in time -/

section Receive

variable {l : Link} (v : Nat → Video)

theorem rxRun_succ (n : Nat) :
    l.rxRun v (n + 1) = Receiver.step (l.rxRun v n) (n % 7 == l.rxPhase) (l.system n) l.colorMode
      (l.txRun v n).lvdsData := rfl

theorem rxRun_dataShift_succ (n : Nat) (lane : Fin 4) :
    ((l.rxRun v (n + 1)).lanes lane).dataShift =
      ((l.rxRun v n).lanes lane).dataShift.extractLsb' 0 6 ++
        BitVec.ofBool ((l.rxRun v n).lanes lane).serialDataLatch := rfl

theorem rxRun_dataShift (n : Nat) (lane : Fin 4) {k : Nat} (hk : k < 7) :
    (((l.rxRun v (n + 3 + k)).lanes lane).dataShift).getLsbD k = (l.txRun v n).lvdsData lane := by
  induction k with
  | zero =>
      rw [Nat.add_zero, rxRun_dataShift_succ, BitVec.getLsbD_append, if_pos (by omega),
        BitVec.getLsbD_ofBool]
      rfl
  | succ k ih =>
      rw [← ih (by omega), ← Nat.add_assoc, rxRun_dataShift_succ, BitVec.getLsbD_append,
        if_neg (by omega), BitVec.getLsbD_extractLsb', Nat.add_sub_cancel]
      simp only [Nat.zero_add, show k < 6 by omega, decide_true, Bool.true_and]

/-- Eleven clocks after a load the shift register holds the word. -/
theorem rxRun_word {n : Nat} (h : l.Loads n) (lane : Fin 4) :
    ((l.rxRun v (n + 11)).lanes lane).dataShift = (l.txRun v n).encodedData lane := by
  apply BitVec.eq_of_getLsbD_eq
  intro k hk
  rw [show n + 11 = n + 2 + (6 - k) + 3 + k by omega, rxRun_dataShift v _ lane hk,
    txRun_lvdsData v h lane (by omega), show 6 - (6 - k) = k by omega]

theorem rxRun_edge {n : Nat} (h : n % 7 = l.rxPhase) :
    (∀ lane, ((l.rxRun v (n + 1)).lanes lane).data = ((l.rxRun v n).lanes lane).dataShift) ∧
    (l.rxRun v (n + 1)).dataMeta = Receiver.gather (l.rxRun v n).lanes ∧
    (l.rxRun v (n + 1)).dataLatch = (l.rxRun v n).dataMeta := by
  rw [rxRun_succ, h, beq_self_eq_true]
  exact ⟨fun _ => rfl, rfl, rfl⟩

theorem rxRun_between {n : Nat} (h : n % 7 = l.rxPhase) {j : Nat} (hj : j ≤ 6) :
    (∀ lane, ((l.rxRun v (n + 1 + j)).lanes lane).data =
      ((l.rxRun v (n + 1)).lanes lane).data) ∧
    (l.rxRun v (n + 1 + j)).dataMeta = (l.rxRun v (n + 1)).dataMeta ∧
    (l.rxRun v (n + 1 + j)).dataLatch = (l.rxRun v (n + 1)).dataLatch := by
  induction j with
  | zero => exact ⟨fun _ => rfl, rfl, rfl⟩
  | succ j ih =>
      obtain ⟨hdata, hmeta, hlatch⟩ := ih (by omega)
      have hno : ((n + 1 + j) % 7 == l.rxPhase) = false := by
        rw [beq_eq_false_iff_ne]
        omega
      rw [← Nat.add_assoc, rxRun_succ, hno]
      exact ⟨hdata, hmeta, hlatch⟩

theorem rxRun_colorMode (h : l.Aligned) (n : Nat) :
    (l.rxRun v n).colorModeMeta = l.colorMode ∧ (l.rxRun v n).colorModeLatch = l.colorMode := by
  induction n with
  | zero => exact h.colorMode
  | succ n ih =>
      rw [rxRun_succ]
      cases hsystem : l.system n with
      | false => exact ih
      | true => exact ⟨rfl, ih.1⟩

/-- Two parallel clocks after its edge the word of a load is in the last register. -/
theorem rxRun_dataLatch (h : l.Aligned) {n : Nat} (hload : l.Loads n) {w : Video}
    (hword : (l.txRun v n).encodedData = Transmitter.encode l.colorMode w) :
    (l.rxRun v (n + 26)).dataLatch = wordOf l.colorMode w := by
  have hfirst := h.rxPhase n hload
  have hdata : ∀ lane, ((l.rxRun v (n + 18)).lanes lane).data =
      Transmitter.encode l.colorMode w lane := by
    intro lane
    rw [show n + 18 = n + 11 + 1 + 6 by omega,
      (rxRun_between v hfirst (Nat.le_refl 6)).1, (rxRun_edge v hfirst).1, rxRun_word v hload,
      hword]
  have hsecond : (n + 18) % 7 = l.rxPhase := by omega
  have hthird : (n + 25) % 7 = l.rxPhase := by omega
  rw [(rxRun_edge v hthird).2.2, show n + 25 = n + 18 + 1 + 6 by omega,
    (rxRun_between v hsecond (Nat.le_refl 6)).2.1, (rxRun_edge v hsecond).2.1]
  exact congrArg Receiver.sideBySide (funext hdata)

end Receive

/-- What the receiver puts out after its parallel edge `e`. -/
def Link.output (l : Link) (v : Nat → Video) (e : Nat) : Bool × Bool × Bool × BitVec 24 :=
  received (l.rxRun v (7 * e + l.rxPhase + 1))

/-- In both colour modes and for every stream of video signals the receiver puts out the same
stream after a constant delay. -/
theorem lanes_round_trip {l : Link} (h : l.Aligned) :
    ∃ delay, ∀ (v : Nat → Video) (m : Nat), l.output v (m + delay) = (v m).tuple := by
  obtain ⟨j, hj, hload⟩ := exists_load l (show 1 ≤ 7 * 2 + l.txPhase + 1 by omega)
  have hphase := h.rxPhase _ hload
  refine ⟨(7 * 2 + l.txPhase + 1 + j + 25) / 7, ?_⟩
  intro v m
  have hm := loads_add hload m
  rw [show 7 * 2 + l.txPhase + 1 + j + 7 * m = 7 * (m + 2) + l.txPhase + 1 + j by omega] at hm
  have hlatch := rxRun_dataLatch v h hm (txRun_encoded v h.txPhase m hj)
  have htime : 7 * (m + (7 * 2 + l.txPhase + 1 + j + 25) / 7) + l.rxPhase + 1 =
      7 * (m + 2) + l.txPhase + 1 + j + 26 := by
    omega
  rw [Link.output, htime]
  apply received_wordOf
  rw [hlatch, (rxRun_colorMode v h _).2]

/-- A link in step whose counters start at 0. -/
theorem lanes_round_trip_from_zero :
    ∃ delay, ∀ (v : Nat → Video) (m : Nat),
      (⟨true, ⟨⟨false, false, false, 0, 0, 0⟩, ⟨false, false, false, 0, 0, 0⟩, fun _ => 0,
        fun _ => 0, fun _ => false, 0#3, 0#4⟩, ⟨fun _ => ⟨false, false, 0, 0⟩, 0, 0, true, true⟩,
        2, 4, fun n => n % 3 == 0⟩ : Link).output v (m + delay) = (v m).tuple :=
  lanes_round_trip
    { txPhase := by decide
      rxPhase := by
        intro n hn
        have hzero := congrArg BitVec.toNat hn.2
        rw [cnt_iterate (by decide)] at hzero
        simp only [BitVec.toNat_ofNat] at hzero
        show (n + 11) % 7 = 4
        omega
      colorMode := ⟨rfl, rfl⟩ }

end Mfi.Lvds
