import Mathlib.Tactic.IntervalCases
import Mfi.Core.Period
import Mfi.Core.Words
import Mfi.LdiBasic.Deser
import Mfi.Lvds.Receiver

/-!
# First LVDS receiver

`ldi_basic_reciever.sv`: two pixels of four lanes each. For each pixel the receiver measures the
data enable and the horizontal sync, and some forty times a second it looks whether the
measurements make sense; if they do not, it asks the deserializer to move the four lanes. The main
result is `Regs.search_shows`: the moves come to the place where the pixel is whole.
-/

namespace Mfi.LdiBasic

open Core

/-- The registers of one pixel. The two oldest lengths of the data enable are never read. -/
structure Pixel where
  data : BitVec 24
  hsyncN : Bool
  vsyncN : Bool
  de : Bool
  deSig : Bool
  hSig : Bool
  deBuf0 : BitVec 12
  deBuf1 : BitVec 12
  deBuf2 : BitVec 12
  hBuf0 : BitVec 12
  hBuf1 : BitVec 12
  hBuf2 : BitVec 12
  hBuf3 : BitVec 12
  notde : BitVec 8
  notdeLatch : BitVec 8
  lockedT : Bool
  alignBit : Bool
  deriving DecidableEq, Repr

/-! ## The wires of a pixel -/

def hsyncNT (pix : BitVec 28) : Bool := pix.getLsbD 18

def vsyncNT (pix : BitVec 28) : Bool := pix.getLsbD 19

def deT (pix : BitVec 28) : Bool := pix.getLsbD 20

def dataT (pix : BitVec 28) : BitVec 24 :=
  pix.extractLsb' 21 2 ++ pix.extractLsb' 0 6 ++ pix.extractLsb' 23 2 ++ pix.extractLsb' 6 6 ++
    pix.extractLsb' 25 2 ++ pix.extractLsb' 12 6

namespace Pixel

def sensible (p : Pixel) : Bool :=
  p.deBuf1.extractLsb' 1 11 == p.deBuf2.extractLsb' 1 11 &&
    decide (p.deBuf2.toNat > 640 / 2 - 10) && decide (p.deBuf2.toNat < 1920 / 2 + 10) &&
    p.notdeLatch.setWidth 12 == p.hBuf3

def measureDe (p : Pixel) (de : Bool) : Pixel :=
  if de then { p with deSig := de, deBuf0 := p.deBuf0 + 1 }
  else if p.deSig then
    { p with deSig := de, deBuf0 := 0, deBuf1 := p.deBuf0, deBuf2 := p.deBuf1 }
  else { p with deSig := de, deBuf0 := 0 }

/-- The measurement of the sync, with the count of the pixels that are dark grey. -/
def measureH (p : Pixel) (hsyncN : Bool) (data : BitVec 24) : Pixel :=
  if !hsyncN then
    { p with
      hSig := hsyncN
      hBuf0 := p.hBuf0 + 1
      notde := p.notde + (BitVec.ofBool (data == 0x101010#24)).setWidth 8 }
  else if !p.hSig then
    { p with
      hSig := hsyncN, hBuf0 := 0, notde := 0
      hBuf1 := p.hBuf0, hBuf2 := p.hBuf1, hBuf3 := p.hBuf2, notdeLatch := p.notde }
  else { p with hSig := hsyncN, hBuf0 := 0, notde := 0 }

/-- One slow clock, with the word of the four lanes; `looks` at the time of the test. -/
def step (p : Pixel) (pix : BitVec 28) (looks : Bool) : Pixel :=
  { (p.measureDe (deT pix)).measureH (hsyncNT pix) (dataT pix) with
    data := dataT pix
    hsyncN := hsyncNT pix
    vsyncN := vsyncNT pix
    de := deT pix
    lockedT := if looks then p.sensible else p.lockedT
    alignBit := looks && !p.sensible }

theorem step_alignBit (p : Pixel) (pix : BitVec 28) (looks : Bool) :
    (p.step pix looks).alignBit = (looks && !p.sensible) := rfl

end Pixel

def either (f : Fin 2 → Bool) : Bool := f ⟨0, Nat.zero_lt_two⟩ || f ⟨1, Nat.one_lt_two⟩

structure Regs where
  lanes : Fin 2 → Fin 4 → Lane
  pixels : Fin 2 → Pixel
  timer : BitVec 28
  locked : Bool

def freq : Nat := 74250000

def period : Nat := freq / 10 / 4

namespace Regs

variable (r : Regs)

def timerEvent : Bool := r.timer == BitVec.ofNat 28 period

def pix (i : Fin 2) : BitVec 28 := Lvds.Receiver.sideBySide fun j => (r.lanes i j).rxOut

/-- The requests to the deserializer; a probe can put its own in their place. -/
def dataAlign (source : BitVec 10) (i : Fin 2) : Bool :=
  if source.getLsbD 7 then source.getLsbD i else (r.pixels i).alignBit

def anyAlign (source : BitVec 10) : Bool := either (r.dataAlign source)

/-- One slow clock and the fast ones after it. The reset of the instance is tied to one. -/
def step (source : BitVec 10) (rxLocked : Bool) (rxIn : Nat → Fin 2 → Fin 4 → Bool) : Regs where
  lanes := fun i j =>
    (r.lanes i j).step (r.dataAlign source i) (r.anyAlign source) fun k => rxIn k i j
  pixels := fun i => (r.pixels i).step (r.pix i) (rxLocked && r.timerEvent)
  timer := if r.timerEvent then 0 else r.timer + 1
  locked := either fun i => (r.pixels i).lockedT

/-- All registers as the device clears them when it is configured. -/
def powerUp : Regs where
  lanes := fun _ _ => ⟨0, 0, 0, 0, 0, 0, false, 0⟩
  pixels := fun _ =>
    ⟨0, false, false, false, false, false, 0, 0, 0, 0, 0, 0, 0, 0, 0, false, false⟩
  timer := 0
  locked := false

/-! ## Runs -/

section Run

variable (rxLocked : Nat → Bool) (rxIn : Nat → Fin 2 → Fin 4 → Bool)

/-- Before slow clock `n`, with the probe at its initial value. -/
def run (n : Nat) : Regs :=
  trace (fun r i => step r 0#10 i.1 i.2) powerUp
    (fun n => (rxLocked n, fun k => rxIn (7 * n + k))) n

def align (i : Fin 2) (n : Nat) : Bool := ((run rxLocked rxIn n).pixels i).alignBit

def anyRequest (n : Nat) : Bool := either fun i => align rxLocked rxIn i n

theorem run_succ (n : Nat) :
    run rxLocked rxIn (n + 1) =
      (run rxLocked rxIn n).step 0#10 (rxLocked n) fun k => rxIn (7 * n + k) := rfl

theorem run_lane (i : Fin 2) (j : Fin 4) (n : Nat) :
    (run rxLocked rxIn n).lanes i j =
      Lane.run (powerUp.lanes i j) (align rxLocked rxIn i) (anyRequest rxLocked rxIn)
        (fun t => rxIn t i j) n :=
  trace_part (fun r : Regs => r.lanes i j) (fun _ => rfl) n

theorem run_pixel (i : Fin 2) (n : Nat) :
    (run rxLocked rxIn (n + 1)).pixels i =
      ((run rxLocked rxIn n).pixels i).step ((run rxLocked rxIn n).pix i)
        (rxLocked n && (run rxLocked rxIn n).timerEvent) := rfl

theorem period_lt : period < 2 ^ 28 := by decide

theorem timerEvent_eq (r : Regs) : r.timerEvent = decide (r.timer.toNat = period) := by
  have hnat : (BitVec.ofNat 28 period).toNat = period := Nat.mod_eq_of_lt period_lt
  unfold timerEvent
  rw [← hnat, Bool.beq_eq_decide_eq]
  exact decide_eq_decide.2 ⟨congrArg _, BitVec.eq_of_toNat_eq⟩

theorem run_timer (n : Nat) : (run rxLocked rxIn n).timer.toNat = n % (period + 1) := by
  induction n with
  | zero => rw [Nat.zero_mod]; rfl
  | succ n ih =>
      have hlt := Nat.mod_lt n (show 0 < period + 1 by omega)
      have hmod := succ_div_mod n (show 0 < period + 1 by omega)
      have hnext : (run rxLocked rxIn (n + 1)).timer =
          if (run rxLocked rxIn n).timerEvent then 0 else (run rxLocked rxIn n).timer + 1 := rfl
      rw [hnext, timerEvent_eq, ih]
      split at hmod
      · rw [decide_eq_true (by omega), if_pos rfl, hmod.2]
        rfl
      · have hperiod := period_lt
        rw [decide_eq_false (by omega), if_neg Bool.false_ne_true, hmod.2,
          toNat_add_one (by omega), ih]

/-- The time of test number `k`. -/
def testTime (k : Nat) : Nat := period + (period + 1) * k

theorem testTime_succ (k : Nat) : testTime (k + 1) = testTime k + (period + 1) := by
  unfold testTime
  rw [Nat.mul_succ]
  omega

def fails (i : Fin 2) (k : Nat) : Bool :=
  rxLocked (testTime k) && !((run rxLocked rxIn (testTime k)).pixels i).sensible

theorem timerEvent_testTime (k : Nat) : (run rxLocked rxIn (testTime k)).timerEvent = true := by
  rw [timerEvent_eq, run_timer, decide_eq_true_eq]
  unfold testTime
  exact (div_mod_of_eq (Nat.lt_succ_self period) (Nat.add_comm _ _)).2

theorem timerEvent_between {k n : Nat} (hfrom : testTime k < n) (hto : n < testTime (k + 1)) :
    (run rxLocked rxIn n).timerEvent = false := by
  rw [testTime_succ] at hto
  have hrest := (div_mod_of_eq (x := n) (T := period + 1) (q := k + 1)
    (r := n - (testTime k + 1)) (by omega) (by
      unfold testTime at hfrom ⊢
      rw [Nat.mul_succ]
      omega)).2
  rw [timerEvent_eq, run_timer, decide_eq_false_iff_not, hrest]
  omega

theorem align_succ (i : Fin 2) (n : Nat) :
    align rxLocked rxIn i (n + 1) =
      (rxLocked n && (run rxLocked rxIn n).timerEvent &&
        !((run rxLocked rxIn n).pixels i).sensible) := by
  unfold align
  rw [run_pixel, Pixel.step_alignBit]

theorem align_testTime (i : Fin 2) (k : Nat) :
    align rxLocked rxIn i (testTime k + 1) = fails rxLocked rxIn i k := by
  rw [align_succ, timerEvent_testTime, Bool.and_true, fails]

theorem align_between (i : Fin 2) {k n : Nat} (hfrom : testTime k + 1 < n)
    (hto : n ≤ testTime (k + 1)) : align rxLocked rxIn i n = false := by
  obtain ⟨m, rfl⟩ := Nat.exists_eq_add_of_le' (show 1 ≤ n by omega)
  rw [align_succ, timerEvent_between rxLocked rxIn (show testTime k < m by omega) (by omega),
    Bool.and_false, Bool.false_and]

theorem either_false {f : Fin 2 → Bool} (h : ∀ i, f i = false) : either f = false := by
  unfold either
  rw [h, h]
  rfl

theorem either_of {f : Fin 2 → Bool} {i : Fin 2} (h : f i = true) : either f = true := by
  unfold either
  match i with
  | ⟨0, _⟩ => rw [h, Bool.true_or]
  | ⟨1, _⟩ => rw [h, Bool.or_true]

/-! ## The counters of the lanes -/

def cnt (i : Fin 2) (j : Fin 4) (n : Nat) : BitVec 8 :=
  ((run rxLocked rxIn n).lanes i j).dataAlignCntr

theorem cnt_succ (i : Fin 2) (j : Fin 4) (n : Nat) :
    cnt rxLocked rxIn i j (n + 1) =
      ((run rxLocked rxIn n).lanes i j).alignNext (align rxLocked rxIn i n)
        (anyRequest rxLocked rxIn n) := by
  unfold cnt
  rw [run_lane, run_lane]
  exact (Lane.run_slow _ _ _ _ n).2.2.2.1

theorem sig_succ (i : Fin 2) (j : Fin 4) (n : Nat) :
    ((run rxLocked rxIn (n + 1)).lanes i j).dataAlignSig = align rxLocked rxIn i n := by
  rw [run_lane]
  exact (Lane.run_slow _ _ _ _ n).2.2.2.2.1

theorem top_iff {c : BitVec 8} (hc : c.toNat ≤ 8) : c.getLsbD 3 = decide (c.toNat = 8) := by
  change c.toNat.testBit 3 = decide (c.toNat = 8)
  generalize c.toNat = m at hc
  interval_cases m <;> rfl

theorem cnt_le (i : Fin 2) (j : Fin 4) (n : Nat) : (cnt rxLocked rxIn i j n).toNat ≤ 8 := by
  induction n with
  | zero => exact Nat.zero_le 8
  | succ n ih =>
      have htop := top_iff ih
      unfold cnt at ih htop
      rw [cnt_succ, Lane.alignNext, htop]
      split
      · exact Nat.zero_le 8
      · rename_i hkeep
        split
        · rename_i hown
          rw [Bool.and_eq_true] at hown
          have hany : anyRequest rxLocked rxIn n = true := either_of hown.2
          rw [hany, Bool.true_and, decide_eq_true_eq] at hkeep
          rw [toNat_add_one (by omega)]
          omega
        · exact ih

theorem cnt_between (i : Fin 2) (j : Fin 4) {k n : Nat} (hfrom : testTime k + 2 ≤ n)
    (hto : n ≤ testTime (k + 1) + 1) :
    cnt rxLocked rxIn i j n = cnt rxLocked rxIn i j (testTime k + 2) := by
  induction hfrom with
  | refl => rfl
  | @step n hn ih =>
      have hn' : testTime k + 2 ≤ n := hn
      have hnone : ∀ i, align rxLocked rxIn i n = false := fun i =>
        align_between rxLocked rxIn i (k := k) (by omega) (by omega)
      have hany : anyRequest rxLocked rxIn n = false := either_false hnone
      rw [← ih (by omega), cnt_succ, hnone, hany, Lane.alignNext, Bool.false_and,
        if_neg Bool.false_ne_true, Bool.and_false, if_neg Bool.false_ne_true, cnt]

theorem align_first (i : Fin 2) {n : Nat} (hn : n ≤ testTime 0) :
    align rxLocked rxIn i n = false := by
  cases n with
  | zero => rfl
  | succ n =>
      unfold testTime at hn
      rw [align_succ, timerEvent_eq, run_timer, Nat.mod_eq_of_lt (by omega),
        decide_eq_false (by omega), Bool.and_false, Bool.false_and]

theorem cnt_first (i : Fin 2) (j : Fin 4) {n : Nat} (hn : n ≤ testTime 0 + 1) :
    cnt rxLocked rxIn i j n = 0 := by
  induction n with
  | zero => rfl
  | succ n ih =>
      have hnone : ∀ i, align rxLocked rxIn i n = false := fun i =>
        align_first rxLocked rxIn i (by omega)
      have hany : anyRequest rxLocked rxIn n = false := either_false hnone
      have hzero := ih (by omega)
      unfold cnt at hzero
      rw [cnt_succ, hnone, hany, Lane.alignNext, Bool.false_and, if_neg Bool.false_ne_true,
        Bool.and_false, if_neg Bool.false_ne_true, hzero]

theorem cnt_lane (i : Fin 2) (j j' : Fin 4) (n : Nat) :
    cnt rxLocked rxIn i j n = cnt rxLocked rxIn i j' n ∧
      ((run rxLocked rxIn n).lanes i j).dataAlignSig =
        ((run rxLocked rxIn n).lanes i j').dataAlignSig := by
  induction n with
  | zero => exact ⟨rfl, rfl⟩
  | succ n ih =>
      obtain ⟨hcnt, hsig⟩ := ih
      unfold cnt at hcnt
      rw [cnt_succ, cnt_succ, sig_succ, sig_succ, Lane.alignNext, Lane.alignNext, hcnt, hsig]
      exact ⟨rfl, rfl⟩

/-! ## The search -/

/-- Where the counters of a pixel stand after test `k`. -/
def place (i : Fin 2) (k : Nat) : Nat :=
  (cnt rxLocked rxIn i ⟨0, Nat.zero_lt_succ 3⟩ (testTime k + 2)).toNat

def cntNext (c : Nat) (own any : Bool) : Nat :=
  if any && decide (c = 8) then 0 else if own then c + 1 else c

theorem place_le (i : Fin 2) (k : Nat) : place rxLocked rxIn i k ≤ 8 :=
  cnt_le rxLocked rxIn i ⟨0, Nat.zero_lt_succ 3⟩ (testTime k + 2)

theorem cnt_eq_place (i : Fin 2) (j : Fin 4) {k n : Nat} (hfrom : testTime k + 2 ≤ n)
    (hto : n ≤ testTime (k + 1) + 1) :
    (cnt rxLocked rxIn i j n).toNat = place rxLocked rxIn i k := by
  rw [cnt_between rxLocked rxIn i j hfrom hto, place]
  exact congrArg BitVec.toNat
    (cnt_lane rxLocked rxIn i j ⟨0, Nat.zero_lt_succ 3⟩ (testTime k + 2)).1

theorem period_pos : 1 < period := by decide

theorem alignNext_toNat {l : Lane} {own any : Bool} (hsig : l.dataAlignSig = false)
    (hle : l.dataAlignCntr.toNat ≤ 8) :
    (l.alignNext own any).toNat = cntNext l.dataAlignCntr.toNat own any := by
  unfold Lane.alignNext cntNext
  rw [top_iff hle, hsig, Bool.not_false, Bool.true_and]
  split
  · rfl
  · split
    · exact toNat_add_one (by omega)
    · rfl

theorem cnt_request (i : Fin 2) (j : Fin 4) {n : Nat}
    (hnone : align rxLocked rxIn i n = false) :
    (cnt rxLocked rxIn i j (n + 2)).toNat =
      cntNext (cnt rxLocked rxIn i j (n + 1)).toNat (align rxLocked rxIn i (n + 1))
        (anyRequest rxLocked rxIn (n + 1)) := by
  rw [cnt_succ]
  exact alignNext_toNat ((sig_succ rxLocked rxIn i j n).trans hnone)
    (cnt_le rxLocked rxIn i j (n + 1))

theorem cnt_at_test (i : Fin 2) (j : Fin 4) (k : Nat) :
    cnt rxLocked rxIn i j (testTime k) = cnt rxLocked rxIn i j (testTime k + 1) ∧
      align rxLocked rxIn i (testTime k) = false := by
  cases k with
  | zero =>
      rw [cnt_first rxLocked rxIn i j (Nat.le_succ _), cnt_first rxLocked rxIn i j (Nat.le_refl _)]
      exact ⟨rfl, align_first rxLocked rxIn i (Nat.le_refl _)⟩
  | succ k =>
      have hspan := testTime_succ k
      have hperiod := period_pos
      rw [cnt_between rxLocked rxIn i j (k := k) (n := testTime (k + 1)) (by omega) (Nat.le_succ _),
        cnt_between rxLocked rxIn i j (k := k) (n := testTime (k + 1) + 1) (by omega)
          (Nat.le_refl _)]
      exact ⟨rfl, align_between rxLocked rxIn i (k := k) (by omega) (Nat.le_refl _)⟩

/-- A test that fails moves the counters of its pixel by one, from eight to zero. -/
theorem cnt_failed {i : Fin 2} {k : Nat} (h : fails rxLocked rxIn i k = true) (j : Fin 4) :
    (cnt rxLocked rxIn i j (testTime k + 2)).toNat =
      ((cnt rxLocked rxIn i j (testTime k)).toNat + 1) % 9 := by
  obtain ⟨hstays, hnone⟩ := cnt_at_test rxLocked rxIn i j k
  have hle := cnt_le rxLocked rxIn i j (testTime k + 1)
  have hown : align rxLocked rxIn i (testTime k + 1) = true :=
    (align_testTime rxLocked rxIn i k).trans h
  have hany : anyRequest rxLocked rxIn (testTime k + 1) = true := either_of hown
  rw [cnt_request rxLocked rxIn i j hnone, hown, hany, hstays, cntNext, Bool.true_and]
  split
  · rename_i htop
    rw [of_decide_eq_true htop]
  · rename_i htop
    rw [decide_eq_true_eq] at htop
    rw [if_pos rfl, Nat.mod_eq_of_lt (by omega)]

theorem place_zero_le (i : Fin 2) : place rxLocked rxIn i 0 ≤ 1 := by
  have hnone := align_first rxLocked rxIn i (Nat.le_refl (testTime 0))
  have hfirst := cnt_first rxLocked rxIn i ⟨0, Nat.zero_lt_succ 3⟩ (Nat.le_refl (testTime 0 + 1))
  rw [place, cnt_request rxLocked rxIn i ⟨0, Nat.zero_lt_succ 3⟩ hnone, hfirst, cntNext]
  split
  · exact Nat.zero_le 1
  · split
    · exact Nat.le_refl 1
    · exact Nat.zero_le 1

theorem anyRequest_eq (n : Nat) :
    anyRequest rxLocked rxIn n = either fun i => align rxLocked rxIn i n := rfl

theorem place_succ (i : Fin 2) (k : Nat) :
    place rxLocked rxIn i (k + 1) =
      cntNext (place rxLocked rxIn i k) (fails rxLocked rxIn i (k + 1))
        (either fun i => fails rxLocked rxIn i (k + 1)) := by
  have hspan := testTime_succ k
  have hperiod := period_pos
  -- The request of the test before is over, so this one is seen as a new one.
  have hnone := align_between rxLocked rxIn i (k := k) (n := testTime (k + 1)) (by omega)
    (Nat.le_refl _)
  have hstays := cnt_eq_place rxLocked rxIn i ⟨0, Nat.zero_lt_succ 3⟩ (k := k)
    (n := testTime (k + 1) + 1) (by omega) (Nat.le_refl _)
  rw [place, cnt_request rxLocked rxIn i ⟨0, Nat.zero_lt_succ 3⟩ hnone, hstays, anyRequest_eq]
  simp only [align_testTime]

/-- A pixel whose test passes keeps its shift, for the shift takes the counter modulo eight. -/
theorem place_passed {i : Fin 2} {k : Nat} (h : fails rxLocked rxIn i (k + 1) = false) :
    place rxLocked rxIn i (k + 1) % 8 = place rxLocked rxIn i k % 8 := by
  rw [place_succ, h, cntNext]
  split
  · rename_i hreset
    rw [Bool.and_eq_true, decide_eq_true_eq] at hreset
    rw [hreset.2]
  · rw [if_neg Bool.false_ne_true]

theorem place_failed {i : Fin 2} {k : Nat} (h : fails rxLocked rxIn i (k + 1) = true) :
    place rxLocked rxIn i (k + 1) = (place rxLocked rxIn i k + 1) % 9 := by
  have hspan := testTime_succ k
  have hperiod := period_pos
  rw [← cnt_eq_place rxLocked rxIn i ⟨0, Nat.zero_lt_succ 3⟩ (k := k) (n := testTime (k + 1))
    (by omega) (Nat.le_succ _)]
  exact cnt_failed rxLocked rxIn h ⟨0, Nat.zero_lt_succ 3⟩

/-- Tests that all fail take the counter through its nine values. -/
theorem place_searching {i : Fin 2} {k d : Nat}
    (h : ∀ e < d, fails rxLocked rxIn i (k + 1 + e) = true) :
    place rxLocked rxIn i (k + d) = (place rxLocked rxIn i k + d) % 9 := by
  induction d with
  | zero =>
      have hle := place_le rxLocked rxIn i k
      rw [Nat.add_zero, Nat.add_zero, Nat.mod_eq_of_lt (by omega)]
  | succ d ih =>
      have hlast := h d (Nat.lt_succ_self d)
      rw [show k + 1 + d = k + d + 1 by omega] at hlast
      rw [show k + (d + 1) = k + d + 1 by omega, place_failed rxLocked rxIn hlast,
        ih fun e he => h e (Nat.lt_succ_of_lt he), Nat.mod_add_mod, Nat.add_assoc]

theorem place_kept {i : Fin 2} {k k' : Nat} (hk : k ≤ k')
    (h : ∀ e, k < e → e ≤ k' → fails rxLocked rxIn i e = false) :
    place rxLocked rxIn i k' % 8 = place rxLocked rxIn i k % 8 := by
  induction hk with
  | refl => rfl
  | @step m hm ih =>
      have hm' : k ≤ m := hm
      rw [place_passed rxLocked rxIn (h (m + 1) (by omega) (Nat.le_refl _))]
      exact ih fun e he he' => h e he (by omega)

theorem exists_test {k k' n : Nat} (hk : k ≤ k') (hfrom : testTime k + 2 ≤ n)
    (hto : n ≤ testTime (k' + 1) + 1) :
    ∃ m, k ≤ m ∧ m ≤ k' ∧ testTime m + 2 ≤ n ∧ n ≤ testTime (m + 1) + 1 := by
  induction hk with
  | refl => exact ⟨k, Nat.le_refl k, Nat.le_refl k, hfrom, hto⟩
  | @step m hm ih =>
      have hm' : k ≤ m := hm
      by_cases hlast : testTime (m + 1) + 2 ≤ n
      · exact ⟨m + 1, by omega, Nat.le_refl _, hlast, hto⟩
      · obtain ⟨l, hl, hl', hrest⟩ := ih (by omega)
        exact ⟨l, hl, by omega, hrest⟩

theorem testTime_mono {k k' : Nat} (h : k ≤ k') : testTime k ≤ testTime k' :=
  Nat.add_le_add_left (Nat.mul_le_mul_left (period + 1) h) period

theorem seven_le_testTime (k : Nat) : 7 ≤ testTime k := by
  have hperiod : 7 ≤ period := by decide
  unfold testTime
  omega

/-- The tests come once in a period and a clock. -/
theorem timerEvent_iff (n : Nat) :
    (run rxLocked rxIn n).timerEvent = true ↔ ∃ k, n = testTime k := by
  constructor
  · intro hevent
    rw [timerEvent_eq, run_timer, decide_eq_true_eq] at hevent
    have hdiv := Nat.div_add_mod n (period + 1)
    refine ⟨n / (period + 1), ?_⟩
    unfold testTime
    omega
  · rintro ⟨k, rfl⟩
    exact timerEvent_testTime rxLocked rxIn k

/-- The tests come once in a period and a clock, and one that fails moves the counters of its
pixel by one. From a counter that has not passed the shift of the line, the next tests find the
measurements sensible once, or the pixel comes out whole after them, and does so until a test
fails. -/
theorem search_shows {i : Fin 2} {phase k : Nat} {w : Fin 4 → Nat → BitVec 7} (hphase : phase < 7)
    (hplace : place rxLocked rxIn i k ≤ 6 - phase)
    (hlock : ∀ e, place rxLocked rxIn i k + e < 6 - phase →
      rxLocked (testTime (k + 1 + e)) = true)
    (hw : ∀ j, ∀ m ≥ testTime k, Lane.Carries (fun t => rxIn t i j) phase (w j) m) :
    (∀ n, (run rxLocked rxIn n).timerEvent = true ↔ ∃ m, n = testTime m) ∧
      (∀ m, fails rxLocked rxIn i m = true → ∀ j,
        (cnt rxLocked rxIn i j (testTime m + 2)).toNat =
          ((cnt rxLocked rxIn i j (testTime m)).toNat + 1) % 9) ∧
      ∃ d, place rxLocked rxIn i k + d = 6 - phase ∧
        ((∃ e < d, ((run rxLocked rxIn (testTime (k + 1 + e))).pixels i).sensible = true) ∨
          ∀ k' ≥ k + d, (∀ e, k + d < e → e ≤ k' → fails rxLocked rxIn i e = false) →
            ∀ n, testTime (k + d) + 6 ≤ n → n ≤ testTime (k' + 1) + 3 →
              (run rxLocked rxIn n).pix i = Lvds.Receiver.sideBySide fun j => w j (n - 6)) := by
  refine ⟨timerEvent_iff rxLocked rxIn, fun _ hfail => cnt_failed rxLocked rxIn hfail, ?_⟩
  -- The counter stays below eight, so the PLL does not move the clock of the pixel on the way.
  obtain ⟨d, hd⟩ := Nat.exists_eq_add_of_le hplace
  refine ⟨d, hd.symm, ?_⟩
  by_cases hpass : ∃ e < d, fails rxLocked rxIn i (k + 1 + e) = false
  · obtain ⟨e, he, hpassed⟩ := hpass
    refine Or.inl ⟨e, he, ?_⟩
    unfold fails at hpassed
    rw [hlock e (by omega), Bool.true_and, Bool.not_eq_false'] at hpassed
    exact hpassed
  · refine Or.inr fun k' hk' hkept n hfrom hto => ?_
    have hfails : ∀ e < d, fails rxLocked rxIn i (k + 1 + e) = true := fun e he =>
      Bool.eq_true_of_not_eq_false fun hfalse => hpass ⟨e, he, hfalse⟩
    have hfit := place_searching rxLocked rxIn hfails
    rw [← hd, Nat.mod_eq_of_lt (by omega)] at hfit
    obtain ⟨m, hm, hm', hafter, hbefore⟩ :=
      exists_test (k := k + d) (n := n - 2) hk' (by omega) (by omega)
    have hstays := place_kept rxLocked rxIn hm fun e he he' => hkept e he (by omega)
    have hlate := testTime_mono (Nat.le_add_right k d)
    refine congrArg Lvds.Receiver.sideBySide (funext fun j => ?_)
    have hcnt := cnt_eq_place rxLocked rxIn i j hafter hbefore
    have hshift : ((run rxLocked rxIn (n - 2)).lanes i j).shift = 6 - phase := by
      unfold cnt at hcnt
      rw [Lane.shift_eq, hcnt, hstays, hfit, Nat.mod_eq_of_lt (by omega)]
    have hseven := seven_le_testTime k
    rw [run_lane] at hshift
    rw [run_lane]
    exact Lane.rxOut_word _ _ _ _ n (hw j (n - 6) (by omega)) (by omega) (by omega)

/-- A line that repeats one word, from its third bit on. -/
theorem search_shows_repeated :
    let rxIn := fun t (_ : Fin 2) (_ : Fin 4) => (99#7).getLsbD (6 - (t + 5) % 7)
    let i : Fin 2 := ⟨0, Nat.zero_lt_two⟩
    ∃ d, place (fun _ => true) rxIn i 0 + d = 6 - 2 ∧
      ((∃ e < d, ((run (fun _ => true) rxIn (testTime (0 + 1 + e))).pixels i).sensible = true) ∨
        ∀ k' ≥ 0 + d, (∀ e, 0 + d < e → e ≤ k' → fails (fun _ => true) rxIn i e = false) →
          ∀ n, testTime (0 + d) + 6 ≤ n → n ≤ testTime (k' + 1) + 3 →
            (run (fun _ => true) rxIn n).pix i = Lvds.Receiver.sideBySide fun _ => 99#7) :=
  (search_shows _ _ (w := fun _ _ => 99#7) (show 2 < 7 by decide)
    (Nat.le_trans (place_zero_le _ _ _) (by decide)) (fun _ _ => rfl)
    (fun _ m _ k hk => congrArg (99#7).getLsbD (by omega))).2.2

end Run

end Regs

end Mfi.LdiBasic
