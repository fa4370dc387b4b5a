import Mfi.Pu.BacklightScan

/-!
# A scan by day

The coefficient memory accepts every read at once and answers in the next cycle. Whatever
it holds and whatever is selected, the scan then comes to its end, with the coefficients
of the day table.
-/

namespace Mfi.Pu

open Core

section Served

variable (mem : BitVec 32 → BitVec 32) (sel : Selectors)

/-- The address read in the last cycle, if any, is answered now. -/
def servedInput (_ : Backlight) (owed : Option (BitVec 32)) : BkltInput :=
  ⟨false, sel, false, owed.isSome, mem (owed.getD 0)⟩

def servedNext (b : Backlight) (_ : Option (BitVec 32)) : Option (BitVec 32) :=
  if b.control.read then some b.control.address else none

def servedRun (s : Backlight × Option (BitVec 32)) : Nat → Backlight × Option (BitVec 32) :=
  closedRun (Backlight.step 0) (servedInput mem sel) servedNext s

def servedStart : Backlight × Option (BitVec 32) := (Backlight.init 0, none)

def served : Nat → BkltInput :=
  closedInput (Backlight.step 0) (servedInput mem sel) servedNext servedStart

end Served

def BkltPhase.flags : BkltPhase → Bool × Bool
  | .minimum => (false, false)
  | .maximum => (true, false)
  | .values => (true, true)

/-- The control registers by day before the read of a page. -/
def atPage (phase : BkltPhase) (page : BitVec 8) : BkltControl :=
  ⟨.read, false, false, phase.flags.1, phase.flags.2, false, false, false, 0, page, 0⟩

def atPause (phase : BkltPhase) (load : Bool) (page : BitVec 8) (timer : Nat) : BkltControl :=
  ⟨.idle, false, false, phase.flags.1, phase.flags.2, load, false, false, 0, page,
    BitVec.ofNat 32 timer⟩

def Coefficients.take (t : Coefficients) (phase : BkltPhase) (page : BitVec 8) (x : BitVec 12) :
    Coefficients :=
  match phase with
  | .minimum => { t with minimum := store t.minimum page.toNat x }
  | .maximum => { t with maximum := store t.maximum page.toNat x }
  | .values =>
      if page < 6 then { t with values := store t.values page.toNat x }
      else { t with illuminance := x }

section Served

variable {mem : BitVec 32 → BitVec 32} {sel : Selectors} {t : Coefficients}

theorem servedRun_add (s : Backlight × Option (BitVec 32)) (m n : Nat) :
    servedRun mem sel s (m + n) = servedRun mem sel (servedRun mem sel s m) n := closedRun_add m n

theorem served_run (n : Nat) :
    bkltRun 0 0 (served mem sel) n = (servedRun mem sel servedStart n).1 :=
  @trace_closedInput _ _ _ (Backlight.step 0) (servedInput mem sel) servedNext servedStart n

/-! ## One page -/

/-- What a page of the day table holds for the selectors. -/
def dayEntry (mem : BitVec 32 → BitVec 32) (sel : Selectors) (phase : BkltPhase)
    (page : BitVec 8) : BitVec 12 :=
  entry mem 0 false page (bkltIndex sel phase page)

theorem page_accepted (phase : BkltPhase) (page : BitVec 8) :
    servedRun mem sel (⟨atPage phase page, t⟩, none) 2 =
      (⟨{ atPage phase page with state := .ack, transaction := true }, t⟩,
        some (bkltAddress 0 false (bkltOffset page (bkltIndex sel phase page)))) := by
  cases phase <;> rfl

def BkltPhase.next : BkltPhase → BkltPhase
  | .minimum => .maximum
  | .maximum => .values
  | .values => .values

def BkltPhase.last : BkltPhase → BitVec 8
  | .minimum => 2
  | .maximum => 2
  | .values => 6

theorem page_taken (phase : BkltPhase) (page : BitVec 8) :
    (servedRun mem sel (⟨atPage phase page, t⟩, none) 3).1.coefficients =
      t.take phase page (dayEntry mem sel phase page) := by
  have hrun : servedRun mem sel (⟨atPage phase page, t⟩, none) 3 =
      servedRun mem sel (servedRun mem sel (⟨atPage phase page, t⟩, none) 2) 1 :=
    servedRun_add _ 2 1
  rw [hrun, page_accepted]
  cases phase <;> rfl

theorem page_next (phase : BkltPhase) {page : BitVec 8} (hp : page < phase.last) :
    servedRun mem sel (⟨atPage phase page, t⟩, none) 3 =
      (⟨atPage phase (page + 1), t.take phase page (dayEntry mem sel phase page)⟩, none) := by
  have hrun : servedRun mem sel (⟨atPage phase page, t⟩, none) 3 =
      servedRun mem sel (servedRun mem sel (⟨atPage phase page, t⟩, none) 2) 1 :=
    servedRun_add _ 2 1
  have htaken := @page_taken mem sel t phase page
  have hcontrol : (servedRun mem sel (⟨atPage phase page, t⟩, none) 3).1.control =
      atPage phase (page + 1) := by
    rw [hrun, page_accepted]
    cases phase
    · exact BkltControl.step_more rfl rfl rfl hp
    · exact BkltControl.step_more rfl rfl rfl hp
    · exact BkltControl.step_more rfl rfl rfl hp
  have howed : (servedRun mem sel (⟨atPage phase page, t⟩, none) 3).2 = none := by
    rw [hrun, page_accepted]
    rfl
  exact Prod.ext (congrArg₂ Backlight.mk hcontrol htaken) howed

theorem page_last (phase : BkltPhase) :
    servedRun mem sel (⟨atPage phase phase.last, t⟩, none) 3 =
      (⟨atPause phase.next (phase == .values) (phase.last + 1) 0,
        t.take phase phase.last (dayEntry mem sel phase phase.last)⟩, none) := by
  have hrun : servedRun mem sel (⟨atPage phase phase.last, t⟩, none) 3 =
      servedRun mem sel (servedRun mem sel (⟨atPage phase phase.last, t⟩, none) 2) 1 :=
    servedRun_add _ 2 1
  rw [hrun, page_accepted]
  cases phase <;> rfl

/-! ## One phase -/

def takePages (mem : BitVec 32 → BitVec 32) (sel : Selectors) (t : Coefficients)
    (phase : BkltPhase) : Nat → Coefficients
  | 0 => t
  | k + 1 =>
      (takePages mem sel t phase k).take phase (BitVec.ofNat 8 k)
        (dayEntry mem sel phase (BitVec.ofNat 8 k))

theorem pages_run (phase : BkltPhase) {k : Nat} (hk : k ≤ phase.last.toNat) :
    servedRun mem sel (⟨atPage phase 0, t⟩, none) (3 * k) =
      (⟨atPage phase (BitVec.ofNat 8 k), takePages mem sel t phase k⟩, none) := by
  have hlast := phase.last.isLt
  induction k with
  | zero => rfl
  | succ k ih =>
      have hpage : BitVec.ofNat 8 k < phase.last := by
        rw [BitVec.lt_def, BitVec.toNat_ofNat]
        omega
      rw [Nat.mul_add, servedRun_add, ih (by omega), page_next phase hpage, BitVec.ofNat_add]
      rfl

theorem phase_run (phase : BkltPhase) :
    servedRun mem sel (⟨atPage phase 0, t⟩, none) (3 * phase.last.toNat + 3) =
      (⟨atPause phase.next (phase == .values) (phase.last + 1) 0,
        takePages mem sel t phase (phase.last.toNat + 1)⟩, none) := by
  rw [servedRun_add, pages_run phase (Nat.le_refl _), BitVec.ofNat_toNat, BitVec.setWidth_eq,
    page_last, takePages, BitVec.ofNat_toNat, BitVec.setWidth_eq]

/-! ## A pause -/

theorem pause_next (phase : BkltPhase) (load : Bool) (page : BitVec 8) {timer : Nat}
    (h : timer < 20000000) :
    servedRun mem sel (⟨atPause phase load page timer, t⟩, none) 1 =
      (⟨atPause phase false 0 (timer + 1), t⟩, none) := by
  have hevent : (atPause phase load page timer).timerEvent = false := by
    simp only [BkltControl.timerEvent, decide_eq_false_iff_not, BitVec.not_le]
    rw [BitVec.lt_def]
    change (BitVec.ofNat 32 timer).toNat < 20000000
    rw [BitVec.toNat_ofNat]
    omega
  have hcontrol : (servedRun mem sel (⟨atPause phase load page timer, t⟩, none) 1).1.control =
      atPause phase false 0 (timer + 1) := by
    change (atPause phase load page timer).step 0 _ = _
    rw [BkltControl.step_idle rfl, hevent]
    simp only [atPause, BkltControl.nightChanges, bne_self_eq_false, Bool.not_false, Bool.and_true,
      BitVec.ofNat_add]
    rfl
  exact Prod.ext (congrArg₂ Backlight.mk hcontrol rfl) rfl

theorem pause_counts (phase : BkltPhase) (load : Bool) (page : BitVec 8) {k : Nat}
    (hk : k < 20000000) :
    servedRun mem sel (⟨atPause phase load page 0, t⟩, none) (k + 1) =
      (⟨atPause phase false 0 (k + 1), t⟩, none) := by
  induction k with
  | zero => exact pause_next phase load page (by decide)
  | succ k ih => rw [servedRun_add, ih (by omega), pause_next phase false 0 hk]

theorem pause_run (phase : BkltPhase) (load : Bool) (page : BitVec 8) :
    servedRun mem sel (⟨atPause phase load page 0, t⟩, none) 20000001 =
      (⟨atPage phase 0, t⟩, none) := by
  have hcounts := @pause_counts mem sel t phase load page 19999999 (by decide)
  have hrun : servedRun mem sel (⟨atPause phase load page 0, t⟩, none) 20000001 =
      servedRun mem sel (servedRun mem sel (⟨atPause phase load page 0, t⟩, none) 20000000) 1 :=
    servedRun_add _ 20000000 1
  rw [hrun, hcounts]
  cases phase <;> rfl

/-! ## The whole scan -/

/-- The coefficients that a scan by day has read at its end. -/
def dayCoefficients (mem : BitVec 32 → BitVec 32) (sel : Selectors) : Coefficients :=
  takePages mem sel (takePages mem sel (takePages mem sel .zero .minimum 3) .maximum 3) .values 7

theorem dayCoefficients_fromTable (mem : BitVec 32 → BitVec 32) (sel : Selectors) :
    FromTable mem 0 sel false (dayCoefficients mem sel) where
  minimum
    | 0 => rfl
    | 1 => rfl
    | 2 => rfl
  maximum
    | 0 => rfl
    | 1 => rfl
    | 2 => rfl
  values
    | 0 => rfl
    | 1 => rfl
    | 2 => rfl
    | 3 => rfl
    | 4 => rfl
    | 5 => rfl
  illuminance := rfl

def servedCycle : Nat := 1 + 20000001 + 9 + 20000001 + 9 + 20000001 + 21

theorem served_loads (mem : BitVec 32 → BitVec 32) (sel : Selectors) :
    bkltRun 0 0 (served mem sel) servedCycle =
      ⟨atPause .values true 7 0, dayCoefficients mem sel⟩ := by
  have hfirst : servedRun mem sel servedStart 1 =
      (⟨atPause .minimum false 0 0, .zero⟩, none) := rfl
  have hminimum : ∀ t, servedRun mem sel (⟨atPage .minimum 0, t⟩, none) 9 =
      (⟨atPause .maximum false 3 0, takePages mem sel t .minimum 3⟩, none) :=
    fun _ => phase_run .minimum
  have hmaximum : ∀ t, servedRun mem sel (⟨atPage .maximum 0, t⟩, none) 9 =
      (⟨atPause .values false 3 0, takePages mem sel t .maximum 3⟩, none) :=
    fun _ => phase_run .maximum
  have hvalues : ∀ t, servedRun mem sel (⟨atPage .values 0, t⟩, none) 21 =
      (⟨atPause .values true 7 0, takePages mem sel t .values 7⟩, none) :=
    fun _ => phase_run .values
  rw [served_run, servedCycle, servedRun_add, servedRun_add, servedRun_add, servedRun_add,
    servedRun_add, servedRun_add, hfirst, pause_run, hminimum, pause_run, hmaximum, pause_run,
    hvalues]
  rfl

end Served

end Mfi.Pu
