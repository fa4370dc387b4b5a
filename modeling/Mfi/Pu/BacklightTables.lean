import Mfi.Core.Events
import Mfi.Pu.BacklightScan

/-!
# One table at a time

When the scan is finished, `bklt_load` passes the coefficients on. They must all belong
to the table of the day or all to that of the night, and no response may be written
outside its array. The memory answers the reads it accepts in order, at any later time.
-/

namespace Mfi.Pu

open Core

/-! ## What is asked of the scan -/

/-- The array and the index that a response is written to: the size of the array first. -/
def arrayWrite (c : BkltControl) (i : BkltInput) : Option (Nat × Nat) :=
  if c.state = .ack ∧ i.bkltReaddatavalid = true then
    match c.phase with
    | .minimum => some (3, c.page.toNat)
    | .maximum => some (3, c.page.toNat)
    | .values => if c.page < 6 then some (6, c.page.toNat) else none
  else none

section Run

variable (base timer : BitVec 32) (inp : Nat → BkltInput)

/-- The addresses read before cycle `n`. -/
def readsAccepted : Nat → List (BitVec 32) :=
  events fun n =>
    let c := (bkltRun base timer inp n).control
    if c.read && !(inp n).bkltWaitrequest then some c.address else none

def responses : Nat → List (BitVec 32) :=
  events fun n => if (inp n).bkltReaddatavalid then some (inp n).bkltReaddata else none

/-- A memory: responses come in the order of the reads, after their acceptance. -/
def CoefficientMemory (mem : BitVec 32 → BitVec 32) : Prop :=
  ∀ n, responses inp (n + 1) <+: (readsAccepted base timer inp n).map mem

/-- Cycle `n` is right: what is passed on is of one table, and no index is out of bounds. -/
structure TablesConsistent (mem : BitVec 32 → BitVec 32) (sel : Selectors) (n : Nat) : Prop where
  loaded : (bkltRun base timer inp n).control.load = true →
    ∃ night, FromTable mem base sel night (bkltRun base timer inp n).coefficients
  inBounds : ∀ w, arrayWrite (bkltRun base timer inp n).control (inp n) = some w → w.2 < w.1

end Run

/-- A restart is not overridden, and no read that was given up is still unanswered when
the next is accepted. -/
structure BkltStepOk (base timer : BitVec 32) (inp : Nat → BkltInput) (n : Nat) : Prop where
  restart : RestartOk (bkltRun base timer inp n).control (inp n)
  answered : (bkltRun base timer inp n).control.state = .read →
    (bkltRun base timer inp n).control.accepts (inp n) = true →
    (responses inp n).length = (readsAccepted base timer inp n).length

/-! ## Whole runs -/

section Run

variable {mem : BitVec 32 → BitVec 32} {base timer : BitVec 32} {sel : Selectors}
  {inp : Nat → BkltInput}

theorem readsAccepted_succ (n : Nat) : readsAccepted base timer inp (n + 1) =
    readsAccepted base timer inp n ++
      ((bkltRun base timer inp n).control.acceptedRead (inp n)).toList := rfl

theorem responses_succ (n : Nat) : responses inp (n + 1) = responses inp n ++
    (if (inp n).bkltReaddatavalid then some (inp n).bkltReaddata else none).toList := rfl

theorem responses_length (n : Nat) : (responses inp (n + 1)).length =
    (responses inp n).length + (inp n).bkltReaddatavalid.toNat := by
  rw [responses_succ, List.length_append]
  cases (inp n).bkltReaddatavalid <;> rfl

theorem response_data (hmem : CoefficientMemory base timer inp mem) {n : Nat}
    {earlier : List (BitVec 32)} {a : BitVec 32}
    (hreads : readsAccepted base timer inp n = earlier ++ [a])
    (hlen : (responses inp n).length = earlier.length)
    (hv : (inp n).bkltReaddatavalid = true) : (inp n).bkltReaddata = mem a := by
  have hpre := hmem n
  rw [responses_succ, if_pos hv, Option.toList_some, hreads, List.map_append] at hpre
  obtain ⟨rest, hrest⟩ := hpre
  have hlen' : (responses inp n).length = (earlier.map mem).length := by
    rw [List.length_map, hlen]
  rw [List.append_assoc] at hrest
  have htail := (List.append_inj hrest hlen').2
  simp only [List.map_cons, List.map_nil, List.singleton_append] at htail
  exact (List.cons.inj htail).1

theorem scan_run (hmem : CoefficientMemory base timer inp mem)
    (hsel : ∀ n, (inp n).selectors = sel) (hok : ∀ n, BkltStepOk base timer inp n) (n : Nat) :
    ScanControl base sel (bkltRun base timer inp n).control (readsAccepted base timer inp n)
      (responses inp n).length ∧
    ScanData mem base sel (bkltRun base timer inp n).control
      (bkltRun base timer inp n).coefficients := by
  induction n with
  | zero =>
      constructor
      · refine ⟨fun h => absurd h Bool.false_ne_true, ?_, nofun, nofun⟩
        rintro (h | h) <;> exact absurd h (by simp [bkltRun, Backlight.init, BkltControl.init])
      · apply ScanData.begin
        · rfl
        · rintro (h | h) <;> exact absurd h (by simp [bkltRun, Backlight.init, BkltControl.init])
        · exact fun h => absurd h Bool.false_ne_true
  | succ n ih =>
      obtain ⟨hc, hd⟩ := ih
      have hlen := @responses_length inp n
      constructor
      · rw [readsAccepted_succ, hlen]
        apply hc.step (hsel n) (hok n).restart (hok n).answered
        intro hv
        have hle := (hmem n).length_le
        rw [hlen, hv, List.length_map] at hle
        exact hle
      · apply hd.step hc (hok n).restart
        intro hs hv
        obtain ⟨_, earlier, hreads, hans⟩ := hc.waiting hs
        exact response_data hmem hreads hans hv

/-- As long as no change of the night input meets the acceptance of a read or a response
inside a scan, what is passed on is of one table, and no index is out of bounds. -/
theorem tables_consistent (mem : BitVec 32 → BitVec 32) (base timer : BitVec 32) (sel : Selectors)
    (inp : Nat → BkltInput) (hmem : CoefficientMemory base timer inp mem)
    (hsel : ∀ n, (inp n).selectors = sel) (hok : ∀ n, BkltStepOk base timer inp n) (n : Nat) :
    TablesConsistent base timer inp mem sel n := by
  obtain ⟨hc, hd⟩ := scan_run hmem hsel hok n
  refine ⟨hd.loaded, ?_⟩
  intro w hw
  unfold arrayWrite at hw
  split at hw
  · rename_i hack
    have hpage := hc.page (Or.inr hack.1)
    cases hphase : (bkltRun base timer inp n).control.phase with
    | minimum =>
        simp only [hphase] at hw hpage
        cases hw
        simpa using Nat.lt_succ_of_le hpage
    | maximum =>
        simp only [hphase] at hw hpage
        cases hw
        simpa using Nat.lt_succ_of_le hpage
    | values =>
        simp only [hphase] at hw
        split at hw
        · rename_i hlt
          cases hw
          exact BitVec.lt_def.mp hlt
        · exact absurd hw (by simp)
  · exact absurd hw (by simp)

end Run

/-! ## A memory that answers in the next cycle -/

/-- What goes on around the scan: the read accepted in the last cycle, and it is night. -/
structure Around where
  owed : Option (BitVec 32)
  night : Bool
deriving DecidableEq

section Quick

variable (mem : BitVec 32 → BitVec 32) (falls : BkltControl → Bool)

/-- No stall, and the night comes in a cycle that `falls` tells. -/
def quickInput (c : BkltControl) (a : Around) : BkltInput :=
  ⟨a.night || falls c, ⟨false, 0, 0, 0⟩, false, a.owed.isSome, mem (a.owed.getD 0)⟩

def quickNext (c : BkltControl) (a : Around) : Around :=
  ⟨if c.read then some c.address else none, a.night || falls c⟩

def quickRun (s : BkltControl × Around) : Nat → BkltControl × Around :=
  closedRun (fun c i => c.step 0 i) (quickInput mem falls) (quickNext falls) s

def quickStart : BkltControl × Around := (BkltControl.init 0, ⟨none, false⟩)

def quick : Nat → BkltInput :=
  closedInput (fun c i => c.step 0 i) (quickInput mem falls) (quickNext falls) quickStart

theorem quickRun_succ (s : BkltControl × Around) (n : Nat) :
    quickRun mem falls s (n + 1) =
      ((quickRun mem falls s n).1.step 0
          (quickInput mem falls (quickRun mem falls s n).1 (quickRun mem falls s n).2),
        quickNext falls (quickRun mem falls s n).1 (quickRun mem falls s n).2) := rfl

theorem quickRun_add (s : BkltControl × Around) (m n : Nat) :
    quickRun mem falls s (m + n) = quickRun mem falls (quickRun mem falls s m) n :=
  closedRun_add m n

theorem bkltRun_control (base timer : BitVec 32) (inp : Nat → BkltInput) (n : Nat) :
    (bkltRun base timer inp n).control =
      trace (fun c i => c.step base i) (BkltControl.init timer) inp n := by
  induction n with
  | zero => rfl
  | succ n ih =>
      rw [trace_succ, ← ih]
      rfl

theorem quick_control (n : Nat) :
    (bkltRun 0 0 (quick mem falls) n).control = (quickRun mem falls quickStart n).1 := by
  rw [bkltRun_control]
  exact @trace_closedInput _ _ _ (fun c i => BkltControl.step c 0 i) (quickInput mem falls)
    (quickNext falls) quickStart n

theorem quick_responses (n : Nat) : responses (quick mem falls) (n + 1) =
    responses (quick mem falls) n ++ ((quickRun mem falls quickStart n).2.owed.map mem).toList := by
  have hinput : quick mem falls n = quickInput mem falls (quickRun mem falls quickStart n).1
      (quickRun mem falls quickStart n).2 := rfl
  rw [responses_succ, hinput]
  unfold quickInput
  cases (quickRun mem falls quickStart n).2.owed <;> rfl

/-- All reads are answered but the one accepted last. -/
theorem quick_owed (n : Nat) :
    responses (quick mem falls) n ++ ((quickRun mem falls quickStart n).2.owed.map mem).toList =
      (readsAccepted 0 0 (quick mem falls) n).map mem := by
  induction n with
  | zero => rfl
  | succ n ih =>
      have hnext : (quickRun mem falls quickStart (n + 1)).2.owed =
          (bkltRun 0 0 (quick mem falls) n).control.acceptedRead (quick mem falls n) := by
        rw [quick_control, quickRun_succ]
        unfold BkltControl.acceptedRead quickNext
        rw [show (quick mem falls n).bkltWaitrequest = false from rfl, Bool.not_false,
          Bool.and_true]
      rw [quick_responses, ih, hnext, readsAccepted_succ, List.map_append]
      cases (bkltRun 0 0 (quick mem falls) n).control.acceptedRead (quick mem falls n) <;> rfl

theorem quick_memory : CoefficientMemory 0 0 (quick mem falls) mem := by
  intro n
  rw [quick_responses, quick_owed]

def pausing (readMinimum readMaximum : Bool) (timer : Nat) : BkltControl × Around :=
  (⟨.idle, false, false, readMinimum, readMaximum, false, false, false, 0, 0,
    BitVec.ofNat 32 timer⟩, ⟨none, false⟩)

variable {falls}
variable (hday : ∀ c : BkltControl, c.state = .idle → falls c = false)

include hday

theorem pausing_next (readMinimum readMaximum : Bool) {timer : Nat} (h : timer < 20000000) :
    quickRun mem falls (pausing readMinimum readMaximum timer) 1 =
      pausing readMinimum readMaximum (timer + 1) := by
  have hevent : (pausing readMinimum readMaximum timer).1.timerEvent = false := by
    simp only [BkltControl.timerEvent, decide_eq_false_iff_not, BitVec.not_le]
    rw [BitVec.lt_def]
    show (BitVec.ofNat 32 timer).toNat < 20000000
    rw [BitVec.toNat_ofNat]
    omega
  have hsum : BitVec.ofNat 32 timer + 1 = BitVec.ofNat 32 (timer + 1) := by
    rw [BitVec.ofNat_add]
    rfl
  have hfalls : falls (pausing readMinimum readMaximum timer).1 = false := hday _ rfl
  rw [quickRun_succ]
  show (BkltControl.step (pausing readMinimum readMaximum timer).1 0
    (quickInput mem falls (pausing readMinimum readMaximum timer).1 ⟨none, false⟩),
    quickNext falls (pausing readMinimum readMaximum timer).1 ⟨none, false⟩) = _
  rw [BkltControl.step_idle rfl, hevent]
  unfold quickInput quickNext
  rw [hfalls]
  simp only [pausing, BkltControl.nightChanges, Bool.false_eq_true, if_false, bne_self_eq_false,
    Bool.not_false, Bool.and_true, Bool.or_false]
  rw [← hsum]

theorem pausing_run (readMinimum readMaximum : Bool) {timer k : Nat} (h : timer + k ≤ 20000000) :
    quickRun mem falls (pausing readMinimum readMaximum timer) k =
      pausing readMinimum readMaximum (timer + k) := by
  induction k with
  | zero => rfl
  | succ k ih =>
      rw [quickRun_add, ih (by omega), pausing_next _ hday _ _ (by omega), Nat.add_assoc]

theorem third_phase (hfirst : quickRun mem falls quickStart 2 = pausing false false 1)
    (hminimum : quickRun mem falls (pausing false false 20000000) 11 = pausing true false 1)
    (hmaximum : quickRun mem falls (pausing true false 20000000) 11 = pausing true true 1)
    (k : Nat) :
    quickRun mem falls quickStart (2 + 19999999 + 11 + 19999999 + 11 + 19999999 + k) =
      quickRun mem falls (pausing true true 20000000) k := by
  rw [quickRun_add, quickRun_add, quickRun_add, quickRun_add, quickRun_add, quickRun_add, hfirst,
    pausing_run _ hday _ _ (by decide), hminimum, pausing_run _ hday _ _ (by decide), hmaximum,
    pausing_run _ hday _ _ (by decide)]

end Quick

def noNight (_ : BkltControl) : Bool := false

/-- By day a read is owed only while the machine waits for it. -/
structure ByDay (t : BkltControl × Around) : Prop where
  night : t.2.night = false
  nightMeta : t.1.nightMeta = false
  nightLatch : t.1.nightLatch = false
  owed : t.2.owed ≠ none → t.1.state = .ack
  read : t.1.read = true → t.1.state = .read ∧ t.1.transaction = true

theorem ByDay.nightChanges {t : BkltControl × Around} (h : ByDay t) :
    t.1.nightChanges = false := by
  simp [BkltControl.nightChanges, h.nightMeta, h.nightLatch]

section Day

variable (mem : BitVec 32 → BitVec 32)

theorem byDay (n : Nat) : ByDay (quickRun mem noNight quickStart n) := by
  induction n with
  | zero => exact ⟨rfl, rfl, rfl, fun h => absurd rfl h, nofun⟩
  | succ n ih =>
      have hn := ih.nightChanges
      rw [quickRun_succ]
      generalize quickRun mem noNight quickStart n = t at ih hn ⊢
      have hnight : (quickInput mem noNight t.1 t.2).night = false := by
        simp [quickInput, noNight, ih.night]
      refine ⟨by simp [quickNext, noNight, ih.night], hnight, ih.nightMeta, ?_, ?_⟩
      · intro howed
        have hread : t.1.read = true := by
          by_contra hnone
          exact howed (if_neg hnone)
        obtain ⟨hs, ht⟩ := ih.read hread
        have ha : t.1.accepts (quickInput mem noNight t.1 t.2) = true := ht
        show (t.1.step 0 _).state = .ack
        rw [BkltControl.step_accept hs ha hn]
      · show (t.1.step 0 _).read = true → (t.1.step 0 _).state = .read ∧ _
        cases hs : t.1.state with
        | idle =>
            rw [BkltControl.step_idle hs]
            exact nofun
        | read =>
            cases ha : t.1.accepts (quickInput mem noNight t.1 t.2) with
            | true =>
                rw [BkltControl.step_accept hs ha hn]
                exact nofun
            | false =>
                rw [BkltControl.step_offer hs ha, hn]
                exact fun _ => ⟨rfl, rfl⟩
        | ack =>
            rw [BkltControl.step_ack_read hs]
            exact nofun
        | reset =>
            rw [BkltControl.step_reset hs]
            exact nofun

theorem byDay_ok (n : Nat) : BkltStepOk 0 0 (quick mem noNight) n := by
  have hday := byDay mem n
  have hcontrol := quick_control mem noNight n
  have hn : (bkltRun 0 0 (quick mem noNight) n).control.nightChanges = false := by
    rw [hcontrol]
    exact hday.nightChanges
  refine ⟨⟨fun h => ?_, fun h => ?_⟩, fun hs _ => ?_⟩
  · rw [hn] at h
    exact absurd h (by decide)
  · rw [hn] at h
    exact absurd h (by decide)
  · have howed : (quickRun mem noNight quickStart n).2.owed = none := by
      by_contra howed
      rw [hcontrol, hday.owed howed] at hs
      exact absurd hs (by decide)
    have hall := congrArg List.length (quick_owed mem noNight n)
    rw [howed] at hall
    simpa using hall

end Day

/-- For example by day, with a memory of words that are all different. The coefficients are
passed on after the third phase. -/
theorem tables_consistent_by_day :
    ∃ n, (bkltRun 0 0 (quick id noNight) n).control.load = true ∧
      TablesConsistent 0 0 (quick id noNight) id ⟨false, 0, 0, 0⟩ n := by
  refine ⟨2 + 19999999 + 11 + 19999999 + 11 + 19999999 + 22, ?_,
    tables_consistent id 0 0 ⟨false, 0, 0, 0⟩ (quick id noNight) (quick_memory id noNight)
      (fun _ => rfl) (byDay_ok id) _⟩
  have hday : ∀ c : BkltControl, c.state = .idle → noNight c = false := fun _ _ => rfl
  rw [quick_control, third_phase id hday (by decide) (by decide) (by decide)]
  decide

/-! ## A restart that is overridden -/

/-- The night comes when the read of the third value is accepted. -/
def lateNight (c : BkltControl) : Bool :=
  c.state == .read && c.transaction && c.phase == .values && c.page == 2

theorem lateNight_idle (c : BkltControl) (h : c.state = .idle) : lateNight c = false := by
  simp [lateNight, h]

/-- The fourth page is read as if it were a least value. -/
theorem third_value :
    arrayWrite (quickRun (fun _ => 0) lateNight (pausing true true 20000000) 12).1
      (quickInput (fun _ => 0) lateNight
        (quickRun (fun _ => 0) lateNight (pausing true true 20000000) 12).1
        (quickRun (fun _ => 0) lateNight (pausing true true 20000000) 12).2) = some (3, 3) := by
  decide

/-- The restart at a response inside the scan keeps the page number: the next response is
written to `bklt_minimum[3]`. -/
theorem restart_overridden :
    CoefficientMemory 0 0 (quick (fun _ => 0) lateNight) (fun _ => 0) ∧
    (∃ n, arrayWrite (bkltRun 0 0 (quick (fun _ => 0) lateNight) n).control
      (quick (fun _ => 0) lateNight n) = some (3, 3)) ∧
    ¬ ∀ n, TablesConsistent 0 0 (quick (fun _ => 0) lateNight) (fun _ => 0)
      ⟨false, 0, 0, 0⟩ n := by
  have hwrite : ∃ n, arrayWrite (bkltRun 0 0 (quick (fun _ => 0) lateNight) n).control
      (quick (fun _ => 0) lateNight n) = some (3, 3) := by
    refine ⟨2 + 19999999 + 11 + 19999999 + 11 + 19999999 + 12, ?_⟩
    have hrun := third_phase (fun _ => 0) lateNight_idle (by decide) (by decide) (by decide) 12
    have hinput : ∀ n, quick (fun _ => 0) lateNight n = quickInput (fun _ => 0) lateNight
        (quickRun (fun _ => 0) lateNight quickStart n).1
        (quickRun (fun _ => 0) lateNight quickStart n).2 := fun _ => rfl
    rw [quick_control, hinput, hrun]
    exact third_value
  refine ⟨quick_memory (fun _ => 0) lateNight, hwrite, fun h => ?_⟩
  obtain ⟨n, hn⟩ := hwrite
  exact absurd ((h n).inBounds _ hn) (by decide)

end Mfi.Pu
