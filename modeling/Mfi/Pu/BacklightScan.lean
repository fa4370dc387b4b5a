import Mfi.Core.Words
import Mfi.Pu.BacklightControl

/-!
# What the coefficient scan has read

The coefficients read since the scan began belong to the table that is selected now. This
holds as long as a change of the night input restarts the scan: the assignments of the
state machine in the same cycle win over the restart, and the cycles in which they do are
excluded by `RestartOk`.
-/

namespace Mfi.Pu

open Core

/-! ## The tables -/

/-- The coefficient that a memory holds for an entry of a page. -/
def entry (mem : BitVec 32 → BitVec 32) (base : BitVec 32) (night : Bool) (page index : BitVec 8) :
    BitVec 12 :=
  (mem (bkltAddress base night (bkltOffset page index))).setWidth 12

/-- All coefficients are those of one table, each from its own page and entry. -/
structure FromTable (mem : BitVec 32 → BitVec 32) (base : BitVec 32) (sel : Selectors)
    (night : Bool) (t : Coefficients) : Prop where
  minimum : ∀ k, t.minimum k = entry mem base night (BitVec.ofNat 8 k.val) 0x01
  maximum : ∀ k, t.maximum k = entry mem base night (BitVec.ofNat 8 k.val) 0x1F
  values : ∀ k, t.values k = entry mem base night (BitVec.ofNat 8 k.val)
    (if k.val < 3 then sel.lightCnt.setWidth 8 else sel.lightMcu.setWidth 8)
  illuminance : t.illuminance = entry mem base night 6
    (if sel.lightManual then 0x10 else sel.illuminanceAvg.setWidth 8)

/-- A change of the night input does not meet the acceptance of a read, nor a response
other than the last of a scan. -/
structure RestartOk (c : BkltControl) (i : BkltInput) : Prop where
  read : c.nightChanges = true → c.state = .read → c.accepts i = false
  ack : c.nightChanges = true → c.state = .ack → i.bkltReaddatavalid = true →
    c.phase = .values ∧ ¬ c.page < 6

/-! ## What the scan has read so far -/

def BkltControl.Active (c : BkltControl) : Prop := c.state = .read ∨ c.state = .ack

/-- The control registers, with the reads accepted and the number of responses. -/
structure ScanControl (base : BitVec 32) (sel : Selectors) (c : BkltControl)
    (reads : List (BitVec 32)) (answers : Nat) : Prop where
  order : c.readMaximum = true → c.readMinimum = true
  page : c.Active → c.page.toNat ≤ if c.phase = .values then 6 else 2
  reading : c.state = .read → c.read = c.transaction ∧
    (c.transaction = true → c.address = c.nextAddress base sel)
  waiting : c.state = .ack → c.read = false ∧
    ∃ earlier, reads = earlier ++ [c.nextAddress base sel] ∧ answers = earlier.length

/-- The coefficients that the present scan has read are of the present table. -/
structure ScanData (mem : BitVec 32 → BitVec 32) (base : BitVec 32) (sel : Selectors)
    (c : BkltControl) (t : Coefficients) : Prop where
  minimum : ∀ k, c.phase ≠ .minimum ∨ c.Active ∧ k.val < c.page.toNat →
    t.minimum k = entry mem base c.nightLatch (BitVec.ofNat 8 k.val) 0x01
  maximum : ∀ k, c.phase = .values ∨ c.Active ∧ c.phase = .maximum ∧ k.val < c.page.toNat →
    t.maximum k = entry mem base c.nightLatch (BitVec.ofNat 8 k.val) 0x1F
  values : ∀ k, c.Active → c.phase = .values → k.val < c.page.toNat →
    t.values k = entry mem base c.nightLatch (BitVec.ofNat 8 k.val)
      (if k.val < 3 then sel.lightCnt.setWidth 8 else sel.lightMcu.setWidth 8)
  loaded : c.load = true → ∃ night, FromTable mem base sel night t

/-! ## One cycle of the control registers -/

namespace BkltControl

variable {c : BkltControl} {base : BitVec 32} {i : BkltInput}

theorem restart_eq (c : BkltControl) : c.restart =
    { c with
      readMinimum := c.readMinimum && !c.nightChanges
      readMaximum := c.readMaximum && !c.nightChanges
      state := if c.nightChanges then .idle else c.state } := by
  unfold restart
  cases c.nightChanges <;> simp

theorem step_idle (hs : c.state = .idle) : c.step base i =
    { c with
      nightMeta := i.night, nightLatch := c.nightMeta
      readMinimum := c.readMinimum && !c.nightChanges
      readMaximum := c.readMaximum && !c.nightChanges
      read := false, transaction := false, load := false, address := 0, page := 0
      timer := if c.timerEvent then 0 else c.timer + 1
      state := if c.timerEvent then .read else .idle } := by
  simp [step, scan, hs, restart_eq]

theorem step_accept (hs : c.state = .read) (ha : c.accepts i = true) (hn : c.nightChanges = false) :
    c.step base i =
      { c with
        nightMeta := i.night, nightLatch := c.nightMeta
        read := false, address := 0, state := .ack, load := false } := by
  simp [step, scan, hs, restart, ha, hn]

theorem step_offer (hs : c.state = .read) (ha : c.accepts i = false) : c.step base i =
    { c with
      nightMeta := i.night, nightLatch := c.nightMeta
      readMinimum := c.readMinimum && !c.nightChanges
      readMaximum := c.readMaximum && !c.nightChanges
      read := true, transaction := true, load := false
      address := c.nextAddress base i.selectors
      state := if c.nightChanges then .idle else .read } := by
  simp [step, scan, hs, restart_eq, ha]

theorem step_wait (hs : c.state = .ack) (hv : i.bkltReaddatavalid = false) : c.step base i =
    { c with
      nightMeta := i.night, nightLatch := c.nightMeta
      readMinimum := c.readMinimum && !c.nightChanges
      readMaximum := c.readMaximum && !c.nightChanges
      read := false, transaction := false
      state := if c.nightChanges then .idle else .ack } := by
  simp [step, scan, hs, restart_eq, hv]

theorem step_more (hs : c.state = .ack) (hv : i.bkltReaddatavalid = true)
    (hn : c.nightChanges = false) (hp : c.page < if c.phase = .values then 6 else 2) :
    c.step base i =
      { c with
        nightMeta := i.night, nightLatch := c.nightMeta
        read := false, transaction := false, load := false
        page := c.page + 1, state := .read } := by
  cases hphase : c.phase <;> simp only [hphase] at hp <;>
    simp_all [step, scan, restart, respond]

theorem step_last_minimum (hs : c.state = .ack) (hv : i.bkltReaddatavalid = true)
    (hn : c.nightChanges = false) (hp : ¬ c.page < 2) (hphase : c.phase = .minimum) :
    c.step base i =
      { c with
        nightMeta := i.night, nightLatch := c.nightMeta
        read := false, transaction := false, load := false
        page := c.page + 1, readMinimum := true, state := .idle } := by
  simp only [step, scan, restart, respond, hs, hv, hn, hphase, if_neg hp, if_true,
    Bool.false_eq_true, if_false]

theorem step_last_maximum (hs : c.state = .ack) (hv : i.bkltReaddatavalid = true)
    (hn : c.nightChanges = false) (hp : ¬ c.page < 2) (hphase : c.phase = .maximum) :
    c.step base i =
      { c with
        nightMeta := i.night, nightLatch := c.nightMeta
        read := false, transaction := false, load := false
        page := c.page + 1, readMaximum := true, state := .idle } := by
  simp only [step, scan, restart, respond, hs, hv, hn, hphase, if_neg hp, if_true,
    Bool.false_eq_true, if_false]

/-- The last response of a scan, which may meet a change of the night input. -/
theorem step_last_values (hs : c.state = .ack) (hv : i.bkltReaddatavalid = true)
    (hp : ¬ c.page < 6) (hphase : c.phase = .values) :
    c.step base i =
      { c with
        nightMeta := i.night, nightLatch := c.nightMeta
        readMinimum := c.readMinimum && !c.nightChanges
        readMaximum := c.readMaximum && !c.nightChanges
        read := false, transaction := false, load := true
        page := c.page + 1, state := .idle } := by
  simp only [step, scan, restart_eq, respond, hs, hv, hphase, if_neg hp, if_true]

theorem step_ack_read (hs : c.state = .ack) : (c.step base i).read = false := by
  simp only [step, scan, hs]
  cases hv : i.bkltReaddatavalid with
  | false => simp
  | true =>
      simp only [respond, if_true]
      cases c.phase <;> simp only <;> split <;> rfl

theorem step_reset (hs : c.state = .reset) : c.step base i =
    { c with
      nightMeta := i.night, nightLatch := c.nightMeta
      readMinimum := false, readMaximum := false, load := false, transaction := false
      read := false, address := 0, page := 0, state := .idle } := by
  simp [step, scan, hs, restart_eq]

theorem nightLatch_eq (hn : c.nightChanges = false) : c.nightMeta = c.nightLatch := by
  simp only [nightChanges, bne_eq_false_iff_eq] at hn
  exact hn.symm

theorem phase_maximum (h : c.phase = .maximum) : c.readMinimum = true := by
  unfold phase at h
  cases hm : c.readMinimum <;> simp [hm] at h ⊢

def acceptedRead (c : BkltControl) (i : BkltInput) : Option (BitVec 32) :=
  if c.read && !i.bkltWaitrequest then some c.address else none

theorem acceptedRead_of_not_read (h : c.read = false) : c.acceptedRead i = none := by
  simp [acceptedRead, h]

end BkltControl

/-! ## The control registers keep their order -/

section Control

variable {base : BitVec 32} {sel : Selectors} {c : BkltControl} {reads : List (BitVec 32)}
  {answers : Nat} {i : BkltInput}

theorem ScanControl.of_idle (hs : c.state = .idle)
    (horder : c.readMaximum = true → c.readMinimum = true) :
    ScanControl base sel c reads answers where
  order := horder
  page := by
    rintro (h | h) <;> rw [hs] at h <;> exact absurd h (by decide)
  reading := fun h => absurd (hs.symm.trans h) (by decide)
  waiting := fun h => absurd (hs.symm.trans h) (by decide)

theorem ScanControl.order_restart (h : ScanControl base sel c reads answers) :
    (c.readMaximum && !c.nightChanges) = true → (c.readMinimum && !c.nightChanges) = true := by
  intro hx
  simp only [Bool.and_eq_true] at hx ⊢
  exact ⟨h.order hx.1, hx.2⟩

theorem ScanControl.step_idle (h : ScanControl base sel c reads answers) (hs : c.state = .idle) :
    ScanControl base sel (c.step base i) reads answers := by
  rw [BkltControl.step_idle hs]
  refine ⟨h.order_restart, fun _ => Nat.zero_le _, fun _ => ⟨rfl, fun ht => ?_⟩, ?_⟩
  · exact absurd ht Bool.false_ne_true
  · intro hack
    cases ht : c.timerEvent <;> simp [ht] at hack

theorem ScanControl.step_accept (h : ScanControl base sel c reads answers) (hs : c.state = .read)
    (ha : c.accepts i = true) (hn : c.nightChanges = false) (hans : answers = reads.length) :
    ScanControl base sel (c.step base i) (reads ++ (c.acceptedRead i).toList) answers := by
  obtain ⟨hread, haddr⟩ := h.reading hs
  have htrans : c.transaction = true := (Bool.and_eq_true_iff.mp ha).2
  have hwait : (!i.bkltWaitrequest) = true := (Bool.and_eq_true_iff.mp ha).1
  have hacc : c.acceptedRead i = some (c.nextAddress base sel) := by
    simp [BkltControl.acceptedRead, hread, htrans, hwait, haddr htrans]
  rw [BkltControl.step_accept hs ha hn, hacc, Option.toList_some, BkltControl.nightLatch_eq hn]
  refine ⟨h.order, fun _ => h.page (Or.inl hs), nofun, fun _ => ?_⟩
  exact ⟨rfl, reads, rfl, hans⟩

theorem ScanControl.step_offer (h : ScanControl base sel c reads answers) (hs : c.state = .read)
    (ha : c.accepts i = false) (hsel : i.selectors = sel) {reads' : List (BitVec 32)}
    {answers' : Nat} : ScanControl base sel (c.step base i) reads' answers' := by
  rw [BkltControl.step_offer hs ha]
  cases hn : c.nightChanges with
  | true => exact ScanControl.of_idle rfl (by simp)
  | false =>
      have hlatch := BkltControl.nightLatch_eq hn
      refine ⟨by simpa [hn] using h.order_restart, fun _ => ?_, fun _ => ⟨rfl, fun _ => ?_⟩,
        nofun⟩
      · have hpage := h.page (Or.inl hs)
        simpa [BkltControl.phase] using hpage
      · simp [BkltControl.nextAddress, BkltControl.phase, hlatch, hsel]

theorem ScanControl.step_wait (h : ScanControl base sel c reads answers) (hs : c.state = .ack)
    (hv : i.bkltReaddatavalid = false) : ScanControl base sel (c.step base i) reads answers := by
  rw [BkltControl.step_wait hs hv]
  cases hn : c.nightChanges with
  | true => exact ScanControl.of_idle rfl (by simp)
  | false =>
      have hlatch := BkltControl.nightLatch_eq hn
      refine ⟨by simpa [hn] using h.order_restart, fun _ => ?_, nofun,
        fun _ => ⟨rfl, ?_⟩⟩
      · have hpage := h.page (Or.inr hs)
        simpa [BkltControl.phase] using hpage
      · obtain ⟨_, earlier, hreads, hans⟩ := h.waiting hs
        refine ⟨earlier, ?_, hans⟩
        rw [hreads]
        simp [BkltControl.nextAddress, BkltControl.phase, hlatch]

theorem ScanControl.step_respond (h : ScanControl base sel c reads answers) (hs : c.state = .ack)
    (hv : i.bkltReaddatavalid = true) (hr : RestartOk c i) {reads' : List (BitVec 32)}
    {answers' : Nat} : ScanControl base sel (c.step base i) reads' answers' := by
  cases hn : c.nightChanges with
  | true =>
      obtain ⟨hphase, hp⟩ := hr.ack hn hs hv
      rw [BkltControl.step_last_values hs hv hp hphase]
      exact ScanControl.of_idle rfl h.order_restart
  | false =>
      by_cases hp : c.page < if c.phase = .values then 6 else 2
      · rw [BkltControl.step_more hs hv hn hp]
        refine ⟨h.order, fun _ => ?_, fun _ => ⟨rfl, fun ht => absurd ht Bool.false_ne_true⟩,
          nofun⟩
        have hlt := BitVec.lt_def.mp hp
        have hsum : (c.page + 1).toNat = c.page.toNat + 1 := by
          apply toNat_add_one
          split at hlt <;> simp at hlt <;> omega
        show (c.page + 1).toNat ≤ if c.phase = .values then 6 else 2
        rw [hsum]
        by_cases hvalues : c.phase = .values
        · rw [if_pos hvalues] at hlt ⊢
          exact hlt
        · rw [if_neg hvalues] at hlt ⊢
          exact hlt
      · cases hphase : c.phase with
        | minimum =>
            rw [hphase] at hp
            rw [BkltControl.step_last_minimum hs hv hn hp hphase]
            exact ScanControl.of_idle rfl fun _ => rfl
        | maximum =>
            rw [hphase] at hp
            rw [BkltControl.step_last_maximum hs hv hn hp hphase]
            have hmin := BkltControl.phase_maximum hphase
            exact ScanControl.of_idle rfl fun _ => hmin
        | values =>
            rw [hphase] at hp
            rw [BkltControl.step_last_values hs hv hp hphase]
            exact ScanControl.of_idle rfl h.order_restart

theorem ScanControl.step (h : ScanControl base sel c reads answers) (hsel : i.selectors = sel)
    (hr : RestartOk c i)
    (hans : c.state = .read → c.accepts i = true → answers = reads.length)
    (hmem : i.bkltReaddatavalid = true → answers + 1 ≤ reads.length) :
    ScanControl base sel (c.step base i) (reads ++ (c.acceptedRead i).toList)
      (answers + i.bkltReaddatavalid.toNat) := by
  cases hs : c.state with
  | idle =>
      have hnext : (c.step base i).state ≠ .ack := by
        rw [BkltControl.step_idle hs]
        cases c.timerEvent <;> simp
      obtain ⟨horder, hpage, hreading, _⟩ := h.step_idle (i := i) hs
      exact ⟨horder, hpage, hreading, fun hack => absurd hack hnext⟩
  | read =>
      cases ha : c.accepts i with
      | false => exact h.step_offer hs ha hsel
      | true =>
          have hn : c.nightChanges = false := by
            cases hn : c.nightChanges with
            | false => rfl
            | true =>
                rw [hr.read hn hs] at ha
                exact ha.symm
          have hquiet : i.bkltReaddatavalid = false := by
            cases hv : i.bkltReaddatavalid with
            | false => rfl
            | true =>
                have hle := hmem hv
                have heq := hans hs ha
                omega
          rw [hquiet]
          exact h.step_accept hs ha hn (hans hs ha)
  | ack =>
      cases hv : i.bkltReaddatavalid with
      | true => exact h.step_respond hs hv hr
      | false =>
          rw [BkltControl.acceptedRead_of_not_read (h.waiting hs).1, Option.toList_none,
            List.append_nil]
          exact h.step_wait hs hv
  | reset =>
      rw [BkltControl.step_reset hs]
      exact ScanControl.of_idle rfl fun hx => absurd hx Bool.false_ne_true

end Control

/-! ## The coefficients keep to their table -/

theorem store_self {size : Nat} (a : Fin size → BitVec 12) {k : Fin size} {n : Nat} (x : BitVec 12)
    (h : k.val = n) : Coefficients.store a n x k = x := if_pos h

theorem store_of_ne {size : Nat} (a : Fin size → BitVec 12) {k : Fin size} {n : Nat}
    (x : BitVec 12) (h : k.val ≠ n) : Coefficients.store a n x k = a k := if_neg h

section Data

variable {mem : BitVec 32 → BitVec 32} {base : BitVec 32} {sel : Selectors} {c c' : BkltControl}
  {reads : List (BitVec 32)} {answers : Nat} {i : BkltInput} {t : Coefficients}

theorem not_active (hs : c.state = .idle) : ¬ c.Active := by
  rintro (h | h) <;> rw [hs] at h <;> exact absurd h (by decide)

theorem ScanData.begin (hphase : c.phase = .minimum) (hpage : c.Active → c.page = 0)
    (hload : c.load = true → ∃ night, FromTable mem base sel night t) :
    ScanData mem base sel c t where
  minimum := by
    rintro k (h | ⟨ha, hk⟩)
    · exact absurd hphase h
    · rw [hpage ha] at hk
      exact absurd hk (Nat.not_lt_zero _)
  maximum := by
    rintro k (h | ⟨_, h, _⟩) <;> rw [hphase] at h <;> exact absurd h (by decide)
  values := by
    intro k _ h
    rw [hphase] at h
    exact absurd h (by decide)
  loaded := hload

theorem ScanData.keep (h : ScanData mem base sel c t) (hlatch : c'.nightLatch = c.nightLatch)
    (hphase : c'.phase = c.phase)
    (hpage : c'.Active → ∀ k, k < c'.page.toNat → c.Active ∧ k < c.page.toNat)
    (hload : c'.load = true → c.load = true) : ScanData mem base sel c' t where
  minimum := by
    rintro k (hm | ⟨ha, hk⟩)
    · rw [hlatch]
      exact h.minimum k (Or.inl (hphase ▸ hm))
    · rw [hlatch]
      exact h.minimum k (Or.inr (hpage ha k hk))
  maximum := by
    rintro k (hm | ⟨ha, hp, hk⟩)
    · rw [hlatch]
      exact h.maximum k (Or.inl (hphase ▸ hm))
    · obtain ⟨hact, hlt⟩ := hpage ha k hk
      rw [hlatch]
      exact h.maximum k (Or.inr ⟨hact, hphase ▸ hp, hlt⟩)
  values := by
    intro k ha hp hk
    obtain ⟨hact, hlt⟩ := hpage ha k hk
    rw [hlatch]
    exact h.values k hact (hphase ▸ hp) hlt
  loaded := fun hl => h.loaded (hload hl)

theorem phase_of_cleared (hm : c.readMinimum = false) : c.phase = .minimum := by
  simp [BkltControl.phase, hm]

theorem ScanData.step_idle (h : ScanData mem base sel c t) (hs : c.state = .idle) :
    ScanData mem base sel (c.step base i) t := by
  rw [BkltControl.step_idle hs]
  cases hn : c.nightChanges with
  | true =>
      apply ScanData.begin
      · exact phase_of_cleared (by simp)
      · exact fun _ => rfl
      · exact fun hl => absurd hl Bool.false_ne_true
  | false =>
      apply h.keep
      · exact BkltControl.nightLatch_eq hn
      · simp [BkltControl.phase]
      · exact fun _ k hk => absurd hk (Nat.not_lt_zero k)
      · exact fun hl => absurd hl Bool.false_ne_true

theorem ScanData.step_read (h : ScanData mem base sel c t) (hs : c.state = .read)
    (hr : RestartOk c i) : ScanData mem base sel (c.step base i) t := by
  have hact : c.Active := Or.inl hs
  cases ha : c.accepts i with
  | true =>
      have hn : c.nightChanges = false := by
        cases hn : c.nightChanges with
        | false => rfl
        | true =>
            rw [hr.read hn hs] at ha
            exact ha.symm
      rw [BkltControl.step_accept hs ha hn]
      apply h.keep
      · exact BkltControl.nightLatch_eq hn
      · rfl
      · exact fun _ k hk => ⟨hact, hk⟩
      · exact fun hl => absurd hl Bool.false_ne_true
  | false =>
      rw [BkltControl.step_offer hs ha]
      cases hn : c.nightChanges with
      | true =>
          apply ScanData.begin
          · exact phase_of_cleared (by simp)
          · exact fun hactive => absurd hactive (not_active rfl)
          · exact fun hl => absurd hl Bool.false_ne_true
      | false =>
          apply h.keep
          · exact BkltControl.nightLatch_eq hn
          · simp [BkltControl.phase]
          · exact fun _ k hk => ⟨hact, hk⟩
          · exact fun hl => absurd hl Bool.false_ne_true

theorem ScanData.step_wait (h : ScanData mem base sel c t) (hs : c.state = .ack)
    (hv : i.bkltReaddatavalid = false) : ScanData mem base sel (c.step base i) t := by
  have hact : c.Active := Or.inr hs
  rw [BkltControl.step_wait hs hv]
  cases hn : c.nightChanges with
  | true =>
      apply ScanData.begin
      · exact phase_of_cleared (by simp)
      · exact fun hactive => absurd hactive (not_active rfl)
      · exact h.loaded
  | false =>
      apply h.keep
      · exact BkltControl.nightLatch_eq hn
      · simp [BkltControl.phase]
      · exact fun _ k hk => ⟨hact, hk⟩
      · exact id

/-! ## A response -/

theorem response_entry (hdata : i.bkltReaddata = mem (c.nextAddress base sel)) :
    i.bkltReaddata.setWidth 12 =
      entry mem base c.nightLatch c.page (bkltIndex sel c.phase c.page) := by
  rw [hdata]
  rfl

theorem ofNat_page {k : Nat} (h : k = c.page.toNat) : BitVec.ofNat 8 k = c.page := by
  rw [h, BitVec.ofNat_toNat, BitVec.setWidth_eq]

theorem stored_minimum (h : ScanData mem base sel c t) (hs : c.state = .ack)
    (hphase : c.phase = .minimum) (hdata : i.bkltReaddata = mem (c.nextAddress base sel))
    {k : Fin 3} (hk : k.val ≤ c.page.toNat) :
    Coefficients.store t.minimum c.page.toNat (i.bkltReaddata.setWidth 12) k =
      entry mem base c.nightLatch (BitVec.ofNat 8 k.val) 0x01 := by
  by_cases heq : k.val = c.page.toNat
  · rw [store_self _ _ heq, response_entry hdata, hphase, ofNat_page heq]
    rfl
  · rw [store_of_ne _ _ heq]
    exact h.minimum k (Or.inr ⟨Or.inr hs, by omega⟩)

theorem stored_maximum (h : ScanData mem base sel c t) (hs : c.state = .ack)
    (hphase : c.phase = .maximum) (hdata : i.bkltReaddata = mem (c.nextAddress base sel))
    {k : Fin 3} (hk : k.val ≤ c.page.toNat) :
    Coefficients.store t.maximum c.page.toNat (i.bkltReaddata.setWidth 12) k =
      entry mem base c.nightLatch (BitVec.ofNat 8 k.val) 0x1F := by
  by_cases heq : k.val = c.page.toNat
  · rw [store_self _ _ heq, response_entry hdata, hphase, ofNat_page heq]
    rfl
  · rw [store_of_ne _ _ heq]
    exact h.maximum k (Or.inr ⟨Or.inr hs, hphase, by omega⟩)

theorem stored_values (h : ScanData mem base sel c t) (hs : c.state = .ack)
    (hphase : c.phase = .values) (hdata : i.bkltReaddata = mem (c.nextAddress base sel))
    (hpage : c.page < 6) {k : Fin 6} (hk : k.val ≤ c.page.toNat) :
    Coefficients.store t.values c.page.toNat (i.bkltReaddata.setWidth 12) k =
      entry mem base c.nightLatch (BitVec.ofNat 8 k.val)
        (if k.val < 3 then sel.lightCnt.setWidth 8 else sel.lightMcu.setWidth 8) := by
  by_cases heq : k.val = c.page.toNat
  · have hindex : bkltIndex sel .values c.page =
        if k.val < 3 then sel.lightCnt.setWidth 8 else sel.lightMcu.setWidth 8 := by
      have hthree : c.page < 3 ↔ k.val < 3 := by
        rw [BitVec.lt_def, heq]
        rfl
      simp only [bkltIndex, hthree, if_pos hpage]
    rw [store_self _ _ heq, response_entry hdata, hphase, ofNat_page heq, hindex]
  · rw [store_of_ne _ _ heq]
    exact h.values k (Or.inr hs) hphase (by omega)

theorem toNat_succ (hlt : c.page.toNat < 6) : (c.page + 1).toNat = c.page.toNat + 1 := by
  exact toNat_add_one (by omega)

theorem last_page {k : Nat} {b : BitVec 8} (hle : c.page.toNat ≤ k) (hb : b.toNat = k)
    (hp : ¬ c.page < b) : c.page.toNat = k := by
  have hge := BitVec.le_def.mp (BitVec.not_lt.mp hp)
  omega

theorem ScanData.step_minimum (h : ScanData mem base sel c t)
    (hc : ScanControl base sel c reads answers) (hs : c.state = .ack)
    (hv : i.bkltReaddatavalid = true) (hn : c.nightChanges = false) (hphase : c.phase = .minimum)
    (hdata : i.bkltReaddata = mem (c.nextAddress base sel)) :
    ScanData mem base sel (c.step base i) (t.step c i) := by
  have hstore : t.step c i = { t with
      minimum := Coefficients.store t.minimum c.page.toNat (i.bkltReaddata.setWidth 12) } := by
    simp [Coefficients.step, hs, hv, hphase]
  have hbound : c.page.toNat ≤ 2 := by
    have hle := hc.page (Or.inr hs)
    simpa [hphase] using hle
  have hlatch := BkltControl.nightLatch_eq hn
  rw [hstore]
  by_cases hp : c.page < 2
  · rw [BkltControl.step_more hs hv hn (by rw [hphase]; exact hp), hlatch]
    have hsucc : (c.page + 1).toNat = c.page.toNat + 1 := toNat_succ (by omega)
    constructor
    · rintro k (hm | ⟨_, hk⟩)
      · exact absurd hphase hm
      · have hle : k.val ≤ c.page.toNat := Nat.lt_succ_iff.mp (Nat.lt_of_lt_of_eq hk hsucc)
        exact stored_minimum h hs hphase hdata hle
    · rintro k (hm | ⟨_, hm, _⟩) <;> exact absurd (hphase.symm.trans hm) (by decide)
    · intro k _ hm
      exact absurd (hphase.symm.trans hm) (by decide)
    · exact fun hl => absurd hl Bool.false_ne_true
  · have hlast : c.page.toNat = 2 := last_page hbound rfl hp
    have hmax : c.readMaximum = false := by
      cases hx : c.readMaximum with
      | false => rfl
      | true =>
          have hm := hc.order hx
          simp [BkltControl.phase, hm, hx] at hphase
    rw [BkltControl.step_last_minimum hs hv hn hp hphase, hlatch]
    constructor
    · intro k _
      exact stored_minimum h hs hphase hdata (by omega)
    · rintro k (hm | ⟨ha, _⟩)
      · simp [BkltControl.phase, hmax] at hm
      · exact absurd ha (not_active rfl)
    · exact fun k ha => absurd ha (not_active rfl)
    · exact fun hl => absurd hl Bool.false_ne_true

theorem ScanData.step_maximum (h : ScanData mem base sel c t)
    (hc : ScanControl base sel c reads answers) (hs : c.state = .ack)
    (hv : i.bkltReaddatavalid = true) (hn : c.nightChanges = false) (hphase : c.phase = .maximum)
    (hdata : i.bkltReaddata = mem (c.nextAddress base sel)) :
    ScanData mem base sel (c.step base i) (t.step c i) := by
  have hstore : t.step c i = { t with
      maximum := Coefficients.store t.maximum c.page.toNat (i.bkltReaddata.setWidth 12) } := by
    simp [Coefficients.step, hs, hv, hphase]
  have hbound : c.page.toNat ≤ 2 := by
    have hle := hc.page (Or.inr hs)
    simpa [hphase] using hle
  have hlatch := BkltControl.nightLatch_eq hn
  have hminimum : ∀ k, t.minimum k = entry mem base c.nightLatch (BitVec.ofNat 8 k.val) 0x01 :=
    fun k => h.minimum k (Or.inl (by rw [hphase]; decide))
  rw [hstore]
  by_cases hp : c.page < 2
  · rw [BkltControl.step_more hs hv hn (by rw [hphase]; exact hp), hlatch]
    have hsucc : (c.page + 1).toNat = c.page.toNat + 1 := toNat_succ (by omega)
    constructor
    · exact fun k _ => hminimum k
    · rintro k (hm | ⟨_, _, hk⟩)
      · exact absurd (hphase.symm.trans hm) (by decide)
      · have hle : k.val ≤ c.page.toNat := Nat.lt_succ_iff.mp (Nat.lt_of_lt_of_eq hk hsucc)
        exact stored_maximum h hs hphase hdata hle
    · intro k _ hm
      exact absurd (hphase.symm.trans hm) (by decide)
    · exact fun hl => absurd hl Bool.false_ne_true
  · have hlast : c.page.toNat = 2 := last_page hbound rfl hp
    rw [BkltControl.step_last_maximum hs hv hn hp hphase, hlatch]
    constructor
    · exact fun k _ => hminimum k
    · intro k _
      exact stored_maximum h hs hphase hdata (by omega)
    · exact fun k ha => absurd ha (not_active rfl)
    · exact fun hl => absurd hl Bool.false_ne_true

/-- The illuminance entry is the last: now the coefficients are complete. -/
theorem complete (h : ScanData mem base sel c t) (hs : c.state = .ack) (hphase : c.phase = .values)
    (hpage : c.page.toNat = 6) (hdata : i.bkltReaddata = mem (c.nextAddress base sel)) :
    FromTable mem base sel c.nightLatch { t with illuminance := i.bkltReaddata.setWidth 12 } where
  minimum := fun k => h.minimum k (Or.inl (by rw [hphase]; decide))
  maximum := fun k => h.maximum k (Or.inl hphase)
  values := fun k => h.values k (Or.inr hs) hphase (by have := k.isLt; omega)
  illuminance := by
    have hsix : c.page = 6 := BitVec.eq_of_toNat_eq hpage
    show i.bkltReaddata.setWidth 12 = _
    rw [response_entry hdata, hphase, hsix]
    rfl

theorem ScanData.step_values (h : ScanData mem base sel c t)
    (hc : ScanControl base sel c reads answers) (hs : c.state = .ack)
    (hv : i.bkltReaddatavalid = true) (hr : RestartOk c i) (hphase : c.phase = .values)
    (hdata : i.bkltReaddata = mem (c.nextAddress base sel)) :
    ScanData mem base sel (c.step base i) (t.step c i) := by
  have hbound : c.page.toNat ≤ 6 := by
    have hle := hc.page (Or.inr hs)
    simpa [hphase] using hle
  by_cases hp : c.page < 6
  · have hn : c.nightChanges = false := by
      cases hn : c.nightChanges with
      | false => rfl
      | true => exact absurd hp (hr.ack hn hs hv).2
    have hstore : t.step c i = { t with
        values := Coefficients.store t.values c.page.toNat (i.bkltReaddata.setWidth 12) } := by
      simp only [Coefficients.step, hs, hv, hphase, if_pos hp, if_true]
    have hsucc : (c.page + 1).toNat = c.page.toNat + 1 := toNat_succ (BitVec.lt_def.mp hp)
    rw [hstore, BkltControl.step_more hs hv hn (by rw [hphase]; exact hp),
      BkltControl.nightLatch_eq hn]
    constructor
    · exact fun k _ => h.minimum k (Or.inl (by rw [hphase]; decide))
    · exact fun k _ => h.maximum k (Or.inl hphase)
    · intro k _ _ hk
      have hle : k.val ≤ c.page.toNat := Nat.lt_succ_iff.mp (Nat.lt_of_lt_of_eq hk hsucc)
      exact stored_values h hs hphase hdata hp hle
    · exact fun hl => absurd hl Bool.false_ne_true
  · have hlast : c.page.toNat = 6 := last_page hbound rfl hp
    have hstore : t.step c i = { t with illuminance := i.bkltReaddata.setWidth 12 } := by
      simp only [Coefficients.step, hs, hv, hphase, if_neg hp, if_true]
    have hdone := complete h hs hphase hlast hdata
    rw [hstore, BkltControl.step_last_values hs hv hp hphase]
    cases hn : c.nightChanges with
    | true =>
        apply ScanData.begin
        · exact phase_of_cleared (by simp)
        · exact fun ha => absurd ha (not_active rfl)
        · exact fun _ => ⟨_, hdone⟩
    | false =>
        rw [BkltControl.nightLatch_eq hn]
        constructor
        · exact fun k _ => hdone.minimum k
        · exact fun k _ => hdone.maximum k
        · exact fun k ha => absurd ha (not_active rfl)
        · exact fun _ => ⟨_, hdone⟩

theorem ScanData.step (h : ScanData mem base sel c t) (hc : ScanControl base sel c reads answers)
    (hr : RestartOk c i)
    (hdata : c.state = .ack → i.bkltReaddatavalid = true →
      i.bkltReaddata = mem (c.nextAddress base sel)) :
    ScanData mem base sel (c.step base i) (t.step c i) := by
  cases hs : c.state with
  | idle =>
      have hkept : t.step c i = t := by simp [Coefficients.step, hs]
      rw [hkept]
      exact h.step_idle hs
  | read =>
      have hkept : t.step c i = t := by simp [Coefficients.step, hs]
      rw [hkept]
      exact h.step_read hs hr
  | ack =>
      cases hv : i.bkltReaddatavalid with
      | false =>
          have hkept : t.step c i = t := by simp [Coefficients.step, hs, hv]
          rw [hkept]
          exact h.step_wait hs hv
      | true =>
          have hd := hdata hs hv
          cases hphase : c.phase with
          | values => exact h.step_values hc hs hv hr hphase hd
          | minimum =>
              have hn : c.nightChanges = false := by
                cases hn : c.nightChanges with
                | false => rfl
                | true => exact absurd (hphase.symm.trans (hr.ack hn hs hv).1) (by decide)
              exact h.step_minimum hc hs hv hn hphase hd
          | maximum =>
              have hn : c.nightChanges = false := by
                cases hn : c.nightChanges with
                | false => rfl
                | true => exact absurd (hphase.symm.trans (hr.ack hn hs hv).1) (by decide)
              exact h.step_maximum hc hs hv hn hphase hd
  | reset =>
      rw [BkltControl.step_reset hs]
      apply ScanData.begin
      · exact phase_of_cleared rfl
      · exact fun ha => absurd ha (not_active rfl)
      · exact fun hl => absurd hl Bool.false_ne_true

end Data

end Mfi.Pu
