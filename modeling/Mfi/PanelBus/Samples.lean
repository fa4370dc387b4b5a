import Mfi.PanelBus.Order

/-!
# What the panel unit samples

A reader of the response stream knows nothing of the bus, the tables or the errors: it takes
the responses in pairs, and puts the first of each pair into the register whose turn it is.
The registers of the panel unit are those of the reader: no pair is ever left out, because the
second response of a pair, the status of the bridge, is always zero.
-/

namespace Mfi.PanelBus

open Core

/-! ## The reader -/

/-- The registers in the order in which a round of the scan samples them. -/
def targets : List Pu.Target := [
  .puTypeReg,
  .buttonsState 35,
  .buttonsState 30,
  .buttonsState 25,
  .buttonsState 20,
  .buttonsState 15,
  .buttonsState 10,
  .buttonsState 5,
  .buttonsState 0,
  .encoders,
  .illuminanceLeftHigh,
  .illuminanceLeftLow,
  .illuminanceRightHigh,
  .illuminanceRightLow,
  .pwrStatusMcu,
  .lightMcuHigh,
  .lightMcuLow]

structure Reader where
  sampled : Pu.Sampled
  last : BitVec 8
  count : Nat

namespace Reader

def init : Reader := ⟨.init, 0, 0⟩

def take (r : Reader) (d : BitVec 8) : Reader :=
  if r.count % 2 = 0 then { r with last := d, count := r.count + 1 }
  else
    { r with
      sampled := r.sampled.sample r.last targets[r.count / 2 % 17]?, count := r.count + 1 }

def of (l : List (BitVec 8)) : Reader := l.foldl take init

theorem take_first {r : Reader} (h : r.count % 2 = 0) (d : BitVec 8) :
    r.take d = { r with last := d, count := r.count + 1 } := if_pos h

theorem take_second {r : Reader} (h : r.count % 2 = 1) (d : BitVec 8) :
    r.take d = { r with
      sampled := r.sampled.sample r.last targets[r.count / 2 % 17]?, count := r.count + 1 } :=
  if_neg (by omega)

end Reader

/-! ## The tables -/

/-- The reads of `work_array` before an index. -/
def readsBefore : Nat → Nat
  | 0 => 0
  | j + 1 =>
      if (Pu.workArray.getD j Pu.statusRead).operation = .read then readsBefore j + 1
      else readsBefore j

theorem readsBefore_end : readsBefore 44 = 34 := by decide

theorem readsBefore_status : ∀ j < 44, Pu.workArray.getD j Pu.statusRead = Pu.statusRead →
    readsBefore j % 2 = 1 ∧ targets[readsBefore j / 2]? = Pu.targetAt (BitVec.ofNat 8 j) ∧
      readsBefore j < 34 := by
  decide

theorem readsBefore_own : ∀ j < 44, (Pu.workArray.getD j Pu.statusRead).operation = .read →
    Pu.workArray.getD j Pu.statusRead ≠ Pu.statusRead → readsBefore j % 2 = 0 := by
  decide

theorem own_before_status : ∀ j < 44, Pu.workArray.getD j Pu.statusRead = Pu.statusRead →
    0 < j ∧ (Pu.workArray.getD (j - 1) Pu.statusRead).operation = .read ∧
      Pu.workArray.getD (j - 1) Pu.statusRead ≠ Pu.statusRead := by
  decide

/-! ## The reader and the machine -/

/-- The reader has taken the responses that the machine has taken. -/
structure Follows (b : Pu.ScanBus) (s : Pu.Sampled) (r : Reader) : Prop where
  sampled : s = r.sampled
  count : r.count % 34 = if b.ammInitDone then readsBefore b.ammIndex.toNat % 34 else 0
  last : b.ammInitDone = true → b.ammState ≠ .write → ∀ j, b.ammIndex.toNat = j + 1 →
    (Pu.workArray.getD j Pu.statusRead).operation = .read →
    Pu.workArray.getD j Pu.statusRead ≠ Pu.statusRead → r.last = b.ammDataD
  start : b.ammState = .reset → r = .init

namespace Follows

variable {b : Pu.ScanBus} {p : AmsI2c.Port} {s : Pu.Sampled} {r : Reader} {i : Pu.AmmInput}

theorem init : Follows .init .init .init where
  sampled := rfl
  count := rfl
  last := nofun
  start := fun _ => rfl

theorem sampled_quiet (hs : b.ammState ≠ .ack ∨ i.ammReaddatavalid = false)
    (hr : b.ammState ≠ .reset) : s.step b i = s := by
  have hsamples : b.samples i = false := by
    unfold Pu.ScanBus.samples
    rcases hs with hs | hs
    · simp [hs]
    · simp [hs]
  unfold Pu.Sampled.step
  cases hst : b.ammState with
  | reset => exact absurd hst hr
  | idle => simp [hsamples]
  | write => simp [hsamples]
  | read => simp [hsamples]
  | ack => simp [hsamples]

theorem quiet_step (h : Follows b s r) (hon : b.OnBus 0)
    (hv : b.ammState = .ack → i.ammReaddatavalid = false) :
    Follows (b.step 0 i) (s.step b i) r := by
  generalize hb : b.step 0 i = b'
  have hmove : Pu.ScanBus.Moves 0 b i b' := by
    rw [← hb]
    exact Pu.ScanBus.moves_step
  cases hmove with
  | fetchWrite hs hi ho =>
      rw [sampled_quiet (.inl (by simp [hs])) (by simp [hs])]
      exact ⟨h.sampled, h.count, fun _ hne => absurd rfl hne, fun hr => by simp at hr⟩
  | fetchRead hs hi ho =>
      rw [sampled_quiet (.inl (by simp [hs])) (by simp [hs])]
      exact ⟨h.sampled, h.count, fun hd _ => h.last hd (by simp [hs]), fun hr => by simp at hr⟩
  | wrap hs hi =>
      rw [sampled_quiet (.inl (by simp [hs])) (by simp [hs])]
      refine ⟨h.sampled, ?_, fun _ _ _ hj => absurd hj.symm (Nat.succ_ne_zero _),
        fun hr => absurd (hs.symm.trans hr) (by simp)⟩
      have hend : b.ammIndex.toNat = b.limit := Nat.le_antisymm hon.index hi
      have hcount := h.count
      show r.count % 34 = 0
      rw [hend, Pu.ScanBus.limit] at hcount
      cases hd : b.ammInitDone with
      | false => simpa [hd] using hcount
      | true => simpa [hd, readsBefore_end] using hcount
  | drive hs ha =>
      rw [sampled_quiet (.inl (by simp [hs])) (by simp [hs])]
      exact ⟨h.sampled, h.count, h.last, h.start⟩
  | ask hs ha =>
      rw [sampled_quiet (.inl (by simp [hs])) (by simp [hs])]
      exact ⟨h.sampled, h.count, h.last, h.start⟩
  | written hs ha =>
      rw [sampled_quiet (.inl (by simp [hs])) (by simp [hs])]
      obtain ⟨hc, _⟩ := hon.write hs
      have hindex := Pu.ScanBus.toNat_index_succ hc.index
      have hop : b.ammInitDone = true →
          (Pu.workArray.getD b.ammIndex.toNat Pu.statusRead).operation = .write := by
        intro hd
        rw [← (Pu.InOrder.entry_work b 0 hd).1]
        exact hc.operation
      refine ⟨h.sampled, ?_, ?_, fun hr => by simp at hr⟩
      · have hcount := h.count
        show r.count % 34 = if b.ammInitDone then readsBefore (b.ammIndex + 1).toNat % 34 else 0
        rw [hindex, readsBefore]
        cases hd : b.ammInitDone with
        | false => simpa [hd] using hcount
        | true =>
            rw [hd, if_pos rfl] at hcount
            rw [if_pos rfl, hop hd, if_neg (by simp)]
            exact hcount
      · intro hd _ j hj hread
        change (b.ammIndex + 1).toNat = j + 1 at hj
        have hthis := hop hd
        rw [show b.ammIndex.toNat = j by omega, hread] at hthis
        simp at hthis
  | asked hs ha =>
      rw [sampled_quiet (.inl (by simp [hs])) (by simp [hs])]
      exact ⟨h.sampled, h.count, fun hd _ => h.last hd (by simp [hs]), fun hr => by simp at hr⟩
  | await hs hv' =>
      rw [sampled_quiet (.inr hv') (by simp [hs])]
      exact ⟨h.sampled, h.count, h.last, h.start⟩
  | answered hs hv' => exact absurd ((hv hs).symm.trans hv') Bool.false_ne_true
  | start hs =>
      have hreset : s.step b i = .init := by
        unfold Pu.Sampled.step
        rw [hs]
      rw [hreset, h.start hs]
      exact ⟨rfl, rfl, fun hd => by simp at hd, fun hr => by simp at hr⟩

/-- A response to a read of `work_array`. The status of the bridge is zero. -/
theorem answered_step (h : Follows b s r) (hon : b.OnBus 0) (hs : b.ammState = .ack)
    (hv : i.ammReaddatavalid = true)
    (hzero : b.ammAddressD.getLsbD 8 = true → i.ammReaddata = 0) :
    Follows (b.step 0 i) (s.step b i) (r.take i.ammReaddata) := by
  have hd := Pu.InOrder.ack_done hon hs
  have hc := hon.ack hs
  have hi := hc.index
  rw [Pu.ScanBus.limit, hd] at hi
  obtain ⟨hentry, hupper⟩ := Pu.InOrder.entry_work b 0 hd
  have hread := hc.operation
  rw [hentry] at hread
  have hindex := Pu.ScanBus.toNat_index_succ hc.index
  have hcount := h.count
  rw [hd, if_pos rfl] at hcount
  have hbus : b.step 0 i =
      { b.release with
        ammTransaction := false, ammDataD := i.ammReaddata, ammIndex := b.ammIndex + 1
        ammState := .idle } := by
    simp [Pu.ScanBus.step, hs, hv]
  have hsampled : s.step b i =
      if b.samples i then s.sample b.ammDataD (Pu.targetAt b.ammIndex) else s := by
    unfold Pu.Sampled.step
    rw [hs]
  have hsamples : b.samples i = (i.ammReaddata.extractLsb' 0 2 == 0#2) := by
    unfold Pu.ScanBus.samples
    rw [hs, hv, hd]
    rfl
  have hnext : readsBefore (b.ammIndex + 1).toNat = readsBefore b.ammIndex.toNat + 1 := by
    rw [hindex, readsBefore, if_pos hread]
  rw [hbus, hsampled]
  by_cases hstatus : Pu.workArray.getD b.ammIndex.toNat Pu.statusRead = Pu.statusRead
  · obtain ⟨hodd, htarget, hlt⟩ := readsBefore_status b.ammIndex.toNat hi hstatus
    obtain ⟨hpos, hown, hother⟩ := own_before_status b.ammIndex.toNat hi hstatus
    have hlast := h.last hd (by simp [hs]) (b.ammIndex.toNat - 1) (by omega) hown hother
    have hbit : b.ammAddressD.getLsbD 8 = true := by
      rw [hc.address, hentry, hstatus, hupper]
      rfl
    rw [BitVec.ofNat_toNat, BitVec.setWidth_eq] at htarget
    rw [hsamples, hzero hbit, if_pos (by decide), Reader.take_second (by omega), ← htarget,
      show readsBefore b.ammIndex.toNat / 2 = r.count / 2 % 17 by omega]
    refine ⟨?_, ?_, ?_, fun hr => by simp at hr⟩
    · rw [h.sampled, hlast]
    · show (r.count + 1) % 34 = if b.ammInitDone then readsBefore (b.ammIndex + 1).toNat % 34 else 0
      rw [hd, if_pos rfl, hnext]
      omega
    · intro _ _ j hj _ hne
      change (b.ammIndex + 1).toNat = j + 1 at hj
      rw [show j = b.ammIndex.toNat by omega] at hne
      exact absurd hstatus hne
  · have heven := readsBefore_own b.ammIndex.toNat hi hread hstatus
    have htarget := Pu.targetAt_other b.ammIndex.toNat hi hstatus
    rw [BitVec.ofNat_toNat, BitVec.setWidth_eq] at htarget
    rw [htarget, Reader.take_first (by omega)]
    refine ⟨?_, ?_, fun _ _ _ _ _ _ => rfl, fun hr => by simp at hr⟩
    · rw [← h.sampled]
      exact ite_self _
    · show (r.count + 1) % 34 = if b.ammInitDone then readsBefore (b.ammIndex + 1).toNat % 34 else 0
      rw [hd, if_pos rfl, hnext]
      omega

theorem step (h : Follows b s r) (hl : Linked b p) (hon : b.OnBus 0) :
    Follows (b.step 0 (ammInput p)) (s.step b (ammInput p)) (p.response.toList.foldl Reader.take r)
    := by
  have hnone : p.amsReaddatavalid = false → p.response = none := by
    intro hv
    rw [AmsI2c.Port.response, hv]
    rfl
  cases hl with
  | ready hp hw hv hb =>
      rw [hnone hv]
      exact h.quiet_step hon fun _ => hv
  | taken hp hw hv hb ht hc =>
      rw [hnone hv]
      exact h.quiet_step hon fun _ => hv
  | serving hp hw hv hb hc =>
      rw [hnone hv]
      exact h.quiet_step hon fun _ => hv
  | answered hp hw hv hb hd =>
      have hsome : p.response = some p.amsReaddata := if_pos hv
      rw [hsome]
      exact h.answered_step hon hb hv hd

end Follows

/-! ## The run -/

/-- The response that the panel unit sees in cycle `n`. -/
def Panel.response (q : Panel) (inp : Nat → PanelInput) (n : Nat) : Option (BitVec 8) :=
  (q.run inp n).bridge.port.response

theorem account_responses (q : Panel) (inp : Nat → PanelInput) (n : Nat) :
    (q.account inp n).responses = events (q.response inp) (n + 1) := by
  induction n with
  | zero => rfl
  | succ n ih =>
      rw [events_succ, ← ih, Panel.response, Panel.run_bridge]
      rfl

theorem follows_run (q : Panel) (inp : Nat → PanelInput) (n : Nat) :
    Follows (q.run inp n).pu.bus (q.run inp n).pu.sampled (.of (events (q.response inp) n)) := by
  induction n with
  | zero => exact Follows.init
  | succ n ih =>
      rw [events_succ, Reader.of, List.foldl_append]
      exact ih.step (q.linked inp n) (q.onBus inp n)

/-- Every byte that a register read returns is sampled, in the order of the tables, into the
register that it belongs to; the errors of the bridge never keep one out, whoever acknowledges
or does not. -/
theorem samples_every_byte (q : Panel) (inp : Nat → PanelInput) (n : Nat) :
    (q.run inp (n + 1)).pu.sampled = (Reader.of (q.account inp n).responses).sampled := by
  rw [account_responses]
  exact (follows_run q inp (n + 1)).sampled

end Mfi.PanelBus
