import Mfi.Core.Events
import Mfi.Pu.ScanMoves

/-!
# The order of the scan

The observer of the bus sees `init_array` once and then `work_array` for ever; and what
the registers sample is told by the read before the status read and by the last write, not
only by the running index of the machine.
-/

namespace Mfi.Pu

open Core

/-! ## The observer and the machine -/

namespace Observer

variable {o : Observer} {b : ScanBus} {i : AmmInput} {c : BusCommand}

theorem response_none (hp : o.pending = none) : o.response i = none := by
  unfold response
  rw [hp]
  cases i.ammReaddatavalid <;> rfl

theorem step_quiet (hr : o.response i = none) (ha : b.accepted i = none) : o.step b i = o := by
  simp only [step, hr, ha]

theorem step_written (hr : o.response i = none) (ha : b.accepted i = some c)
    (hc : c.operation = .write) : o.step b i = { o with lastWrite := some c } := by
  simp only [step, hr, ha, if_pos hc]

theorem step_asked (hr : o.response i = none) (ha : b.accepted i = some c)
    (hc : c.operation = .read) : o.step b i = { o with pending := some c } := by
  have hne : c.operation ≠ .write := by
    rw [hc]
    decide
  simp only [step, hr, ha, if_neg hne]

theorem step_answered (hp : o.pending = some c) (hv : i.ammReaddatavalid = true)
    (ha : b.accepted i = none) :
    o.step b i = { o with pending := none, lastRead := some (c, i.ammReaddata) } := by
  have hr : o.response i = some (c, i.ammReaddata) := by
    unfold response
    rw [hp, hv]
    rfl
  simp only [step, hr, ha]

end Observer

def ScanBus.taken (b : ScanBus) : Nat := if b.ammState = .ack then 1 else 0

/-- What the observer has seen after `k` commands agrees with the registers. -/
structure InOrder (base : BitVec 32) (b : ScanBus) (o : Observer) (k : Nat) : Prop where
  position : ∃ q, k = (if b.ammInitDone then 12 + 44 * q else 0) + b.ammIndex.toNat + b.taken
  start : b.ammState = .reset → k = 0
  pending : o.pending =
    if b.ammState = .ack then some (command (b.upper base) b.entry) else none
  lastWrite : b.ammInitDone = true → ∀ w, lastWriteBefore workArray b.ammIndex.toNat = some w →
    o.lastWrite = some (command 0 w)
  lastRead : b.ammInitDone = true → b.ammState ≠ .write → ∀ j, b.ammIndex.toNat = j + 1 →
    (workArray.getD j statusRead).operation = .read →
    o.lastRead = some (command 0 (workArray.getD j statusRead), b.ammDataD)

namespace InOrder

variable {base : BitVec 32} {b : ScanBus} {o : Observer} {k : Nat} {i : AmmInput}

theorem init : InOrder base ScanBus.init Observer.init 0 where
  position := ⟨0, rfl⟩
  start := fun _ => rfl
  pending := rfl
  lastWrite := nofun
  lastRead := nofun

theorem not_pending (h : InOrder base b o k) (hs : b.ammState ≠ .ack) : o.pending = none := by
  rw [h.pending, if_neg hs]

theorem is_pending (h : InOrder base b o k) (hs : b.ammState = .ack) :
    o.pending = some (command (b.upper base) b.entry) := by
  rw [h.pending, if_pos hs]

theorem schedule_eq (h : InOrder base b o k) (hi : b.ammIndex.toNat < b.limit)
    (hs : b.ammState ≠ .ack) : schedule base k = command (b.upper base) b.entry := by
  obtain ⟨q, hk⟩ := h.position
  rw [ScanBus.taken, if_neg hs] at hk
  unfold ScanBus.limit at hi
  unfold schedule ScanBus.upper ScanBus.entry ScanBus.table entryAt
  cases hd : b.ammInitDone with
  | false =>
      simp only [hd, Bool.false_eq_true, if_false] at hk hi
      have hidx : k = b.ammIndex.toNat := by omega
      rw [if_pos (by omega), hidx]
      rfl
  | true =>
      simp only [hd, if_true] at hk hi
      have hidx : (k - 12) % 44 = b.ammIndex.toNat := by omega
      rw [if_neg (by omega), hidx]
      rfl

theorem quiet_step (h : InOrder base b o k) (hs : b.ammState ≠ .ack)
    (ha : b.accepted i = none) : o.step b i = o :=
  Observer.step_quiet (Observer.response_none (h.not_pending hs)) ha

theorem lastWriteBefore_succ_write {table : List OpEntry} {j : Nat}
    (h : (table.getD j statusRead).operation = .write) :
    lastWriteBefore table (j + 1) = some (table.getD j statusRead) := by
  rw [lastWriteBefore, if_pos h]

theorem lastWriteBefore_succ_read {table : List OpEntry} {j : Nat}
    (h : (table.getD j statusRead).operation = .read) :
    lastWriteBefore table (j + 1) = lastWriteBefore table j := by
  rw [lastWriteBefore, h]
  rfl

theorem entry_work (b : ScanBus) (base : BitVec 32) (hd : b.ammInitDone = true) :
    b.entry = workArray.getD b.ammIndex.toNat statusRead ∧ b.upper base = 0 := by
  unfold ScanBus.entry ScanBus.table ScanBus.upper
  rw [hd]
  exact ⟨rfl, rfl⟩

/-- The observer still agrees after a cycle that changes no more than the lines. -/
theorem keep (ho : InOrder base b o k) {b' : ScanBus} (hs : b.ammState ≠ .ack)
    (hs' : b'.ammState ≠ .ack) (hr : b'.ammState ≠ .reset) (hd : b'.ammInitDone = b.ammInitDone)
    (hi : b'.ammIndex = b.ammIndex)
    (hw : b'.ammState ≠ .write → b.ammState ≠ .write ∧ b'.ammDataD = b.ammDataD) :
    InOrder base b' o k where
  position := by
    obtain ⟨q, hk⟩ := ho.position
    refine ⟨q, ?_⟩
    rw [hk, hd, hi, ScanBus.taken, ScanBus.taken, if_neg hs, if_neg hs']
  start := fun h => absurd h hr
  pending := by rw [if_neg hs', ho.not_pending hs]
  lastWrite := by
    rw [hd, hi]
    exact ho.lastWrite
  lastRead := by
    rw [hd, hi]
    intro hdone hne
    obtain ⟨hne', hdata⟩ := hw hne
    rw [hdata]
    exact ho.lastRead hdone hne'

theorem written (h : b.OnBus base) (ho : InOrder base b o k) (hs : b.ammState = .write)
    (ha : b.accepts i = true) :
    InOrder base { b.release with ammIndex := b.ammIndex + 1, ammState := .idle } (o.step b i)
      (k + 1) := by
  obtain ⟨hc, _⟩ := h.write hs
  have hne : b.ammState ≠ .ack := by rw [hs]; decide
  have hindex := ScanBus.toNat_index_succ hc.index
  have hobs := Observer.step_written (Observer.response_none (ho.not_pending hne))
    (ScanBus.accepted_written h hs ha) hc.operation
  rw [hobs]
  obtain ⟨q, hk⟩ := ho.position
  rw [ScanBus.taken, if_neg hne] at hk
  refine ⟨⟨q, ?_⟩, nofun, ho.not_pending hne, ?_, ?_⟩
  · show k + 1 = (if b.ammInitDone then 12 + 44 * q else 0) + (b.ammIndex + 1).toNat + 0
    omega
  · intro hd w hlast
    obtain ⟨hentry, hupper⟩ := entry_work b base hd
    have hop := hc.operation
    rw [hentry] at hop
    change lastWriteBefore workArray (b.ammIndex + 1).toNat = some w at hlast
    rw [hindex, lastWriteBefore_succ_write hop, ← hentry] at hlast
    rw [hupper, Option.some.inj hlast]
  · intro hd _ j hj hread
    obtain ⟨hentry, _⟩ := entry_work b base hd
    have hop := hc.operation
    change (b.ammIndex + 1).toNat = j + 1 at hj
    rw [hentry, show b.ammIndex.toNat = j by omega, hread] at hop
    exact absurd hop (by decide)

theorem asked (h : b.OnBus base) (ho : InOrder base b o k) (hs : b.ammState = .read)
    (ha : b.accepts i = true) :
    InOrder base { b.release with ammState := .ack } (o.step b i) (k + 1) := by
  obtain ⟨hc, _⟩ := h.read hs
  have hne : b.ammState ≠ .ack := by rw [hs]; decide
  have hobs := Observer.step_asked (Observer.response_none (ho.not_pending hne))
    (ScanBus.accepted_asked h hs ha) hc.operation
  rw [hobs]
  obtain ⟨q, hk⟩ := ho.position
  rw [ScanBus.taken, if_neg hne] at hk
  refine ⟨⟨q, ?_⟩, nofun, rfl, ho.lastWrite, ?_⟩
  · show k + 1 = (if b.ammInitDone then 12 + 44 * q else 0) + b.ammIndex.toNat + 1
    omega
  · intro hd _
    exact ho.lastRead hd (by rw [hs]; decide)

theorem answered (h : b.OnBus base) (ho : InOrder base b o k) (hs : b.ammState = .ack)
    (hv : i.ammReaddatavalid = true) :
    InOrder base
      { b.release with
        ammTransaction := false, ammDataD := i.ammReaddata, ammIndex := b.ammIndex + 1
        ammState := .idle } (o.step b i) k := by
  have hc := h.ack hs
  have hindex := ScanBus.toNat_index_succ hc.index
  have hquiet := ScanBus.accepted_at_rest (i := i) h (by rw [hs]; decide) (by rw [hs]; decide)
  rw [Observer.step_answered (ho.is_pending hs) hv hquiet]
  obtain ⟨q, hk⟩ := ho.position
  rw [ScanBus.taken, if_pos hs] at hk
  refine ⟨⟨q, ?_⟩, nofun, rfl, ?_, ?_⟩
  · show k = (if b.ammInitDone then 12 + 44 * q else 0) + (b.ammIndex + 1).toNat + 0
    omega
  · intro hd w hlast
    obtain ⟨hentry, _⟩ := entry_work b base hd
    have hop := hc.operation
    rw [hentry] at hop
    change lastWriteBefore workArray (b.ammIndex + 1).toNat = some w at hlast
    rw [hindex, lastWriteBefore_succ_read hop] at hlast
    exact ho.lastWrite hd w hlast
  · intro hd _ j hj _
    obtain ⟨hentry, hupper⟩ := entry_work b base hd
    change (b.ammIndex + 1).toNat = j + 1 at hj
    rw [hupper, hentry, show b.ammIndex.toNat = j by omega]

theorem wrap (h : b.OnBus base) (ho : InOrder base b o k) (hs : b.ammState = .idle)
    (hi : b.limit ≤ b.ammIndex.toNat) :
    InOrder base { b.release with ammTransaction := false, ammInitDone := true, ammIndex := 0 } o
      k := by
  have hne : b.ammState ≠ .ack := by rw [hs]; decide
  have hend : b.ammIndex.toNat = b.limit := Nat.le_antisymm h.index hi
  obtain ⟨q, hk⟩ := ho.position
  rw [hend, ScanBus.taken, if_neg hne, ScanBus.limit] at hk
  have htaken : (b.release).taken = 0 := if_neg hne
  refine ⟨⟨if b.ammInitDone then q + 1 else 0, ?_⟩, ?_, ?_, nofun, nofun⟩
  · show k = 12 + 44 * (if b.ammInitDone then q + 1 else 0) + 0 + (b.release).taken
    rw [htaken]
    cases hd : b.ammInitDone with
    | false =>
        rw [hd] at hk
        exact hk
    | true =>
        simp only [hd, if_true] at hk ⊢
        omega
  · intro hreset
    exact absurd (hs.symm.trans hreset) (by decide)
  · rw [ho.not_pending hne]
    exact (if_neg hne).symm

theorem rest_step (h : b.OnBus base) (ho : InOrder base b o k)
    (hs : b.ammState = .idle ∨ b.ammState = .reset) :
    b.accepted i = none ∧ o.step b i = o ∧ b.ammState ≠ .ack := by
  have hother : b.ammState ≠ .write ∧ b.ammState ≠ .read ∧ b.ammState ≠ .ack := by
    rcases hs with hs | hs
    · rw [hs]
      exact ⟨nofun, nofun, nofun⟩
    · rw [hs]
      exact ⟨nofun, nofun, nofun⟩
  have hquiet := ScanBus.accepted_at_rest (i := i) h hother.1 hother.2.1
  exact ⟨hquiet, ho.quiet_step hother.2.2 hquiet, hother.2.2⟩

theorem refused_step (h : b.OnBus base) (ho : InOrder base b o k)
    (hs : b.ammState = .write ∨ b.ammState = .read) (ha : b.accepts i = false) :
    b.accepted i = none ∧ o.step b i = o ∧ b.ammState ≠ .ack ∧ b.ammState ≠ .reset := by
  have hother : b.ammState ≠ .ack ∧ b.ammState ≠ .reset := by
    rcases hs with hs | hs
    · rw [hs]
      exact ⟨nofun, nofun⟩
    · rw [hs]
      exact ⟨nofun, nofun⟩
  have hquiet := ScanBus.accepted_refused (i := i) h hs ha
  exact ⟨hquiet, ho.quiet_step hother.1 hquiet, hother⟩

theorem step (h : b.OnBus base) (ho : InOrder base b o k) :
    InOrder base (b.step base i) (o.step b i) (k + (b.accepted i).toList.length) := by
  generalize hb : b.step base i = b'
  have hmove : ScanBus.Moves base b i b' := by
    rw [← hb]
    exact ScanBus.moves_step
  cases hmove with
  | fetchWrite hs hi hop =>
      obtain ⟨hquiet, hsame, hne⟩ := ho.rest_step (i := i) h (.inl hs)
      rw [hquiet, hsame]
      exact ho.keep hne nofun nofun rfl rfl (fun hw => absurd rfl hw)
  | fetchRead hs hi hop =>
      obtain ⟨hquiet, hsame, hne⟩ := ho.rest_step (i := i) h (.inl hs)
      rw [hquiet, hsame]
      exact ho.keep hne nofun nofun rfl rfl (fun _ => ⟨by rw [hs]; nofun, rfl⟩)
  | wrap hs hi =>
      obtain ⟨hquiet, hsame, _⟩ := ho.rest_step (i := i) h (.inl hs)
      rw [hquiet, hsame]
      exact wrap h ho hs hi
  | drive hs ha =>
      obtain ⟨hquiet, hsame, hne, hrun⟩ := ho.refused_step h (.inl hs) ha
      rw [hquiet, hsame]
      exact ho.keep hne hne hrun rfl rfl (fun hw => ⟨hw, rfl⟩)
  | ask hs ha =>
      obtain ⟨hquiet, hsame, hne, hrun⟩ := ho.refused_step h (.inr hs) ha
      rw [hquiet, hsame]
      exact ho.keep hne hne hrun rfl rfl (fun hw => ⟨hw, rfl⟩)
  | written hs ha =>
      rw [ScanBus.accepted_written h hs ha]
      exact written h ho hs ha
  | asked hs ha =>
      rw [ScanBus.accepted_asked h hs ha]
      exact asked h ho hs ha
  | await hs hv =>
      have hquiet := ScanBus.accepted_at_rest (i := i) h (by rw [hs]; nofun) (by rw [hs]; nofun)
      have hresponse : o.response i = none := by rw [Observer.response, hv]; rfl
      rw [hquiet, Observer.step_quiet hresponse hquiet]
      exact ⟨ho.position, ho.start, ho.pending, ho.lastWrite, ho.lastRead⟩
  | answered hs hv =>
      rw [ScanBus.accepted_at_rest h (by rw [hs]; nofun) (by rw [hs]; nofun)]
      exact answered h ho hs hv
  | start hs =>
      obtain ⟨hquiet, hsame, hne⟩ := ho.rest_step (i := i) h (.inr hs)
      rw [hquiet, hsame, ho.start hs]
      exact ⟨⟨0, rfl⟩, nofun, ho.not_pending hne, nofun, nofun⟩

theorem ack_done (h : b.OnBus base) (hs : b.ammState = .ack) : b.ammInitDone = true := by
  have hc := h.ack hs
  have hop := hc.operation
  have hi := hc.index
  unfold ScanBus.limit at hi
  unfold ScanBus.entry ScanBus.table entryAt at hop
  cases hd : b.ammInitDone with
  | true => rfl
  | false =>
      rw [hd] at hop hi
      have hwrite := initArray_writes b.ammIndex.toNat hi
      exact absurd (hwrite.symm.trans hop) (by decide)

theorem targetAt_eq (ho : InOrder base b o k) (hd : b.ammInitDone = true)
    (hi : b.ammIndex.toNat < 44)
    (hstatus : workArray.getD b.ammIndex.toNat statusRead = statusRead) :
    targetAt b.ammIndex =
      readTarget (command 0 (workArray.getD (b.ammIndex.toNat - 1) statusRead)) o.lastWrite := by
  have htarget := targetAt_status b.ammIndex.toNat hi hstatus
  rw [BitVec.ofNat_toNat, BitVec.setWidth_eq] at htarget
  rw [htarget]
  cases hlast : lastWriteBefore workArray b.ammIndex.toNat with
  | some w => rw [ho.lastWrite hd w hlast, Option.map_some]
  | none =>
      -- only the type of the unit is read before the first write, and no write selects it
      rw [lastWriteBefore_none b.ammIndex.toNat hi hstatus hlast]
      rfl

theorem accepted_eq (h : b.OnBus base) (ho : InOrder base b o k) {c : BusCommand}
    (ha : b.accepted i = some c) : c = schedule base k := by
  by_cases hs : b.ammState = .write ∨ b.ammState = .read
  case neg =>
    obtain ⟨hw, hr⟩ := not_or.mp hs
    exact absurd ((ScanBus.accepted_at_rest h hw hr).symm.trans ha) nofun
  cases hacc : b.accepts i with
  | false => exact absurd ((ScanBus.accepted_refused h hs hacc).symm.trans ha) nofun
  | true =>
      rcases hs with hs | hs
      · have hne : b.ammState ≠ .ack := by rw [hs]; decide
        have hentry := ScanBus.accepted_written h hs hacc
        rw [ho.schedule_eq (h.write hs).1.index hne]
        exact Option.some.inj (ha.symm.trans hentry)
      · have hne : b.ammState ≠ .ack := by rw [hs]; decide
        have hentry := ScanBus.accepted_asked h hs hacc
        rw [ho.schedule_eq (h.read hs).1.index hne]
        exact Option.some.inj (ha.symm.trans hentry)

theorem no_response (ho : InOrder base b o k)
    (hack : ¬ (b.ammState = .ack ∧ i.ammReaddatavalid = true)) :
    o.response i = none ∧ b.samples i = false := by
  constructor
  · by_cases hst : b.ammState = .ack
    · unfold Observer.response
      rw [if_neg (fun hv => hack ⟨hst, hv⟩)]
    · exact Observer.response_none (ho.not_pending hst)
  · unfold ScanBus.samples
    grind

/-- A response is to an entry of `work_array`; it is sampled if its low bits are 00. -/
theorem work_response (h : b.OnBus base) (ho : InOrder base b o k) (hst : b.ammState = .ack)
    (hv : i.ammReaddatavalid = true) :
    b.ammInitDone = true ∧ b.ammIndex.toNat < 44 ∧
    o.response i = some (command 0 (workArray.getD b.ammIndex.toNat statusRead), i.ammReaddata) ∧
    b.samples i = (i.ammReaddata.extractLsb' 0 2 == 0#2) := by
  have hd := ack_done h hst
  have hi := (h.ack hst).index
  rw [ScanBus.limit, hd] at hi
  obtain ⟨hentry, hupper⟩ := entry_work b base hd
  refine ⟨hd, hi, ?_, ?_⟩
  · rw [Observer.response, if_pos hv, ho.is_pending hst, hupper, hentry]
    rfl
  · unfold ScanBus.samples
    rw [hst, hv, hd]
    rfl

/-- The byte that is sampled is that of the read before the status read, and goes where
this read tells. -/
theorem sample_eq (h : b.OnBus base) (ho : InOrder base b o k) (s : Sampled)
    (hs : b.ammState ≠ .reset) : s.step b i = s.observe o i := by
  have hstep : s.step b i =
      if b.samples i then s.sample b.ammDataD (targetAt b.ammIndex) else s := by
    unfold Sampled.step
    cases hst : b.ammState with
    | reset => exact absurd hst hs
    | idle => rfl
    | write => rfl
    | read => rfl
    | ack => rfl
  rw [hstep]
  by_cases hack : b.ammState = .ack ∧ i.ammReaddatavalid = true
  case neg =>
    obtain ⟨hresponse, hquiet⟩ := ho.no_response hack
    rw [hquiet, Sampled.observe, hresponse]
    rfl
  obtain ⟨hst, hv⟩ := hack
  obtain ⟨hd, hi, hresponse, hsamples⟩ := ho.work_response h hst hv
  by_cases hstatus : workArray.getD b.ammIndex.toNat statusRead = statusRead
  case neg =>
    have htarget := targetAt_other b.ammIndex.toNat hi hstatus
    rw [BitVec.ofNat_toNat, BitVec.setWidth_eq] at htarget
    have hother : command 0 (workArray.getD b.ammIndex.toNat statusRead) ≠
        command 0 statusRead := fun heq => hstatus (command_status _ hi heq)
    rw [htarget, Sampled.observe, hresponse]
    cases o.lastRead with
    | none => simp only [Sampled.sample, ite_self]
    | some r =>
        simp only [Sampled.sample, ite_self]
        rw [if_neg (fun hboth => hother hboth.1)]
  obtain ⟨hpos, hread⟩ := status_after_read b.ammIndex.toNat hi hstatus
  have hlast := ho.lastRead hd (by rw [hst]; decide) (b.ammIndex.toNat - 1) (by omega) hread
  rw [Sampled.observe, hresponse, hlast, hstatus, hsamples, targetAt_eq ho hd hi hstatus]
  simp only [true_and, beq_iff_eq]

end InOrder

/-! ## Progress -/

section Progress

variable {base : BitVec 32} {bus : Nat → ScanBus} {amm : Nat → AmmInput} {n m : Nat}

theorem lines_step {b : ScanBus} {i : AmmInput} (hs : b.ammState = .write ∨ b.ammState = .read)
    (ha : b.accepts i = false) :
    (b.step base i).ammWrite = true ∨ (b.step base i).ammRead = true := by
  rcases hs with hs | hs
  · left
    simp [ScanBus.step, hs, ha]
  · right
    simp [ScanBus.step, hs, ha]

theorem accepted_of_ready {b : ScanBus} {i : AmmInput} (hw : i.ammWaitrequest = false)
    (hl : b.ammWrite = true ∨ b.ammRead = true) : b.accepted i ≠ none := by
  unfold ScanBus.accepted
  rw [hw]
  rcases hl with hl | hl
  · simp [hl]
  · cases hb : b.ammWrite <;> simp [hl]

theorem accepted_of_accepts {b : ScanBus} {i : AmmInput} (h : b.OnBus base)
    (hs : b.ammState = .write ∨ b.ammState = .read) (ha : b.accepts i = true) :
    b.accepted i ≠ none := by
  rcases hs with hs | hs
  · rw [ScanBus.accepted_written h hs ha]
    exact Option.some_ne_none _
  · rw [ScanBus.accepted_asked h hs ha]
    exact Option.some_ne_none _

variable (hrun : ∀ n, bus (n + 1) = (bus n).step base (amm n))
include hrun

theorem exists_accepted_of_lines (hmn : n ≤ m) (hw : (amm m).ammWaitrequest = false)
    (hs : (bus n).ammState = .write ∨ (bus n).ammState = .read)
    (hl : (bus n).ammWrite = true ∨ (bus n).ammRead = true) :
    ∃ j ≥ n, (bus j).accepted (amm j) ≠ none := by
  induction hd : m - n generalizing n with
  | zero =>
      have heq : n = m := by omega
      rw [← heq] at hw
      exact ⟨n, Nat.le_refl n, accepted_of_ready hw hl⟩
  | succ d ih =>
      cases hnow : (amm n).ammWaitrequest with
      | false => exact ⟨n, Nat.le_refl n, accepted_of_ready hnow hl⟩
      | true =>
          have ha : (bus n).accepts (amm n) = false := by
            rw [ScanBus.accepts, hnow]
            rfl
          have hsame : (bus (n + 1)).ammState = (bus n).ammState := by
            rw [hrun n]
            exact ScanBus.step_refused hs ha
          have hnext : (bus (n + 1)).ammWrite = true ∨ (bus (n + 1)).ammRead = true := by
            rw [hrun n]
            exact lines_step hs ha
          rw [← hsame] at hs
          obtain ⟨j, hj, hacc⟩ := ih (by omega) hs hnext (by omega)
          exact ⟨j, by omega, hacc⟩

theorem exists_idle_of_ack (hmn : n ≤ m) (hv : (amm m).ammReaddatavalid = true)
    (hs : (bus n).ammState = .ack) : ∃ j ≥ n, (bus j).ammState = .idle := by
  induction hd : m - n generalizing n with
  | zero =>
      have heq : n = m := by omega
      rw [← heq] at hv
      refine ⟨n + 1, by omega, ?_⟩
      simp [hrun n, ScanBus.step, hs, hv]
  | succ d ih =>
      cases hnow : (amm n).ammReaddatavalid with
      | true =>
          refine ⟨n + 1, by omega, ?_⟩
          simp [hrun n, ScanBus.step, hs, hnow]
      | false =>
          have hack : (bus (n + 1)).ammState = .ack := by
            simp [hrun n, ScanBus.step, hs, hnow, ScanBus.release]
          obtain ⟨j, hj, hidle⟩ := ih (by omega) hack (by omega)
          exact ⟨j, by omega, hidle⟩

theorem fetches_of_idle (hs : (bus n).ammState = .idle)
    (hi : (bus n).ammIndex.toNat < (bus n).limit) :
    (bus (n + 1)).ammState = .write ∨ (bus (n + 1)).ammState = .read := by
  have hstate : (bus (n + 1)).ammState =
      ((bus n).fetch ((bus n).upper base) (bus n).entry).ammState := by
    simp only [hrun n, ScanBus.step, hs, ScanBus.next_fetch hi, ScanBus.release]
  rw [hstate, ScanBus.fetch]
  cases (bus n).entry.operation with
  | write => exact .inl rfl
  | read => exact .inr rfl

theorem exists_fetch_of_idle (hs : (bus n).ammState = .idle) :
    ∃ j ≥ n, (bus j).ammState = .write ∨ (bus j).ammState = .read := by
  by_cases hi : (bus n).ammIndex.toNat < (bus n).limit
  · exact ⟨n + 1, by omega, fetches_of_idle hrun hs hi⟩
  · have hwrap : bus (n + 1) =
        { (bus n).release with ammTransaction := false, ammInitDone := true, ammIndex := 0 } := by
      simp only [hrun n, ScanBus.step, hs, ScanBus.next_wrap (Nat.not_lt.mp hi), ScanBus.release]
    have hidle : (bus (n + 1)).ammState = .idle := by
      rw [hwrap]
      exact hs
    have hlt : (bus (n + 1)).ammIndex.toNat < (bus (n + 1)).limit := by
      rw [hwrap]
      exact Nat.zero_lt_succ 43
    exact ⟨n + 2, by omega, fetches_of_idle hrun hidle hlt⟩

theorem exists_accepted (hon : ∀ n, (bus n).OnBus base)
    (hready : ∀ n, (bus n).ammWrite = true ∨ (bus n).ammRead = true →
      ∃ m ≥ n, (amm m).ammWaitrequest = false)
    (hanswer : ∀ n, (bus n).ammState = .ack → ∃ m ≥ n, (amm m).ammReaddatavalid = true)
    (n : Nat) : ∃ j ≥ n, (bus j).accepted (amm j) ≠ none := by
  have hcommand : ∀ n, (bus n).ammState = .write ∨ (bus n).ammState = .read →
      ∃ j ≥ n, (bus j).accepted (amm j) ≠ none := by
    intro n hs
    cases ha : (bus n).accepts (amm n) with
    | true => exact ⟨n, Nat.le_refl n, accepted_of_accepts (hon n) hs ha⟩
    | false =>
        have hsame : (bus (n + 1)).ammState = (bus n).ammState := by
          rw [hrun n]
          exact ScanBus.step_refused hs ha
        have hlines : (bus (n + 1)).ammWrite = true ∨ (bus (n + 1)).ammRead = true := by
          rw [hrun n]
          exact lines_step hs ha
        obtain ⟨m, hm, hw⟩ := hready (n + 1) hlines
        rw [← hsame] at hs
        obtain ⟨j, hj, hacc⟩ := exists_accepted_of_lines hrun hm hw hs hlines
        exact ⟨j, by omega, hacc⟩
  have hidle : ∀ n, (bus n).ammState = .idle → ∃ j ≥ n, (bus j).accepted (amm j) ≠ none := by
    intro n hs
    obtain ⟨j, hj, hfetch⟩ := exists_fetch_of_idle hrun hs
    obtain ⟨k, hk, hacc⟩ := hcommand j hfetch
    exact ⟨k, by omega, hacc⟩
  cases hs : (bus n).ammState with
  | idle => exact hidle n hs
  | write => exact hcommand n (.inl hs)
  | read => exact hcommand n (.inr hs)
  | ack =>
      obtain ⟨m, hm, hv⟩ := hanswer n hs
      obtain ⟨j, hj, hback⟩ := exists_idle_of_ack hrun hm hv hs
      obtain ⟨k, hk, hacc⟩ := hidle j hback
      exact ⟨k, by omega, hacc⟩
  | reset =>
      have hnext : (bus (n + 1)).ammState = .idle := by
        simp [hrun n, ScanBus.step, hs]
      obtain ⟨j, hj, hacc⟩ := hidle (n + 1) hnext
      exact ⟨j, by omega, hacc⟩

end Progress

/-! ## The run -/

section Run

variable (base : BitVec 32) (defaultLight : BitVec 5) (byteenable : BitVec 4)
  (inp : Nat → PuInput)

def acceptedCommands : Nat → List BusCommand :=
  events fun n => (puRun base defaultLight byteenable inp n).bus.accepted (inp n).amm

def observer : Nat → Observer
  | 0 => Observer.init
  | n + 1 =>
      (observer n).step (puRun base defaultLight byteenable inp n).bus (inp n).amm

/-- The bridge takes every command in the end, and answers every read. -/
structure FairBridge : Prop where
  accepts : ∀ n, (puRun base defaultLight byteenable inp n).bus.ammWrite = true ∨
    (puRun base defaultLight byteenable inp n).bus.ammRead = true →
    ∃ m ≥ n, (inp m).amm.ammWaitrequest = false
  answers : ∀ n, (observer base defaultLight byteenable inp n).pending ≠ none →
    ∃ m ≥ n, (inp m).amm.ammReaddatavalid = true

/-- After `n` cycles the accepted commands are the first ones of the schedule. -/
theorem run_in_order (n : Nat) :
    (puRun base defaultLight byteenable inp n).bus.OnBus base ∧
    ∃ k, acceptedCommands base defaultLight byteenable inp n =
        (List.range k).map (schedule base) ∧
      InOrder base (puRun base defaultLight byteenable inp n).bus
        (observer base defaultLight byteenable inp n) k := by
  induction n with
  | zero => exact ⟨ScanBus.onBus_init, 0, rfl, InOrder.init⟩
  | succ n ih =>
      obtain ⟨hbus, k, hlist, horder⟩ := ih
      have hnext := horder.step (i := (inp n).amm) hbus
      refine ⟨ScanBus.onBus_step hbus, ?_⟩
      cases ha : (puRun base defaultLight byteenable inp n).bus.accepted (inp n).amm with
      | none =>
          rw [ha] at hnext
          refine ⟨k, ?_, hnext⟩
          rw [acceptedCommands, events_succ_none ha]
          exact hlist
      | some c =>
          rw [ha] at hnext
          refine ⟨k + 1, ?_, hnext⟩
          rw [acceptedCommands, events_succ_some ha, List.range_succ, List.map_append,
            horder.accepted_eq hbus ha]
          exact congrArg (· ++ [schedule base k]) hlist

theorem sampled_step (n : Nat) :
    (puRun base defaultLight byteenable inp (n + 1)).sampled =
      (puRun base defaultLight byteenable inp n).sampled.observe
        (observer base defaultLight byteenable inp n) (inp n).amm := by
  obtain ⟨hbus, k, _, horder⟩ := run_in_order base defaultLight byteenable inp n
  cases n with
  | zero =>
      -- in the first cycle nothing is waited for
      have hresponse : (observer base defaultLight byteenable inp 0).response (inp 0).amm = none :=
        Observer.response_none rfl
      rw [Sampled.observe, hresponse]
      rfl
  | succ n => exact horder.sample_eq hbus _ (bus_started base defaultLight byteenable inp n)

/-- The bridge sees `init_array` once and then `work_array` for ever, each entry once and in
order; and every sampled register takes the byte of its own device register, told by a
status response without error, with its own column selected. -/
theorem scan_in_order :
    (∀ n, acceptedCommands base defaultLight byteenable inp n =
      (List.range (acceptedCommands base defaultLight byteenable inp n).length).map
        (schedule base)) ∧
    (FairBridge base defaultLight byteenable inp →
      ∀ k, ∃ n, k ≤ (acceptedCommands base defaultLight byteenable inp n).length) ∧
    ∀ n, (puRun base defaultLight byteenable inp (n + 1)).sampled =
      (puRun base defaultLight byteenable inp n).sampled.observe
        (observer base defaultLight byteenable inp n) (inp n).amm := by
  refine ⟨fun n => ?_, fun hfair => ?_, sampled_step base defaultLight byteenable inp⟩
  · obtain ⟨_, k, hlist, _⟩ := run_in_order base defaultLight byteenable inp n
    rw [hlist, List.length_map, List.length_range]
  · apply exists_length_events
    apply exists_accepted (fun n => rfl)
    · exact fun n => (run_in_order base defaultLight byteenable inp n).1
    · exact hfair.accepts
    · intro n hs
      obtain ⟨_, k, _, horder⟩ := run_in_order base defaultLight byteenable inp n
      apply hfair.answers n
      rw [horder.is_pending hs]
      exact Option.some_ne_none _

end Run

def ready (_ : Nat) : PuInput := ⟨⟨false, true, 0⟩, ⟨false, false, 0, 0, 0, 0, 0, 0⟩⟩

theorem scan_in_order_ready : ∃ n, 1000 ≤ (acceptedCommands 0 16 0 ready n).length :=
  (scan_in_order 0 16 0 ready).2.1
    ⟨fun n _ => ⟨n, Nat.le_refl n, rfl⟩, fun n _ => ⟨n, Nat.le_refl n, rfl⟩⟩ 1000

end Mfi.Pu
