import Mfi.Core.History
import Mfi.AmsI2c.Ledger

/-!
# The bus protocol of the bridge

Every command comes to its end, however long a count of the divider is: a period ends, the
master gets through its bytes period by period, and the port sees the end. With the account
of the run this gives one transaction for each command, in the order of the commands.
-/

namespace Mfi.AmsI2c

open Core

/-! ## Periods -/

namespace BridgeRegs

variable {i2cClockTime : BitVec 32} {s : BridgeRegs} {i : BridgeInput} {c : Command}

def timeLeft (s : BridgeRegs) : Nat :=
  (7 - s.count) * 4294967296 + (4294967295 - s.divider.i2cClockCnt.toNat)

theorem timeLeft_lt : s.timeLeft < 34359738368 := by
  unfold timeLeft
  omega

theorem timeLeft_step (hf : s.falls i2cClockTime = false) :
    (s.step i2cClockTime i).timeLeft < s.timeLeft := by
  have hcnt := s.divider.i2cClockCnt.isLt
  unfold timeLeft
  have hclocks : (s.step i2cClockTime i).count = s.count ∧
        (s.step i2cClockTime i).divider.i2cClockCnt.toNat = s.divider.i2cClockCnt.toNat + 1 ∨
      (s.step i2cClockTime i).count = s.count + 1 ∧
        (s.step i2cClockTime i).divider.i2cClockCnt.toNat = 0 := by
    have hcount := count_step (i := i) hf
    unfold count at hcount ⊢
    rw [step_divider] at hcount ⊢
    unfold Divider.step at hcount ⊢
    split
    · rename_i hlt
      left
      have hnat : s.divider.i2cClockCnt.toNat < (i2cClockTime - 1).toNat := hlt
      have hmax := (i2cClockTime - 1).isLt
      refine ⟨rfl, ?_⟩
      rw [BitVec.toNat_add]
      exact Nat.mod_eq_of_lt (by simp; omega)
    · rename_i hge
      right
      rw [if_neg hge] at hcount
      refine ⟨?_, rfl⟩
      rcases hcount with hsame | hnext
      · have hne : ∀ k : BitVec 3, (k + 1).toNat ≠ k.toNat := by decide
        exact absurd hsame (hne _)
      · exact hnext
  have hlast : (s.step i2cClockTime i).count ≤ 7 :=
    Nat.le_of_lt_succ (s.step i2cClockTime i).divider.i2cClocks.isLt
  have hcnt' := (s.step i2cClockTime i).divider.i2cClockCnt.isLt
  omega

end BridgeRegs

/-! ## Inside a transaction -/

namespace Master

/-- A bound on the periods that come after the byte with this word state. -/
def wordLeft (m : Master) : Nat :=
  match m.i2cWord with
  | .device => if m.i2cReadBit then 10 else 29
  | .address => 20
  | _ => 1

/-- A bound on the periods up to the end of the transaction. -/
def left (m : Master) : Nat :=
  match m.i2cState with
  | .start => 40
  | .restart => 20
  | .data => m.wordLeft + 2 + m.i2cBitCnt.toNat
  | .ack => m.wordLeft + 1
  | .stop => 1
  | _ => 0

theorem wordLeft_pos (m : Master) : 0 < m.wordLeft := by
  unfold wordLeft
  cases m.i2cWord with
  | device => cases m.i2cReadBit <;> decide
  | address => exact Nat.succ_pos 19
  | write => exact Nat.one_pos
  | read => exact Nat.one_pos
  | reset => exact Nat.one_pos

theorem left_ack (m : Master) (address : BitVec 16) (data : BitVec 8) (dataIn : Bool) :
    (m.ack address data dataIn).left < m.wordLeft + 1 := by
  have hpos := m.wordLeft_pos
  unfold ack
  cases hw : m.i2cWord with
  | device =>
      cases dataIn with
      | true => exact Nat.succ_lt_succ hpos
      | false => cases hb : m.i2cReadBit <;> simp [left, wordLeft, hw, hb]
  | address =>
      cases dataIn with
      | true => exact Nat.succ_lt_succ hpos
      | false => cases hr : m.i2cReadOp <;> simp [left, wordLeft, hw]
  | write => exact Nat.succ_lt_succ hpos
  | read => exact Nat.succ_lt_succ hpos
  | reset => exact Nat.succ_lt_succ hpos

end Master

theorem Progress.left_step {c : Command} {m : Master} {l : List Symbol} (h : Progress c m l)
    (hs : m.i2cState ≠ .idle) (address : BitVec 16) (data : BitVec 8)
    (writeLatch readLatch dataIn : Bool) :
    (m.step address data writeLatch readLatch dataIn false).left < m.left := by
  cases h with
  | starting h =>
      rw [Master.step_start (.inl h.state)]
      simp only [Master.left, Master.wordLeft, h.state, h.word, h.readBit]
      decide
  | sending hb vs ds hm hs =>
      by_cases hpos : 0 < m.i2cBitCnt
      · have hsub : ∀ k : BitVec 3, 0 < k → (k - 1).toNat < k.toNat := by decide
        rw [Master.step_data_next hs hpos]
        simp only [Master.left, hs]
        exact Nat.add_lt_add_left (hsub _ hpos) _
      · rw [Master.step_data_last hs hpos]
        simp only [Master.left, hs]
        change m.wordLeft + 1 < m.wordLeft + 2 + m.i2cBitCnt.toNat
        omega
  | sent hb vs ds hm hs =>
      have hleft : m.left = m.wordLeft + 1 := by rw [Master.left, hs]
      rw [Master.step_ack hs, hleft]
      exact m.left_ack address data dataIn
  | restarting hb hr vs hvs hs hword hbit =>
      rw [Master.step_start (.inr hs)]
      simp only [Master.left, Master.wordLeft, hs, hword, hbit]
      decide
  | stopping h hs =>
      rw [Master.step_stop hs]
      simp only [Master.left, hs]
      decide
  | finished h hs' => exact absurd hs' hs

/-! ## Before and after a transaction -/

namespace BridgeRegs

variable {i2cClockTime : BitVec 32} {s : BridgeRegs} {i : BridgeInput} {c : Command}

/-- A bound on the periods up to the start of the transaction: the request is sampled in
the middle of a period, and a master in reset takes one more. -/
def waitLeft (s : BridgeRegs) : Nat :=
  (if s.count < 4 then if s.samples.i2cWriteMeta || s.samples.i2cReadMeta then 0 else 1
    else if s.samples.i2cWriteLatch || s.samples.i2cReadLatch then 0
    else if s.samples.i2cWriteMeta || s.samples.i2cReadMeta then 1
    else 2) +
  if s.master.i2cState = .reset then 2 else 0

def periodEnd (s : BridgeRegs) (i2cClockTime : BitVec 32) : Nat :=
  if s.falls i2cClockTime then 1 else 0

theorem Asked.waitLeft_inside (hport : (s.step i2cClockTime i).port.Requests c)
    (hf : s.falls i2cClockTime = false) : (s.step i2cClockTime i).waitLeft ≤ s.waitLeft := by
  have hrequest : ((s.step i2cClockTime i).port.i2cWrite || (s.step i2cClockTime i).port.i2cRead) =
      true := by
    rw [hport.write, hport.read]
    exact Bool.not_or_self _
  unfold waitLeft
  rw [master_quiet hf]
  apply Nat.add_le_add_right
  cases hr : s.rises i2cClockTime with
  | false =>
      simp only [samples_quiet hr, low_half_step hr hf]
      exact Nat.le_refl _
  | true =>
      obtain ⟨hthree, hfour⟩ := rises_count (i := i) hr
      rw [step_samples, hr, if_pos rfl, hthree, hfour, if_pos (show 3 < 4 by decide),
        if_neg (Nat.lt_irrefl 4)]
      simp only [Samples.step, hrequest]
      cases s.samples.i2cWriteMeta || s.samples.i2cReadMeta <;> decide

theorem Asked.waitLeft_end (h : s.Asked c) (hnext : (s.step i2cClockTime i).Asked c)
    (hf : s.falls i2cClockTime = true) : (s.step i2cClockTime i).waitLeft < s.waitLeft := by
  obtain ⟨hseven, hzero⟩ := falls_count (i := i) hf
  have hr := not_rises_of_falls hf
  have hmaster : (s.step i2cClockTime i).master = _ := step_master
  rw [hf, if_pos rfl] at hmaster
  have hidle : (s.step i2cClockTime i).master.i2cState = .idle := by
    rcases h.master.state with hs | hs
    · rcases hnext.master.state with hs' | hs'
      · exact hs'
      · rw [hmaster] at hs' ⊢
        unfold Master.step at hs' ⊢
        rw [hs] at hs' ⊢
        revert hs'
        cases s.samples.i2cWriteLatch || s.samples.i2cReadLatch <;> simp
    · rw [hmaster, Master.step_reset hs]
  unfold waitLeft
  rw [samples_quiet hr, hseven, hzero, hidle, if_pos (show 0 < 4 by decide),
    if_neg (show ¬ 7 < 4 by decide), if_neg (show I2cState.idle ≠ .reset by decide)]
  rcases h.master.state with hs | hs
  · have hnone : (s.samples.i2cWriteLatch || s.samples.i2cReadLatch) = false := by
      rw [← Bool.not_eq_true]
      intro hany
      rw [hmaster] at hidle
      unfold Master.step at hidle
      rw [hs] at hidle
      simp only [hany, if_true] at hidle
      exact absurd hidle nofun
    rw [hnone, hs, if_neg Bool.false_ne_true, if_neg (show I2cState.idle ≠ .reset by decide)]
    cases s.samples.i2cWriteMeta || s.samples.i2cReadMeta <;> decide
  · rw [hs, if_pos rfl]
    cases s.samples.i2cWriteMeta || s.samples.i2cReadMeta with
    | true => exact Nat.lt_of_lt_of_le Nat.two_pos (Nat.le_add_left 2 _)
    | false => exact Nat.lt_of_lt_of_le Nat.one_lt_two (Nat.le_add_left 2 _)

theorem Asked.waitLeft_step (h : s.Asked c) :
    (s.step i2cClockTime i).Begun c ∨ (s.step i2cClockTime i).Asked c ∧
      (s.step i2cClockTime i).waitLeft + s.periodEnd i2cClockTime ≤ s.waitLeft := by
  rcases h.step (i := i) with hnext | hnext
  · right
    unfold periodEnd
    cases hf : s.falls i2cClockTime with
    | false => exact ⟨hnext, Asked.waitLeft_inside hnext.port hf⟩
    | true => exact ⟨hnext, h.waitLeft_end hnext hf⟩
  · exact .inl hnext

theorem Moving.left_step {l new : List Symbol} (h : s.Moving c) (hl : Progress c s.master l)
    (hadds : Adds i2cClockTime s (s.step i2cClockTime i) new) :
    (s.step i2cClockTime i).Closing c ∨
    ((s.step i2cClockTime i).Moving c ∧ Progress c (s.step i2cClockTime i).master (l ++ new)) ∧
      (s.step i2cClockTime i).master.left + s.periodEnd i2cClockTime ≤ s.master.left := by
  rcases h.progress hl hadds with ⟨hnext, hprogress⟩ | ⟨r, hclosing, _⟩
  · refine .inr ⟨⟨hnext, hprogress⟩, ?_⟩
    unfold periodEnd
    cases hadds with
    | inside hf hmaster hnew =>
        rw [hf, hmaster]
        exact Nat.le_refl _
    | ending hf u hmaster hnew =>
        rw [hf, if_pos rfl, hmaster]
        apply hl.left_step
        intro hs
        have hquiet := h.quiet hs
        rw [hquiet.writeLatch, hquiet.readLatch, Master.step_idle_quiet hs] at hmaster
        exact hnext.not_idle (by rw [hmaster]; exact hs) (by rw [hmaster])
  · exact .inl hclosing

theorem Closing.step_left (h : s.Closing c) :
    (s.step i2cClockTime i).port.amsState = .idle ∨ (s.step i2cClockTime i).Closing c ∧
      (s.step i2cClockTime i).i2cBusyMeta.toNat + (s.step i2cClockTime i).i2cBusyLatch.toNat <
        s.i2cBusyMeta.toNat + s.i2cBusyLatch.toNat := by
  cases hlatch : s.i2cBusyLatch with
  | false =>
      left
      rw [step_port, hlatch]
      exact h.port.step_done.2
  | true =>
      refine .inr ⟨h.step_busy hlatch, ?_⟩
      rw [step_busyMeta, step_busyLatch, h.master.busy]
      cases s.i2cBusyMeta <;> decide

end BridgeRegs

/-! ## The run -/

section Run

variable (i2cClockTime : BitVec 32) (i2cWait : Bool) (inp : Nat → BridgeInput)

theorem leads_of_periods {P Q : Nat → Prop} (left : Nat → Nat)
    (h : ∀ n, P n → Q (n + 1) ∨ P (n + 1) ∧
      left (n + 1) + (bridgeRun i2cClockTime i2cWait inp n).periodEnd i2cClockTime ≤ left n)
    {m : Nat} (hm : P m) : ∃ n ≥ m, Q n := by
  let rank := fun n => left n * 34359738368 + (bridgeRun i2cClockTime i2cWait inp n).timeLeft
  have hrank : ∀ n, P n → Q (n + 1) ∨ P (n + 1) ∧ rank (n + 1) < rank n := by
    intro n hn
    rcases h n hn with hq | ⟨hnext, hleft⟩
    · exact .inl hq
    · refine .inr ⟨hnext, ?_⟩
      have hlt := (bridgeRun i2cClockTime i2cWait inp (n + 1)).timeLeft_lt
      simp only [rank]
      unfold BridgeRegs.periodEnd at hleft
      cases hf : (bridgeRun i2cClockTime i2cWait inp n).falls i2cClockTime with
      | false =>
          have htime := BridgeRegs.timeLeft_step (i := inp n) hf
          rw [← bridgeRun_succ] at htime
          rw [hf, if_neg Bool.false_ne_true] at hleft
          omega
      | true =>
          rw [hf, if_pos rfl] at hleft
          omega
  obtain ⟨n, hn, hq⟩ := leads_of_rank rank hrank hm
  exact ⟨n + 1, Nat.le_succ_of_le hn, hq⟩

variable {i2cClockTime i2cWait inp} {n : Nat} {c : Command}

theorem closes_of_closing (h : (bridgeRun i2cClockTime i2cWait inp n).Closing c) :
    ∃ m ≥ n, (bridgeRun i2cClockTime i2cWait inp m).port.amsState = .idle := by
  let rank := fun k => (bridgeRun i2cClockTime i2cWait inp k).i2cBusyMeta.toNat +
    (bridgeRun i2cClockTime i2cWait inp k).i2cBusyLatch.toNat
  have hstep : ∀ k, (bridgeRun i2cClockTime i2cWait inp k).Closing c →
      (bridgeRun i2cClockTime i2cWait inp (k + 1)).port.amsState = .idle ∨
      (bridgeRun i2cClockTime i2cWait inp (k + 1)).Closing c ∧ rank (k + 1) < rank k :=
    fun k hk => hk.step_left
  obtain ⟨m, hm, hidle⟩ := leads_of_rank rank hstep h
  exact ⟨m + 1, Nat.le_succ_of_le hm, hidle⟩

theorem closes_of_moving (hreleased : ∀ n, (inp n).sclReleased = true) {l : List Symbol}
    (h : (bridgeRun i2cClockTime i2cWait inp n).Moving c)
    (hl : Progress c (bridgeRun i2cClockTime i2cWait inp n).master l) :
    ∃ m ≥ n, (bridgeRun i2cClockTime i2cWait inp m).Closing c := by
  let inside := fun k => (bridgeRun i2cClockTime i2cWait inp k).Moving c ∧
    ∃ l, Progress c (bridgeRun i2cClockTime i2cWait inp k).master l
  have hinside : inside n := ⟨h, l, hl⟩
  apply leads_of_periods i2cClockTime i2cWait inp
    (fun k => (bridgeRun i2cClockTime i2cWait inp k).master.left) _ hinside
  rintro k ⟨hmoving, l, hl⟩
  obtain ⟨_, _, _, _, _, _, hwave, _⟩ := balanced_run i2cClockTime i2cWait hreleased k
  obtain ⟨_, new, _, _, hadds⟩ := BridgeRegs.adds_step i2cClockTime hwave (hreleased k)
  rcases hmoving.left_step hl hadds with hclosing | ⟨⟨hnext, hprogress⟩, hleft⟩
  · exact .inl hclosing
  · exact .inr ⟨⟨hnext, _, hprogress⟩, hleft⟩

theorem begins_of_asked (h : (bridgeRun i2cClockTime i2cWait inp n).Asked c) :
    ∃ m ≥ n, (bridgeRun i2cClockTime i2cWait inp m).Begun c := by
  let asked := fun k => (bridgeRun i2cClockTime i2cWait inp k).Asked c
  have hasked : asked n := h
  apply leads_of_periods i2cClockTime i2cWait inp
    (fun k => (bridgeRun i2cClockTime i2cWait inp k).waitLeft) _ hasked
  intro k hk
  exact BridgeRegs.Asked.waitLeft_step hk

theorem ready_again (hreleased : ∀ n, (inp n).sclReleased = true) (n : Nat) :
    ∃ m ≥ n, (bridgeRun i2cClockTime i2cWait inp m).port.amsState = .idle := by
  have hclosing : ∀ c k, n ≤ k → (bridgeRun i2cClockTime i2cWait inp k).Closing c →
      ∃ m ≥ n, (bridgeRun i2cClockTime i2cWait inp m).port.amsState = .idle := by
    intro c k hk h
    obtain ⟨m, hm, hidle⟩ := closes_of_closing h
    exact ⟨m, Nat.le_trans hk hm, hidle⟩
  have hmoving : ∀ c k l, n ≤ k → (bridgeRun i2cClockTime i2cWait inp k).Moving c →
      Progress c (bridgeRun i2cClockTime i2cWait inp k).master l →
      ∃ m ≥ n, (bridgeRun i2cClockTime i2cWait inp m).port.amsState = .idle := by
    intro c k l hk h hl
    obtain ⟨m, hm, hnext⟩ := closes_of_moving hreleased h hl
    exact hclosing c m (Nat.le_trans hk hm) hnext
  obtain ⟨o, l, _, _, _, hphase, _⟩ := balanced_run i2cClockTime i2cWait hreleased n
  cases hphase with
  | rest h =>
      rcases h.port.state with hs | hs
      · exact ⟨n, Nat.le_refl n, hs⟩
      · refine ⟨n + 1, Nat.le_succ n, ?_⟩
        rw [bridgeRun_succ, BridgeRegs.step_port]
        unfold Port.step
        rw [hs]
  | asked h =>
      obtain ⟨m, hm, hbegun⟩ := begins_of_asked h
      exact hmoving _ m [] hm (.begun hbegun) (.starting hbegun.master)
  | moving h hl => exact hmoving _ n l (Nat.le_refl n) h hl
  | closing h => exact hclosing _ n (Nat.le_refl n) h

theorem settled_of_ready (hreleased : ∀ n, (inp n).sclReleased = true)
    (hidle : (bridgeRun i2cClockTime i2cWait inp n).port.amsState = .idle) :
    Settled (account i2cClockTime i2cWait inp n).commands
      (account i2cClockTime i2cWait inp n).symbols
      (account i2cClockTime i2cWait inp n).responses := by
  obtain ⟨o, l, e, cs, symbols, hphase, hwave, _, hcommands, hsymbols, hsettled⟩ :=
    balanced_run i2cClockTime i2cWait hreleased n
  have hready : ∀ c, (bridgeRun i2cClockTime i2cWait inp n).port.Requests c ∨
      (bridgeRun i2cClockTime i2cWait inp n).port.Serves c → False := by
    rintro c (h | h)
    · exact absurd (hidle.symm.trans h.state) nofun
    · have hstate := hidle.symm.trans h.state
      revert hstate
      cases c.isRead <;> decide
  cases hphase with
  | rest h =>
      have hnone : (bridgeRun i2cClockTime i2cWait inp n).master.condition = none := by
        unfold Master.condition
        rcases h.master.state with hs | hs <;> rw [hs]
      have hnil : e = [] := by
        rw [hwave.seen, hnone]
        exact ite_self _
      rw [hcommands, hsymbols, hnil, Option.toList_none, List.append_nil, List.append_nil,
        List.append_nil]
      exact hsettled
  | asked h => exact (hready _ (.inl h.port)).elim
  | moving h => exact (hready _ h.port).elim
  | closing h => exact (hready _ (.inr h.port)).elim

end Run

/-- The commands taken up give one transaction each, in their order, and nothing else is on
the bus; every command comes to its end. -/
theorem commands_served (i2cClockTime : BitVec 32) (i2cWait : Bool) (inp : Nat → BridgeInput)
    (hreleased : ∀ n, (inp n).sclReleased = true) :
    (∀ n, (bridgeRun i2cClockTime i2cWait inp n).port.amsState = .idle →
      Settled (account i2cClockTime i2cWait inp n).commands
        (account i2cClockTime i2cWait inp n).symbols
        (account i2cClockTime i2cWait inp n).responses) ∧
    ∀ n, ∃ m ≥ n, (bridgeRun i2cClockTime i2cWait inp m).port.amsState = .idle :=
  ⟨fun _ => settled_of_ready hreleased, ready_again hreleased⟩

/-- One read with bit 8 of the address set. The slave acknowledges the address bytes, in
periods 11, 20 and 30, and sends ones. -/
def statusRead (n : Nat) : BridgeInput :=
  ⟨false, n = 1 || n = 2, 0x0300, 0, true, !(n / 8 == 11 || n / 8 == 20 || n / 8 == 30)⟩

theorem commands_served_statusRead :
    (∀ n, (bridgeRun 1 false statusRead n).port.amsState = .idle →
      Settled (account 1 false statusRead n).commands (account 1 false statusRead n).symbols
        (account 1 false statusRead n).responses) ∧
    ∀ n, ∃ m ≥ n, (bridgeRun 1 false statusRead m).port.amsState = .idle :=
  commands_served 1 false statusRead fun _ => rfl

/-! ## A read that does not return the byte of the slave -/

def ones : List Bool := List.replicate 8 true

theorem statusRead_answered :
    (bridgeRun 1 false statusRead 339).port.amsState = .idle ∧
    (account 1 false statusRead 339).commands = [⟨true, 0x0300, 0⟩] ∧
    (account 1 false statusRead 339).responses = [0] ∧
    (account 1 false statusRead 339).symbols =
      [.start] ++ exchange 0x02 ones false ++ exchange 0x00 ones false ++ [.start] ++
        exchange 0x03 ones false ++ exchange 0xFF ones true ++ [.stop] := by
  decide +kernel

/-- The read succeeds on the bus, and the port returns the error bits in place of the byte. -/
theorem status_read_not_slave :
    ¬ ∀ n c b, (bridgeRun 1 false statusRead n).port.amsState = .idle →
      (account 1 false statusRead n).commands = [c] → c.isRead = true →
      Transaction c (account 1 false statusRead n).symbols (some b) →
      (account 1 false statusRead n).responses = [b] := by
  intro h
  obtain ⟨hidle, hcommands, hresponses, hsymbols⟩ := statusRead_answered
  have hread : Transaction ⟨true, 0x0300, 0⟩ (account 1 false statusRead 339).symbols
      (some 0xFF) := by
    rw [hsymbols]
    apply Transaction.read _ 0xFF true
    exact .slave (.deviceAgain (.register .device ones rfl) rfl ones rfl) ones rfl
  have hbyte := h 339 _ 0xFF hidle hcommands rfl hread
  rw [hresponses] at hbyte
  exact absurd hbyte (by decide)

end Mfi.AmsI2c
