import Mfi.Pu.ScanMoves

/-!
# The encoder counts

Between two reads of the host the scan machine counts the steps of an encoder. A read
takes the count and asks the machine to clear it; until it is cleared the count has been
delivered and is not held any more.
-/

namespace Mfi.Pu

open Core

/-- The host reads the count of encoder `k` in this cycle. -/
def HostPort.readsCount (p : HostPort) (k : Fin 4) : Bool :=
  p.amsState == .read && p.clearsCount k

namespace PuRegs

variable (s : PuRegs) (i : PuInput) (k : Fin 4)

/-- The old and the new sample of encoder `k`. -/
def encCode : BitVec 4 := (s.encoders k).encState ++ Encoder.contacts s.bus.ammDataD k

/-- An encoder that moved by more than one step shows no direction. -/
def validSample : Bool :=
  !s.bus.samplesEncoders i.amm || !(s.encCode k = 0x3 || s.encCode k = 0x6 || s.encCode k = 0x9 ||
    s.encCode k = 0xC)

/-- The step of encoder `k` that is sampled in this cycle. -/
def sampledStep : Int :=
  if s.bus.samplesEncoders i.amm then
    if Encoder.stepsUp (s.encCode k) then 1 else if Encoder.stepsDown (s.encCode k) then -1 else 0
  else 0

/-- The count of encoder `k` that the host gets in this cycle. -/
def deliveredCount : Int :=
  if s.port.readsCount k then
    ((s.port.readWord i.host s.sampled.buttonsState fun j => (s.encoders j).encCnt).extractLsb'
      (8 * k.val) 4).toInt
  else 0

def heldCount : Int := if s.encClear k then 0 else (s.encoders k).encCnt.toInt

structure KeepsCount : Prop where
  /-- A count that waits to be cleared is not read again. -/
  reads : s.port.readsCount k = true → s.encClear k = true → (s.encoders k).encCnt = 0
  /-- A write clears no count that was not read. -/
  writes : s.port.clearsCount k = true → s.port.readsCount k = false → s.encClear k = false →
    (s.encoders k).encCnt = 0
  /-- No step is sampled when the count is to be cleared. -/
  moves : s.bus.samplesEncoders i.amm = true → s.sampledStep i k ≠ 0 →
    s.port.clearsCount k = false ∧
    (s.encClear k = true → s.port.amsState = .idle ∧ (s.encoders k).encClearAck = true)
  /-- An encoder that has not moved has no count that waits for a read. -/
  rests : s.bus.samplesEncoders i.amm = true → s.sampledStep i k = 0 → s.encClear k = false →
    s.port.readsCount k = false → (s.encoders k).encCnt = 0

end PuRegs

section Run

variable (base : BitVec 32) (defaultLight : BitVec 5) (byteenable : BitVec 4)
  (inp : Nat → PuInput) (k : Fin 4)

def netSteps : Nat → Int
  | 0 => 0
  | n + 1 => netSteps n + (puRun base defaultLight byteenable inp n).sampledStep (inp n) k

def deliveredSteps : Nat → Int
  | 0 => 0
  | n + 1 => deliveredSteps n + (puRun base defaultLight byteenable inp n).deliveredCount (inp n) k

/-- No step of encoder `k` is lost and none is delivered twice, as long as the encoder moves
by valid steps and the count does not end. -/
def StepsDelivered : Prop :=
  ∀ n, (∀ m < n, (puRun base defaultLight byteenable inp m).validSample (inp m) k = true) →
    (∀ m ≤ n, ((puRun base defaultLight byteenable inp m).encoders k).encCnt ≠ 7 ∧
      ((puRun base defaultLight byteenable inp m).encoders k).encCnt ≠ 9) →
    deliveredSteps base defaultLight byteenable inp k n +
        (puRun base defaultLight byteenable inp n).heldCount k =
      netSteps base defaultLight byteenable inp k n

end Run

/-! ## One cycle -/

theorem toInt_count_up : ∀ c : BitVec 4, c ≠ 7 → (c + 1).toInt = c.toInt + 1 := by
  decide

theorem toInt_count_down : ∀ c : BitVec 4, c ≠ 8 → (c - 1).toInt = c.toInt - 1 := by
  decide

theorem word_byte (f : Fin 4 → BitVec 8) (k : Fin 4) :
    (f 3 ++ f 2 ++ f 1 ++ f 0 : BitVec 32).extractLsb' (8 * k.val) 4 = (f k).extractLsb' 0 4 := by
  apply BitVec.eq_of_getLsbD_eq
  intro j hj
  simp only [BitVec.getLsbD_extractLsb', BitVec.getLsbD_append]
  match k with
  | 0 => grind
  | 1 => grind
  | 2 => grind
  | 3 => grind

theorem readWord_count {p : HostPort} {k : Fin 4} (h : p.readsCount k = true) (i : HostInput)
    (buttons : BitVec 40) (encCnt : Fin 4 → BitVec 4) :
    (p.readWord i buttons encCnt).extractLsb' (8 * k.val) 4 = encCnt k := by
  unfold HostPort.readsCount HostPort.clearsCount at h
  simp only [Bool.and_eq_true, beq_iff_eq] at h
  obtain ⟨_, ⟨_, haddr⟩, hbyte⟩ := h
  have hword : p.readWord i buttons encCnt =
      let byte := fun j : Fin 4 => if p.amsByteenableD.getLsbD j then 0#4 ++ encCnt j else 0#8
      byte 3 ++ byte 2 ++ byte 1 ++ byte 0 := by
    unfold HostPort.readWord
    rw [haddr, if_neg (by decide), if_neg (by decide), if_neg (by decide), if_neg (by decide),
      if_pos rfl]
  rw [hword, word_byte (fun j => if p.amsByteenableD.getLsbD j then 0#4 ++ encCnt j else 0#8) k,
    if_pos hbyte]
  exact BitVec.extractLsb'_append_eq_right

theorem stepEncClear_eq {c a : Bool} {p : HostPort} {k : Fin 4} (hp : p.amsState ≠ .reset) :
    stepEncClear c p k a =
      if p.clearsCount k then true else c && !(p.amsState == .idle && a) := by
  unfold stepEncClear
  cases hs : p.amsState with
  | idle =>
      have hno : p.clearsCount k = false := by
        unfold HostPort.clearsCount
        rw [hs]
        rfl
      rw [hno]
      cases c <;> cases a <;> rfl
  | write => cases p.clearsCount k <;> cases c <;> rfl
  | read => cases p.clearsCount k <;> cases c <;> rfl
  | reset => exact absurd hs hp

theorem clears_of_reads {p : HostPort} {k : Fin 4} (h : p.readsCount k = true) :
    p.clearsCount k = true := by
  unfold HostPort.readsCount at h
  exact (Bool.and_eq_true_iff.mp h).2

theorem samples_state {b : ScanBus} {i : AmmInput} (h : b.samplesEncoders i = true) :
    b.ammState = .ack ∧ i.ammReaddatavalid = true := by
  unfold ScanBus.samplesEncoders ScanBus.samples at h
  simp only [Bool.and_eq_true, beq_iff_eq] at h
  exact ⟨h.1.1.1.1, h.1.1.1.2⟩

namespace Encoder

variable {e : Encoder} {k : Fin 4} {b : ScanBus} {i : AmmInput} {c : Bool}

theorem step_sample (h : b.samplesEncoders i = true) :
    e.step k b i c = e.sample (contacts b.ammDataD k) := by
  unfold step
  rw [(samples_state h).1]
  exact if_pos h

theorem step_quiet (h : b.samplesEncoders i = false) (hb : b.ammState ≠ .reset) :
    (e.step k b i c).encCnt = if b.ammState = .idle ∧ c = true then 0 else e.encCnt := by
  unfold step
  cases hs : b.ammState with
  | idle => cases c <;> rfl
  | write => rfl
  | read => rfl
  | ack => simp [h]
  | reset => exact absurd hs hb

/-- After a clear the count is 0 until the scan machine looks for the next request. -/
def Cleared (e : Encoder) (b : ScanBus) : Prop :=
  b.ammState ≠ .idle → e.encClearAck = true → e.encCnt = 0

theorem cleared_step (base : BitVec 32) (h : e.Cleared b) :
    (e.step k b i c).Cleared (b.step base i) := by
  intro hbusy hack
  unfold step at hack ⊢
  cases hs : b.ammState with
  | idle =>
      rw [hs] at hack
      cases c with
      | true => rfl
      | false => exact absurd hack Bool.false_ne_true
  | write =>
      rw [hs] at hack
      exact h (by rw [hs]; decide) hack
  | read =>
      rw [hs] at hack
      exact h (by rw [hs]; decide) hack
  | ack =>
      rw [hs] at hack
      cases hsample : b.samplesEncoders i with
      | true =>
          -- a sample ends the transaction
          refine absurd ?_ hbusy
          simp [ScanBus.step, hs, (samples_state hsample).2]
      | false =>
          rw [hsample] at hack
          exact h (by rw [hs]; decide) hack
  | reset => rfl

theorem count_up_ne_eight : ∀ c : BitVec 4, (if c ≠ 7 then c + 1 else 7) ≠ 8 := by
  decide

theorem count_down_ne_eight : ∀ c : BitVec 4, (if c ≠ 9 then c - 1 else 9) ≠ 8 := by
  decide

theorem sample_ne_eight (d : BitVec 2) : (e.sample d).encCnt ≠ 8 := by
  unfold sample
  by_cases hup : stepsUp (e.encState ++ d) = true
  · simp only [if_pos hup]
    exact count_up_ne_eight e.encCnt
  · simp only [if_neg hup]
    by_cases hdown : stepsDown (e.encState ++ d) = true
    · rw [if_pos hdown]
      exact count_down_ne_eight e.encCnt
    · rw [if_neg hdown]
      decide

/-- The count never is -8. -/
theorem step_ne_eight (h : e.encCnt ≠ 8) : (e.step k b i c).encCnt ≠ 8 := by
  by_cases hb : b.ammState = .reset
  · unfold step
    rw [hb]
    nofun
  cases hsample : b.samplesEncoders i with
  | true =>
      rw [step_sample hsample]
      exact sample_ne_eight _
  | false =>
      rw [step_quiet hsample hb]
      split
      · decide
      · exact h

end Encoder

namespace PuRegs

variable {base : BitVec 32} {defaultLight : BitVec 5} {s : PuRegs} {i : PuInput} {k : Fin 4}

theorem deliveredCount_eq :
    s.deliveredCount i k =
      if s.port.readsCount k then (s.encoders k).encCnt.toInt else 0 := by
  unfold deliveredCount
  by_cases h : s.port.readsCount k = true
  · rw [if_pos h, if_pos h, readWord_count h]
  · rw [if_neg h, if_neg h]

theorem heldCount_step (hp : s.port.amsState ≠ .reset) :
    (s.step base defaultLight i).heldCount k =
      if s.port.clearsCount k ||
          (s.encClear k && !(s.port.amsState == .idle && (s.encoders k).encClearAck)) then 0
      else ((s.encoders k).step k s.bus i.amm (s.encClear k)).encCnt.toInt := by
  unfold heldCount
  have hclear : (s.step base defaultLight i).encClear k =
      if s.port.clearsCount k then true
      else s.encClear k && !(s.port.amsState == .idle && (s.encoders k).encClearAck) :=
    stepEncClear_eq hp
  rw [hclear]
  cases s.port.clearsCount k <;> rfl

theorem sampledStep_none (h : s.bus.samplesEncoders i.amm = false) : s.sampledStep i k = 0 := by
  unfold sampledStep
  rw [h]
  rfl

theorem sample_moved (h : s.bus.samplesEncoders i.amm = true) (hmove : s.sampledStep i k ≠ 0)
    (h7 : (s.encoders k).encCnt ≠ 7) (h8 : (s.encoders k).encCnt ≠ 8)
    (h9 : (s.encoders k).encCnt ≠ 9) :
    ((s.encoders k).sample (Encoder.contacts s.bus.ammDataD k)).encCnt.toInt =
      (s.encoders k).encCnt.toInt + s.sampledStep i k := by
  unfold sampledStep encCode at hmove ⊢
  unfold Encoder.sample
  rw [if_pos h] at hmove ⊢
  by_cases hup : Encoder.stepsUp
      ((s.encoders k).encState ++ Encoder.contacts s.bus.ammDataD k) = true
  · simp only [if_pos hup, if_pos h7]
    exact toInt_count_up _ h7
  · rw [if_neg hup] at hmove
    by_cases hdown : Encoder.stepsDown
        ((s.encoders k).encState ++ Encoder.contacts s.bus.ammDataD k) = true
    · simp only [if_neg hup, if_pos hdown, if_pos h9]
      exact toInt_count_down _ h8
    · rw [if_neg hdown] at hmove
      exact absurd rfl hmove

/-- An encoder that has not moved loses its count. -/
theorem sample_rested (h : s.bus.samplesEncoders i.amm = true) (hrest : s.sampledStep i k = 0) :
    ((s.encoders k).sample (Encoder.contacts s.bus.ammDataD k)).encCnt = 0 := by
  unfold sampledStep encCode at hrest
  unfold Encoder.sample
  rw [if_pos h] at hrest
  by_cases hup : Encoder.stepsUp
      ((s.encoders k).encState ++ Encoder.contacts s.bus.ammDataD k) = true
  · rw [if_pos hup] at hrest
    exact absurd hrest (by decide)
  · rw [if_neg hup] at hrest
    by_cases hdown : Encoder.stepsDown
        ((s.encoders k).encState ++ Encoder.contacts s.bus.ammDataD k) = true
    · rw [if_pos hdown] at hrest
      exact absurd hrest (by decide)
    · simp only [if_neg hup, if_neg hdown]

theorem account_moved (hkeep : s.KeepsCount i k) (hp : s.port.amsState ≠ .reset)
    (hcleared : (s.encoders k).Cleared s.bus) (h7 : (s.encoders k).encCnt ≠ 7)
    (h8 : (s.encoders k).encCnt ≠ 8) (h9 : (s.encoders k).encCnt ≠ 9)
    (h : s.bus.samplesEncoders i.amm = true) (hmove : s.sampledStep i k ≠ 0) :
    s.deliveredCount i k + (s.step base defaultLight i).heldCount k =
      s.heldCount k + s.sampledStep i k := by
  obtain ⟨hclears, hwaits⟩ := hkeep.moves h hmove
  have hreads : s.port.readsCount k = false := by
    rw [← Bool.not_eq_true]
    intro hr
    rw [clears_of_reads hr] at hclears
    exact absurd hclears nofun
  have hbusy : s.bus.ammState ≠ .idle := by
    rw [(samples_state h).1]
    decide
  have hcount := sample_moved h hmove h7 h8 h9
  rw [deliveredCount_eq, hreads, heldCount_step hp, hclears, Encoder.step_sample h]
  cases hc : s.encClear k with
  | false =>
      simp only [heldCount, hc, Bool.false_or, Bool.false_and, Bool.false_eq_true, if_false]
      omega
  | true =>
      obtain ⟨hidle, hack⟩ := hwaits hc
      rw [hcleared hbusy hack] at hcount
      simp only [heldCount, hc, hidle, hack, beq_self_eq_true, Bool.and_self, Bool.not_true,
        Bool.and_false, Bool.or_self, Bool.false_eq_true, if_false, if_true]
      rw [hcount, show (0 : BitVec 4).toInt = 0 from rfl, Int.zero_add]

theorem account_rested (hkeep : s.KeepsCount i k) (hp : s.port.amsState ≠ .reset)
    (h : s.bus.samplesEncoders i.amm = true) (hrest : s.sampledStep i k = 0) :
    s.deliveredCount i k + (s.step base defaultLight i).heldCount k =
      s.heldCount k + s.sampledStep i k := by
  have hheld : (s.step base defaultLight i).heldCount k = 0 := by
    rw [heldCount_step hp, Encoder.step_sample h, sample_rested h hrest]
    exact ite_self 0
  rw [hheld, hrest, deliveredCount_eq, heldCount]
  cases hc : s.encClear k with
  | false =>
      cases hr : s.port.readsCount k with
      | true => simp
      | false =>
          rw [hkeep.rests h hrest hc hr]
          rfl
  | true =>
      cases hr : s.port.readsCount k with
      | true =>
          rw [hkeep.reads hr hc]
          rfl
      | false => rfl

theorem account_quiet (hkeep : s.KeepsCount i k) (hp : s.port.amsState ≠ .reset)
    (hb : s.bus.ammState ≠ .reset) (hcleared : (s.encoders k).Cleared s.bus)
    (h : s.bus.samplesEncoders i.amm = false) :
    s.deliveredCount i k + (s.step base defaultLight i).heldCount k =
      s.heldCount k + s.sampledStep i k := by
  rw [sampledStep_none h, deliveredCount_eq, heldCount_step hp, Encoder.step_quiet h hb, heldCount]
  cases hc : s.encClear k with
  | false =>
      have hkept : ¬ (s.bus.ammState = .idle ∧ false = true) := fun hb => Bool.false_ne_true hb.2
      rw [if_neg hkept]
      cases hr : s.port.readsCount k with
      | true => simp [clears_of_reads hr]
      | false =>
          cases hw : s.port.clearsCount k with
          | true => simp [hkeep.writes hw hr hc]
          | false => simp
  | true =>
      have hnone : (if s.port.readsCount k = true then (s.encoders k).encCnt.toInt else 0) = 0 := by
        cases hr : s.port.readsCount k with
        | true =>
            rw [hkeep.reads hr hc]
            rfl
        | false => rfl
      have hnext : (if s.bus.ammState = .idle ∧ true = true then (0 : BitVec 4)
          else (s.encoders k).encCnt).toInt = 0 ∨
          (s.port.amsState == .idle && (s.encoders k).encClearAck) = false := by
        by_cases hidle : s.bus.ammState = .idle
        · left
          rw [if_pos ⟨hidle, rfl⟩]
          rfl
        · cases hack : (s.encoders k).encClearAck with
          | true =>
              left
              rw [hcleared hidle hack, ite_self]
              rfl
          | false => exact .inr (Bool.and_false _)
      rw [hnone]
      rcases hnext with hnext | hnext
      · rw [hnext]
        simp
      · rw [hnext]
        simp

end PuRegs

/-! ## The run -/

section Run

variable (base : BitVec 32) (defaultLight : BitVec 5) (byteenable : BitVec 4)
  (inp : Nat → PuInput) (k : Fin 4)

theorem counts_kept (n : Nat) :
    ((puRun base defaultLight byteenable inp n).encoders k).Cleared
        (puRun base defaultLight byteenable inp n).bus ∧
      ((puRun base defaultLight byteenable inp n).encoders k).encCnt ≠ 8 := by
  induction n with
  | zero =>
      constructor
      · exact fun _ _ => rfl
      · nofun
  | succ n ih => exact ⟨Encoder.cleared_step base ih.1, Encoder.step_ne_eight ih.2⟩

end Run

/-- Where no count is lost or read again in any cycle, the counts delivered and the count
held are the steps sampled. -/
theorem steps_delivered (base : BitVec 32) (defaultLight : BitVec 5) (byteenable : BitVec 4)
    (inp : Nat → PuInput) (k : Fin 4)
    (hkeep : ∀ n, (puRun base defaultLight byteenable inp n).KeepsCount (inp n) k) :
    StepsDelivered base defaultLight byteenable inp k := by
  intro n hvalid hends
  induction n with
  | zero => rfl
  | succ n ih =>
      have hsum := ih (fun m hm => hvalid m (by omega)) (fun m hm => hends m (by omega))
      cases n with
      | zero => rfl
      | succ n =>
          have hp := port_started base defaultLight byteenable inp n
          have hb := bus_started base defaultLight byteenable inp n
          have hk := hkeep (n + 1)
          obtain ⟨h7, h9⟩ := hends (n + 1) (by omega)
          obtain ⟨hcleared, h8⟩ := counts_kept base defaultLight byteenable inp k (n + 1)
          have hstep : (puRun base defaultLight byteenable inp (n + 1)).deliveredCount
                (inp (n + 1)) k + (puRun base defaultLight byteenable inp (n + 1 + 1)).heldCount k =
              (puRun base defaultLight byteenable inp (n + 1)).heldCount k +
                (puRun base defaultLight byteenable inp (n + 1)).sampledStep (inp (n + 1)) k := by
            cases h : (puRun base defaultLight byteenable inp (n + 1)).bus.samplesEncoders
                (inp (n + 1)).amm with
            | false => exact PuRegs.account_quiet hk hp hb hcleared h
            | true =>
                by_cases hmove : (puRun base defaultLight byteenable inp (n + 1)).sampledStep
                    (inp (n + 1)) k = 0
                · exact PuRegs.account_rested hk hp h hmove
                · exact PuRegs.account_moved hk hp hcleared h7 h8 h9 h hmove
          rw [deliveredSteps, netSteps]
          omega

/-! ## A count that is lost -/

/-- Encoder 0 makes a step before the first scan and rests before the second. -/
def oneStep (n : Nat) : PuInput :=
  ⟨⟨false, true, if n = 143 ∨ n = 310 then 0x01 else 0x00⟩, ⟨false, false, 0, 0, 0, 0, 0, 0⟩⟩

/-- The step is sampled in cycle 147; the scan that ends with cycle 314 clears the count. -/
def stepSeen (n : Nat) (s : PuRegs) (i : PuInput) : Bool :=
  s.validSample i 0 && (s.encoders 0).encCnt != 7 && (s.encoders 0).encCnt != 9 &&
    s.sampledStep i 0 == (if n = 147 then 1 else 0) && s.deliveredCount i 0 == 0 &&
    (n != 315 || s.heldCount 0 == 0)

theorem oneStep_checked :
    holdsAlong (PuRegs.step 0 16) stepSeen oneStep 0 316 (.init 0) = true := by
  decide +kernel

theorem oneStep_seen {n : Nat} (h : n < 316) :
    (puRun 0 16 0 oneStep n).validSample (oneStep n) 0 = true ∧
    (((puRun 0 16 0 oneStep n).encoders 0).encCnt ≠ 7 ∧
      ((puRun 0 16 0 oneStep n).encoders 0).encCnt ≠ 9) ∧
    (puRun 0 16 0 oneStep n).sampledStep (oneStep n) 0 = (if n = 147 then 1 else 0) ∧
    (puRun 0 16 0 oneStep n).deliveredCount (oneStep n) 0 = 0 ∧
    (n = 315 → (puRun 0 16 0 oneStep n).heldCount 0 = 0) := by
  have hnow := holdsAlong_trace oneStep_checked h
  simp only [stepSeen, Bool.and_eq_true, bne_iff_ne, beq_iff_eq, Bool.or_eq_true] at hnow
  obtain ⟨⟨⟨⟨⟨hvalid, h7⟩, h9⟩, hstep⟩, hdelivered⟩, hheld⟩ := hnow
  refine ⟨hvalid, ⟨h7, h9⟩, hstep, hdelivered, fun hlast => ?_⟩
  rcases hheld with hne | hzero
  · exact absurd hlast hne
  · exact hzero

theorem oneStep_sums (n : Nat) (h : n ≤ 315) :
    netSteps 0 16 0 oneStep 0 n = (if n ≤ 147 then 0 else 1) ∧
    deliveredSteps 0 16 0 oneStep 0 n = 0 := by
  induction n with
  | zero => exact ⟨rfl, rfl⟩
  | succ n ih =>
      obtain ⟨hnet, hsum⟩ := ih (by omega)
      obtain ⟨_, _, hstep, hdelivered, _⟩ := oneStep_seen (show n < 316 by omega)
      rw [netSteps, deliveredSteps, hnet, hsum, hstep, hdelivered]
      refine ⟨?_, rfl⟩
      split <;> split <;> split <;> omega

theorem count_lost : ¬ StepsDelivered 0 16 0 oneStep 0 := by
  intro h
  have hsum := h 315 (fun m hm => (oneStep_seen (by omega)).1)
    (fun m hm => (oneStep_seen (by omega)).2.1)
  obtain ⟨hnet, hdelivered⟩ := oneStep_sums 315 (Nat.le_refl 315)
  rw [hnet, hdelivered, (oneStep_seen (show 315 < 316 by omega)).2.2.2.2 rfl] at hsum
  exact absurd hsum (by decide)

/-- Encoder 0 makes a step, the bridge waits after the scan of the encoders, and the host
reads the count. -/
def readOnce (n : Nat) : PuInput :=
  ⟨⟨150 ≤ n, true, if n = 143 then 0x01 else 0x00⟩, ⟨false, n = 200, 0xF, 6, 0, 0, 0, 0⟩⟩

def countKept (n : Nat) (s : PuRegs) (i : PuInput) : Bool :=
  decide ((s.port.readsCount 0 = true → s.encClear 0 = true → (s.encoders 0).encCnt = 0) ∧
    (s.port.clearsCount 0 = true → s.port.readsCount 0 = false → s.encClear 0 = false →
      (s.encoders 0).encCnt = 0) ∧
    (s.bus.samplesEncoders i.amm = true → s.sampledStep i 0 ≠ 0 →
      s.port.clearsCount 0 = false ∧
      (s.encClear 0 = true → s.port.amsState = .idle ∧ (s.encoders 0).encClearAck = true)) ∧
    (s.bus.samplesEncoders i.amm = true → s.sampledStep i 0 = 0 → s.encClear 0 = false →
      s.port.readsCount 0 = false → (s.encoders 0).encCnt = 0) ∧
    (n = 210 → s.bus.ammState = .read ∧ s.port.amsState = .idle))

theorem readOnce_checked :
    holdsAlong (PuRegs.step 0 16) countKept readOnce 0 211 (.init 0) = true := by
  decide +kernel

theorem readOnce_stuck (n : Nat) :
    (puRun 0 16 0 readOnce (210 + n)).bus.ammState = .read ∧
    (puRun 0 16 0 readOnce (210 + n)).port.amsState = .idle := by
  induction n with
  | zero =>
      have hnow := holdsAlong_trace readOnce_checked (show 210 < 211 by omega)
      exact (of_decide_eq_true hnow).2.2.2.2 rfl
  | succ n ih =>
      obtain ⟨hbus, hport⟩ := ih
      have hwait : (readOnce (210 + n)).amm.ammWaitrequest = true := decide_eq_true (by omega)
      have hread : (readOnce (210 + n)).host.amsRead = false := decide_eq_false (by omega)
      have hwrite : (readOnce (210 + n)).host.amsWrite = false := rfl
      have hrefused : (puRun 0 16 0 readOnce (210 + n)).bus.accepts
          (readOnce (210 + n)).amm = false := by
        rw [ScanBus.accepts, hwait]
        rfl
      constructor
      · exact (ScanBus.step_refused (.inr hbus) hrefused).trans hbus
      · exact HostPort.step_silent hport hwrite hread

theorem readOnce_quiet (n : Nat) :
    (puRun 0 16 0 readOnce (210 + n)).bus.samplesEncoders (readOnce (210 + n)).amm = false ∧
    (puRun 0 16 0 readOnce (210 + n)).port.clearsCount 0 = false := by
  obtain ⟨hbus, hport⟩ := readOnce_stuck n
  constructor
  · rw [← Bool.not_eq_true]
    intro hsample
    exact absurd (hbus.symm.trans (samples_state hsample).1) nofun
  · unfold HostPort.clearsCount
    rw [hport]
    rfl

theorem steps_delivered_once : StepsDelivered 0 16 0 readOnce 0 := by
  apply steps_delivered
  intro n
  by_cases hearly : n < 211
  · have hnow := holdsAlong_trace readOnce_checked hearly
    obtain ⟨hreads, hwrites, hmoves, hrests, _⟩ := of_decide_eq_true hnow
    exact ⟨hreads, hwrites, hmoves, hrests⟩
  · obtain ⟨m, rfl⟩ : ∃ m, n = 210 + m := ⟨n - 210, by omega⟩
    obtain ⟨hsample, hclears⟩ := readOnce_quiet m
    have hreads : (puRun 0 16 0 readOnce (210 + m)).port.readsCount 0 = false := by
      rw [HostPort.readsCount, hclears, Bool.and_false]
    exact ⟨fun h => absurd (hreads.symm.trans h) nofun,
      fun h => absurd (hclears.symm.trans h) nofun,
      fun h => absurd (hsample.symm.trans h) nofun, fun h => absurd (hsample.symm.trans h) nofun⟩

end Mfi.Pu
