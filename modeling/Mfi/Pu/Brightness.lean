import Mfi.Pu.ScanMoves

/-!
# The brightness written by the host

A write raises `light_cnt_req`. The scan machine copies the value when it is in `AMM_IDLE`
and acknowledges until it is there again; the port takes the request down as soon as it
sees an acknowledge. It may see the one of the write before: then the value is lost.
-/

namespace Mfi.Pu

open Core

section Run

variable (base : BitVec 32) (defaultLight : BitVec 5) (byteenable : BitVec 4)
  (inp : Nat → PuInput)

/-! ## What a write asks for -/

/-- A step of encoder 0 turns the brightness in this cycle. -/
def localStep (s : PuRegs) (i : PuInput) : Bool :=
  let code := (s.encoders 0).encState ++ Encoder.contacts s.bus.ammDataD 0
  s.bus.samplesEncoders i.amm && !s.light.lightRemote &&
    (Encoder.stepsUp code || Encoder.stepsDown code)

/-- The value written in cycle `w` is in force before cycle `n`; only steps of the encoder
have changed the brightness after it was copied. -/
structure TakenOver (w n : Nat) : Prop where
  lightManual : (puRun base defaultLight byteenable inp n).light.lightManual =
    (puRun base defaultLight byteenable inp w).port.amsWritedataD.getLsbD 6
  lightRemote : (puRun base defaultLight byteenable inp n).light.lightRemote =
    (puRun base defaultLight byteenable inp w).port.amsWritedataD.getLsbD 5
  lightCnt : ∃ u, w < u ∧ u < n ∧
    (puRun base defaultLight byteenable inp (u + 1)).light.lightCnt =
      (puRun base defaultLight byteenable inp w).port.amsWritedataD.extractLsb' 0 5 ∧
    ∀ j, u < j → j < n → localStep (puRun base defaultLight byteenable inp j) (inp j) = false →
      (puRun base defaultLight byteenable inp (j + 1)).light.lightCnt =
        (puRun base defaultLight byteenable inp j).light.lightCnt

/-- The last write before cycle `n` is served in cycle `w`. -/
def LastWrite (w n : Nat) : Prop :=
  (puRun base defaultLight byteenable inp w).port.writesLight = true ∧ w < n ∧
    ∀ j < n, w < j → (puRun base defaultLight byteenable inp j).port.writesLight = false

def WritesTakenOver : Prop :=
  ∀ w n, LastWrite base defaultLight byteenable inp w n →
    (puRun base defaultLight byteenable inp n).request.lightCntReq = false →
    TakenOver base defaultLight byteenable inp w n

/-- The scan machine is back in `AMM_IDLE` after this cycle. -/
def ScanBus.returns (b : ScanBus) (i : AmmInput) : Bool :=
  match b.ammState with
  | .idle => b.limit ≤ b.ammIndex.toNat
  | .write => b.accepts i
  | .read => false
  | .ack => i.ammReaddatavalid
  | .reset => true

/-- A write of the brightness meets no acknowledge of an older one: it is served when the
scan machine comes back to `AMM_IDLE`, or when there is nothing to acknowledge. -/
def MeetsNoAck (s : PuRegs) (i : PuInput) : Prop :=
  s.port.writesLight = true →
    s.bus.returns i.amm = true ∨
    (if s.bus.ammState = .idle then s.request.lightCntReq else s.light.lightCntAck) = false

/-! ## One cycle -/

theorem returns_iff (b : ScanBus) (i : AmmInput) (h : b.returns i = true) :
    (b.step base i).ammState = .idle := by
  unfold ScanBus.returns at h
  cases hs : b.ammState with
  | idle =>
      rw [hs] at h
      simp only [ScanBus.step, hs, ScanBus.next_wrap (of_decide_eq_true h), ScanBus.release]
  | write =>
      rw [hs] at h
      simp [ScanBus.step, hs, show b.accepts i = true from h]
  | read =>
      rw [hs] at h
      exact absurd h Bool.false_ne_true
  | ack =>
      rw [hs] at h
      simp [ScanBus.step, hs, show i.ammReaddatavalid = true from h]
  | reset => simp [ScanBus.step, hs]

namespace LightRequest

variable {r : LightRequest} {p : HostPort} {a : Bool}

theorem step_write (h : p.writesLight = true) :
    r.step p a = ⟨true, p.amsWritedataD.getLsbD 6, p.amsWritedataD.getLsbD 5,
      p.amsWritedataD.extractLsb' 0 5⟩ := by
  unfold HostPort.writesLight at h
  simp only [Bool.and_eq_true, beq_iff_eq] at h
  obtain ⟨hs, ha⟩ := h
  simp only [step, hs, if_pos ha]

theorem step_keep (h : p.writesLight = false) (hp : p.amsState ≠ .reset) :
    (r.step p a).lightManualD = r.lightManualD ∧
    (r.step p a).lightRemoteD = r.lightRemoteD ∧ (r.step p a).lightCntD = r.lightCntD ∧
    (a = false → (r.step p a).lightCntReq = r.lightCntReq) := by
  unfold HostPort.writesLight at h
  unfold step
  cases hs : p.amsState with
  | idle => exact ⟨rfl, rfl, rfl, fun ha => by rw [ha]; exact Bool.and_true _⟩
  | write =>
      rw [hs] at h
      have ha : p.amsAddressD ≠ 1 := by simpa using h
      simp only [if_neg ha, implies_true, and_self]
  | read => simp
  | reset => exact absurd hs hp

end LightRequest

namespace Light

variable {l : Light} {d : BitVec 5} {b : ScanBus} {i : AmmInput} {r : LightRequest}
  {e : BitVec 2}

theorem step_copy (hs : b.ammState = .idle) (hr : r.lightCntReq = true) :
    l.step d b i r e = ⟨true, r.lightManualD, r.lightRemoteD, r.lightCntD⟩ := by
  simp only [step, hs, hr, if_true]

theorem turn_keep (code : BitVec 4) :
    (l.turn code).lightCntAck = l.lightCntAck ∧ (l.turn code).lightManual = l.lightManual ∧
    (l.turn code).lightRemote = l.lightRemote ∧
    ((!l.lightRemote && (Encoder.stepsUp code || Encoder.stepsDown code)) = false →
      (l.turn code).lightCnt = l.lightCnt) := by
  unfold turn
  split
  · simp
  split
  · simp_all
  split
  · simp_all
  · simp

theorem step_keep (hs : b.ammState ≠ .reset) (hr : b.ammState = .idle → r.lightCntReq = false) :
    (l.step d b i r e).lightManual = l.lightManual ∧
    (l.step d b i r e).lightRemote = l.lightRemote ∧
    ((b.samplesEncoders i && !l.lightRemote &&
        (Encoder.stepsUp (e ++ Encoder.contacts b.ammDataD 0) ||
          Encoder.stepsDown (e ++ Encoder.contacts b.ammDataD 0))) = false →
      (l.step d b i r e).lightCnt = l.lightCnt) := by
  unfold step
  cases hst : b.ammState with
  | idle => simp [hr hst]
  | write => simp
  | read => simp
  | ack =>
      obtain ⟨_, hm, hrem, hcnt⟩ := turn_keep (l := l) (e ++ Encoder.contacts b.ammDataD 0)
      cases hsample : b.samplesEncoders i with
      | false => simp
      | true => exact ⟨hm, hrem, hcnt⟩
  | reset => exact absurd hst hs

theorem step_ack (hs : b.ammState ≠ .reset) :
    (l.step d b i r e).lightCntAck =
      if b.ammState = .idle then r.lightCntReq else l.lightCntAck := by
  unfold step
  cases hst : b.ammState with
  | idle =>
      cases hr : r.lightCntReq with
      | true => rfl
      | false => rfl
  | write => rfl
  | read => rfl
  | ack =>
      obtain ⟨hack, _⟩ := turn_keep (l := l) (e ++ Encoder.contacts b.ammDataD 0)
      cases hsample : b.samplesEncoders i with
      | false => rfl
      | true => exact hack
  | reset => exact absurd hst hs

end Light

/-! ## The run -/

/-- What is on its way after a write: the value waits with no older acknowledge, or it has
been taken over. -/
structure UnderWay (w n : Nat) : Prop where
  lightManualD : (puRun base defaultLight byteenable inp n).request.lightManualD =
    (puRun base defaultLight byteenable inp w).port.amsWritedataD.getLsbD 6
  lightRemoteD : (puRun base defaultLight byteenable inp n).request.lightRemoteD =
    (puRun base defaultLight byteenable inp w).port.amsWritedataD.getLsbD 5
  lightCntD : (puRun base defaultLight byteenable inp n).request.lightCntD =
    (puRun base defaultLight byteenable inp w).port.amsWritedataD.extractLsb' 0 5
  waits : ((puRun base defaultLight byteenable inp n).request.lightCntReq = true ∧
      ((puRun base defaultLight byteenable inp n).light.lightCntAck = true →
        (puRun base defaultLight byteenable inp n).bus.ammState = .idle)) ∨
    TakenOver base defaultLight byteenable inp w n

variable {base defaultLight byteenable inp} {w n : Nat}

theorem LastWrite.pred (h : LastWrite base defaultLight byteenable inp w (n + 1)) (hw : w < n) :
    LastWrite base defaultLight byteenable inp w n :=
  ⟨h.1, hw, fun j hj => h.2.2 j (by omega)⟩

theorem underWay_start (hw : (puRun base defaultLight byteenable inp w).port.writesLight = true)
    (hmeet : MeetsNoAck (puRun base defaultLight byteenable inp w) (inp w))
    (hbus : (puRun base defaultLight byteenable inp w).bus.ammState ≠ .reset) :
    UnderWay base defaultLight byteenable inp w (w + 1) := by
  have hrequest : (puRun base defaultLight byteenable inp (w + 1)).request = _ :=
    LightRequest.step_write hw
  have hack : (puRun base defaultLight byteenable inp (w + 1)).light.lightCntAck = _ :=
    Light.step_ack hbus
  refine ⟨congrArg LightRequest.lightManualD hrequest,
    congrArg LightRequest.lightRemoteD hrequest, congrArg LightRequest.lightCntD hrequest,
    .inl ⟨congrArg LightRequest.lightCntReq hrequest, fun hset => ?_⟩⟩
  rcases hmeet hw with hreturns | hnone
  · exact returns_iff base _ _ hreturns
  · exact absurd ((hack.trans hnone).symm.trans hset) Bool.false_ne_true

theorem takenOver_copy (h : UnderWay base defaultLight byteenable inp w n) (hn : w < n)
    (hs : (puRun base defaultLight byteenable inp n).bus.ammState = .idle)
    (hr : (puRun base defaultLight byteenable inp n).request.lightCntReq = true) :
    TakenOver base defaultLight byteenable inp w (n + 1) := by
  have hlight : (puRun base defaultLight byteenable inp (n + 1)).light = _ :=
    Light.step_copy hs hr
  refine ⟨?_, ?_, n, hn, Nat.lt_succ_self n, ?_, fun j hj hlt => absurd hlt (by omega)⟩
  · rw [hlight]
    exact h.lightManualD
  · rw [hlight]
    exact h.lightRemoteD
  · rw [hlight]
    exact h.lightCntD

theorem takenOver_keep (h : TakenOver base defaultLight byteenable inp w n)
    (hs : (puRun base defaultLight byteenable inp n).bus.ammState ≠ .reset)
    (hr : (puRun base defaultLight byteenable inp n).bus.ammState = .idle →
      (puRun base defaultLight byteenable inp n).request.lightCntReq = false) :
    TakenOver base defaultLight byteenable inp w (n + 1) := by
  obtain ⟨hmanual, hremote, u, hwu, hun, hcopy, hkeep⟩ := h
  obtain ⟨hm, hrem, hcnt⟩ := Light.step_keep
    (l := (puRun base defaultLight byteenable inp n).light) (d := defaultLight)
    (i := (inp n).amm) (e := ((puRun base defaultLight byteenable inp n).encoders 0).encState) hs hr
  refine ⟨hm.trans hmanual, hrem.trans hremote, u, hwu, by omega, hcopy, ?_⟩
  intro j hj hlt hlocal
  by_cases hlast : j = n
  · subst hlast
    exact hcnt hlocal
  · exact hkeep j hj (by omega) hlocal

theorem underWay_step (h : UnderWay base defaultLight byteenable inp w n)
    (hquiet : (puRun base defaultLight byteenable inp n).port.writesLight = false) (hn : w < n) :
    UnderWay base defaultLight byteenable inp w (n + 1) := by
  obtain ⟨m, rfl⟩ : ∃ m, n = m + 1 := ⟨n - 1, by omega⟩
  have hbus := bus_started base defaultLight byteenable inp m
  have hport := port_started base defaultLight byteenable inp m
  obtain ⟨hmanual, hremote, hcnt, hreq⟩ := LightRequest.step_keep
    (r := (puRun base defaultLight byteenable inp (m + 1)).request)
    (a := (puRun base defaultLight byteenable inp (m + 1)).light.lightCntAck) hquiet hport
  refine ⟨hmanual.trans h.lightManualD, hremote.trans h.lightRemoteD, hcnt.trans h.lightCntD, ?_⟩
  by_cases hcopies : (puRun base defaultLight byteenable inp (m + 1)).bus.ammState = .idle ∧
      (puRun base defaultLight byteenable inp (m + 1)).request.lightCntReq = true
  · exact .inr (takenOver_copy h hn hcopies.1 hcopies.2)
  rcases h.waits with ⟨hup, hback⟩ | htaken
  · -- the value still waits: the machine is busy, and so there is no acknowledge
    have hbusy : (puRun base defaultLight byteenable inp (m + 1)).bus.ammState ≠ .idle :=
      fun hs => hcopies ⟨hs, hup⟩
    have hnone : (puRun base defaultLight byteenable inp (m + 1)).light.lightCntAck = false := by
      rw [← Bool.not_eq_true]
      exact fun hset => hbusy (hback hset)
    have hack : (puRun base defaultLight byteenable inp (m + 2)).light.lightCntAck = false :=
      (Light.step_ack hbus).trans ((if_neg hbusy).trans hnone)
    exact .inl ⟨(hreq hnone).trans hup,
      fun hset => absurd (hack.symm.trans hset) Bool.false_ne_true⟩
  · apply Or.inr (takenOver_keep htaken hbus _)
    intro hs
    rw [← Bool.not_eq_true]
    exact fun hup => hcopies ⟨hs, hup⟩

theorem underWay (hmeet : ∀ n, MeetsNoAck (puRun base defaultLight byteenable inp n) (inp n))
    (h : LastWrite base defaultLight byteenable inp w n) :
    UnderWay base defaultLight byteenable inp w n := by
  induction n with
  | zero => exact absurd h.2.1 (Nat.not_lt_zero w)
  | succ n ih =>
      by_cases hfirst : w = n
      · subst hfirst
        apply underWay_start h.1 (hmeet w)
        cases w with
        | zero => exact absurd h.1 Bool.false_ne_true
        | succ m => exact bus_started base defaultLight byteenable inp m
      · have hw : w < n := by
          have hlt := h.2.1
          omega
        exact underWay_step (ih (h.pred hw)) (h.2.2 n (Nat.lt_succ_self n) hw) hw

end Run

/-- Where no write meets an older acknowledge, no write is dropped. -/
theorem writes_taken_over (base : BitVec 32) (defaultLight : BitVec 5) (byteenable : BitVec 4)
    (inp : Nat → PuInput)
    (hmeet : ∀ n, MeetsNoAck (puRun base defaultLight byteenable inp n) (inp n)) :
    WritesTakenOver base defaultLight byteenable inp := by
  intro w n hlast hdown
  have hway := underWay hmeet hlast
  rcases hway.waits with ⟨hup, _⟩ | htaken
  · rw [hdown] at hup
    exact absurd hup Bool.false_ne_true
  · exact htaken

/-! ## A write that is dropped -/

/-- The host writes in cycle 1 and, when the value has just been copied, in cycle 5. The
bridge takes one command and then waits. -/
def twoWrites (n : Nat) : PuInput :=
  ⟨⟨4 ≤ n, false, 0⟩,
    ⟨n = 1 || n = 5, false, 0xF, 1, if n = 1 then 0x01 else 0x41, 0, 0, 0⟩⟩

/-- The second write of these is served in cycle 6 and dropped in cycle 7. -/
theorem write_dropped : ¬ WritesTakenOver 0 16 0 twoWrites := by
  intro h
  have hlast : LastWrite 0 16 0 twoWrites 6 8 := by
    refine ⟨by decide, by decide, ?_⟩
    decide
  have htaken := h 6 8 hlast (by decide)
  exact absurd htaken.lightManual (by decide)

def oneWrite (n : Nat) : PuInput :=
  ⟨⟨4 ≤ n, false, 0⟩, ⟨n = 1, false, 0xF, 1, 0x41, 0, 0, 0⟩⟩

theorem oneWrite_idle (n : Nat) : (puRun 0 16 0 oneWrite (n + 3)).port.amsState = .idle := by
  induction n with
  | zero => decide
  | succ n ih =>
      have hnone : (oneWrite (n + 3)).host.amsWrite = false := by simp [oneWrite]
      exact HostPort.step_silent ih hnone rfl

theorem writes_taken_over_once : WritesTakenOver 0 16 0 oneWrite := by
  apply writes_taken_over
  intro n hw
  by_cases hlate : 3 ≤ n
  · obtain ⟨m, rfl⟩ : ∃ m, n = m + 3 := ⟨n - 3, by omega⟩
    unfold HostPort.writesLight at hw
    rw [oneWrite_idle m] at hw
    exact absurd hw Bool.false_ne_true
  · have hfirst : n = 0 ∨ n = 1 ∨ n = 2 := by omega
    rcases hfirst with rfl | rfl | rfl <;> revert hw <;> decide

end Mfi.Pu
