import Mfi.AmsI2c.Transaction

/-!
# The lines of the bridge

An observer of the two lines sees a start or a stop when the data line moves while the
clock line is high, and a bit when the clock line falls after it was high with a data line
that did not move. In each period of `i2c_clock` the master puts one symbol on the bus.
-/

namespace Mfi.AmsI2c

open Core

/-! ## The observer -/

/-- What is seen when the lines go from `s` to `s'`; the bit was sampled when the clock
line rose. -/
def busSymbol (pending : Option (Bool × Bool)) (s s' : BridgeRegs) : Option Symbol :=
  if s.scl = s'.scl then
    if s.scl = true then
      if s.sda = s'.sda then none else if s.sda then some .start else some .stop
    else none
  else if s.sda ≠ s'.sda then some .fault
  else if s.scl then pending.map fun p => .bit p.1 p.2
  else none

/-- The bit on the lines while the clock line is high. -/
def nextPending (pending : Option (Bool × Bool)) (s s' : BridgeRegs) (slave : Bool) :
    Option (Bool × Bool) :=
  if s'.scl = false then none
  else if s.scl = false then some (s'.sda, slave)
  else if s.sda = s'.sda then pending
  else none

/-! ## A period of the master -/

namespace Master

variable {m : Master}

def pulls (m : Master) : Bool :=
  match m.i2cState with
  | .restart | .data | .ack | .stop => true
  | _ => false

/-- The clock line will be pulled low in the next low half. -/
def pullsNext (m : Master) : Bool :=
  match m.i2cState with
  | .start | .restart | .data | .ack => true
  | _ => false

def levelLow (m : Master) : Bool :=
  match m.i2cState with
  | .data => if m.i2cWord = .read then true else m.i2cShiftData.getLsbD 7
  | .stop => false
  | _ => true

def levelHigh (m : Master) : Bool :=
  match m.i2cState with
  | .start => false
  | .restart => false
  | .data => m.levelLow
  | _ => true

def condition (m : Master) : Option Symbol :=
  match m.i2cState with
  | .start => some .start
  | .restart => some .start
  | .stop => some .stop
  | _ => none

/-- The symbol of a period with the bit `v` of the slave. -/
def periodSymbols (m : Master) (v : Bool) : List Symbol :=
  match m.condition with
  | some x => [x]
  | none => if m.pulls then [.bit m.levelLow v] else []

theorem lines_low (l : Lines) (h : l.i2cClockEn = m.pulls) (w : Bool) :
    (l.step m false w).i2cClockEn = m.pulls ∧ (l.step m false w).i2cData = m.levelLow ∧
    (l.step m false w).i2cWait = false := by
  unfold pulls at h ⊢
  unfold Lines.step levelLow
  cases hs : m.i2cState with
  | idle => exact ⟨rfl, rfl, rfl⟩
  | start =>
      rw [hs] at h
      exact ⟨by rw [h]; rfl, rfl, rfl⟩
  | restart =>
      rw [hs] at h
      exact ⟨by rw [h]; rfl, rfl, rfl⟩
  | data => exact ⟨rfl, rfl, rfl⟩
  | ack => exact ⟨rfl, rfl, rfl⟩
  | stop =>
      rw [hs] at h
      exact ⟨by rw [h]; rfl, rfl, rfl⟩
  | reset => exact ⟨rfl, rfl, rfl⟩

theorem lines_high (l : Lines) :
    (l.step m true true).i2cClockEn = m.pullsNext ∧ (l.step m true true).i2cData = m.levelHigh ∧
    (l.step m true true).i2cWait = false := by
  unfold pullsNext Lines.step levelHigh levelLow
  cases hs : m.i2cState with
  | idle => exact ⟨rfl, rfl, rfl⟩
  | start => exact ⟨Bool.or_true _, rfl, rfl⟩
  | restart => exact ⟨Bool.or_true _, rfl, rfl⟩
  | data => exact ⟨rfl, rfl, rfl⟩
  | ack => exact ⟨rfl, rfl, rfl⟩
  | stop => exact ⟨Bool.and_false _, rfl, rfl⟩
  | reset => exact ⟨rfl, rfl, rfl⟩

/-- The data line moves in the high half exactly at a condition. -/
theorem level_condition :
    (m.condition = none → m.levelHigh = m.levelLow) ∧
    (∀ x, m.condition = some x → m.levelHigh ≠ m.levelLow ∧
      x = if m.levelLow then .start else .stop) := by
  unfold condition levelHigh levelLow
  cases hs : m.i2cState with
  | idle => exact ⟨fun _ => rfl, nofun⟩
  | start => exact ⟨nofun, fun x hx => ⟨nofun, (Option.some.inj hx).symm⟩⟩
  | restart => exact ⟨nofun, fun x hx => ⟨nofun, (Option.some.inj hx).symm⟩⟩
  | data => exact ⟨fun _ => rfl, nofun⟩
  | ack => exact ⟨fun _ => rfl, nofun⟩
  | stop => exact ⟨nofun, fun x hx => ⟨nofun, (Option.some.inj hx).symm⟩⟩
  | reset => exact ⟨fun _ => rfl, nofun⟩

theorem levelHigh_of_released (h : m.pullsNext = false) : m.levelHigh = true := by
  unfold pullsNext at h
  unfold levelHigh
  cases hs : m.i2cState with
  | idle => rfl
  | start =>
      rw [hs] at h
      exact absurd h nofun
  | restart =>
      rw [hs] at h
      exact absurd h nofun
  | data =>
      rw [hs] at h
      exact absurd h nofun
  | ack => rfl
  | stop => rfl
  | reset => rfl

theorem levelLow_of_released (h : m.pulls = false) : m.levelLow = true := by
  unfold pulls at h
  unfold levelLow
  cases hs : m.i2cState with
  | idle => rfl
  | start => rfl
  | restart => rfl
  | data =>
      rw [hs] at h
      exact absurd h.symm Bool.false_ne_true
  | ack => rfl
  | stop =>
      rw [hs] at h
      exact absurd h.symm Bool.false_ne_true
  | reset => rfl

theorem pullsNext_of_bit (hc : m.condition = none) (hp : m.pulls = true) :
    m.pullsNext = true := by
  unfold condition at hc
  unfold pulls at hp
  unfold pullsNext
  cases hs : m.i2cState with
  | idle =>
      rw [hs] at hp
      exact hp
  | start => rfl
  | restart => rfl
  | data => rfl
  | ack => rfl
  | stop =>
      rw [hs] at hc
      exact absurd hc (Option.some_ne_none _)
  | reset =>
      rw [hs] at hp
      exact hp

theorem pulls_step (address : BitVec 16) (data : BitVec 8) (wl rl d w : Bool) :
    (m.step address data wl rl d w).pulls = m.pullsNext := by
  cases hs : m.i2cState with
  | idle =>
      unfold Master.step pulls pullsNext
      rw [hs]
      cases hl : wl || rl with
      | true => simp
      | false => simp
  | start =>
      rw [step_start (.inl hs)]
      simp [pulls, pullsNext, hs]
  | restart =>
      rw [step_start (.inr hs)]
      simp [pulls, pullsNext, hs]
  | data =>
      by_cases hb : 0 < m.i2cBitCnt
      · cases w with
        | true =>
            rw [step_data_wait hs hb]
            simp [pulls, pullsNext, hs]
        | false =>
            rw [step_data_next hs hb]
            simp [pulls, pullsNext, hs]
      · rw [step_data_last hs hb]
        simp [pulls, pullsNext, hs]
  | ack =>
      rw [step_ack hs]
      unfold ack pulls pullsNext
      rw [hs]
      cases m.i2cWord with
      | device => cases d <;> rfl
      | address =>
          cases d with
          | true => rfl
          | false => cases m.i2cReadOp <;> rfl
      | write => rfl
      | read => rfl
      | reset => rfl
  | stop =>
      rw [step_stop hs]
      simp [pulls, pullsNext, hs]
  | reset =>
      rw [step_reset hs]
      simp [pulls, pullsNext, hs]

end Master

/-! ## The lines in a period -/

/-- The lines, the observed bit and the condition seen so far, by the count of the
divider. -/
structure Wave (s : BridgeRegs) (pending : Option (Bool × Bool)) (e : List Symbol) : Prop where
  early : s.count < 2 → s.lines.i2cClockEn = s.master.pulls ∧
    (s.master.pulls = false → s.lines.i2cData = true)
  low : 2 ≤ s.count → s.count < 6 → s.lines.i2cClockEn = s.master.pulls ∧
    s.lines.i2cData = s.master.levelLow
  high : 6 ≤ s.count → s.lines.i2cClockEn = s.master.pullsNext ∧
    s.lines.i2cData = s.master.levelHigh
  noWait : 2 ≤ s.count → s.lines.i2cWait = false
  nothing : s.count < 4 → pending = none
  sampled : 4 ≤ s.count → ∃ v, s.samples.i2cDataIn = (s.master.levelLow && v) ∧
    (s.master.pulls = true → (s.count < 6 ∨ s.master.condition = none) →
      pending = some (s.master.levelLow, v)) ∧
    (s.master.pulls = false ∨ 6 ≤ s.count ∧ s.master.condition ≠ none → pending = none)
  seen : e = if 6 ≤ s.count then s.master.condition.toList else []

namespace BridgeRegs

variable {i2cClockTime : BitVec 32} {s : BridgeRegs} {i : BridgeInput}
  {pending : Option (Bool × Bool)} {e : List Symbol}

/-- What a cycle does beside the registers of `clock`. -/
inductive Edge (s s' : BridgeRegs) (i : BridgeInput) : Prop where
  | flat (hcount : s'.count = s.count ∨ s'.count = s.count + 1 ∧ s.count % 2 = 0)
      (hlines : s'.lines = s.lines) (hsamples : s'.samples = s.samples)
      (hmaster : s'.master = s.master) : Edge s s' i
  | low (hcount : s.count = 1 ∧ s'.count = 2)
      (hlines : s'.lines = s.lines.step s.master false i.sclReleased)
      (hsamples : s'.samples = s.samples) (hmaster : s'.master = s.master) : Edge s s' i
  | rise (hcount : s.count = 3 ∧ s'.count = 4) (hlines : s'.lines = s.lines)
      (hdata : s'.samples.i2cDataIn = (s.sda && i.sdaReleased))
      (hmaster : s'.master = s.master) : Edge s s' i
  | high (hcount : s.count = 5 ∧ s'.count = 6)
      (hlines : s'.lines = s.lines.step s.master true i.sclReleased)
      (hsamples : s'.samples = s.samples) (hmaster : s'.master = s.master) : Edge s s' i
  | fall (hcount : s.count = 7 ∧ s'.count = 0) (hlines : s'.lines = s.lines)
      (hsamples : s'.samples = s.samples)
      (hmaster : s'.master = s.master.step s'.port.i2cAddress s'.port.i2cWritedata
        s.samples.i2cWriteLatch s.samples.i2cReadLatch s.samples.i2cDataIn s.lines.i2cWait) :
      Edge s s' i

theorem count_edges : ∀ k : BitVec 3,
    (k.toNat = 1 ∧ (k + 1).toNat = 2 ∧ k.getLsbD 2 = false ∧ (k + 1).getLsbD 2 = false ∧
      k.getLsbD 1 = false ∧ (k + 1).getLsbD 1 = true) ∨
    (k.toNat = 3 ∧ (k + 1).toNat = 4 ∧ k.getLsbD 2 = false ∧ (k + 1).getLsbD 2 = true) ∨
    (k.toNat = 5 ∧ (k + 1).toNat = 6 ∧ k.getLsbD 2 = true ∧ (k + 1).getLsbD 2 = true ∧
      k.getLsbD 1 = false ∧ (k + 1).getLsbD 1 = true) ∨
    (k.toNat = 7 ∧ (k + 1).toNat = 0 ∧ k.getLsbD 2 = true ∧ (k + 1).getLsbD 2 = false) ∨
    (k.toNat % 2 = 0 ∧ (k + 1).toNat = k.toNat + 1 ∧ (k + 1).getLsbD 2 = k.getLsbD 2 ∧
      (k + 1).getLsbD 1 = k.getLsbD 1) := by
  decide

theorem step_flat (hr : s.rises i2cClockTime = false) (hf : s.falls i2cClockTime = false)
    (h2x : s.rises2x i2cClockTime = false) :
    s.step i2cClockTime i = s.clocked i2cClockTime i := by
  simp only [step, hr, hf, h2x, Bool.false_eq_true, if_false]

theorem step_2x (hr : s.rises i2cClockTime = false) (hf : s.falls i2cClockTime = false)
    (h2x : s.rises2x i2cClockTime = true) :
    (s.step i2cClockTime i).lines =
        s.lines.step s.master (s.divider.step i2cClockTime).i2cClock
          (!(s.lines.i2cClockEn && !(s.divider.step i2cClockTime).i2cClock) && i.sclReleased) ∧
      (s.step i2cClockTime i).samples = s.samples ∧
      (s.step i2cClockTime i).master = s.master := by
  simp only [step, hr, hf, h2x, Bool.false_eq_true, if_false, if_true]
  exact ⟨rfl, rfl, rfl⟩

theorem step_lines (h : s.rises i2cClockTime = true ∨ s.falls i2cClockTime = true) :
    (s.step i2cClockTime i).lines = s.lines := by
  unfold step
  rcases h with h | h
  · rw [if_pos h]
    rfl
  · split
    · rfl
    · rfl

theorem edges_of {a b x y : Bool} (h2 : s.divider.i2cClocks.getLsbD 2 = a)
    (h2' : (s.divider.step i2cClockTime).i2cClocks.getLsbD 2 = b)
    (h1 : s.divider.i2cClocks.getLsbD 1 = x)
    (h1' : (s.divider.step i2cClockTime).i2cClocks.getLsbD 1 = y) :
    s.rises i2cClockTime = (!a && b) ∧ s.falls i2cClockTime = (a && !b) ∧
      s.rises2x i2cClockTime = (!x && y) := by
  unfold rises falls rises2x Divider.i2cClock Divider.i2cClock2x
  rw [h2, h2', h1, h1']
  exact ⟨rfl, rfl, rfl⟩

theorem edge_flat (hcount : (s.step i2cClockTime i).count = s.count ∨
      (s.step i2cClockTime i).count = s.count + 1 ∧ s.count % 2 = 0)
    (h2 : (s.divider.step i2cClockTime).i2cClocks.getLsbD 2 = s.divider.i2cClocks.getLsbD 2)
    (h1 : (s.divider.step i2cClockTime).i2cClocks.getLsbD 1 = s.divider.i2cClocks.getLsbD 1) :
    Edge s (s.step i2cClockTime i) i := by
  obtain ⟨hrises, hfalls, hrises2x⟩ := edges_of rfl h2 rfl h1
  have hflat : s.step i2cClockTime i = s.clocked i2cClockTime i := by
    apply step_flat
    · rw [hrises, Bool.not_and_self]
    · rw [hfalls, Bool.and_not_self]
    · rw [hrises2x, Bool.not_and_self]
  refine .flat hcount ?_ ?_ ?_ <;> rw [hflat] <;> rfl

theorem edge_step : Edge s (s.step i2cClockTime i) i := by
  have hcount : (s.step i2cClockTime i).count =
      (s.divider.step i2cClockTime).i2cClocks.toNat := by
    unfold count
    rw [step_divider]
  rcases divider_step s i2cClockTime with hsame | hnext
  · apply edge_flat
    · exact .inl (by rw [hcount, hsame]; rfl)
    · rw [hsame]
    · rw [hsame]
  have hedges := count_edges s.divider.i2cClocks
  rw [← hnext] at hedges
  rcases hedges with ⟨hk, hk', h2, h2', h1, h1'⟩ | ⟨hk, hk', h2, h2'⟩ |
    ⟨hk, hk', h2, h2', h1, h1'⟩ | ⟨hk, hk', h2, h2'⟩ | ⟨heven, hk', h2, h1⟩
  · obtain ⟨hrises, hfalls, hrises2x⟩ := edges_of h2 h2' h1 h1'
    obtain ⟨hlines, hsamples, hmaster⟩ := step_2x (i := i) hrises hfalls hrises2x
    have hclock : (s.divider.step i2cClockTime).i2cClock = false := h2'
    rw [hclock] at hlines
    exact .low ⟨hk, hcount.trans hk'⟩ hlines hsamples hmaster
  · obtain ⟨hrises, _⟩ := edges_of h2 h2' rfl rfl
    refine .rise ⟨hk, hcount.trans hk'⟩ (step_lines (.inl hrises)) ?_
      (master_quiet (not_falls_of_rises hrises))
    rw [step_samples, show s.rises i2cClockTime = true from hrises]
    rfl
  · obtain ⟨hrises, hfalls, hrises2x⟩ := edges_of h2 h2' h1 h1'
    obtain ⟨hlines, hsamples, hmaster⟩ := step_2x (i := i) hrises hfalls hrises2x
    have hclock : (s.divider.step i2cClockTime).i2cClock = true := h2'
    rw [hclock, Bool.not_true, Bool.and_false, Bool.not_false, Bool.true_and] at hlines
    exact .high ⟨hk, hcount.trans hk'⟩ hlines hsamples hmaster
  · obtain ⟨hrises, hfalls, _⟩ := edges_of h2 h2' rfl rfl
    refine .fall ⟨hk, hcount.trans hk'⟩ (step_lines (.inr hfalls)) (samples_quiet hrises) ?_
    rw [step_master, show s.falls i2cClockTime = true from hfalls]
    rfl
  · exact edge_flat (.inr ⟨hcount.trans hk', heven⟩) h2 h1

theorem clock_count : s.divider.i2cClock = decide (4 ≤ s.count) := by
  have hcases : ∀ k : BitVec 3, k.getLsbD 2 = decide (4 ≤ k.toNat) := by decide
  exact hcases s.divider.i2cClocks

theorem scl_low (h : s.count < 4) : s.scl = !s.lines.i2cClockEn := by
  unfold scl
  rw [clock_count, decide_eq_false (by omega)]
  exact congrArg _ (Bool.and_true _)

theorem scl_high (h : 4 ≤ s.count) : s.scl = true := by
  unfold scl
  rw [clock_count, decide_eq_true h, Bool.not_true, Bool.and_false]
  rfl

theorem busSymbol_same (pending : Option (Bool × Bool)) {s' : BridgeRegs}
    (hscl : s'.scl = s.scl) (hsda : s'.sda = s.sda) :
    busSymbol pending s s' = none ∧
      (∀ v, nextPending pending s s' v = if s.scl then pending else none) := by
  unfold busSymbol nextPending
  rw [hscl, hsda]
  cases s.scl <;> simp

theorem wave_flat {s' : BridgeRegs} (h : Wave s pending e)
    (hcount : s'.count = s.count ∨ s'.count = s.count + 1 ∧ s.count % 2 = 0)
    (hlines : s'.lines = s.lines) (hsamples : s'.samples = s.samples)
    (hmaster : s'.master = s.master) :
    busSymbol pending s s' = none ∧ ∀ v, Wave s' (nextPending pending s s' v) e := by
  have hsda : s'.sda = s.sda := congrArg Lines.i2cData hlines
  have hscl : s'.scl = s.scl := by
    by_cases hlow : s.count < 4
    · rw [scl_low hlow, scl_low (by omega), hlines]
    · rw [scl_high (by omega), scl_high (by omega)]
  obtain ⟨hnone, hpending⟩ := busSymbol_same pending hscl hsda
  refine ⟨hnone, fun v => ?_⟩
  have hsame : nextPending pending s s' v = pending := by
    rw [hpending]
    by_cases hlow : s.count < 4
    · rw [h.nothing hlow, ite_self]
    · rw [scl_high (by omega), if_pos rfl]
  rw [hsame]
  constructor
  · rw [hlines, hmaster]
    exact fun hk => h.early (by omega)
  · rw [hlines, hmaster]
    exact fun hk hk' => h.low (by omega) (by omega)
  · rw [hlines, hmaster]
    exact fun hk => h.high (by omega)
  · rw [hlines]
    exact fun hk => h.noWait (by omega)
  · exact fun hk => h.nothing (by omega)
  · rw [hsamples, hmaster]
    intro hk
    obtain ⟨v, hdata, hsome, hno⟩ := h.sampled (by omega)
    refine ⟨v, hdata, fun hp hc => hsome hp ?_, fun hc => hno ?_⟩
    · rcases hc with hc | hc
      · exact .inl (by omega)
      · exact .inr hc
    · rcases hc with hc | ⟨hc, hc'⟩
      · exact .inl hc
      · exact .inr ⟨by omega, hc'⟩
  · rw [h.seen, hmaster]
    by_cases hk : 6 ≤ s.count
    · rw [if_pos hk, if_pos (by omega)]
    · rw [if_neg hk, if_neg (by omega)]

theorem wave_low {s' : BridgeRegs} (h : Wave s pending e) (hcount : s.count = 1 ∧ s'.count = 2)
    (hlines : s'.lines = s.lines.step s.master false i.sclReleased)
    (hmaster : s'.master = s.master) :
    busSymbol pending s s' = none ∧ ∀ v, Wave s' (nextPending pending s s' v) e := by
  obtain ⟨hk, hk'⟩ := hcount
  obtain ⟨hen, hdata⟩ := h.early (by omega)
  obtain ⟨hen', hdata', hwait⟩ := Master.lines_low s.lines hen i.sclReleased
  rw [← hlines] at hen' hdata' hwait
  have hscl : s.scl = !s.master.pulls := by rw [scl_low (by omega), hen]
  have hscl' : s'.scl = !s.master.pulls := by rw [scl_low (by omega), hen']
  have hsymbol : busSymbol pending s s' = none ∧ ∀ v, nextPending pending s s' v = none := by
    cases hp : s.master.pulls with
    | true =>
        unfold busSymbol nextPending
        rw [hscl, hscl', hp]
        simp
    | false =>
        -- nobody pulls the clock line, and the data line stays high
        have hsda : s'.sda = s.sda :=
          hdata'.trans ((Master.levelLow_of_released hp).trans (hdata hp).symm)
        obtain ⟨hnone, hpending⟩ := busSymbol_same pending (hscl'.trans hscl.symm) hsda
        refine ⟨hnone, fun v => ?_⟩
        rw [hpending, h.nothing (by omega), ite_self]
  refine ⟨hsymbol.1, fun v => ?_⟩
  rw [hsymbol.2]
  have hseen := h.seen
  rw [if_neg (by omega)] at hseen
  refine ⟨by omega, fun _ _ => ?_, by omega, fun _ => hwait, fun _ => rfl, by omega, ?_⟩
  · rw [hmaster]
    exact ⟨hen', hdata'⟩
  · rw [hseen, if_neg (by omega)]

theorem wave_rise {s' : BridgeRegs} (h : Wave s pending e) (hcount : s.count = 3 ∧ s'.count = 4)
    (hlines : s'.lines = s.lines) (hdata : s'.samples.i2cDataIn = (s.sda && i.sdaReleased))
    (hmaster : s'.master = s.master) :
    busSymbol pending s s' = none ∧ Wave s' (nextPending pending s s' i.sdaReleased) e := by
  obtain ⟨hk, hk'⟩ := hcount
  obtain ⟨hen, hlevel⟩ := h.low (by omega) (by omega)
  have hsda : s'.sda = s.sda := congrArg Lines.i2cData hlines
  have hscl : s.scl = !s.master.pulls := by rw [scl_low (by omega), hen]
  have hscl' : s'.scl = true := scl_high (by omega)
  have hsymbol : busSymbol pending s s' = none := by
    unfold busSymbol
    rw [hscl, hscl', hsda]
    cases s.master.pulls <;> simp
  have hnext : nextPending pending s s' i.sdaReleased =
      if s.master.pulls then some (s.master.levelLow, i.sdaReleased) else none := by
    unfold nextPending
    rw [hscl, hscl', hsda, h.nothing (by omega), show s.sda = s.master.levelLow from hlevel]
    cases s.master.pulls <;> simp
  have hseen := h.seen
  rw [if_neg (by omega)] at hseen
  refine ⟨hsymbol, by omega, fun _ _ => ?_, by omega, fun _ => ?_, by omega, fun _ => ?_, ?_⟩
  · rw [hlines, hmaster]
    exact ⟨hen, hlevel⟩
  · rw [hlines]
    exact h.noWait (by omega)
  · rw [hmaster, hdata, hnext]
    refine ⟨i.sdaReleased, congrArg (· && i.sdaReleased) hlevel, fun hp _ => if_pos hp, ?_⟩
    rintro (hp | ⟨hlate, _⟩)
    · rw [hp]
      rfl
    · omega
  · rw [hseen, if_neg (by omega)]

theorem wave_high {s' : BridgeRegs} (h : Wave s pending e) (hcount : s.count = 5 ∧ s'.count = 6)
    (hlines : s'.lines = s.lines.step s.master true i.sclReleased)
    (hsamples : s'.samples = s.samples) (hmaster : s'.master = s.master)
    (hreleased : i.sclReleased = true) (v : Bool) :
    Wave s' (nextPending pending s s' v) (e ++ (busSymbol pending s s').toList) := by
  obtain ⟨hk, hk'⟩ := hcount
  obtain ⟨_, hlevel⟩ := h.low (by omega) (by omega)
  rw [hreleased] at hlines
  obtain ⟨hen', hdata', hwait⟩ := Master.lines_high (m := s.master) s.lines
  rw [← hlines] at hen' hdata' hwait
  obtain ⟨hsame, hmoves⟩ := s.master.level_condition
  have hscl : s.scl = true := scl_high (by omega)
  have hscl' : s'.scl = true := scl_high (by omega)
  have hseen := h.seen
  rw [if_neg (by omega)] at hseen
  obtain ⟨u, hin, hsome, hno⟩ := h.sampled (by omega)
  have hsymbol : busSymbol pending s s' = s.master.condition ∧
      (s.master.condition = none → nextPending pending s s' v = pending) ∧
      (s.master.condition ≠ none → nextPending pending s s' v = none) := by
    unfold busSymbol nextPending sda
    rw [hscl, hscl', hlevel, hdata']
    cases hc : s.master.condition with
    | none =>
        rw [hsame hc]
        simp
    | some x =>
        obtain ⟨hne, hx⟩ := hmoves x hc
        rw [hx, Bool.eq_not.mpr hne]
        cases s.master.levelLow <;> simp
  obtain ⟨hsymbol, hkeep, hdrop⟩ := hsymbol
  refine ⟨by omega, by omega, fun _ => ?_, fun _ => hwait, by omega, fun _ => ?_, ?_⟩
  · rw [hmaster]
    exact ⟨hen', hdata'⟩
  · rw [hmaster, hsamples]
    refine ⟨u, hin, fun hp hc => ?_, fun hc => ?_⟩
    · have hnone : s.master.condition = none := by
        rcases hc with hc | hc
        · omega
        · exact hc
      rw [hkeep hnone]
      exact hsome hp (.inl (by omega))
    · by_cases hnone : s.master.condition = none
      · rw [hkeep hnone]
        rcases hc with hc | ⟨_, hc⟩
        · exact hno (.inl hc)
        · exact absurd hnone hc
      · exact hdrop hnone
  · rw [hseen, hsymbol, hmaster, if_pos (by omega), List.nil_append]

theorem pending_of_end (h : Wave s pending e) (hk : s.count = 7) :
    ∃ u, s.samples.i2cDataIn = (s.master.levelLow && u) ∧
      pending = if s.master.condition = none ∧ s.master.pulls = true then
        some (s.master.levelLow, u) else none := by
  obtain ⟨u, hin, hsome, hno⟩ := h.sampled (by omega)
  refine ⟨u, hin, ?_⟩
  by_cases hbit : s.master.condition = none ∧ s.master.pulls = true
  · rw [if_pos hbit]
    exact hsome hbit.2 (.inr hbit.1)
  · rw [if_neg hbit]
    cases hp : s.master.pulls with
    | false => exact hno (.inl hp)
    | true => exact hno (.inr ⟨by omega, fun hc => hbit ⟨hc, hp⟩⟩)

theorem wave_fall {s' : BridgeRegs} (h : Wave s pending e) (hcount : s.count = 7 ∧ s'.count = 0)
    (hlines : s'.lines = s.lines)
    (hpulls : s'.master.pulls = s.master.pullsNext) (v : Bool) :
    ∃ u, s.samples.i2cDataIn = (s.master.levelLow && u) ∧
      e ++ (busSymbol pending s s').toList = s.master.periodSymbols u ∧
      Wave s' (nextPending pending s s' v) [] := by
  obtain ⟨hk, hk'⟩ := hcount
  obtain ⟨hen, hlevel⟩ := h.high (by omega)
  obtain ⟨u, hin, hpending⟩ := pending_of_end h hk
  have hsda : s'.sda = s.sda := congrArg Lines.i2cData hlines
  have hscl : s.scl = true := scl_high (by omega)
  have hscl' : s'.scl = !s.master.pullsNext := by rw [scl_low (by omega), hlines, hen]
  have hseen := h.seen
  rw [if_pos (by omega)] at hseen
  have hsymbol : busSymbol pending s s' =
      (if s.master.pullsNext then pending.map fun p => .bit p.1 p.2 else none) ∧
      nextPending pending s s' v = if s.master.pullsNext then none else pending := by
    unfold busSymbol nextPending
    rw [hscl, hscl', hsda]
    cases s.master.pullsNext <;> simp
  have hnothing : nextPending pending s s' v = none := by
    rw [hsymbol.2]
    cases hp : s.master.pullsNext with
    | true => rfl
    | false =>
        -- a bit would be followed by another low half
        rw [hpending, if_neg Bool.false_ne_true, if_neg]
        rintro ⟨hc, hactive⟩
        exact Bool.false_ne_true (hp.symm.trans (Master.pullsNext_of_bit hc hactive))
  refine ⟨u, hin, ?_, ?_⟩
  · rw [hseen, hsymbol.1, hpending]
    unfold Master.periodSymbols
    cases hc : s.master.condition with
    | some x => simp
    | none =>
        cases hp : s.master.pulls with
        | true => simp [Master.pullsNext_of_bit hc hp]
        | false => simp
  · refine ⟨fun _ => ?_, by omega, by omega, by omega, fun _ => hnothing, by omega, ?_⟩
    · rw [hlines, hpulls]
      refine ⟨hen, fun hp => ?_⟩
      rw [hlevel]
      exact s.master.levelHigh_of_released hp
    · rw [if_neg (by omega)]

theorem wave_inside (h : Wave s pending e) (hreleased : i.sclReleased = true)
    (hf : s.falls i2cClockTime = false) :
    Wave (s.step i2cClockTime i) (nextPending pending s (s.step i2cClockTime i) i.sdaReleased)
      (e ++ (busSymbol pending s (s.step i2cClockTime i)).toList) := by
  have hedge : Edge s (s.step i2cClockTime i) i := edge_step
  cases hedge with
  | flat hcount hlines hsamples hmaster =>
      obtain ⟨hnone, hwave⟩ := wave_flat h hcount hlines hsamples hmaster
      rw [hnone, Option.toList_none, List.append_nil]
      exact hwave _
  | low hcount hlines hsamples hmaster =>
      obtain ⟨hnone, hwave⟩ := wave_low h hcount hlines hmaster
      rw [hnone, Option.toList_none, List.append_nil]
      exact hwave _
  | rise hcount hlines hdata hmaster =>
      obtain ⟨hnone, hwave⟩ := wave_rise h hcount hlines hdata hmaster
      rw [hnone, Option.toList_none, List.append_nil]
      exact hwave
  | high hcount hlines hsamples hmaster =>
      exact wave_high h hcount hlines hsamples hmaster hreleased _
  | fall hcount hlines hsamples hmaster =>
      have hgoes := count_step (i := i) hf
      omega

theorem wave_end (h : Wave s pending e) (hf : s.falls i2cClockTime = true) :
    ∃ u, (s.step i2cClockTime i).master =
        s.master.step (s.step i2cClockTime i).port.i2cAddress
          (s.step i2cClockTime i).port.i2cWritedata s.samples.i2cWriteLatch
          s.samples.i2cReadLatch (s.master.levelLow && u) false ∧
      e ++ (busSymbol pending s (s.step i2cClockTime i)).toList = s.master.periodSymbols u ∧
      Wave (s.step i2cClockTime i) (nextPending pending s (s.step i2cClockTime i) i.sdaReleased)
        [] := by
  have hends := falls_count (i := i) hf
  have hedge : Edge s (s.step i2cClockTime i) i := edge_step
  cases hedge with
  | flat hcount => omega
  | low hcount => omega
  | rise hcount => omega
  | high hcount => omega
  | fall hcount hlines hsamples hmaster =>
      have hpulls : (s.step i2cClockTime i).master.pulls = s.master.pullsNext := by
        rw [hmaster]
        exact Master.pulls_step _ _ _ _ _ _
      obtain ⟨u, hin, hsymbols, hwave⟩ := wave_fall h hcount hlines hpulls i.sdaReleased
      refine ⟨u, ?_, hsymbols, hwave⟩
      rw [hmaster, hin, h.noWait (by omega)]

end BridgeRegs

end Mfi.AmsI2c
