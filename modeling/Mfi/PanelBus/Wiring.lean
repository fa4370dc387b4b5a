import Mfi.AmsI2c.Status
import Mfi.Pu.ScanMoves

/-!
# The panel unit on its I2C bridge

The Avalon master of the panel unit on the slave port of an I2C bridge, with direct wires and no
other master; the interconnect of the system, and the hosts that it lets reach this port too, are
left out. A command is taken up by the bridge in one cycle and seen as accepted
by the panel unit in the next one; a response is seen in the cycle after the bridge returns.
-/

namespace Mfi.PanelBus

open Core

/-- What comes from outside: the host of the panel unit and the slaves on the two lines. -/
structure PanelInput where
  host : Pu.HostInput
  sclReleased : Bool
  sdaReleased : Bool

structure PanelRegs where
  pu : Pu.PuRegs
  bridge : AmsI2c.BridgeRegs

def ammInput (p : AmsI2c.Port) : Pu.AmmInput :=
  ⟨p.amsWaitrequest, p.amsReaddatavalid, p.amsReaddata⟩

def bridgeInput (b : Pu.ScanBus) (i : PanelInput) : AmsI2c.BridgeInput :=
  ⟨b.ammWrite, b.ammRead, b.ammAddress.extractLsb' 0 16, b.ammWritedata, i.sclReleased,
    i.sdaReleased⟩

/-- The parameters of the two blocks, and what their registers without reset hold first. -/
structure Panel where
  defaultLight : BitVec 5
  i2cClockTime : BitVec 32
  byteenable : BitVec 4
  i2cWait : Bool

/-- One cycle of the common clock. The bridge is at address 0 of the panel unit's bus. -/
def PanelRegs.step (q : Panel) (s : PanelRegs) (i : PanelInput) : PanelRegs where
  pu := s.pu.step 0 q.defaultLight ⟨ammInput s.bridge.port, i.host⟩
  bridge := s.bridge.step q.i2cClockTime (bridgeInput s.pu.bus i)

def Panel.run (q : Panel) (inp : Nat → PanelInput) : Nat → PanelRegs :=
  trace (PanelRegs.step q) ⟨.init q.byteenable, .init q.i2cWait⟩ inp

/-- A command of the panel unit as the bridge takes it up. -/
def bridgeCommand (c : Pu.BusCommand) : AmsI2c.Command :=
  ⟨c.operation = .read, c.address.extractLsb' 0 16, c.data⟩

/-! ## The two sides of the wires -/

def linesCommand (b : Pu.ScanBus) : AmsI2c.Command :=
  ⟨!b.ammWrite, b.ammAddress.extractLsb' 0 16, if b.ammWrite then b.ammWritedata else 0⟩

/-- What the panel unit and the port of the bridge know of each other. -/
inductive Linked (b : Pu.ScanBus) (p : AmsI2c.Port) : Prop where
  | ready (hp : p.amsState = .idle ∨ p.amsState = .reset) (hw : p.amsWaitrequest = true)
      (hv : p.amsReaddatavalid = false) (hb : b.ammState ≠ .ack) : Linked b p
  | taken {c : AmsI2c.Command} (hp : p.Requests c) (hw : p.amsWaitrequest = false)
      (hv : p.amsReaddatavalid = false) (hb : b.ammState = .write ∨ b.ammState = .read)
      (ht : b.ammTransaction = true) (hc : linesCommand b = c) : Linked b p
  | serving {c : AmsI2c.Command} (hp : p.Requests c ∨ p.Serves c) (hw : p.amsWaitrequest = true)
      (hv : p.amsReaddatavalid = false) (hb : b.ammState = .ack ↔ c.isRead = true)
      (hc : c.isRead = true → c.address = b.ammAddressD.extractLsb' 0 16) : Linked b p
  | answered (hp : p.amsState = .idle) (hw : p.amsWaitrequest = true)
      (hv : p.amsReaddatavalid = true) (hb : b.ammState = .ack)
      (hd : b.ammAddressD.getLsbD 8 = true → p.amsReaddata = 0) : Linked b p

/-! ## The side of the panel unit -/

section Bus

variable {b : Pu.ScanBus} {p : AmsI2c.Port} {base : BitVec 32} {i : Pu.AmmInput}

theorem lines_on (hon : b.OnBus base) (hw : b.ammWrite = true ∨ b.ammRead = true) :
    (b.ammState = .write ∨ b.ammState = .read) ∧ b.ammTransaction = true := by
  by_cases hs : b.ammState = .write
  · obtain ⟨_, _, hread, hwrite, _⟩ := hon.write hs
    refine ⟨.inl hs, hwrite.symm.trans ?_⟩
    rcases hw with hw | hw
    · exact hw
    · exact absurd (hread.symm.trans hw) nofun
  · by_cases hr : b.ammState = .read
    · obtain ⟨_, hwrite, hread, _⟩ := hon.read hr
      refine ⟨.inr hr, hread.symm.trans ?_⟩
      rcases hw with hw | hw
      · exact absurd (hwrite.symm.trans hw) nofun
      · exact hw
    · obtain ⟨hwrite, hread⟩ := hon.quiet hs hr
      rcases hw with hw | hw
      · exact absurd (hwrite.symm.trans hw) nofun
      · exact absurd (hread.symm.trans hw) nofun

theorem accepts_waiting (hw : i.ammWaitrequest = true) : b.accepts i = false := by
  rw [Pu.ScanBus.accepts, hw]
  rfl

theorem lines_stay (hon : b.OnBus base) (hs : b.ammState = .write ∨ b.ammState = .read)
    (ht : b.ammTransaction = true) (hw : i.ammWaitrequest = true) :
    (b.step base i).ammState = b.ammState ∧ (b.step base i).ammTransaction = true ∧
      linesCommand (b.step base i) = linesCommand b := by
  have ha := accepts_waiting (b := b) hw
  refine ⟨Pu.ScanBus.step_refused hs ha, ?_⟩
  rcases hs with hs | hs
  · obtain ⟨_, _, _, hwrite, hlines⟩ := hon.write hs
    obtain ⟨haddress, hdata⟩ := hlines ht
    simp only [Pu.ScanBus.step, hs, ha, Bool.false_eq_true, if_false]
    refine ⟨trivial, ?_⟩
    rw [linesCommand, linesCommand, hwrite, ht, haddress, hdata]
  · obtain ⟨_, hwrite, _, hlines⟩ := hon.read hs
    simp only [Pu.ScanBus.step, hs, ha, Bool.false_eq_true, if_false]
    refine ⟨trivial, ?_⟩
    rw [linesCommand, linesCommand, hwrite, hlines ht]
    rfl

theorem step_ne_ack (hs : b.ammState ≠ .ack) (hw : i.ammWaitrequest = true) :
    (b.step base i).ammState ≠ .ack := by
  generalize hb : b.step base i = b'
  have hmove : Pu.ScanBus.Moves base b i b' := by
    rw [← hb]
    exact Pu.ScanBus.moves_step
  cases hmove with
  | fetchWrite => nofun
  | fetchRead => nofun
  | wrap => exact hs
  | drive => exact hs
  | ask => exact hs
  | written => nofun
  | asked _ ha => exact absurd ((accepts_waiting hw).symm.trans ha) nofun
  | await h => exact absurd h hs
  | answered h => exact absurd h hs
  | start => nofun

theorem step_accepted (hon : b.OnBus base) (hs : b.ammState = .write ∨ b.ammState = .read)
    (ht : b.ammTransaction = true) (hw : i.ammWaitrequest = false) :
    ((b.step base i).ammState = .ack ↔ (linesCommand b).isRead = true) ∧
      ((linesCommand b).isRead = true →
        (linesCommand b).address = (b.step base i).ammAddressD.extractLsb' 0 16) ∧
      (b.accepted i).map bridgeCommand = some (linesCommand b) := by
  have ha : b.accepts i = true := Pu.ScanBus.accepts_iff.mpr ⟨hw, ht⟩
  rcases hs with hs | hs
  · obtain ⟨_, _, _, hwrite, _⟩ := hon.write hs
    rw [ht] at hwrite
    have hread : (linesCommand b).isRead = false := by rw [linesCommand, hwrite]; rfl
    simp only [Pu.ScanBus.step, hs, ha, if_true, hread]
    refine ⟨⟨fun hack => by simp at hack, fun hr => by simp at hr⟩, fun hr => by simp at hr, ?_⟩
    rw [Pu.ScanBus.accepted, hw, hwrite, linesCommand, hwrite]
    rfl
  · obtain ⟨_, hwrite, hread, hlines⟩ := hon.read hs
    rw [ht] at hread
    have hread' : (linesCommand b).isRead = true := by rw [linesCommand, hwrite]; rfl
    simp only [Pu.ScanBus.step, hs, ha, if_true, hread']
    refine ⟨trivial, fun _ => ?_, ?_⟩
    · rw [linesCommand, hlines ht]
      rfl
    · rw [Pu.ScanBus.accepted, hw, hwrite, hread, linesCommand, hwrite]
      rfl

theorem step_await (hs : b.ammState = .ack) (hv : i.ammReaddatavalid = false) :
    (b.step base i).ammState = .ack ∧ (b.step base i).ammAddressD = b.ammAddressD := by
  simp only [Pu.ScanBus.step, hs, hv, Bool.false_eq_true, if_false]
  exact ⟨hs, rfl⟩

theorem step_answered (hs : b.ammState = .ack) (hv : i.ammReaddatavalid = true) :
    (b.step base i).ammState ≠ .ack := by
  simp [Pu.ScanBus.step, hs, hv]

end Bus

/-! ## The side of the bridge -/

section Bridge

variable {b : Pu.ScanBus} {p : AmsI2c.Port} {base : BitVec 32} {i : PanelInput}
  {i2cBusyLatch : Bool} (dev reg : Bool) (byte : BitVec 8)

theorem takes_lines {c : AmsI2c.Command} (hon : b.OnBus base)
    (h : p.takes i2cBusyLatch (bridgeInput b i) = some c) :
    linesCommand b = c ∧ (b.ammState = .write ∨ b.ammState = .read) ∧
      b.ammTransaction = true ∧ p.amsState = .idle ∧ i2cBusyLatch = false := by
  unfold AmsI2c.Port.takes at h
  by_cases hs : p.amsState = .idle ∧ i2cBusyLatch = false
  case neg =>
    rw [if_neg hs] at h
    exact absurd h nofun
  rw [if_pos hs] at h
  cases hwrite : b.ammWrite with
  | true =>
      obtain ⟨hstate, ht⟩ := lines_on hon (.inl hwrite)
      simp only [bridgeInput, hwrite, if_true, Option.some.injEq] at h
      refine ⟨?_, hstate, ht, hs⟩
      rw [← h, linesCommand, hwrite]
      rfl
  | false =>
      cases hread : b.ammRead with
      | true =>
          obtain ⟨hstate, ht⟩ := lines_on hon (.inr hread)
          simp only [bridgeInput, hwrite, hread, Bool.false_eq_true, if_false, if_true,
            Option.some.injEq] at h
          refine ⟨?_, hstate, ht, hs⟩
          rw [← h, linesCommand, hwrite]
          rfl
      | false =>
          simp only [bridgeInput, hwrite, hread, Bool.false_eq_true, if_false] at h
          exact absurd h nofun

theorem takes_on_lines (hon : b.OnBus base) (hs : p.amsState = .idle)
    (hlatch : i2cBusyLatch = false) (hb : b.ammState = .write ∨ b.ammState = .read)
    (ht : b.ammTransaction = true) : p.takes i2cBusyLatch (bridgeInput b i) ≠ none := by
  rw [AmsI2c.Port.takes, if_pos ⟨hs, hlatch⟩]
  rcases hb with hb | hb
  · obtain ⟨_, _, _, hwrite, _⟩ := hon.write hb
    simp [bridgeInput, hwrite, ht]
  · obtain ⟨_, hwrite, hread, _⟩ := hon.read hb
    simp [bridgeInput, hwrite, hread, ht]

theorem step_ready (hp : p.amsState = .idle ∨ p.amsState = .reset) (hw : p.amsWaitrequest = true)
    (hv : p.amsState = .reset → p.amsReaddatavalid = false) {j : AmsI2c.BridgeInput}
    (h : p.takes i2cBusyLatch j = none) :
    (p.step j i2cBusyLatch dev reg byte).amsState = .idle ∧
      (p.step j i2cBusyLatch dev reg byte).amsWaitrequest = true ∧
      (p.step j i2cBusyLatch dev reg byte).amsReaddatavalid = false := by
  unfold AmsI2c.Port.step
  rcases hp with hs | hs
  · rw [hs]
    unfold AmsI2c.Port.takes at h
    cases hlatch : i2cBusyLatch with
    | true => simp [hw]
    | false =>
        rw [if_pos ⟨hs, hlatch⟩] at h
        cases hwrite : j.amsWrite with
        | true => simp [hwrite] at h
        | false =>
            cases hread : j.amsRead with
            | true => simp [hwrite, hread] at h
            | false => simp
  · rw [hs]
    exact ⟨rfl, rfl, hv hs⟩

theorem step_takes {c : AmsI2c.Command} {j : AmsI2c.BridgeInput}
    (h : p.takes i2cBusyLatch j = some c) :
    (p.step j i2cBusyLatch dev reg byte).amsWaitrequest = false ∧
      (p.step j i2cBusyLatch dev reg byte).amsReaddatavalid = false := by
  unfold AmsI2c.Port.takes at h
  by_cases hs : p.amsState = .idle ∧ i2cBusyLatch = false
  case neg =>
    rw [if_neg hs] at h
    exact absurd h nofun
  rw [if_pos hs] at h
  unfold AmsI2c.Port.step
  rw [hs.1, hs.2]
  cases hwrite : j.amsWrite with
  | true => simp
  | false =>
      cases hread : j.amsRead with
      | true => simp
      | false => simp [hwrite, hread] at h

variable (i2cBusyLatch) in
theorem step_requests {c : AmsI2c.Command} {j : AmsI2c.BridgeInput} (h : p.Requests c) :
    ((p.step j i2cBusyLatch dev reg byte).Requests c ∨
      (p.step j i2cBusyLatch dev reg byte).Serves c) ∧
      (p.step j i2cBusyLatch dev reg byte).amsWaitrequest = true ∧
      (p.step j i2cBusyLatch dev reg byte).amsReaddatavalid = false := by
  constructor
  · cases i2cBusyLatch with
    | true => exact .inr h.step_served
    | false => exact .inl h.step_wait
  · unfold AmsI2c.Port.step
    rw [h.state]
    cases i2cBusyLatch <;> exact ⟨rfl, rfl⟩

theorem step_serves {c : AmsI2c.Command} {j : AmsI2c.BridgeInput} (h : p.Serves c)
    (hv : p.amsReaddatavalid = false) (hbusy : i2cBusyLatch = true ∨ c.isRead = false) :
    (p.step j i2cBusyLatch dev reg byte).amsWaitrequest = true ∧
      (p.step j i2cBusyLatch dev reg byte).amsReaddatavalid = false := by
  have hs := h.state
  unfold AmsI2c.Port.step
  cases hc : c.isRead with
  | false =>
      rw [hc] at hs
      rw [show p.amsState = .write from hs]
      exact ⟨rfl, rfl⟩
  | true =>
      rw [hc] at hs hbusy
      rw [show p.amsState = .read from hs, hbusy.resolve_right nofun]
      exact ⟨rfl, hv⟩

/-- The end of a read. The error bits are down by then. -/
theorem step_returns {c : AmsI2c.Command} {j : AmsI2c.BridgeInput} (h : p.Serves c)
    (hread : c.isRead = true) :
    (p.step j false false false byte).amsWaitrequest = true ∧
      (p.step j false false false byte).amsReaddatavalid = true ∧
      (c.address.getLsbD 8 = true → (p.step j false false false byte).amsReaddata = 0) := by
  have hs : p.amsState = .read := by
    rw [h.state, hread]
    rfl
  obtain ⟨hvalid, hdata⟩ :=
    @AmsI2c.Port.step_returns p j false false byte false hs rfl
  refine ⟨?_, hvalid, fun hbit => ?_⟩
  · unfold AmsI2c.Port.step
    rw [hs]
    rfl
  · rw [hdata, h.address, if_pos hbit]
    rfl

end Bridge

/-! ## One cycle -/

namespace Linked

variable {b : Pu.ScanBus} {p : AmsI2c.Port} {base : BitVec 32} {i : PanelInput}
  {i2cBusyLatch dev reg : Bool} {byte : BitVec 8}

theorem init : Linked .init .init := .ready (.inr rfl) rfl rfl nofun

/-- A port that takes a command up has made the panel unit wait so far. -/
theorem waits_of_takes {c : AmsI2c.Command} (h : Linked b p) (hon : b.OnBus base)
    (ht : p.takes i2cBusyLatch (bridgeInput b i) = some c) : p.amsWaitrequest = true := by
  obtain ⟨_, _, _, hs, _⟩ := takes_lines hon ht
  cases h with
  | ready hp hw hv hb => exact hw
  | taken hp hw hv hb htrans hc => exact absurd (hp.state.symm.trans hs) nofun
  | serving hp hw hv hb hc => exact hw
  | answered hp hw hv hb hd => exact hw

theorem takes_step {c : AmsI2c.Command} (h : Linked b p) (hon : b.OnBus base)
    (ht : p.takes i2cBusyLatch (bridgeInput b i) = some c) :
    Linked (b.step base (ammInput p)) (p.step (bridgeInput b i) i2cBusyLatch dev reg byte) := by
  obtain ⟨hlines, hb, htrans, hs, hlatch⟩ := takes_lines hon ht
  obtain ⟨hw', hv'⟩ := step_takes dev reg byte ht
  obtain ⟨hstate, htrans', hlines'⟩ :=
    lines_stay (i := ammInput p) hon hb htrans (h.waits_of_takes hon ht)
  have hreq : (p.step (bridgeInput b i) i2cBusyLatch dev reg byte).Requests c := by
    rw [hlatch] at ht ⊢
    exact AmsI2c.Port.requests_of_takes ht
  exact .taken hreq hw' hv' (hstate ▸ hb) htrans' (hlines'.trans hlines)

theorem goes_step (h : Linked b p) (hon : b.OnBus base)
    (hzero : ∀ c, p.Serves c → i2cBusyLatch = false → dev = false ∧ reg = false)
    (ht : p.takes i2cBusyLatch (bridgeInput b i) = none) :
    Linked (b.step base (ammInput p)) (p.step (bridgeInput b i) i2cBusyLatch dev reg byte) ∧
      (p.step (bridgeInput b i) i2cBusyLatch dev reg byte).amsWaitrequest = true := by
  cases h with
  | ready hp hw hv hb =>
      obtain ⟨hs', hw', hv'⟩ := step_ready dev reg byte hp hw (fun _ => hv) ht
      exact ⟨.ready (.inl hs') hw' hv' (step_ne_ack hb hw), hw'⟩
  | taken hp hw hv hb htrans hc =>
      obtain ⟨hp', hw', hv'⟩ := step_requests i2cBusyLatch dev reg byte (j := bridgeInput b i) hp
      obtain ⟨hack, haddress, _⟩ := step_accepted (i := ammInput p) hon hb htrans hw
      rw [hc] at hack haddress
      exact ⟨.serving hp' hw' hv' hack haddress, hw'⟩
  | @serving c hp hw hv hb hc =>
      -- a read holds the panel unit back, a write does not
      have hbus : (b.step base (ammInput p)).ammState = .ack ↔ c.isRead = true := by
        cases hread : c.isRead with
        | true => exact ⟨fun _ => rfl, fun _ => (step_await (hb.mpr hread) hv).1⟩
        | false =>
            have hne : b.ammState ≠ .ack := fun hack => by
              rw [hb.mp hack] at hread
              exact absurd hread nofun
            exact ⟨fun hack => absurd hack (step_ne_ack hne hw), nofun⟩
      have haddress : c.isRead = true →
          c.address = (b.step base (ammInput p)).ammAddressD.extractLsb' 0 16 := fun hread => by
        have hstay := (@step_await b base (ammInput p) (hb.mpr hread) hv).2
        rw [hstay]
        exact hc hread
      rcases hp with hp | hp
      · obtain ⟨hp', hw', hv'⟩ := step_requests i2cBusyLatch dev reg byte (j := bridgeInput b i) hp
        exact ⟨.serving hp' hw' hv' hbus haddress, hw'⟩
      · cases hlatch : i2cBusyLatch with
        | true =>
            obtain ⟨hw', hv'⟩ := step_serves dev reg byte (j := bridgeInput b i) hp hv (.inl rfl)
            exact ⟨.serving (.inr hp.step_busy) hw' hv' hbus haddress, hw'⟩
        | false =>
            have hidle : (p.step (bridgeInput b i) false dev reg byte).amsState = .idle :=
              hp.step_done.2
            cases hread : c.isRead with
            | false =>
                rw [hread] at hbus
                obtain ⟨hw', hv'⟩ :=
                  step_serves dev reg byte (j := bridgeInput b i) hp hv (.inr hread)
                exact ⟨.ready (.inl hidle) hw' hv' (fun hack => absurd (hbus.mp hack) nofun), hw'⟩
            | true =>
                obtain ⟨rfl, rfl⟩ := hzero c hp hlatch
                obtain ⟨hw', hv', hdata⟩ := step_returns byte (j := bridgeInput b i) hp hread
                refine ⟨.answered hidle hw' hv' (hbus.mpr hread) (fun hbit => hdata ?_), hw'⟩
                rw [haddress hread, BitVec.getLsbD_extractLsb']
                simpa using hbit
  | answered hp hw hv hb hd =>
      obtain ⟨hs', hw', hv'⟩ := step_ready dev reg byte (.inl hp) hw
        (fun hs => absurd (hp.symm.trans hs) nofun) ht
      exact ⟨.ready (.inl hs') hw' hv' (step_answered hb hv), hw'⟩

end Linked

end Mfi.PanelBus
