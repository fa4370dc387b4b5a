import Mfi.Arinc708.Link
import Mfi.Arinc708.Slave

/-!
# From host to host over ARINC 708

Two blocks on their buses, a transmitter of the one joined to a receiver of the other. A host
that takes its time between accesses, and reads the cells of the buffer in turn when a word is
there, is given the words that the other host wrote, in their order.
-/

namespace Mfi.Arinc708

open Core Arinc708Rx

/-! ## The host -/

namespace HostPort

/-- A write to the transmit buffer of channel `y`. -/
def bufferWrite (h : HostPort) (y : Fin 2) : Bool := h.amsWrite && h.target.trBuf y

/-- A read of the receive buffer of channel `c`. -/
def bufferRead (h : HostPort) (c : Fin 2) : Bool := h.amsRead && h.target.rxBuf c

def cell (h : HostPort) : Nat := (h.target.addr.extractLsb' 2 10).toNat % 512

/-- A write to the configuration of channel `c`. -/
def configWrite (h : HostPort) (c : Fin 2) : Bool :=
  h.amsWrite && (h.target.register 0#4 && h.target.recTransNumber == c)

theorem accesses_of_write {h : HostPort} (hw : h.amsWrite = true) : h.accesses = true := by
  simp [accesses, hw]

theorem accesses_of_read {h : HostPort} (hr : h.amsRead = true) : h.accesses = true := by
  simp [accesses, hr]

end HostPort

def Unhurried (host : Nat → HostPort) : Prop :=
  ∀ n, (host n).accesses = true →
    (host (n + 1)).accesses = false ∧ (host (n + 2)).accesses = false

/-! ## The bus registers -/

section Bus

variable {host : Nat → HostPort} {n : Nat}

def bus (host : Nat → HostPort) : Nat → BusRegs := trace BusRegs.step .init host

theorem bus_succ (n : Nat) : bus host (n + 1) = (bus host n).step (host n) := rfl

theorem bus_target (h : (host n).accesses = true) :
    (bus host (n + 1)).target = (host n).target := by
  rw [bus_succ]
  simp [BusRegs.step, h]

theorem bus_target_held (h : (host n).accesses = false) :
    (bus host (n + 1)).target = (bus host n).target := by
  rw [bus_succ]
  simp [BusRegs.step, h]

theorem strobe_next {chosen : HostPort → Bool} {space : Target → Bool} {c : Fin 2}
    {strobe : Nat → Bool} (hchosen : ∀ h, chosen h = true → h.accesses = true)
    (hstep : ∀ n, strobe (n + 2) =
      if (bus host (n + 1)).target.recTransNumber = c then
        chosen (host n) && space (bus host (n + 1)).target
      else strobe (n + 1)) (n : Nat)
    (hoff : (bus host (n + 1)).target.recTransNumber ≠ c → strobe (n + 1) = false) :
    strobe (n + 2) =
      (chosen (host n) && space (host n).target && (host n).target.recTransNumber == c) := by
  rw [hstep]
  cases hnow : chosen (host n) with
  | false =>
      rw [Bool.false_and, Bool.false_and, Bool.false_and]
      split
      · rfl
      · rename_i hother
        exact hoff hother
  | true =>
      rw [bus_target (hchosen _ hnow)] at hoff ⊢
      split
      · rename_i hsame
        simp [hsame]
      · rename_i hother
        simp [hother, hoff hother]

/-- The strobe of a channel repeats the accesses to a space of it two cycles later. -/
theorem strobe_follows (hslow : Unhurried host) (c : Fin 2) (chosen : HostPort → Bool)
    (space : Target → Bool) (strobe : Nat → Bool)
    (hchosen : ∀ h, chosen h = true → h.accesses = true)
    (hfirst : strobe 1 = false)
    (hstep : ∀ n, strobe (n + 2) =
      if (bus host (n + 1)).target.recTransNumber = c then
        chosen (host n) && space (bus host (n + 1)).target
      else strobe (n + 1)) (n : Nat) :
    strobe (n + 2) =
      (chosen (host n) && space (host n).target && (host n).target.recTransNumber == c) := by
  induction n with
  | zero => exact strobe_next hchosen hstep 0 fun _ => hfirst
  | succ n ih =>
      refine strobe_next hchosen hstep (n + 1) fun hother => ?_
      rw [ih]
      by_contra hset
      simp only [Bool.not_eq_false, Bool.and_eq_true, beq_iff_eq] at hset
      have hacc := hchosen _ hset.1.1
      rw [bus_target_held (hslow n hacc).1, bus_target hacc] at hother
      exact hother hset.2

theorem bus_wr (n : Nat) : (bus host (n + 1)).wr = (host n).amsWrite := rfl

theorem bus_rd0 (n : Nat) : (bus host (n + 1)).rd0 = (host n).amsRead := rfl

theorem bus_trBufWr (hslow : Unhurried host) (y : Fin 2) (n : Nat) :
    (bus host (n + 2)).trBufWr y = (host n).bufferWrite y := by
  have hfirst : (bus host 1).trBufWr y = false := by
    change (BusRegs.init.step (host 0)).trBufWr y = false
    simp [BusRegs.step, BusRegs.init]
  have hrun := strobe_follows hslow y HostPort.amsWrite (fun t => !t.confBit && t.trBufBit)
    (fun k => (bus host k).trBufWr y) (fun h => HostPort.accesses_of_write) hfirst
    (fun k => by simp only [bus_succ (k + 1), BusRegs.step, bus_wr, Bool.and_assoc]) n
  rw [hrun]
  simp only [HostPort.bufferWrite, Target.trBuf, Bool.and_assoc]

theorem bus_rxBufRd (hslow : Unhurried host) (c : Fin 2) (n : Nat) :
    (bus host (n + 2)).rxBufRd c = (host n).bufferRead c := by
  have hfirst : (bus host 1).rxBufRd c = false := by
    change (BusRegs.init.step (host 0)).rxBufRd c = false
    simp [BusRegs.step, BusRegs.init]
  have hrun := strobe_follows hslow c HostPort.amsRead (fun t => !t.confBit && !t.trBufBit)
    (fun k => (bus host k).rxBufRd c) (fun h => HostPort.accesses_of_read) hfirst
    (fun k => by simp only [bus_succ (k + 1), BusRegs.step, bus_rd0, Bool.and_assoc]) n
  rw [hrun]
  simp only [HostPort.bufferRead, Target.rxBuf, Bool.and_assoc]

theorem bus_wrData (hslow : Unhurried host) {n : Nat} (hw : (host n).amsWrite = true) :
    (bus host (n + 2)).wrData = (host n).amsWritedata := by
  have hnext := (hslow n (HostPort.accesses_of_write hw)).1
  simp only [HostPort.accesses, Bool.or_eq_false_iff] at hnext
  rw [bus_succ, bus_succ]
  simp [BusRegs.step, hw, hnext.1]

theorem bus_configWrite {c : Fin 2} {n : Nat}
    (hw : ((bus host n).wr && (bus host n).target.register 0#4 &&
      (bus host n).target.recTransNumber == c) = true) :
    ∃ m, (host m).configWrite c = true ∧ (bus host n).wrData = (host m).amsWritedata := by
  cases n with
  | zero => cases hw
  | succ m =>
      have hwrite : (host m).amsWrite = true := by
        simp only [Bool.and_eq_true] at hw
        exact hw.1.1
      have hdata : (bus host (m + 1)).wrData = (host m).amsWritedata := by
        rw [bus_succ]
        simp [BusRegs.step, hwrite]
      rw [bus_target (HostPort.accesses_of_write hwrite)] at hw
      refine ⟨m, ?_, hdata⟩
      rw [HostPort.configWrite, hwrite, Bool.true_and]
      simp only [Bool.and_eq_true] at hw ⊢
      exact ⟨hw.1.2, hw.2⟩

end Bus

/-! ## The block -/

/-- A block, with what it has at reset and what comes to it. -/
structure Block where
  configReg : Fin 2 → BitVec 27
  buffer : Fin 2 → Nat → Word
  fifo : Fin 2 → DcFifo
  inp : Nat → SlaveInput

namespace Block

variable (b : Block)

def host (n : Nat) : HostPort := (b.inp n).host

def run : Nat → Slave := trace (Slave.step inputFrequency) (.init b.configReg b.buffer b.fifo) b.inp

/-- What the transmitter of channel `y` sees. -/
def txInputs (y : Fin 2) (n : Nat) : TxInput := (b.run n).txInput (b.inp n) y

/-- What the receiver of channel `c` sees. -/
def rxInputs (c : Fin 2) (n : Nat) : ChannelInput := (b.run n).rxInput (b.inp n) c

theorem run_bus (n : Nat) : (b.run n).bus = bus b.host n := by
  induction n with
  | zero => rfl
  | succ n ih =>
      rw [bus_succ, ← ih]
      rfl

theorem run_tx (y : Fin 2) (n : Nat) :
    (b.run n).tx y = transmitter (b.fifo y) (b.txInputs y) n := by
  induction n with
  | zero => rfl
  | succ n ih =>
      rw [transmitter, trace_succ]
      change _ = (transmitter (b.fifo y) (b.txInputs y) n).step _ _
      rw [← ih]
      rfl

theorem run_rx (c : Fin 2) (n : Nat) :
    (b.run n).rx c = channel (b.rxInputs c) (b.buffer c) n := by
  induction n with
  | zero => rfl
  | succ n ih =>
      rw [channel, trace_succ]
      change _ = (channel (b.rxInputs c) (b.buffer c) n).step _ _
      rw [← ih]
      rfl

variable {b}

theorem configReg_keeps {P : BitVec 27 → Prop} {c : Fin 2} (hinit : P (b.configReg c))
    (hwrite : ∀ n, (b.host n).configWrite c = true →
      P ((b.host n).amsWritedata.extractLsb' 0 27)) (n : Nat) : P ((b.run n).configReg c) := by
  induction n with
  | zero => exact hinit
  | succ n ih =>
      have hstep : (b.run (n + 1)).configReg c =
          if ((b.run n).bus.wr && (b.run n).bus.target.register 0#4 &&
            (b.run n).bus.target.recTransNumber == c) = true then
            (b.run n).bus.wrData.extractLsb' 0 27
          else (b.run n).configReg c := rfl
      rw [hstep]
      split
      · rename_i hw
        rw [run_bus] at hw ⊢
        obtain ⟨m, hm, hdata⟩ := bus_configWrite hw
        rw [hdata]
        exact hwrite m hm
      · exact ih

end Block

/-! ## The host that writes -/

/-- The word that the host writes to the transmit buffer of channel `y`. -/
def Block.written (b : Block) (y : Fin 2) (n : Nat) : Option Word :=
  if (b.host n).bufferWrite y then some (b.host n).amsWritedata else none

/-- The transmitter of channel `y` stays enabled, and fifty words are there whenever it starts to
send; the host writes only when there is room. -/
structure Sends (b : Block) (y : Fin 2) : Prop where
  slow : Unhurried b.host
  initially : (b.configReg y).getLsbD 1 = true
  always : ∀ n, (b.host n).configWrite y = true → (b.host n).amsWritedata.getLsbD 1 = true
  arrives : ∀ n, ∃ k < 1000, 0 < ((b.inp (n + k)).fifoDelay y).arrive
  full : ∀ n, ((b.run n).tx y).Starts → 50 ≤ ((b.run n).tx y).fifo.words.length
  room : ∀ n, (b.host n).bufferWrite y = true → ((b.run (n + 2)).tx y).fifo.full = false

section Sends

variable {b : Block} {y : Fin 2}

theorem Sends.feeds (h : Sends b y) : Feeds (b.fifo y) (b.txInputs y) where
  enabled := by
    intro n
    have hbit : ((b.run n).configReg y).getLsbD 1 = true :=
      Block.configReg_keeps (P := fun r => r.getLsbD 1 = true) h.initially
        (fun n hw => by simpa using h.always n hw) n
    simp only [Block.txInputs, Slave.txInput, hbit, BitVec.getLsbD_append]
    rfl
  arrives := h.arrives
  full := by
    intro n hstart
    have hfull := h.full n
    rw [b.run_tx] at hfull
    exact hfull hstart

/-- The FIFO takes what the host writes, two cycles later. -/
theorem Sends.accepted (h : Sends b y) (n : Nat) :
    events (acceptedWord (b.fifo y) (b.txInputs y)) (n + 2) = events (b.written y) n := by
  have hnone : ∀ k, (b.run k).bus.trBufWr y = false →
      acceptedWord (b.fifo y) (b.txInputs y) k = none := by
    intro k hk
    have hwr : (b.txInputs y k).buferWr = false := hk
    simp [acceptedWord, DcFifo.accepts, DcFifo.stores, hwr]
  have hfirst : acceptedWord (b.fifo y) (b.txInputs y) 0 = none := hnone 0 rfl
  have hsecond : acceptedWord (b.fifo y) (b.txInputs y) 1 = none := by
    refine hnone 1 ?_
    rw [b.run_bus]
    change (BusRegs.init.step (b.host 0)).trBufWr y = false
    simp [BusRegs.step, BusRegs.init]
  rw [events_late hfirst fun _ => rfl, events_late hsecond fun k => ?_]
  have hwr : (b.txInputs y (k + 2)).buferWr = (b.host k).bufferWrite y := by
    change (b.run (k + 2)).bus.trBufWr y = _
    rw [b.run_bus, bus_trBufWr h.slow]
  unfold acceptedWord Block.written DcFifo.accepts DcFifo.stores
  rw [hwr, ← b.run_tx]
  cases hw : (b.host k).bufferWrite y with
  | false => rfl
  | true =>
      have hwrite : (b.host k).amsWrite = true := by
        rw [HostPort.bufferWrite, Bool.and_eq_true] at hw
        exact hw.1
      have hdata : (b.txInputs y (k + 2)).buferData = (b.host k).amsWritedata := by
        change (b.run (k + 2)).bus.wrData = _
        rw [b.run_bus, bus_wrData h.slow hwrite]
      rw [h.room k hw, hdata]
      rfl

end Sends

/-! ## The host that reads -/

namespace Block

variable (b : Block) (c : Fin 2)

/-- A read of the buffer of channel `c`. -/
def request (n : Nat) : Option Unit := if (b.host n).bufferRead c then some () else none

def served (n : Nat) : Option Unit :=
  if (channel (b.rxInputs c) (b.buffer c) n).controller.serves then some () else none

def Answered (m n : Nat) : Prop :=
  b.request c m ≠ none ∧ b.served c n ≠ none ∧ (n = m + 3 ∨ n = m + 4)

def requests (n : Nat) : Nat := (events (b.request c) n).length

def arrived (n : Nat) : List Word := events (storedWord (b.rxInputs c) (b.buffer c)) n

end Block

/-- The receiver of channel `c` stays enabled; the host reads the cells in turn, and each when its
word is there, soon enough for those that follow. -/
structure Takes (b : Block) (c : Fin 2) : Prop where
  slow : Unhurried b.host
  initially : (b.configReg c).getLsbD 0 = true ∧ (b.configReg c).getLsbD 26 = false
  always : ∀ n, (b.host n).configWrite c = true →
    (b.host n).amsWritedata.getLsbD 0 = true ∧ (b.host n).amsWritedata.getLsbD 26 = false
  keepsUp : KeepsUp (b.rxInputs c) (b.buffer c)
  inTurn : ∀ n, (b.host n).bufferRead c = true → (b.host n).cell = b.requests c n % 512
  there : ∀ n, (b.host n).bufferRead c = true → b.requests c n < (b.arrived c n).length

section Takes

variable {b : Block} {c : Fin 2}

theorem Block.rx_enabled
    (hinit : (b.configReg c).getLsbD 0 = true ∧ (b.configReg c).getLsbD 26 = false)
    (hwrite : ∀ n, (b.host n).configWrite c = true →
      (b.host n).amsWritedata.getLsbD 0 = true ∧ (b.host n).amsWritedata.getLsbD 26 = false)
    (n : Nat) : EnabledAt (b.rxInputs c) n := by
  have hbits : ((b.run n).configReg c).getLsbD 0 = true ∧
      ((b.run n).configReg c).getLsbD 26 = false :=
    Block.configReg_keeps (P := fun r => r.getLsbD 0 = true ∧ r.getLsbD 26 = false) hinit
      (fun n hw => by simpa using hwrite n hw) n
  simp only [EnabledAt, RxChannel.pins, Block.rxInputs, Slave.rxInput, hbits,
    BitVec.getLsbD_append]
  rfl

theorem Takes.enabled (h : Takes b c) (n : Nat) : EnabledAt (b.rxInputs c) n :=
  Block.rx_enabled h.initially h.always n

theorem request_eq_none_iff {n : Nat} :
    b.request c n = none ↔ (b.host n).bufferRead c = false := by
  unfold Block.request
  cases (b.host n).bufferRead c <;> simp

theorem accesses_of_request {n : Nat} (h : b.request c n ≠ none) :
    (b.host n).accesses = true := by
  have hread : (b.host n).bufferRead c = true := by
    rwa [Ne, request_eq_none_iff, Bool.not_eq_false] at h
  rw [HostPort.bufferRead, Bool.and_eq_true] at hread
  exact HostPort.accesses_of_read hread.1

theorem Takes.apart (h : Takes b c) {m m' : Nat} (hm : b.request c m ≠ none)
    (hm' : b.request c m' ≠ none) (hlt : m < m') : m + 3 ≤ m' := by
  obtain ⟨hone, htwo⟩ := h.slow m (accesses_of_request hm)
  have hacc := accesses_of_request hm'
  by_contra hnear
  rcases (by omega : m' = m + 1 ∨ m' = m + 2) with rfl | rfl
  · rw [hone] at hacc
    cases hacc
  · rw [htwo] at hacc
    cases hacc

theorem Takes.strobe (h : Takes b c) (n : Nat) :
    (controllerInput (b.rxInputs c) (b.buffer c) (n + 2)).buferRd = (b.host n).bufferRead c := by
  change (b.run (n + 2)).bus.rxBufRd c = _
  rw [b.run_bus, bus_rxBufRd h.slow]

theorem no_early_strobe {n : Nat} (hn : n < 2) :
    (controllerInput (b.rxInputs c) (b.buffer c) n).buferRd = false := by
  change (b.run n).bus.rxBufRd c = false
  rw [b.run_bus]
  rcases (by omega : n = 0 ∨ n = 1) with rfl | rfl
  · rfl
  · change (BusRegs.init.step (b.host 0)).rxBufRd c = false
    simp [BusRegs.step, BusRegs.init]

theorem Takes.reads_spaced (h : Takes b c) :
    ReadsSpaced (controllerInput (b.rxInputs c) (b.buffer c)) := by
  intro n hn
  rcases n with _ | _ | n
  · rw [no_early_strobe (by omega)] at hn
    cases hn
  · rw [no_early_strobe (by omega)] at hn
    cases hn
  · rw [h.strobe] at hn
    have hm : b.request c n ≠ none := by rw [Ne, request_eq_none_iff, hn]; exact Bool.noConfusion
    have hnone : ∀ k, k = n + 1 ∨ k = n + 2 →
        (controllerInput (b.rxInputs c) (b.buffer c) (k + 2)).buferRd = false := by
      intro k hk
      rw [h.strobe, ← request_eq_none_iff]
      by_contra hsome
      have hfar := h.apart hm hsome (by omega)
      omega
    exact ⟨hnone (n + 1) (.inl rfl), hnone (n + 2) (.inr rfl)⟩

theorem served_eq_none_iff {n : Nat} : b.served c n = none ↔
    (channel (b.rxInputs c) (b.buffer c) n).controller.serves = false := by
  unfold Block.served
  cases (channel (b.rxInputs c) (b.buffer c) n).controller.serves <;> simp

/-- A read reaches the buffer once, in one of two cycles. -/
theorem Takes.served_once (h : Takes b c) {m : Nat} (hm : b.request c m ≠ none) :
    b.served c (m + 3) ≠ none ↔ b.served c (m + 4) = none := by
  have hread : (controllerInput (b.rxInputs c) (b.buffer c) (m + 2)).buferRd = true := by
    rwa [h.strobe, ← Bool.not_eq_false, ← request_eq_none_iff]
  have honce := read_served (b.buffer c) h.reads_spaced hread
  rw [← channel_controller, ← channel_controller] at honce
  rw [Ne, served_eq_none_iff, served_eq_none_iff, honce]
  simp

theorem Takes.answered_unique (h : Takes b c) {m n n' : Nat} (hn : b.Answered c m n)
    (hn' : b.Answered c m n') : n = n' := by
  obtain ⟨hm, hs, hcase⟩ := hn
  obtain ⟨_, hs', hcase'⟩ := hn'
  have honce := h.served_once hm
  rcases hcase with rfl | rfl <;> rcases hcase' with rfl | rfl
  · rfl
  · exact absurd (honce.mp hs) hs'
  · exact absurd (honce.mp hs') hs
  · rfl

theorem Takes.answered_lt (h : Takes b c) {m n m' n' : Nat} (hn : b.Answered c m n)
    (hn' : b.Answered c m' n') (hlt : m < m') : n < n' := by
  obtain ⟨hm, _, hcase⟩ := hn
  obtain ⟨hm', _, hcase'⟩ := hn'
  have hfar := h.apart hm hm' hlt
  omega

theorem Takes.request_of_served (h : Takes b c) {n : Nat} (hn : b.served c n ≠ none) :
    ∃ m, b.Answered c m n := by
  have hserves : (channel (b.rxInputs c) (b.buffer c) n).controller.serves = true := by
    rwa [Ne, served_eq_none_iff, Bool.not_eq_false] at hn
  simp only [RxController.serves, Bool.and_eq_true] at hserves
  rw [channel_controller] at hserves
  obtain ⟨k, hk, hnear⟩ := request_recent (b.buffer c) n hserves.2
  obtain ⟨m, rfl⟩ : ∃ m, k = m + 2 := by
    refine ⟨k - 2, ?_⟩
    by_contra hearly
    rw [no_early_strobe (by omega)] at hk
    cases hk
  rw [h.strobe, ← Bool.not_eq_false, ← request_eq_none_iff] at hk
  exact ⟨m, hk, hn, by omega⟩

theorem Takes.relays (h : Takes b c) : Relays (b.Answered c) (b.request c) (b.served c) where
  later := by
    rintro m n ⟨_, _, hn⟩
    omega
  ordered := by
    intro m n m' n' hn hn'
    rcases Nat.lt_trichotomy m m' with hlt | rfl | hgt
    · exact ⟨fun _ => h.answered_lt hn hn' hlt, fun _ => hlt⟩
    · rw [h.answered_unique hn hn']
      exact ⟨fun hlt => absurd hlt (Nat.lt_irrefl m), fun hlt => absurd hlt (Nat.lt_irrefl n')⟩
    · have hback := h.answered_lt hn' hn hgt
      omega
  same := by
    rintro m n ⟨hm, hn, _⟩
    obtain ⟨a, ha⟩ := Option.ne_none_iff_exists'.mp hm
    obtain ⟨a', ha'⟩ := Option.ne_none_iff_exists'.mp hn
    exact ⟨a, ha, ha'⟩
  sent := by
    intro m hm
    by_cases hthree : b.served c (m + 3) = none
    · have hfour : b.served c (m + 4) ≠ none := fun hnone =>
        (h.served_once hm).mpr hnone hthree
      exact ⟨m + 4, hm, hfour, .inr rfl⟩
    · exact ⟨m + 3, hm, hthree, .inl rfl⟩
  came := fun n hn => h.request_of_served hn

theorem Takes.served_before (h : Takes b c) {n : Nat} (hn : b.request c n ≠ none) :
    events (b.served c) (n + 2) = events (b.request c) n := by
  refine h.relays.events_eq (fun k k' hR hk => ?_) fun k k' hR hk => ?_
  · obtain ⟨hreq, _, hcase⟩ := hR
    have hfar := h.apart hreq hn hk
    omega
  · obtain ⟨_, _, hcase⟩ := hR
    omega

theorem Takes.read_each (h : Takes b c) (n : Nat) :
    (events (readWord (b.rxInputs c) (b.buffer c)) n).length = (events (b.served c) n).length := by
  induction n with
  | zero => rfl
  | succ n ih =>
      rw [events_succ, events_succ, List.length_append, List.length_append, ih]
      congr 1
      unfold readWord Block.served
      cases hs : (channel (b.rxInputs c) (b.buffer c) n).controller.serves with
      | false => rfl
      | true =>
          have hserved : b.served c n ≠ none := by
            rw [Ne, served_eq_none_iff, hs]
            exact Bool.noConfusion
          obtain ⟨m, hm⟩ := h.request_of_served hserved
          -- as many words have been read as there were requests before this one
          have hcount : events (b.served c) n = events (b.request c) m :=
            h.relays.events_eq (fun k k' hR hk => h.answered_lt hR hm hk) fun k k' hR hk => by
              rcases Nat.lt_or_eq_of_le hk with hlt | rfl
              · exact Nat.le_of_lt (h.answered_lt hm hR hlt)
              · rw [h.answered_unique hm hR]
          have hread : (b.host m).bufferRead c = true := by
            rw [← Bool.not_eq_false, ← request_eq_none_iff]
            exact hm.1
          have hthere := h.there m hread
          have hmore := length_events_mono (storedWord (b.rxInputs c) (b.buffer c))
            (h.relays.later m n hm)
          rw [words_of_buffer (b.buffer c) h.enabled h.keepsUp n, List.length_append, ih,
            hcount] at hmore
          unfold Block.requests Block.arrived at hthere
          cases hunread : unread (b.rxInputs c) (b.buffer c) n with
          | nil =>
              rw [hunread, List.length_nil] at hmore
              omega
          | cons w rest => rfl

/-- The word that a read asks for is at its cell while the memory is read. -/
theorem Takes.word_in_cell (h : Takes b c) {n : Nat} (hread : (b.host n).bufferRead c = true)
    {w : Word} (hw : (b.arrived c n)[b.requests c n]? = some w) :
    (channel (b.rxInputs c) (b.buffer c) (n + 2)).controller.ramBuf.ram (b.host n).cell = w := by
  have hreq : b.request c n ≠ none := by
    rw [Ne, request_eq_none_iff, hread]
    exact Bool.noConfusion
  have hread_le : (events (readWord (b.rxInputs c) (b.buffer c)) (n + 1)).length ≤
      b.requests c n := by
    rw [h.read_each, Block.requests, ← h.served_before hreq]
    exact length_events_mono _ (Nat.le_succ (n + 1))
  have hlater : (b.arrived c (n + 1))[b.requests c n]? = some w :=
    getElem?_of_le (l := b.arrived c) (events_prefix_succ _) (Nat.le_succ n) hw
  rw [Block.arrived, words_of_buffer (b.buffer c) h.enabled h.keepsUp,
    List.getElem?_append_right hread_le] at hlater
  have hcell := unread_intact (b.buffer c) h.enabled h.keepsUp hlater
  rw [readedAddr_eq (b.buffer c) h.enabled h.keepsUp, Nat.mod_add_mod, Nat.add_sub_cancel' hread_le,
    ← h.inTurn n hread] at hcell
  exact hcell

theorem Takes.data (h : Takes b c) {n : Nat} (hread : (b.host n).bufferRead c = true) :
    (b.run (n + 4)).amsReaddata =
      (channel (b.rxInputs c) (b.buffer c) (n + 2)).controller.ramBuf.ram (b.host n).cell := by
  rw [HostPort.bufferRead, Target.rxBuf] at hread
  simp only [Bool.and_eq_true, Bool.not_eq_true', beq_iff_eq] at hread
  obtain ⟨hrd, ⟨hconf, _⟩, hchannel⟩ := hread
  obtain ⟨hone, htwo⟩ := h.slow n (HostPort.accesses_of_read hrd)
  have hfirst : (bus b.host (n + 1)).target = (b.host n).target :=
    bus_target (HostPort.accesses_of_read hrd)
  have hsecond : (bus b.host (n + 2)).target = (b.host n).target := by
    rw [bus_target_held hone, hfirst]
  have hthird : (bus b.host (n + 3)).target = (b.host n).target := by
    rw [bus_target_held htwo, hsecond]
  have hdata : (b.run (n + 4)).amsReaddata = (b.run (n + 3)).readdata := rfl
  rw [hdata, Slave.readdata, b.run_bus, hthird, hconf, if_neg Bool.false_ne_true, hchannel,
    b.run_rx]
  change (channel (b.rxInputs c) (b.buffer c) (n + 2)).controller.ramBuf.ram
    (((b.run (n + 2)).bus.target.addr.extractLsb' 2 10).toNat % 512) = _
  rw [b.run_bus, hsecond]
  rfl

end Takes

/-! ## From the one to the other -/

/-- The `k`-th word that the one host reads is the `k`-th word that the other has written, after
those that were in the FIFO at reset. -/
theorem words_from_host_to_host {a b : Block} {y c : Fin 2} (ha : Sends a y) (hb : Takes b c)
    (hline : ∀ n, (b.inp n).line c = ((a.run n).tx y).tx.line) {n : Nat}
    (hread : (b.host n).bufferRead c = true) :
    (b.run (n + 4)).amsReaddatavalid = true ∧
      ((a.fifo y).words ++ events (a.written y) n)[b.requests c n]? =
        some (b.run (n + 4)).amsReaddata := by
  have hlink : ∀ k, (b.rxInputs c k).line = link (a.fifo y) (a.txInputs y) k := by
    intro k
    rw [link, ← a.run_tx, ← hline]
    rfl
  have hvalid : (b.run (n + 4)).amsReaddatavalid = true := by
    rw [HostPort.bufferRead, Bool.and_eq_true] at hread
    change (b.run (n + 4)).bus.rd3 = true
    rw [b.run_bus]
    exact hread.1
  have hthere := hb.there n hread
  have hword : (b.arrived c n)[b.requests c n]? = some (b.arrived c n)[b.requests c n] :=
    List.getElem?_eq_getElem hthere
  refine ⟨hvalid, ?_⟩
  rw [hb.data hread, hb.word_in_cell hread hword]
  -- what has arrived was accepted before, and what was accepted was written before
  have hprefix : b.arrived c n <+:
      (a.fifo y).words ++ events (acceptedWord (a.fifo y) (a.txInputs y)) n :=
    ha.feeds.stored_prefix (b.buffer c) hb.enabled hlink n
  have haccepted : (a.fifo y).words ++ events (acceptedWord (a.fifo y) (a.txInputs y)) n <+:
      (a.fifo y).words ++ events (a.written y) n := by
    rw [List.prefix_append_right_inj, ← ha.accepted]
    exact prefix_of_le (events_prefix_succ _) (by omega)
  obtain ⟨rest, hrest⟩ := hprefix.trans haccepted
  rw [← hrest, List.getElem?_append_left hthere]
  exact hword

/-! ## One frame -/

section OneFrame

variable {f : DcFifo} {inp : Nat → TxInput} {start n : Nat}

theorem words_left (hnone : ∀ n, (inp n).buferWr = false) (n : Nat) :
    f.words = events (takenWord f inp) n ++ (transmitter f inp n).fifo.words := by
  have hquiet : events (acceptedWord f inp) n = [] := by
    rw [events_eq_of_none (Nat.zero_le n) fun k _ _ => ?_, events_zero]
    simp [acceptedWord, DcFifo.accepts, DcFifo.stores, hnone k]
  rw [← words_of_fifo, hquiet, List.append_nil]

theorem FrameAt.takes_fifty (hen : ∀ n, (inp n).txconfig.getLsbD 0 = true)
    (harrive : ∀ n, ∃ k < 1000, 0 < (inp (n + k)).fifoDelay.arrive) (h : FrameAt f inp start)
    (hfull : 50 ≤ (transmitter f inp start).fifo.words.length) {k : Nat} (hk : k < 50) :
    k + 1 ≤ (events (takenWord f inp) (start + 62 * fetchSlot k + 2)).length := by
  induction k with
  | zero =>
      rw [events_succ_some (h.taken hen harrive hfull hk), List.length_append]
      exact Nat.le_add_left 1 _
  | succ k ih =>
      have hslots : fetchSlot k + 32 ≤ fetchSlot (k + 1) := fetchSlot_lt (Nat.lt_succ_self k)
      have hbefore := ih (by omega)
      have hmono := length_events_mono (takenWord f inp)
        (show start + 62 * fetchSlot k + 2 ≤ start + 62 * fetchSlot (k + 1) + 1 by omega)
      rw [events_succ_some (h.taken hen harrive hfull hk), List.length_append,
        List.length_singleton]
      omega

theorem nothing_taken (hen : ∀ n, (inp n).txconfig.getLsbD 0 = true)
    (harrive : ∀ n, ∃ k < 1000, 0 < (inp (n + k)).fifoDelay.arrive)
    (hnone : ∀ n, (inp n).buferWr = false) (hfifty : f.words.length = 50)
    (hstart : SendingStarts f inp n) : events (takenWord f inp) n = [] := by
  induction n using Nat.strongRecOn with
  | ind n ih =>
      rw [events_eq_of_none (Nat.zero_le n) fun m _ hm => ?_, events_zero]
      by_contra htaken
      obtain ⟨start, hfirst, k, hk, rfl⟩ := taken_in_frame hen htaken
      have hframe := (starts_iff hen start).mp hfirst
      have hlast := (starts_iff hen n).mp hstart
      have hfull : 50 ≤ (transmitter f inp start).fifo.words.length := by
        have hwords := words_left (f := f) hnone start
        rw [ih start (by omega) hfirst, List.nil_append] at hwords
        rw [← hwords, hfifty]
      have hgap := hframe.apart hen hlast (by omega)
      have hcount := hframe.takes_fifty hen harrive hfull (k := 49) (by omega)
      have hmono := length_events_mono (takenWord f inp)
        (show start + 62 * fetchSlot 49 + 2 ≤ n by rw [show fetchSlot 49 = 1571 from rfl]; omega)
      have hleft := congrArg List.length (words_left (f := f) hnone n)
      rw [List.length_append, hfifty] at hleft
      -- the FIFO is empty, but a frame starts
      have hempty : (transmitter f inp n).fifo.words = [] :=
        List.eq_nil_of_length_eq_zero (by omega)
      exact hlast.word (List.append_eq_nil_iff.mp hempty).1

end OneFrame

/-! ## Fifty words in the FIFO at reset -/

def fiftyWords : DcFifo := ⟨(List.range 50).map (BitVec.ofNat 32), [], 0, 0⟩

def idleHost : HostPort := ⟨false, false, 0, 0⟩

def sender : Block where
  configReg := fun _ => 2#27
  buffer := fun _ _ => 0
  fifo := fun _ => fiftyWords
  inp := fun _ => ⟨idleHost, fun _ => .null, fun _ => ⟨1, 1⟩⟩

/-- The other host reads the fifty words, one in four cycles, when the frame is over. -/
def readsFifty (n : Nat) : HostPort :=
  if 200000 ≤ n ∧ n < 200200 ∧ n % 4 = 0 then
    ⟨false, true, BitVec.ofNat 17 (4 * ((n - 200000) / 4)), 0⟩
  else idleHost

def taker : Block where
  configReg := fun _ => 1#27
  buffer := fun _ _ => 0
  fifo := fun _ => .init
  inp := fun n => ⟨readsFifty n, fun _ => ((sender.run n).tx ⟨0, Nat.zero_lt_two⟩).tx.line,
    fun _ => ⟨0, 0⟩⟩

def steadyTx : TxInput := ⟨1#4, false, 0, false, ⟨1, 1⟩⟩

theorem sender_slow : Unhurried sender.host := fun _ _ => ⟨rfl, rfl⟩

theorem sender_bus (n : Nat) : (sender.run n).bus = .init := by
  rw [sender.run_bus]
  induction n with
  | zero => rfl
  | succ n ih =>
      rw [bus_succ, ih]
      simp [BusRegs.step, BusRegs.init, Block.host, sender, idleHost, HostPort.accesses,
        Target.register]

theorem sender_config (n : Nat) : (sender.run n).configReg 0 = 2#27 := by
  induction n with
  | zero => rfl
  | succ n ih =>
      have hstep : (sender.run (n + 1)).configReg 0 =
          if ((sender.run n).bus.wr && (sender.run n).bus.target.register 0#4 &&
            (sender.run n).bus.target.recTransNumber == 0) = true then
            (sender.run n).bus.wrData.extractLsb' 0 27
          else (sender.run n).configReg 0 := rfl
      rw [hstep, sender_bus, ih]
      rfl

theorem sender_txInputs : sender.txInputs 0 = fun _ => steadyTx := by
  funext n
  rw [Block.txInputs, Slave.txInput, sender_config, sender_bus]
  rfl

/-! ### The only frame -/

theorem steady_starts : SendingStarts fiftyWords (fun _ => steadyTx) 33 := by
  have h : (transmitter fiftyWords (fun _ => steadyTx) 33).tx.currentStateTx = .idle ∧
      (transmitter fiftyWords (fun _ => steadyTx) 33).tx.sinkTxReadyPe = true := by
    decide +kernel
  exact h

theorem steady_enabled (n : Nat) :
    ((fun _ => steadyTx : Nat → TxInput) n).txconfig.getLsbD 0 = true := by
  simp [steadyTx]

theorem steady_arrives (n : Nat) :
    ∃ k < 1000, 0 < ((fun _ => steadyTx : Nat → TxInput) (n + k)).fifoDelay.arrive :=
  ⟨0, by omega, Nat.one_pos⟩

theorem steady_full {n : Nat} (hstart : SendingStarts fiftyWords (fun _ => steadyTx) n) :
    50 ≤ (transmitter fiftyWords (fun _ => steadyTx) n).fifo.words.length := by
  have hwords : fiftyWords.words = events (takenWord fiftyWords fun _ => steadyTx) n ++
      (transmitter fiftyWords (fun _ => steadyTx) n).fifo.words := words_left (fun _ => rfl) n
  rw [nothing_taken steady_enabled steady_arrives (fun _ => rfl) rfl hstart,
    List.nil_append] at hwords
  rw [← hwords]
  exact Nat.le_refl 50

theorem steady_feeds : Feeds fiftyWords fun _ => steadyTx :=
  ⟨steady_enabled, steady_arrives, fun _ => steady_full⟩

theorem steady_taken {start : Nat} (hstart : SendingStarts fiftyWords (fun _ => steadyTx) start)
    {k : Nat} (hk : k < 50) :
    k + 1 ≤ (events (takenWord fiftyWords fun _ => steadyTx)
      (start + 62 * fetchSlot k + 2)).length :=
  ((starts_iff steady_enabled start).mp hstart).takes_fifty steady_enabled steady_arrives
    (steady_full hstart) hk

theorem steady_once {start start' : Nat}
    (hstart : SendingStarts fiftyWords (fun _ => steadyTx) start)
    (hstart' : SendingStarts fiftyWords (fun _ => steadyTx) start') : start' ≤ start := by
  by_contra hlater
  have hgap := steady_feeds.apart hstart hstart' (by omega)
  have hone := steady_taken hstart (k := 0) (by omega)
  have hmono := length_events_mono (takenWord fiftyWords fun _ => steadyTx)
    (show start + 62 * fetchSlot 0 + 2 ≤ start' by
      rw [show fetchSlot 0 = 0 from rfl]
      unfold frameLength at hgap
      omega)
  have hzero := congrArg List.length
    (nothing_taken steady_enabled steady_arrives (fun _ => rfl) rfl hstart')
  rw [List.length_nil] at hzero
  omega

theorem sender_sends : Sends sender 0 where
  slow := sender_slow
  initially := rfl
  always := fun _ hw => by cases hw
  arrives := fun _ => ⟨0, by omega, Nat.one_pos⟩
  full := by
    intro n hstart
    rw [sender.run_tx, sender_txInputs] at hstart ⊢
    exact steady_full hstart
  room := fun _ hw => by cases hw

/-! ### The reads -/

theorem readsFifty_target : ∀ k < 50, (Target.ofAddress (BitVec.ofNat 17 (4 * k))).rxBuf 0 = true ∧
    ((Target.ofAddress (BitVec.ofNat 17 (4 * k))).addr.extractLsb' 2 10).toNat % 512 = k := by
  decide

theorem readsFifty_at {k : Nat} (hk : k < 50) :
    readsFifty (200000 + 4 * k) = ⟨false, true, BitVec.ofNat 17 (4 * k), 0⟩ := by
  unfold readsFifty
  rw [if_pos (by omega), Nat.add_sub_cancel_left, Nat.mul_div_cancel_left k (by omega)]

theorem readsFifty_other {n : Nat} (hn : ¬ ∃ k < 50, n = 200000 + 4 * k) :
    readsFifty n = idleHost := by
  unfold readsFifty
  rw [if_neg fun h => hn ⟨(n - 200000) / 4, by omega, by omega⟩]

theorem taker_reads {n : Nat} :
    (taker.host n).bufferRead 0 = true ↔ ∃ k < 50, n = 200000 + 4 * k := by
  change (readsFifty n).bufferRead 0 = true ↔ _
  constructor
  · intro hread
    by_contra hother
    rw [readsFifty_other hother] at hread
    cases hread
  · rintro ⟨k, hk, rfl⟩
    rw [readsFifty_at hk]
    exact (readsFifty_target k hk).1

theorem taker_requests {k : Nat} (hk : k ≤ 50) : taker.requests 0 (200000 + 4 * k) = k := by
  have hnone : ∀ m, (¬ ∃ k < 50, m = 200000 + 4 * k) → taker.request 0 m = none :=
    fun m hm => request_eq_none_iff.mpr
      (Bool.not_eq_true _ ▸ fun hread => hm (taker_reads.mp hread))
  unfold Block.requests
  induction k with
  | zero =>
      rw [events_eq_of_none (Nat.zero_le _) fun m _ hm => hnone m fun ⟨j, _, hj⟩ => by omega]
      rfl
  | succ k ih =>
      have hsome : taker.request 0 (200000 + 4 * k) = some () :=
        if_pos (taker_reads.mpr ⟨k, by omega, rfl⟩)
      rw [events_eq_of_none (show 200000 + 4 * k + 1 ≤ 200000 + 4 * (k + 1) by omega)
        fun m hlo hhi => hnone m fun ⟨j, _, hj⟩ => by omega, events_succ_some hsome,
        List.length_append, ih (by omega)]
      rfl

theorem taker_writes (n : Nat) : (taker.host n).amsWrite = false := by
  change (readsFifty n).amsWrite = false
  unfold readsFifty
  split <;> rfl

theorem taker_config (n : Nat) : (taker.host n).configWrite 0 = false := by
  rw [HostPort.configWrite, taker_writes, Bool.false_and]

theorem taker_enabled (n : Nat) : EnabledAt (taker.rxInputs 0) n :=
  Block.rx_enabled ⟨by decide, by decide⟩
    (fun n hw => absurd hw (by rw [taker_config]; exact Bool.false_ne_true)) n

theorem taker_line (n : Nat) :
    (taker.rxInputs 0 n).line = link fiftyWords (fun _ => steadyTx) n := by
  change ((sender.run n).tx 0).tx.line = _
  rw [sender.run_tx, sender_txInputs]
  rfl

theorem taker_arrived : 50 ≤ (taker.arrived 0 200000).length := by
  have hcount := steady_taken steady_starts (k := 49) (by omega)
  have hmono := length_events_mono (takenWord fiftyWords fun _ => steadyTx)
    (show 33 + 62 * fetchSlot 49 + 2 ≤ 200000 by decide)
  rw [Block.arrived, steady_feeds.all_stored (taker.buffer 0) taker_enabled taker_line]
  · omega
  · intro start hstart
    have honly := steady_once steady_starts hstart
    unfold receiveTime fixAt
    omega

theorem taker_arrived_le (n : Nat) : (taker.arrived 0 n).length ≤ 50 := by
  have hprefix := steady_feeds.stored_prefix (taker.buffer 0) taker_enabled taker_line n
  have hnone : events (acceptedWord fiftyWords fun _ => steadyTx) n = [] :=
    events_eq_of_none (Nat.zero_le n) fun _ _ _ => rfl
  rw [hnone, List.append_nil] at hprefix
  exact hprefix.length_le

theorem taker_takes : Takes taker 0 where
  slow := by
    have hnone : ∀ m, (¬ ∃ k < 50, m = 200000 + 4 * k) → (taker.host m).accesses = false := by
      intro m hm
      change (readsFifty m).accesses = false
      rw [readsFifty_other hm]
      rfl
    intro n hn
    have hread : ∃ k < 50, n = 200000 + 4 * k := by
      by_contra hother
      rw [hnone n hother] at hn
      cases hn
    obtain ⟨k, _, rfl⟩ := hread
    exact ⟨hnone _ fun ⟨j, _, hj⟩ => by omega, hnone _ fun ⟨j, _, hj⟩ => by omega⟩
  initially := ⟨by decide, by decide⟩
  always := fun n hw => absurd hw (by rw [taker_config]; exact Bool.false_ne_true)
  keepsUp := by
    intro n _
    have hcount : (channel (taker.rxInputs 0) (taker.buffer 0) n).controller.diff ≤
        (taker.arrived 0 n).length := diff_le_stored (taker.buffer 0) n
    have hfew := taker_arrived_le n
    omega
  inTurn := by
    intro n hread
    obtain ⟨k, hk, rfl⟩ := taker_reads.mp hread
    rw [taker_requests (Nat.le_of_lt hk), Nat.mod_eq_of_lt (by omega)]
    change (readsFifty (200000 + 4 * k)).cell = k
    rw [readsFifty_at hk]
    exact (readsFifty_target k hk).2
  there := by
    intro n hread
    obtain ⟨k, hk, rfl⟩ := taker_reads.mp hread
    have hmono := length_events_mono (storedWord (taker.rxInputs 0) (taker.buffer 0))
      (show 200000 ≤ 200000 + 4 * k by omega)
    have harrived := taker_arrived
    rw [taker_requests (Nat.le_of_lt hk)]
    unfold Block.arrived at harrived ⊢
    omega

/-- The fifth read gives the fifth word. -/
theorem words_from_host_to_host_fifty :
    (taker.run 200020).amsReaddatavalid = true ∧
      ((sender.fifo 0).words ++ events (sender.written 0) 200016)[taker.requests 0 200016]? =
        some (taker.run 200020).amsReaddata :=
  words_from_host_to_host sender_sends taker_takes (fun _ => rfl)
    (taker_reads.mpr ⟨4, by omega, rfl⟩)

end Mfi.Arinc708
