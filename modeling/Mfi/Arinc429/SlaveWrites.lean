import Mfi.Arinc429.RxRun
import Mfi.Arinc429.Slave

/-!
# Writes over the bus

The strobe of a write reaches its channel two cycles after the access, together with
whatever the bus registers hold by then. Under the rule `WritePairOk` for neighbouring
accesses every write arrives with its own data, once, and where it was addressed to.
-/

namespace Mfi.Arinc429

open Core

/-! ## What the host asks for -/

namespace HostPort

def idle : HostPort := ⟨false, false, 0, 0⟩

/-- A write to the FIFO of transmit channel `y`. -/
def fifoWrite (h : HostPort) (y : Fin 6) : Bool :=
  h.amsWrite && h.target.recieverTransmitter && !h.target.confBit &&
    h.target.recTransNumber.val == y.val

/-- A write that the block decodes as one to a label mask. -/
def maskStrobe (h : HostPort) : Bool := h.amsWrite && h.target.maskSpace

/-- A write to word `a` of the label mask of receive channel `c`. -/
def maskWrite (h : HostPort) (c : Fin 16) (a : Nat) : Bool :=
  h.maskStrobe && !h.target.recieverTransmitter && h.target.recTransNumber == c &&
    h.target.maskAddr == a

structure WritePairOk (h h' : HostPort) : Prop where
  /-- After a write to a FIFO the next access has the same channel number and, if it
  is a write, the same data. -/
  fifo : ∀ y, h.fifoWrite y = true → h'.accesses = true →
    h'.target.recTransNumber = h.target.recTransNumber ∧
      (h'.amsWrite = true → h'.amsWritedata = h.amsWritedata)
  /-- A transmit channel has no label mask. -/
  receiver : h.maskStrobe = true → h.target.recieverTransmitter = false
  /-- After a write to a label mask the next access goes to the same mask word. -/
  mask : h.maskStrobe = true → h'.accesses = true →
    h'.target.maskSpace = true ∧ h'.target.recTransNumber = h.target.recTransNumber ∧
      h'.target.maskAddr = h.target.maskAddr

end HostPort

section Spec

variable (host : Nat → HostPort) (run : Nat → Slave)

/-- The words of the host's writes before cycle `n` to the FIFO of channel `y`, without
those that find it full: a write reaches the FIFO two cycles after it is made. -/
def written (y : Fin 6) : Nat → List Word
  | 0 => []
  | n + 1 =>
      written y n ++
        if (host n).fifoWrite y && !((run (n + 2)).tx y).fifo.full then [(host n).amsWritedata]
        else []

/-- The words read from the FIFO of channel `y` before cycle `n`. -/
def dequeued (y : Fin 6) : Nat → List Word
  | 0 => []
  | n + 1 =>
      dequeued y n ++
        if ((run n).tx y).fifo.takes (((run n).tx y).rdreq && !((run n).tx y).rdreqSig) then
          [((run (n + 1)).tx y).fifo.q]
        else []

/-- The data of the last write before cycle `n` to a mask word. -/
def maskWord (contents : Word) (c : Fin 16) (a : Nat) : Nat → Word
  | 0 => contents
  | n + 1 =>
      if (host n).maskWrite c a then (host n).amsWritedata else maskWord contents c a n

/-- The mask/flag memory of receive channel `c`. -/
def Slave.maskFlags (s : Slave) (c : Fin 16) : Nat → Word := (s.rx c).controller.ramMask.ram

/-- Every write does what it was addressed to do, and nothing else. -/
structure WritesArrive (maskFlags : Fin 16 → Nat → Word) : Prop where
  fifo : ∀ y n, dequeued run y (n + 2) ++ ((run (n + 2)).tx y).fifo.words = written host run y n
  /-- A mask word has the data of its last write three cycles later, if it is not
  written again meanwhile. -/
  mask : ∀ c n a, a < 8 → (host (n + 1)).maskWrite c a = false →
    (run (n + 3)).maskFlags c a = maskWord host (maskFlags c a) c a (n + 1)
  /-- The flag words are written by the controller alone. -/
  flags : ∀ c n a, 8 ≤ a → (run (n + 1)).maskFlags c a =
    let r := ((run n).rx c).controller
    if r.flagWe = true ∧ a = r.maskFlagsAddr then flagsDataB r.flagsData
    else (run n).maskFlags c a

end Spec

/-! ## The bus registers -/

/-- The bus registers in a cycle, from the accesses one (`h`) and two (`h0`) cycles ago. -/
structure BusAfter (h0 h : HostPort) (s : BusRegs) : Prop where
  target : h.accesses = true → s.target = h.target
  heldTarget : h.accesses = false → h0.accesses = true → s.target = h0.target
  wr : s.wr = h.amsWrite
  wrData : h.amsWrite = true → s.wrData = h.amsWritedata
  heldData : h.amsWrite = false → h0.amsWrite = true → s.wrData = h0.amsWritedata
  trBufWr : ∀ y, s.trBufWr y = h0.fifoWrite y
  rxMaskWr : ∀ c, s.rxMaskWr c = (h0.maskStrobe && h0.target.recTransNumber == c)

section Bus

variable {h0 h h' : HostPort} {s : BusRegs}

theorem HostPort.accesses_of_write (hw : h.amsWrite = true) : h.accesses = true := by
  simp [HostPort.accesses, hw]

theorem BusAfter.init : BusAfter .idle .idle .init := by
  constructor <;> simp [HostPort.idle, HostPort.accesses, BusRegs.init, HostPort.fifoWrite,
    HostPort.maskStrobe]

theorem BusAfter.fifo_next (hs : BusAfter h0 h s) (hok : h0.WritePairOk h) (y : Fin 6) :
    (s.step h').trBufWr y = h.fifoWrite y := by
  simp only [BusRegs.step, hs.wr]
  cases hw : h.amsWrite with
  | true =>
      have hacc := HostPort.accesses_of_write hw
      rw [hs.target hacc]
      by_cases hy : h.target.recTransNumber.val = y.val
      · simp [HostPort.fifoWrite, hw, hy]
      · -- the strobe of another channel is off already
        have hoff : h0.fifoWrite y = false := by
          cases h0w : h0.fifoWrite y with
          | false => rfl
          | true =>
              have hsame := (hok.fifo y h0w hacc).1
              simp only [HostPort.fifoWrite, Bool.and_eq_true, beq_iff_eq] at h0w
              rw [hsame] at hy
              exact absurd h0w.2 hy
        rw [if_neg hy, hs.trBufWr, hoff]
        simp [HostPort.fifoWrite, hy]
  | false =>
      have hnone : h.fifoWrite y = false := by simp [HostPort.fifoWrite, hw]
      rw [hnone]
      split
      · rfl
      · rename_i hy
        rw [hs.trBufWr]
        cases h0w : h0.fifoWrite y with
        | false => rfl
        | true =>
            have hold := h0w
            simp only [HostPort.fifoWrite, Bool.and_eq_true, beq_iff_eq] at hold
            have h0acc := HostPort.accesses_of_write hold.1.1.1
            exfalso
            apply hy
            cases hacc : h.accesses with
            | true => rw [hs.target hacc, (hok.fifo y h0w hacc).1, hold.2]
            | false => rw [hs.heldTarget hacc h0acc, hold.2]

theorem BusAfter.mask_next (hs : BusAfter h0 h s) (hok : h0.WritePairOk h) (c : Fin 16) :
    (s.step h').rxMaskWr c = (h.maskStrobe && h.target.recTransNumber == c) := by
  have hoff : (s.target.maskSpace && s.target.recTransNumber == c) = false →
      (h0.maskStrobe && h0.target.recTransNumber == c) = false := by
    intro hno
    cases h0w : h0.maskStrobe with
    | false => rfl
    | true =>
        have hold := h0w
        simp only [HostPort.maskStrobe, Bool.and_eq_true] at hold
        have h0acc := HostPort.accesses_of_write hold.1
        cases hacc : h.accesses with
        | true =>
            obtain ⟨hspace, hsame, _⟩ := hok.mask h0w hacc
            rw [hs.target hacc, hspace, hsame] at hno
            exact hno
        | false =>
            rw [hs.heldTarget hacc h0acc, hold.2] at hno
            exact hno
  simp only [BusRegs.step, hs.wr, hs.rxMaskWr]
  cases hw : h.amsWrite with
  | true =>
      rw [hs.target (HostPort.accesses_of_write hw)] at hoff ⊢
      cases hin : h.target.maskSpace && h.target.recTransNumber == c with
      | true => simpa [HostPort.maskStrobe, hw] using hin.symm
      | false =>
          simp only [HostPort.maskStrobe, hw, Bool.true_and, hin, Bool.false_eq_true, if_false]
          exact hoff hin
  | false =>
      have hnone : h.maskStrobe = false := by simp [HostPort.maskStrobe, hw]
      rw [hnone, Bool.false_and]
      split
      · rfl
      · rename_i hno
        exact hoff (Bool.not_eq_true _ ▸ hno)

theorem BusAfter.step (hs : BusAfter h0 h s) (hok : h0.WritePairOk h) :
    BusAfter h h' (s.step h') := by
  refine ⟨fun hacc => ?_, fun hacc hold => ?_, rfl, fun hw => ?_, fun hw hold => ?_,
    hs.fifo_next hok, hs.mask_next hok⟩
  · simp [BusRegs.step, hacc]
  · simp [BusRegs.step, hacc, hs.target hold]
  · simp [BusRegs.step, hw]
  · simp [BusRegs.step, hw, hs.wrData hold]

end Bus

def earlier (host : Nat → HostPort) : Nat → HostPort
  | 0 => .idle
  | n + 1 => host n

theorem earlier_ok {host : Nat → HostPort} (h : ∀ n, (host n).WritePairOk (host (n + 1)))
    (n : Nat) : (earlier (earlier host) n).WritePairOk (earlier host n) := by
  have hidle : ∀ h', HostPort.idle.WritePairOk h' := by
    intro h'
    constructor <;> simp [HostPort.idle, HostPort.fifoWrite, HostPort.maskStrobe]
  rcases n with _ | _ | n
  · exact hidle _
  · exact hidle _
  · exact h n

/-! ## The run -/

section Run

variable {f : Nat} {inp : Nat → SlaveInput} (buffer maskFlags : Fin 16 → Nat → Word)

theorem bus_run (hok : ∀ n, (inp n).host.WritePairOk (inp (n + 1)).host) (n : Nat) :
    BusAfter (earlier (earlier fun k => (inp k).host) n) (earlier (fun k => (inp k).host) n)
      (trace (Slave.step f) (.init buffer maskFlags) inp n).bus := by
  induction n with
  | zero => exact .init
  | succ n ih => exact ih.step (earlier_ok hok n)

variable (inp) in
theorem slave_control (c : Fin 16) (n : Nat) :
    ((trace (Slave.step f) (.init buffer maskFlags) inp n).rx c).controller.Control :=
  trace_invariant (fun _ (s : Slave) => (s.rx c).controller.Control) (.reset _ _)
    (fun _ h => h.step) n

variable (inp) in
theorem fifo_cycle (y : Fin 6) (n : Nat) :
    let run := trace (Slave.step f) (.init buffer maskFlags) inp
    dequeued run y (n + 1) ++ ((run (n + 1)).tx y).fifo.words =
      dequeued run y n ++ ((run n).tx y).fifo.words ++
        if ((run n).tx y).fifo.stores ((run n).bus.trBufWr y) then [(run n).bus.wrData]
        else [] := by
  intro run
  have hstep : ((run (n + 1)).tx y).fifo = ((run n).tx y).fifo.step (run n).bus.wrData
      ((run n).bus.trBufWr y) (((run n).tx y).rdreq && !((run n).tx y).rdreqSig)
      ((inp n).fifoDelay y) := rfl
  simp only [dequeued]
  cases ht : ((run n).tx y).fifo.takes (((run n).tx y).rdreq && !((run n).tx y).rdreqSig) with
  | true =>
      rw [if_pos rfl, hstep, List.append_assoc, List.append_assoc, DcFifo.step_words_of_takes ht]
      rfl
  | false =>
      rw [if_neg Bool.false_ne_true, List.append_nil, hstep, DcFifo.step_words_of_not_takes ht,
        List.append_assoc]

theorem fifo_arrives (hok : ∀ n, (inp n).host.WritePairOk (inp (n + 1)).host) (y : Fin 6)
    (n : Nat) :
    let run := trace (Slave.step f) (.init buffer maskFlags) inp
    dequeued run y (n + 2) ++ ((run (n + 2)).tx y).fifo.words =
      written (fun k => (inp k).host) run y n := by
  intro run
  have hbus := bus_run (f := f) buffer maskFlags hok
  induction n with
  | zero =>
      have h0 : (run 0).bus.trBufWr y = false := (hbus 0).trBufWr y
      have h1 : (run 1).bus.trBufWr y = false := (hbus 1).trBufWr y
      rw [fifo_cycle, fifo_cycle, h0, h1]
      rfl
  | succ n ih =>
      have hcycle := fifo_cycle (f := f) inp buffer maskFlags y (n + 2)
      have hwr : (run (n + 2)).bus.trBufWr y = (inp n).host.fifoWrite y := (hbus (n + 2)).trBufWr y
      simp only [written]
      rw [← ih, hcycle, hwr]
      cases hw : (inp n).host.fifoWrite y with
      | false => rfl
      | true =>
          have hwrite : (inp n).host.amsWrite = true := by
            simp only [HostPort.fifoWrite, Bool.and_eq_true] at hw
            exact hw.1.1.1
          have hdata : (run (n + 2)).bus.wrData = (inp n).host.amsWritedata := by
            cases hnext : (inp (n + 1)).host.amsWrite with
            | false => exact (hbus (n + 2)).heldData hnext hwrite
            | true =>
                rw [← ((hok n).fifo y hw (HostPort.accesses_of_write hnext)).2 hnext]
                exact (hbus (n + 2)).wrData hnext
          rw [hdata]
          rfl

variable (inp) in
theorem mask_cycle (c : Fin 16) {a : Nat} (ha : a < 8) (n : Nat) :
    let run := trace (Slave.step f) (.init buffer maskFlags) inp
    (run (n + 1)).maskFlags c a =
      if (run n).bus.rxMaskWr c = true ∧ a = (run n).bus.target.maskAddr then (run n).bus.wrData
      else (run n).maskFlags c a := by
  intro run
  have hmask := RxController.step_mask (i := (run n).rxInput c)
    (slave_control (f := f) inp buffer maskFlags c n) ha
  have hstep : (run (n + 1)).maskFlags c a =
      (((run n).rx c).controller.step ((run n).rxInput c)).ramMask.ram a := rfl
  rw [hstep, hmask]
  cases hw : (run n).bus.rxMaskWr c <;> simp [Slave.rxInput, hw, Slave.maskFlags, run]

theorem maskAddr_at_strobe (hok : ∀ n, (inp n).host.WritePairOk (inp (n + 1)).host) {n : Nat}
    (hs : (inp n).host.maskStrobe = true) (hwrite : (inp n).host.amsWrite = true) :
    (trace (Slave.step f) (.init buffer maskFlags) inp (n + 2)).bus.target.maskAddr =
      (inp n).host.target.maskAddr := by
  have hbus := bus_run (f := f) buffer maskFlags hok (n + 2)
  have htarget := hbus.target
  have hheld := hbus.heldTarget
  simp only [earlier] at htarget hheld
  cases hacc : (inp (n + 1)).host.accesses with
  | false => rw [hheld hacc (HostPort.accesses_of_write hwrite)]
  | true => rw [htarget hacc, ((hok n).mask hs hacc).2.2]

theorem maskWrite_again (hok : ∀ n, (inp n).host.WritePairOk (inp (n + 1)).host) {n a : Nat}
    {c : Fin 16} (hs : (inp n).host.maskStrobe = true)
    (hit : (inp n).host.target.recTransNumber = c ∧ (inp n).host.target.maskAddr = a)
    (hnext : (inp (n + 1)).host.amsWrite = true) : (inp (n + 1)).host.maskWrite c a = true := by
  obtain ⟨hspace, hrec, hword⟩ := (hok n).mask hs (HostPort.accesses_of_write hnext)
  have hs' : (inp (n + 1)).host.maskStrobe = true := by
    simp [HostPort.maskStrobe, hnext, hspace]
  simp [HostPort.maskWrite, hs', (hok (n + 1)).receiver hs', hrec, hword, hit.1, hit.2]

theorem mask_arrives (hok : ∀ n, (inp n).host.WritePairOk (inp (n + 1)).host) (c : Fin 16)
    {a : Nat} (ha : a < 8) (n : Nat) (hlast : (inp (n + 1)).host.maskWrite c a = false) :
    (trace (Slave.step f) (.init buffer maskFlags) inp (n + 3)).maskFlags c a =
      maskWord (fun k => (inp k).host) (maskFlags c a) c a (n + 1) := by
  have hbus := bus_run (f := f) buffer maskFlags hok
  have hcycle := mask_cycle (f := f) inp buffer maskFlags c ha
  -- before this write the word has the data of the last one
  have hbefore : (inp n).host.maskWrite c a = false →
      (trace (Slave.step f) (.init buffer maskFlags) inp (n + 2)).maskFlags c a =
        maskWord (fun k => (inp k).host) (maskFlags c a) c a n := by
    intro hno
    cases n with
    | zero =>
        have h0 : (trace (Slave.step f) (.init buffer maskFlags) inp 0).bus.rxMaskWr c = false :=
          (hbus 0).rxMaskWr c
        have h1 : (trace (Slave.step f) (.init buffer maskFlags) inp 1).bus.rxMaskWr c = false :=
          (hbus 1).rxMaskWr c
        rw [hcycle, hcycle, h0, h1]
        rfl
    | succ n => exact mask_arrives hok c ha n hno
  have hstrobe := (hbus (n + 2)).rxMaskWr c
  simp only [earlier] at hstrobe
  rw [hcycle (n + 2), hstrobe]
  simp only [maskWord]
  cases hs : (inp n).host.maskStrobe with
  | false =>
      have hno : (inp n).host.maskWrite c a = false := by simp [HostPort.maskWrite, hs]
      rw [if_neg (by simp), hno, if_neg Bool.false_ne_true, hbefore hno]
  | true =>
      have hwrite : (inp n).host.amsWrite = true := by
        simp only [HostPort.maskStrobe, Bool.and_eq_true] at hs
        exact hs.1
      have hrt := (hok n).receiver hs
      rw [maskAddr_at_strobe buffer maskFlags hok hs hwrite]
      by_cases hit : (inp n).host.target.recTransNumber = c ∧ (inp n).host.target.maskAddr = a
      · have hyes : (inp n).host.maskWrite c a = true := by
          simp [HostPort.maskWrite, hs, hrt, hit.1, hit.2]
        rw [if_pos (by simp [hit.1, hit.2]), hyes, if_pos rfl]
        cases hnext : (inp (n + 1)).host.amsWrite with
        | false => exact (hbus (n + 2)).heldData hnext hwrite
        | true =>
            rw [maskWrite_again hok hs hit hnext] at hlast
            cases hlast
      · have hno : (inp n).host.maskWrite c a = false := by
          simp only [HostPort.maskWrite, hs, hrt, Bool.not_false, Bool.true_and]
          simpa using hit
        have hmiss : ¬((true && (inp n).host.target.recTransNumber == c) = true ∧
            a = (inp n).host.target.maskAddr) :=
          fun hboth => hit ⟨by simpa using hboth.1, hboth.2.symm⟩
        rw [if_neg hmiss, hno, if_neg Bool.false_ne_true, hbefore hno]

theorem flags_kept (c : Fin 16) {a : Nat} (ha : 8 ≤ a) (n : Nat) :
    (trace (Slave.step f) (.init buffer maskFlags) inp (n + 1)).maskFlags c a =
      let r := ((trace (Slave.step f) (.init buffer maskFlags) inp n).rx c).controller
      if r.flagWe = true ∧ a = r.maskFlagsAddr then flagsDataB r.flagsData
      else (trace (Slave.step f) (.init buffer maskFlags) inp n).maskFlags c a := by
  generalize hs : trace (Slave.step f) (.init buffer maskFlags) inp n = s
  have hcontrol := slave_control (f := f) inp buffer maskFlags c n
  rw [hs] at hcontrol
  have hram := congrArg DualPortRam.ram (RxController.step_ramMask (i := s.rxInput c) hcontrol)
  have hstep : (trace (Slave.step f) (.init buffer maskFlags) inp (n + 1)).maskFlags c a =
      ((s.rx c).controller.step (s.rxInput c)).ramMask.ram a := by
    rw [trace_succ, hs]
    rfl
  have hlt := s.bus.target.maskAddr_lt
  rw [hstep, hram]
  cases hw : s.bus.rxMaskWr c with
  | false =>
      cases hf : (s.rx c).controller.flagWe <;>
        simp [DualPortRam.clock, Slave.rxInput, hw, hf, Slave.maskFlags, Function.update_apply]
  | true =>
      have hne : a ≠ s.bus.target.maskAddr := by omega
      cases hf : (s.rx c).controller.flagWe <;>
        simp [DualPortRam.clock, Slave.rxInput, hw, hf, Slave.maskFlags, Function.update_apply, hne]

/-- On every run whose neighbouring accesses meet `WritePairOk` the writes arrive. -/
theorem writes_arrive (hok : ∀ n, (inp n).host.WritePairOk (inp (n + 1)).host) :
    WritesArrive (fun n => (inp n).host) (trace (Slave.step f) (.init buffer maskFlags) inp)
      maskFlags :=
  ⟨fun y n => fifo_arrives buffer maskFlags hok y n,
    fun c n _ ha hlast => mask_arrives buffer maskFlags hok c ha n hlast,
    fun c n _ ha => flags_kept buffer maskFlags c ha n⟩

end Run

/-! ## Two hosts -/

def busInput (host : Nat → HostPort) (n : Nat) : SlaveInput :=
  ⟨host n, fun _ => .null, fun _ => ⟨1, 1⟩⟩

def busRun (host : Nat → HostPort) : Nat → Slave :=
  trace (Slave.step 62500000) (.init (fun _ _ => 0) fun _ _ => 0) (busInput host)

/-- A write to the FIFO of transmit channel 0, and one to word 5 of the label mask of
receive channel 3 two cycles later. -/
def writesApart : Nat → HostPort
  | 0 => ⟨true, false, 0x100000#21, 0x1234#32⟩
  | 2 => ⟨true, false, 0x034024#21, 0xff#32⟩
  | _ => .idle

theorem writesApart_ok (n : Nat) :
    (busInput writesApart n).host.WritePairOk (busInput writesApart (n + 1)).host := by
  have hidle : HostPort.idle.accesses = false := rfl
  have hnone : ∀ h', HostPort.idle.WritePairOk h' := by
    intro h'
    constructor <;> simp [HostPort.idle, HostPort.fifoWrite, HostPort.maskStrobe]
  rcases n with _ | _ | _ | n
  · constructor <;> simp [busInput, writesApart, hidle, HostPort.maskStrobe, HostPort.target,
      Target.ofAddress, Target.maskSpace]
  · exact hnone _
  · constructor <;> simp [busInput, writesApart, hidle, HostPort.maskStrobe, HostPort.target,
      Target.ofAddress, Target.maskSpace]
  · exact hnone _

theorem writes_arrive_apart : WritesArrive writesApart (busRun writesApart) fun _ _ => 0 :=
  writes_arrive _ _ writesApart_ok

/-- Writes of 1 and 2 to the FIFO of transmit channel 0 in the cycles 0 and 1. -/
def writesTogether : Nat → HostPort
  | 0 => ⟨true, false, 0x100000#21, 1#32⟩
  | 1 => ⟨true, false, 0x100000#21, 2#32⟩
  | _ => .idle

/-- Both places of the FIFO get the data of the second write. -/
theorem writes_together_collide :
    ¬ WritesArrive writesTogether (busRun writesTogether) fun _ _ => 0 := by
  intro h
  exact absurd (h.fifo 0 2) (by decide +kernel)

end Mfi.Arinc429
