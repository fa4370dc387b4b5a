import Mfi.Arinc708.TxController
import Mfi.Arinc708.TxFrame

/-!
# Runs of the ARINC 708 transmitter

The controller with its serialiser, enabled from reset on, is at any time between
frames or in the frame of the words it has asked for. The valid strobes that led to
a frame are over before it ends, so that at least one bit time is between two frames
and another one before the next is sent.
-/

namespace Mfi.Arinc708

namespace TxController

open Arinc708Tx

variable {φ q y : Nat} {c : TxController} {i : TxInput} {ws : Nat → Word}

theorem step_tx (hrst : c.tx.rstN = true) (hen : i.txconfig.getLsbD 0 = true) :
    (c.step inputFrequency i).tx = c.tx.clkEdge inputFrequency (c.port i) := by
  change c.tx.step inputFrequency (c.port i) = _
  unfold Arinc708Tx.step
  rw [hrst, show (c.port i).en = true from hen]
  rfl

/-! ## The valid strobe -/

/-- In cycle `y` of a frame, counted from its first request, the valid strobes die out. -/
structure Drains (y : Nat) (c : TxController) : Prop where
  wrEn : 63 ≤ y → c.wrEn = false
  wrEnSig0 : 64 ≤ y → c.wrEnSig0 = false
  wrEnSig1 : 65 ≤ y → c.wrEnSig1 = false
  validDel : 124 ≤ y → c.tx.sinkTxValidDel = true → y = 124 ∧ c.tx.sinkTxValidDelQ = true
  validDelQ : 186 ≤ y → c.tx.sinkTxValidDelQ = false

theorem Drains.zero : c.Drains 0 :=
  ⟨fun h => absurd h (by omega), fun h => absurd h (by omega), fun h => absurd h (by omega),
    fun h => absurd h (by omega), fun h => absurd h (by omega)⟩

theorem Drains.next (h : c.Drains y)
    (htx : (c.step inputFrequency i).tx = c.tx.clkEdge inputFrequency (c.port i))
    (hactive : 62 ≤ y → c.tx.txActive = true) (hclk : c.tx.clkA708En = decide (y % 62 = 61)) :
    (c.step inputFrequency i).Drains (y + 1) := by
  have hdel : (c.step inputFrequency i).tx.sinkTxValidDel =
      if c.wrEnSig1 then true
      else if c.tx.sinkTxValidDelQ then false else c.tx.sinkTxValidDel := by
    rw [htx]
    rfl
  have hdelQ : (c.step inputFrequency i).tx.sinkTxValidDelQ =
      if y % 62 = 61 then c.tx.sinkTxValidDel else c.tx.sinkTxValidDelQ := by
    rw [htx]
    simp [clkEdge, hclk]
  refine ⟨fun hy => ?_, fun hy => h.wrEn (by omega), fun hy => h.wrEnSig0 (by omega),
    fun hy hset => ?_, fun hy => ?_⟩
  · simp [step, hactive (by omega)]
  · rw [h.wrEnSig1 (by omega), if_neg Bool.false_ne_true] at hdel
    rw [hdel] at hset
    cases hq : c.tx.sinkTxValidDelQ with
    | true =>
        rw [hq] at hset
        cases hset
    | false =>
        rw [hq, if_neg Bool.false_ne_true] at hset
        by_cases hfirst : y = 123
        · rw [hdelQ, if_pos (by omega)]
          exact ⟨by omega, hset⟩
        · have hold := (h.validDel (by omega) hset).2
          rw [hq] at hold
          cases hold
  · rw [hdelQ]
    split
    · cases hset : c.tx.sinkTxValidDel with
      | false => rfl
      | true =>
          have hold := (h.validDel (by omega) hset).1
          omega
    · exact h.validDelQ (by omega)

/-! ## In a frame -/

/-- Phase `φ` of slot `q` in the frame of the words `ws`: the word that is asked for in
the first cycle of a slot is removed from the FIFO in the next. -/
structure Sending (ws : Nat → Word) (q φ : Nat) (c : TxController) : Prop where
  frame : c.tx.InFrame ws q φ
  drains : c.Drains (62 * q + φ)
  rdreq : c.rdreq = decide (Fetches q ∧ φ = 1)
  rdreqSig : φ ≤ 1 → c.rdreqSig = false
  trReadySig : φ = 0 → c.trReadySig = false

theorem Sending.reads_eq (h : c.Sending ws q φ) : c.reads = decide (Fetches q ∧ φ = 1) := by
  unfold reads
  rw [h.rdreq]
  by_cases hone : φ = 1
  · rw [h.rdreqSig (by omega), Bool.not_false, Bool.and_true]
  · simp [hone]

theorem Sending.active (h : c.Sending ws q φ) (hφ : φ < 62) (hy : 62 ≤ 62 * q + φ) :
    c.tx.txActive = true := by
  have hstate := h.frame.state
  unfold slotState at hstate
  rw [if_neg (by omega)] at hstate
  unfold txActive
  rw [hstate]
  split
  · rfl
  · split <;> rfl

theorem Sending.drains_next (h : c.Sending ws q φ) (hφ : φ < 62)
    (hen : i.txconfig.getLsbD 0 = true) :
    (c.step inputFrequency i).Drains (62 * q + φ + 1) := by
  refine h.drains.next (step_tx h.frame.clock.rstN hen) (h.active hφ) ?_
  rw [h.frame.clock.clkA708En_eq hφ]
  apply decide_eq_decide.mpr
  omega

theorem Sending.next (h : c.Sending ws q φ) (hφ : φ < 61) (hq : q < 1607)
    (hen : i.txconfig.getLsbD 0 = true)
    (hdata : Fetches q → φ = 0 → c.qSig = ws ((q - 3) / 32)) :
    (c.step inputFrequency i).Sending ws q (φ + 1) := by
  refine ⟨?_, h.drains_next (by omega) hen, ?_, fun hone => ?_,
    fun hzero => absurd hzero (by omega)⟩
  · rw [step_tx h.frame.clock.rstN hen]
    exact h.frame.next hφ hq hdata
  · simp only [step, h.frame.readyPe_eq]
    by_cases hzero : φ = 0
    · simp [h.trReadySig hzero, hzero]
    · simp [hzero]
  · change c.rdreq = false
    rw [h.rdreq, decide_eq_false_iff_not]
    omega

theorem Sending.next_slot (h : c.Sending ws q 61) (hq : q < 1606)
    (hen : i.txconfig.getLsbD 0 = true) : (c.step inputFrequency i).Sending ws (q + 1) 0 := by
  refine ⟨?_, h.drains_next (by omega) hen, ?_, fun _ => ?_, fun _ => ?_⟩
  · rw [step_tx h.frame.clock.rstN hen]
    exact h.frame.next_slot hq
  · simp [step, h.frame.readyPe_eq]
  · change c.rdreq = false
    simp [h.rdreq]
  · change c.tx.sinkTxReadyPe = false
    simp [h.frame.readyPe_eq]

/-! ## Between frames -/

/-- Phase `φ` between two frames: a word waits in the FIFO as soon as a valid strobe is
on its way. -/
structure Waiting (φ : Nat) (c : TxController) : Prop where
  rest : c.tx.Rest φ
  rdreq : c.rdreq = false
  word : (c.wrEn || c.wrEnSig0 || c.wrEnSig1 || c.tx.sinkTxValidDel) = true →
    c.fifo.visible ≠ []

theorem Waiting.reads_eq (h : c.Waiting φ) : c.reads = false := by
  simp [reads, h.rdreq]

theorem Waiting.word_next (h : c.Waiting φ) (hen : i.txconfig.getLsbD 0 = true)
    (hset : ((c.step inputFrequency i).wrEn || (c.step inputFrequency i).wrEnSig0 ||
      (c.step inputFrequency i).wrEnSig1 || (c.step inputFrequency i).tx.sinkTxValidDel) = true) :
    (c.step inputFrequency i).fifo.visible ≠ [] := by
  have hnone : c.fifo.takes c.reads = false := by simp [DcFifo.takes, h.reads_eq]
  have hvisible : (c.step inputFrequency i).fifo.visible =
      c.fifo.visible ++ c.fifo.crossing.take i.fifoDelay.arrive :=
    DcFifo.step_visible_of_not_takes hnone
  have hdel : (c.step inputFrequency i).tx.sinkTxValidDel =
      (c.wrEnSig1 || c.tx.sinkTxValidDel) := by
    rw [step_tx h.rest.clock.rstN hen]
    simp [clkEdge, h.rest.valid, port]
  rw [hvisible]
  apply List.append_ne_nil_of_left_ne_nil
  rw [hdel] at hset
  change (!busy i && !c.fifo.empty && c.fifoWrSig && !c.tx.txActive || c.wrEn || c.wrEnSig0 ||
    (c.wrEnSig1 || c.tx.sinkTxValidDel)) = true at hset
  simp only [Bool.or_eq_true, Bool.and_eq_true] at hset
  rcases hset with ((hnew | hold) | hold) | hold | hold
  · intro hnil
    simp [DcFifo.empty, hnil] at hnew
  · exact h.word (by simp [hold])
  · exact h.word (by simp [hold])
  · exact h.word (by simp [hold])
  · exact h.word (by simp [hold])

theorem Waiting.next (h : c.Waiting φ) (hφ : φ < 61) (hen : i.txconfig.getLsbD 0 = true) :
    (c.step inputFrequency i).Waiting (φ + 1) := by
  refine ⟨?_, ?_, h.word_next hen⟩
  · rw [step_tx h.rest.clock.rstN hen]
    exact h.rest.next hφ
  · simp [step, h.rest.readyPe_eq]

/-- With the next rising edge of the bit clock sending starts, when a strobe has come. -/
theorem Waiting.sends (h : c.Waiting 61) (hen : i.txconfig.getLsbD 0 = true)
    (hdel : c.tx.sinkTxValidDel = true) :
    (∀ ws, (c.step inputFrequency i).Sending ws 0 0) ∧
      (c.step inputFrequency i).fifo.visible ≠ [] := by
  have htx := step_tx (i := i) h.rest.clock.rstN hen
  have hrdreq : (c.step inputFrequency i).rdreq = false := by simp [step, h.rest.readyPe_eq]
  refine ⟨fun ws => ?_, ?_⟩
  · have hframe := h.rest.next_slot (i := c.port i) ws
    rw [hdel, if_pos rfl, ← htx] at hframe
    refine ⟨hframe, .zero, ?_, fun _ => h.rdreq, fun _ => h.rest.readyPe_eq⟩
    rw [hrdreq]
    simp
  · have hnone : c.fifo.takes c.reads = false := by simp [DcFifo.takes, h.reads_eq]
    change (c.fifo.step _ _ c.reads _).visible ≠ []
    rw [DcFifo.step_visible_of_not_takes hnone]
    exact List.append_ne_nil_of_left_ne_nil (h.word (by simp [hdel])) _

theorem Waiting.next_slot (h : c.Waiting 61) (hen : i.txconfig.getLsbD 0 = true) :
    (c.step inputFrequency i).Waiting 0 ∨
      (∀ ws, (c.step inputFrequency i).Sending ws 0 0) ∧
        (c.step inputFrequency i).fifo.visible ≠ [] := by
  cases hdel : c.tx.sinkTxValidDel with
  | false =>
      have hrest := h.rest.next_slot (i := c.port i) (fun _ => 0)
      rw [hdel, if_neg Bool.false_ne_true, ← step_tx h.rest.clock.rstN hen] at hrest
      exact Or.inl ⟨hrest, by simp [step, h.rest.readyPe_eq], h.word_next hen⟩
  | true => exact Or.inr (h.sends hen hdel)

theorem Waiting.strobe_next (h : c.Waiting φ) (hen : i.txconfig.getLsbD 0 = true)
    (hset : (c.wrEnSig1 || c.tx.sinkTxValidDel) = true) :
    (c.step inputFrequency i).tx.sinkTxValidDel = true := by
  rw [step_tx h.rest.clock.rstN hen]
  simpa [clkEdge, h.rest.valid, port] using hset

theorem Waiting.wrEn_next (h : c.Waiting φ) (hbusy : busy i = false) (hsig : c.fifoWrSig = true)
    (hword : c.fifo.visible ≠ []) : (c.step inputFrequency i).wrEn = true := by
  simp [step, hbusy, hsig, DcFifo.empty, hword, txActive, h.rest.state]

theorem Waiting.boot {i' : TxInput} (f : DcFifo) (hen : i.txconfig.getLsbD 0 = true)
    (hen' : i'.txconfig.getLsbD 0 = true) :
    (((reset f).step inputFrequency i).step inputFrequency i').Waiting 31 := by
  have hfirst : ((reset f).step inputFrequency i).tx = .reset true := by
    change Arinc708Tx.reset (i.txconfig.getLsbD 0) = _
    rw [hen]
  have hrst : ((reset f).step inputFrequency i).tx.rstN = true := by
    rw [hfirst]
    rfl
  have hsecond := step_tx hrst hen'
  rw [hfirst] at hsecond
  refine ⟨?_, ?_, fun hset => ?_⟩
  · rw [hsecond]
    exact Arinc708Tx.Rest.boot _
  · simp only [step]
    rw [show ((reset f).tx.step inputFrequency ((reset f).port i)) = .reset true from hfirst]
    rfl
  · rw [hsecond] at hset
    simp [step, reset, clkEdge, Arinc708Tx.reset, port] at hset

theorem Sending.next_waiting (h : c.Sending ws 1606 61) (hen : i.txconfig.getLsbD 0 = true) :
    (c.step inputFrequency i).Waiting 0 := by
  have hdrains := h.drains_next (by omega) hen
  have hdel : c.tx.sinkTxValidDel = false := by
    cases hset : c.tx.sinkTxValidDel with
    | false => rfl
    | true =>
        have hold := (h.drains.validDel (by omega) hset).1
        omega
  refine ⟨?_, ?_, fun hset => ?_⟩
  · rw [step_tx h.frame.clock.rstN hen]
    exact h.frame.next_rest hdel
  · simp [step, h.frame.readyPe_eq]
  · have hnone : (c.step inputFrequency i).tx.sinkTxValidDel = false := by
      cases hnext : (c.step inputFrequency i).tx.sinkTxValidDel with
      | false => rfl
      | true =>
          have hold := (hdrains.validDel (by omega) hnext).1
          omega
    rw [hdrains.wrEn (by omega), hdrains.wrEnSig0 (by omega), hdrains.wrEnSig1 (by omega),
      hnone] at hset
    cases hset

def Starts (c : TxController) : Prop :=
  c.tx.currentStateTx = .idle ∧ c.tx.sinkTxReadyPe = true

theorem Waiting.not_starts (h : c.Waiting φ) : ¬ c.Starts := by
  intro hstart
  have hready := hstart.2
  rw [h.rest.readyPe_eq] at hready
  cases hready

theorem Sending.starts_iff (h : c.Sending ws q φ) : c.Starts ↔ q = 0 ∧ φ = 0 := by
  unfold Starts
  rw [h.frame.readyPe_eq, decide_eq_true_eq, h.frame.state]
  constructor
  · intro ⟨hidle, _, hzero⟩
    refine ⟨?_, hzero⟩
    unfold slotState at hidle
    split_ifs at hidle with hq
    exact hq
  · intro ⟨hq, hφ⟩
    subst hq hφ
    exact ⟨rfl, Or.inl rfl, rfl⟩

end TxController

/-! ## The run -/

section Run

open Core TxController

variable (f : DcFifo) (inp : Nat → TxInput)

def transmitter : Nat → TxController := trace (TxController.step inputFrequency) (.reset f) inp

/-- The slot in which word `k` of a frame is asked for. -/
def fetchSlot (k : Nat) : Nat := if k = 0 then 0 else 32 * k + 3

/-- The word at the output of the FIFO when word `k` of a frame is asked for. -/
def askedWord (start k : Nat) : Word := (transmitter f inp (start + 62 * fetchSlot k)).qSig

/-- A frame starts in cycle `start`. -/
structure FrameAt (start : Nat) : Prop where
  sending : ∀ ws, (transmitter f inp start).Sending ws 0 0
  word : (transmitter f inp start).fifo.visible ≠ []

variable {f inp}

theorem fetchSlot_of_fetches {q : Nat} (h : Arinc708Tx.Fetches q) :
    fetchSlot ((q - 3) / 32) = q := by
  unfold Arinc708Tx.Fetches at h
  unfold fetchSlot
  split <;> omega

theorem fetchSlot_lt {j k : Nat} (h : j < k) : fetchSlot j + 32 ≤ fetchSlot k := by
  unfold fetchSlot
  split <;> split <;> omega

theorem fetchSlot_lt_of_lt {k : Nat} (h : k < 50) : fetchSlot k < 1600 := by
  unfold fetchSlot
  split <;> omega

theorem FrameAt.run (hen : ∀ n, (inp n).txconfig.getLsbD 0 = true) {start : Nat}
    (h : FrameAt f inp start) {y : Nat} (hy : y < 62 * 1607) :
    (transmitter f inp (start + y)).Sending (askedWord f inp start) (y / 62) (y % 62) := by
  induction y with
  | zero => exact h.sending _
  | succ y ih =>
      have hnow := ih (by omega)
      change ((transmitter f inp (start + y)).step inputFrequency (inp (start + y))).Sending _ _ _
      by_cases hslot : y % 62 = 61
      · rw [hslot] at hnow
        rw [show (y + 1) / 62 = y / 62 + 1 by omega, show (y + 1) % 62 = 0 by omega]
        exact hnow.next_slot (by omega) (hen _)
      · rw [show (y + 1) / 62 = y / 62 by omega, show (y + 1) % 62 = y % 62 + 1 by omega]
        refine hnow.next (by omega) (by omega) (hen _) fun hf hzero => ?_
        rw [askedWord, fetchSlot_of_fetches hf, show 62 * (y / 62) = y by omega]

theorem waits_after (hen : ∀ n, (inp n).txconfig.getLsbD 0 = true) {m : Nat} {ws : Nat → Word}
    (h : (transmitter f inp m).Sending ws 1606 61) {k : Nat} (hk : k < 62) :
    (transmitter f inp (m + 1 + k)).Waiting k := by
  induction k with
  | zero => exact h.next_waiting (hen m)
  | succ k ih => exact (ih (by omega)).next (by omega) (hen _)

theorem FrameAt.after (hen : ∀ n, (inp n).txconfig.getLsbD 0 = true) {start : Nat}
    (h : FrameAt f inp start) {k : Nat} (hk : k < 62) :
    (transmitter f inp (start + 62 * 1607 + k)).Waiting k := by
  have hlast := h.run hen (y := 62 * 1607 - 1) (by omega)
  rw [show start + 62 * 1607 = start + (62 * 1607 - 1) + 1 by omega]
  exact waits_after hen hlast hk

/-- From its second cycle on the transmitter waits or sends. -/
theorem waits_or_sends (hen : ∀ n, (inp n).txconfig.getLsbD 0 = true) (n : Nat) :
    (∃ φ < 62, (transmitter f inp (n + 2)).Waiting φ) ∨
      ∃ start ≤ n + 2, n + 2 < start + 62 * 1607 ∧ FrameAt f inp start := by
  induction n with
  | zero =>
      left
      exact ⟨31, by omega, .boot f (hen 0) (hen 1)⟩
  | succ n ih =>
      change (∃ φ < 62,
        ((transmitter f inp (n + 2)).step inputFrequency (inp (n + 2))).Waiting φ) ∨ _
      rcases ih with ⟨φ, hφ, hwait⟩ | ⟨start, hle, hlt, hframe⟩
      · by_cases hslot : φ = 61
        · subst hslot
          rcases hwait.next_slot (hen _) with hnext | ⟨hsend, hword⟩
          · exact Or.inl ⟨0, by omega, hnext⟩
          · exact Or.inr ⟨n + 3, by omega, by omega, hsend, hword⟩
        · exact Or.inl ⟨φ + 1, by omega, hwait.next (by omega) (hen _)⟩
      · by_cases hlast : n + 3 < start + 62 * 1607
        · exact Or.inr ⟨start, by omega, hlast, hframe⟩
        · have hafter := hframe.after hen (k := 0) (by omega)
          rw [show start + 62 * 1607 + 0 = n + 3 by omega] at hafter
          exact Or.inl ⟨0, by omega, hafter⟩

theorem starts_iff (hen : ∀ n, (inp n).txconfig.getLsbD 0 = true) (n : Nat) :
    (transmitter f inp n).Starts ↔ FrameAt f inp n := by
  constructor
  · intro hstart
    rcases n with _ | _ | n
    · cases hstart.2
    · have hready := hstart.2
      change ((Arinc708Tx.reset false).step inputFrequency
        ((TxController.reset f).port (inp 0))).sinkTxReadyPe = true at hready
      cases hready
    · rcases waits_or_sends (f := f) hen n with ⟨φ, _, hwait⟩ | ⟨start, hle, hlt, hframe⟩
      · exact absurd hstart hwait.not_starts
      · have hnow := hframe.run hen (y := n + 2 - start) (by omega)
        rw [show start + (n + 2 - start) = n + 2 by omega] at hnow
        have hfirst := hnow.starts_iff.mp hstart
        obtain rfl : start = n + 2 := by omega
        exact hframe
  · intro h
    exact (h.sending fun _ => 0).starts_iff.mpr ⟨rfl, rfl⟩

theorem transmitter_fifo (n : Nat) : (transmitter f inp (n + 1)).fifo =
    (transmitter f inp n).fifo.step (inp n).buferData (inp n).buferWr (transmitter f inp n).reads
      (inp n).fifoDelay := rfl

theorem waits_on (hen : ∀ n, (inp n).txconfig.getLsbD 0 = true) {n φ m : Nat} (hφ : φ < 62)
    (hwait : (transmitter f inp n).Waiting φ) (hnone : ∀ k < m, ¬ FrameAt f inp (n + k + 1)) :
    (transmitter f inp (n + m)).Waiting ((φ + m) % 62) := by
  induction m with
  | zero => rwa [Nat.add_zero, Nat.add_zero, Nat.mod_eq_of_lt hφ]
  | succ m ih =>
      have hnow := ih fun k hk => hnone k (by omega)
      change ((transmitter f inp (n + m)).step inputFrequency (inp (n + m))).Waiting _
      by_cases hslot : (φ + m) % 62 = 61
      · rw [hslot] at hnow
        rw [show (φ + (m + 1)) % 62 = 0 by omega]
        exact (hnow.next_slot (hen _)).resolve_right fun hsend =>
          hnone m (by omega) ⟨hsend.1, hsend.2⟩
      · rw [show (φ + (m + 1)) % 62 = (φ + m) % 62 + 1 by omega]
        exact hnow.next (by omega) (hen _)

theorem fifoWrSig_eq (hen : ∀ n, (inp n).txconfig.getLsbD 0 = true) (n : Nat) :
    (transmitter f inp (n + 3)).fifoWrSig = true := by
  have henable : ∀ m, (transmitter f inp (m + 1)).enable0 = true := fun m => hen m
  show ((transmitter f inp (n + 2)).enable0 && (transmitter f inp (n + 1)).enable0) = true
  rw [henable, henable]
  rfl

/-- A word that waits in the FIFO is sent, at most 1000 cycles for its way through the FIFO, four
for the strobe and a bit time later. -/
theorem next_frame (hen : ∀ n, (inp n).txconfig.getLsbD 0 = true)
    (harrive : ∀ n, ∃ k < 1000, 0 < (inp (n + k)).fifoDelay.arrive)
    (hbusy : ∀ n, busy (inp n) = false) {n φ : Nat} (hφ : φ < 62)
    (hwait : (transmitter f inp (n + 3)).Waiting φ)
    (hword : (transmitter f inp (n + 3)).fifo.words ≠ []) :
    ∃ k < 1066, FrameAt f inp (n + 3 + k + 1) := by
  by_contra hnot
  have hnone : ∀ k < 1066, ¬ FrameAt f inp (n + 3 + k + 1) := fun k hk hframe =>
    hnot ⟨k, hk, hframe⟩
  have hwaits : ∀ m ≤ 1066, (transmitter f inp (n + 3 + m)).Waiting ((φ + m) % 62) :=
    fun m hm => waits_on hen hφ hwait fun k hk => hnone k (by omega)
  have hvisible : (transmitter f inp (n + 3 + 1000)).fifo.visible ≠ [] :=
    DcFifo.visible_waiting (fun n => (transmitter f inp n).fifo) transmitter_fifo
      (fun k hk => (hwaits k (by omega)).reads_eq) hword (Or.inr (harrive _))
  have hwrEn : (transmitter f inp (n + 3 + 1003)).wrEnSig1 = true :=
    (hwaits 1000 (by omega)).wrEn_next (hbusy _) (fifoWrSig_eq hen (n + 1000)) hvisible
  have hstrobe : ∀ j ≤ 61, (transmitter f inp (n + 3 + 1004 + j)).tx.sinkTxValidDel = true := by
    intro j hj
    induction j with
    | zero => exact (hwaits 1003 (by omega)).strobe_next (hen _) (by rw [hwrEn, Bool.true_or])
    | succ j ih =>
        have hnow := hwaits (1004 + j) (by omega)
        rw [← Nat.add_assoc (n + 3)] at hnow
        exact hnow.strobe_next (hen _) (by rw [ih (by omega), Bool.or_true])
  obtain ⟨j, hj, hphase⟩ : ∃ j ≤ 61, (φ + (1004 + j)) % 62 = 61 :=
    ⟨61 - (φ + 1004) % 62, by omega, by omega⟩
  have hlast := hwaits (1004 + j) (by omega)
  rw [hphase, ← Nat.add_assoc (n + 3)] at hlast
  have hsend := hlast.sends (hen (n + 3 + 1004 + j)) (hstrobe j hj)
  refine hnone (1004 + j) (by omega) ?_
  rw [← Nat.add_assoc (n + 3)]
  exact ⟨hsend.1, hsend.2⟩

/-- One bit time is between two frames, and another one before the next is sent. -/
theorem FrameAt.apart (hen : ∀ n, (inp n).txconfig.getLsbD 0 = true) {start start' : Nat}
    (h : FrameAt f inp start) (h' : FrameAt f inp start') (hlt : start < start') :
    start + 62 * 1608 ≤ start' := by
  by_cases hin : start' < start + 62 * 1607
  · have hnow := h.run hen (y := start' - start) (by omega)
    rw [show start + (start' - start) = start' by omega] at hnow
    have hzero := hnow.starts_iff.mp ((starts_iff hen start').mpr h')
    omega
  · by_cases hrest : start' < start + 62 * 1608
    · have hwait := h.after hen (k := start' - (start + 62 * 1607)) (by omega)
      rw [show start + 62 * 1607 + (start' - (start + 62 * 1607)) = start' by omega] at hwait
      exact absurd ((starts_iff hen start').mpr h') hwait.not_starts
    · omega

/-! ### The line -/

/-- The line in a frame, which begins one bit time after its first word is asked for. -/
theorem FrameAt.line (hen : ∀ n, (inp n).txconfig.getLsbD 0 = true) {start : Nat}
    (h : FrameAt f inp start) {x : Nat} (hx : x < frameLength) :
    (transmitter f inp (start + 62 + x)).tx.line = frameLine (askedWord f inp start) x := by
  unfold frameLength at hx
  have hnow := h.run hen (y := 62 + x) (by omega)
  rw [show (62 + x) / 62 = x / 62 + 1 by omega, show (62 + x) % 62 = x % 62 by omega,
    ← Nat.add_assoc] at hnow
  rw [hnow.frame.line_eq (by omega), Nat.div_add_mod]

theorem line_null (hen : ∀ n, (inp n).txconfig.getLsbD 0 = true) {n : Nat}
    (hout : ∀ start, FrameAt f inp start → n < start + 62 ∨ start + 62 + frameLength ≤ n) :
    (transmitter f inp n).tx.line = .null := by
  unfold frameLength at hout
  rcases n with _ | _ | n
  · rfl
  · rfl
  · rcases waits_or_sends (f := f) hen n with ⟨φ, _, hwait⟩ | ⟨start, hle, hlt, hframe⟩
    · exact hwait.rest.line_eq
    · have hnow := hframe.run hen (y := n + 2 - start) (by omega)
      rw [show start + (n + 2 - start) = n + 2 by omega] at hnow
      have hbefore := hout start hframe
      exact hnow.frame.line_null (by omega)

/-! ### The words -/

theorem FrameAt.pop (hen : ∀ n, (inp n).txconfig.getLsbD 0 = true) {start n k : Nat}
    (h : FrameAt f inp start) (hk : k < 50) (hn : n = start + 62 * fetchSlot k)
    (hvisible : (transmitter f inp n).fifo.visible ≠ []) :
    ∃ later, (transmitter f inp (n + 2)).fifo.words =
      (transmitter f inp n).fifo.words.tail ++ later := by
  have hslot : fetchSlot k < 1600 ∧ Arinc708Tx.Fetches (fetchSlot k) := by
    unfold fetchSlot Arinc708Tx.Fetches
    split <;> omega
  have hfirst := (h.run hen (y := 62 * fetchSlot k) (by omega)).reads_eq
  have hsecond := (h.run hen (y := 62 * fetchSlot k + 1) (by omega)).reads_eq
  rw [← hn, decide_eq_false (by omega)] at hfirst
  rw [← Nat.add_assoc, ← hn, show (62 * fetchSlot k + 1) / 62 = fetchSlot k by omega,
    decide_eq_true ⟨hslot.2, by omega⟩] at hsecond
  have hidle : (transmitter f inp n).fifo.takes (transmitter f inp n).reads = false := by
    simp [DcFifo.takes, hfirst]
  have hshown : (transmitter f inp (n + 1)).fifo.visible ≠ [] := by
    rw [transmitter_fifo, DcFifo.step_visible_of_not_takes hidle]
    exact List.append_ne_nil_of_left_ne_nil hvisible _
  have hne : (transmitter f inp n).fifo.words ≠ [] := List.append_ne_nil_of_left_ne_nil hvisible _
  rw [transmitter_fifo (n + 1), hsecond, DcFifo.step_words_of_read hshown, transmitter_fifo n,
    DcFifo.step_words_of_not_takes hidle, List.tail_append_of_ne_nil hne, List.append_assoc]
  exact ⟨_, rfl⟩

theorem FrameAt.quiet (hen : ∀ n, (inp n).txconfig.getLsbD 0 = true) {start y : Nat}
    (h : FrameAt f inp start) (hy : y < 62 * 1607)
    (hquiet : ∀ k < 50, y ≠ 62 * fetchSlot k + 1) :
    (transmitter f inp (start + y)).reads = false := by
  rw [(h.run hen hy).reads_eq, decide_eq_false_iff_not]
  intro ⟨hf, hone⟩
  have hslot := fetchSlot_of_fetches hf
  unfold Arinc708Tx.Fetches at hf
  refine hquiet ((y / 62 - 3) / 32) (by omega) ?_
  rw [hslot]
  omega

theorem drop_tail_append {l later : List Word} {k : Nat} (hk : k < l.length) :
    (l.drop k ++ later).tail = l.drop (k + 1) ++ later := by
  rw [List.drop_eq_getElem_cons hk, List.cons_append, List.tail_cons]

/-- The words of the FIFO when word `k` is asked for: the words of the frame from `k` on
are its oldest, and the first of them is at the output. -/
theorem FrameAt.fetch (hen : ∀ n, (inp n).txconfig.getLsbD 0 = true)
    (harrive : ∀ n, ∃ k < 1000, 0 < (inp (n + k)).fifoDelay.arrive) {start : Nat}
    (h : FrameAt f inp start) (hfull : 50 ≤ (transmitter f inp start).fifo.words.length)
    {k : Nat} (hk : k < 50) :
    (transmitter f inp (start + 62 * fetchSlot k)).fifo.visible ≠ [] ∧
      ∃ later, (transmitter f inp (start + 62 * fetchSlot k)).fifo.words =
        (transmitter f inp start).fifo.words.drop k ++ later := by
  induction k with
  | zero => exact ⟨h.word, [], by rw [List.drop_zero, List.append_nil]; rfl⟩
  | succ k ih =>
      obtain ⟨hvisible, later, hwords⟩ := ih (by omega)
      obtain ⟨more, hpop⟩ := h.pop hen (by omega) rfl hvisible
      rw [hwords, drop_tail_append (by omega), List.append_assoc] at hpop
      -- from there nothing is read until the next request
      have hgap : fetchSlot k + 32 ≤ fetchSlot (k + 1) := fetchSlot_lt (by omega)
      have hlast : fetchSlot (k + 1) < 1600 := fetchSlot_lt_of_lt hk
      have hnone : ∀ m < 62 * fetchSlot (k + 1) - 62 * fetchSlot k - 2,
          (transmitter f inp (start + 62 * fetchSlot k + 2 + m)).reads = false := by
        intro m hm
        rw [Nat.add_assoc, Nat.add_assoc]
        refine h.quiet hen (by omega) fun j hj heq => ?_
        rcases Nat.lt_trichotomy j k with hlt | rfl | hgt
        · have hbefore := fetchSlot_lt hlt
          omega
        · omega
        · rcases Nat.lt_or_eq_of_le (show k + 1 ≤ j from hgt) with hlt | rfl
          · have hafter := fetchSlot_lt hlt
            omega
          · omega
      have hnext : start + 62 * fetchSlot k + 2 + (62 * fetchSlot (k + 1) - 62 * fetchSlot k - 2) =
          start + 62 * fetchSlot (k + 1) := by omega
      have hne : (transmitter f inp (start + 62 * fetchSlot k + 2)).fifo.words ≠ [] := by
        rw [hpop]
        apply List.append_ne_nil_of_left_ne_nil
        rw [Ne, List.drop_eq_nil_iff]
        omega
      obtain ⟨m, hm, hpos⟩ := harrive (start + 62 * fetchSlot k + 2)
      have hshown := DcFifo.visible_waiting (fun n => (transmitter f inp n).fifo)
        transmitter_fifo hnone hne (Or.inr ⟨m, by omega, hpos⟩)
      obtain ⟨new, hwaiting⟩ := DcFifo.words_waiting (fun n => (transmitter f inp n).fifo)
        transmitter_fifo hnone
      rw [hnext] at hshown hwaiting
      exact ⟨hshown, later ++ more ++ new, by rw [hwaiting, hpop]; simp⟩

/-- The words of a frame are the oldest fifty of the FIFO. -/
theorem FrameAt.asked (hen : ∀ n, (inp n).txconfig.getLsbD 0 = true)
    (harrive : ∀ n, ∃ k < 1000, 0 < (inp (n + k)).fifoDelay.arrive) {start : Nat}
    (h : FrameAt f inp start) (hfull : 50 ≤ (transmitter f inp start).fifo.words.length)
    {k : Nat} (hk : k < 50) :
    (transmitter f inp start).fifo.words[k]? = some (askedWord f inp start k) := by
  obtain ⟨hvisible, later, hwords⟩ := h.fetch hen harrive hfull hk
  rw [DcFifo.words_of_visible hvisible, List.drop_eq_getElem_cons (by omega),
    List.cons_append] at hwords
  rw [List.getElem?_eq_getElem (by omega), ← (List.cons.inj hwords).1]
  rfl

theorem FrameAt.removed (hen : ∀ n, (inp n).txconfig.getLsbD 0 = true)
    (harrive : ∀ n, ∃ k < 1000, 0 < (inp (n + k)).fifoDelay.arrive) {start : Nat}
    (h : FrameAt f inp start) (hfull : 50 ≤ (transmitter f inp start).fifo.words.length) :
    ∃ later, (transmitter f inp (start + 62 + frameLength)).fifo.words =
      (transmitter f inp start).fifo.words.drop 50 ++ later := by
  obtain ⟨hvisible, later, hwords⟩ := h.fetch hen harrive hfull (k := 49) (by omega)
  obtain ⟨more, hpop⟩ := h.pop hen (k := 49) (by omega) rfl hvisible
  rw [hwords, drop_tail_append (by omega), List.append_assoc] at hpop
  have hslot : fetchSlot 49 = 1571 := rfl
  have hnone : ∀ m < 62 * 1607 - 62 * 1571 - 2,
      (transmitter f inp (start + 62 * fetchSlot 49 + 2 + m)).reads = false := by
    intro m hm
    rw [Nat.add_assoc, Nat.add_assoc]
    refine h.quiet hen (by omega) fun j hj heq => ?_
    rcases Nat.lt_or_eq_of_le (show j ≤ 49 by omega) with hlt | rfl
    · have hbefore := fetchSlot_lt hlt
      omega
    · omega
  obtain ⟨new, hwaiting⟩ := DcFifo.words_waiting (fun n => (transmitter f inp n).fifo)
    transmitter_fifo hnone
  refine ⟨later ++ more ++ new, ?_⟩
  rw [hpop] at hwaiting
  unfold frameLength
  rw [show start + 62 + 62 * 1606 =
    start + 62 * fetchSlot 49 + 2 + (62 * 1607 - 62 * 1571 - 2) by omega, hwaiting]
  simp

end Run

end Mfi.Arinc708
