import Mfi.Arinc708.RoundTrip
import Mfi.Arinc708.RxBuffer
import Mfi.Arinc708.RxErrors

/-!
# An ARINC 708 link

The line of a transmitter goes to a receive channel. The words that the host of the transmitter
writes into its FIFO come out of the receive buffer in the same order, once each: at any time
those read so far and those still unread are the first of those written, and between two frames
only the words still in the FIFO are missing.
-/

namespace Mfi.Arinc708

open Core Arinc708Rx

/-! ## Out of the FIFO -/

section Sent

variable (f : DcFifo) (inp : Nat → TxInput)

/-- The word that the FIFO of the transmitter stores in a cycle. -/
def acceptedWord (n : Nat) : Option Word :=
  (transmitter f inp n).fifo.accepts (inp n).buferData (inp n).buferWr

def takenWord (n : Nat) : Option Word :=
  (transmitter f inp n).fifo.hands (transmitter f inp n).reads

def receivedWord (n : Nat) : Option Word :=
  if (receiver f inp n).srcRxValid then some (receiver f inp n).astWrd else none

/-- The cycles in which a word of a frame is taken and delivered. -/
def Carried (m n : Nat) : Prop :=
  ∃ start, SendingStarts f inp start ∧
    ∃ k < 50, m = start + 62 * fetchSlot k + 1 ∧ n = start + 62 + wordAt k

variable {f inp}

theorem words_of_fifo (n : Nat) : f.words ++ events (acceptedWord f inp) n =
    events (takenWord f inp) n ++ (transmitter f inp n).fifo.words :=
  DcFifo.words_conserved (fun n => (transmitter f inp n).fifo) transmitter_fifo n

theorem fetches_fetchSlot {k : Nat} (hk : k < 50) : Arinc708Tx.Fetches (fetchSlot k) := by
  unfold Arinc708Tx.Fetches fetchSlot
  split <;> omega

/-- A frame of fifty words takes them out of the FIFO one after the other. -/
theorem FrameAt.taken (hen : ∀ n, (inp n).txconfig.getLsbD 0 = true)
    (harrive : ∀ n, ∃ k < 1000, 0 < (inp (n + k)).fifoDelay.arrive) {start k : Nat}
    (h : FrameAt f inp start) (hfull : 50 ≤ (transmitter f inp start).fifo.words.length)
    (hk : k < 50) :
    takenWord f inp (start + 62 * fetchSlot k + 1) = some (askedWord f inp start k) := by
  have hslot := fetchSlot_lt_of_lt hk
  have hask := h.quiet hen (y := 62 * fetchSlot k) (by omega) fun j _ => by omega
  have hread := (h.run hen (y := 62 * fetchSlot k + 1) (by omega)).reads_eq
  rw [show (62 * fetchSlot k + 1) / 62 = fetchSlot k by omega,
    decide_eq_true ⟨fetches_fetchSlot hk, by omega⟩, ← Nat.add_assoc] at hread
  obtain ⟨hvisible, _⟩ := h.fetch hen harrive hfull hk
  -- the word at the output stays there until it is taken
  have hstays : (transmitter f inp (start + 62 * fetchSlot k + 1)).fifo.visible =
      (transmitter f inp (start + 62 * fetchSlot k)).fifo.visible ++
        (transmitter f inp (start + 62 * fetchSlot k)).fifo.crossing.take
          (inp (start + 62 * fetchSlot k)).fifoDelay.arrive := by
    rw [transmitter_fifo]
    exact DcFifo.step_visible_of_not_takes (by simp [DcFifo.takes, hask])
  obtain ⟨w, rest, hw⟩ := List.exists_cons_of_ne_nil hvisible
  have hword : askedWord f inp start k = w := by
    unfold askedWord TxController.qSig
    rw [hw]
    rfl
  rw [hw, List.cons_append] at hstays
  rw [hword]
  unfold takenWord DcFifo.hands DcFifo.takes DcFifo.empty
  rw [hread, hstays]
  rfl

theorem taken_in_frame (hen : ∀ n, (inp n).txconfig.getLsbD 0 = true) {n : Nat}
    (hn : takenWord f inp n ≠ none) :
    ∃ start, SendingStarts f inp start ∧ ∃ k < 50, n = start + 62 * fetchSlot k + 1 := by
  have hreads : (transmitter f inp n).reads = true := by
    cases hr : (transmitter f inp n).reads with
    | true => rfl
    | false =>
        refine absurd ?_ hn
        unfold takenWord DcFifo.hands DcFifo.takes
        rw [hr]
        rfl
  rcases n with _ | _ | n
  · cases hreads
  · cases hreads
  · rcases waits_or_sends (f := f) hen n with ⟨φ, _, hwait⟩ | ⟨start, hle, hlt, hframe⟩
    · rw [hwait.reads_eq] at hreads
      cases hreads
    · refine ⟨start, (starts_iff hen start).mpr hframe, ?_⟩
      by_contra hnone
      have hquiet := hframe.quiet hen (y := n + 2 - start) (by omega) fun k hk heq =>
        hnone ⟨k, hk, by omega⟩
      rw [show start + (n + 2 - start) = n + 2 by omega, hreads] at hquiet
      cases hquiet

theorem Feeds.taken (h : Feeds f inp) {start k : Nat} (hstart : SendingStarts f inp start)
    (hk : k < 50) :
    takenWord f inp (start + 62 * fetchSlot k + 1) = some (frameWords f inp start k) := by
  rw [h.frameWords_eq hstart hk]
  exact (h.frameAt hstart).taken h.enabled h.arrives (h.full start hstart) hk

/-! ## Over the line -/

theorem Feeds.delivered (h : Feeds f inp) {start k : Nat} (hstart : SendingStarts f inp start)
    (hk : k < 50) :
    receivedWord f inp (start + 62 + wordAt k) = some (frameWords f inp start k) := by
  have hvalid := (h.valid_iff (start + 62 + wordAt k)).mpr ⟨start, hstart, k, hk, rfl⟩
  rw [receivedWord, hvalid, if_pos rfl, h.word_at hstart hk rfl]

theorem Feeds.carried_lt (h : Feeds f inp) {start start' k k' : Nat}
    (hstart : SendingStarts f inp start) (hstart' : SendingStarts f inp start') (hk : k < 50)
    (hk' : k' < 50) (hlt : start < start' ∨ start = start' ∧ k < k') :
    start + 62 * fetchSlot k + 1 < start' + 62 * fetchSlot k' + 1 ∧
      start + 62 + wordAt k < start' + 62 + wordAt k' := by
  have hslot := fetchSlot_lt_of_lt hk
  unfold wordAt fixAt
  rcases hlt with hlt | ⟨rfl, hlt⟩
  · have hgap := h.apart hstart hstart' hlt
    unfold frameLength at hgap
    omega
  · have hslots := fetchSlot_lt hlt
    omega

/-- The receiver repeats what the transmitter takes out of its FIFO. -/
theorem Feeds.relays (h : Feeds f inp) :
    Relays (Carried f inp) (takenWord f inp) (receivedWord f inp) where
  later := by
    rintro m n ⟨start, hstart, k, hk, rfl, rfl⟩
    unfold fetchSlot wordAt fixAt
    split <;> omega
  ordered := by
    rintro m n m' n' ⟨start, hstart, k, hk, rfl, rfl⟩ ⟨start', hstart', k', hk', rfl, rfl⟩
    rcases Nat.lt_trichotomy start start' with hlt | rfl | hgt
    · have hboth := h.carried_lt hstart hstart' hk hk' (.inl hlt)
      exact ⟨fun _ => hboth.2, fun _ => hboth.1⟩
    · rcases Nat.lt_trichotomy k k' with hlt | rfl | hgt
      · have hboth := h.carried_lt hstart hstart' hk hk' (.inr ⟨rfl, hlt⟩)
        exact ⟨fun _ => hboth.2, fun _ => hboth.1⟩
      · exact ⟨fun hlt => absurd hlt (Nat.lt_irrefl _), fun hlt => absurd hlt (Nat.lt_irrefl _)⟩
      · have hboth := h.carried_lt hstart' hstart hk' hk (.inr ⟨rfl, hgt⟩)
        omega
    · have hboth := h.carried_lt hstart' hstart hk' hk (.inl hgt)
      omega
  same := by
    rintro m n ⟨start, hstart, k, hk, rfl, rfl⟩
    exact ⟨_, h.taken hstart hk, h.delivered hstart hk⟩
  sent := by
    intro m hm
    obtain ⟨start, hstart, k, hk, rfl⟩ := taken_in_frame h.enabled hm
    exact ⟨_, start, hstart, k, hk, rfl, rfl⟩
  came := by
    intro n hn
    have hvalid : (receiver f inp n).srcRxValid = true := by
      cases hv : (receiver f inp n).srcRxValid with
      | true => rfl
      | false =>
          refine absurd ?_ hn
          rw [receivedWord, hv]
          rfl
    obtain ⟨start, hstart, k, hk, rfl⟩ := (h.valid_iff n).mp hvalid
    exact ⟨_, start, hstart, k, hk, rfl, rfl⟩

end Sent

/-! ## Into the buffer -/

section Buffer

variable (ch : Nat → ChannelInput) (buffer : Nat → Word)

def controllerInput (n : Nat) : RxInput := (channel ch buffer n).input inputFrequency (ch n)

/-- The words of the buffer that the host has not read. -/
def unread (n : Nat) : List Word :=
  (stored (.reset buffer) (controllerInput ch buffer) n).map Prod.snd

def readWord (n : Nat) : Option Word :=
  if (channel ch buffer n).controller.serves then (unread ch buffer n).head? else none

def storedWord (n : Nat) : Option Word :=
  if (channel ch buffer n).controller.takes (controllerInput ch buffer n) then
    some (controllerInput ch buffer n).port.arincDataOut
  else none

def KeepsUp : Prop :=
  ∀ n, (channel ch buffer n).controller.takes (controllerInput ch buffer n) = true →
    (channel ch buffer n).controller.diff ≠ 512

theorem channel_controller (n : Nat) : (channel ch buffer n).controller =
    trace RxController.step (.reset buffer) (controllerInput ch buffer) n := by
  induction n with
  | zero => rfl
  | succ n ih =>
      rw [trace_succ, ← ih]
      rfl

variable {ch}

theorem controllerInput_enabled {n : Nat} (hen : EnabledAt ch n) :
    enabled (controllerInput ch buffer n) = true := by
  change ((ch n).rxconfig.getLsbD 0 && !(ch n).rxconfig.getLsbD 1) = true at hen
  rw [Bool.and_eq_true] at hen
  exact hen.1

theorem step_diff_le (c : RxController) (i : RxInput) :
    (c.step i).diff ≤ c.diff + (c.takes i).toNat := by
  unfold RxController.step
  cases c.takes i with
  | true =>
      simp only [if_true, Bool.toNat_true]
      split <;> omega
  | false =>
      simp only [Bool.false_eq_true, if_false, Bool.toNat_false]
      split
      · omega
      · split <;> omega

theorem diff_le_stored (n : Nat) :
    (channel ch buffer n).controller.diff ≤ (events (storedWord ch buffer) n).length := by
  induction n with
  | zero => exact Nat.le_refl 0
  | succ n ih =>
      have hstep : (channel ch buffer (n + 1)).controller.diff ≤
          (channel ch buffer n).controller.diff +
            ((channel ch buffer n).controller.takes (controllerInput ch buffer n)).toNat :=
        step_diff_le _ _
      have hword : (storedWord ch buffer n).toList.length =
          ((channel ch buffer n).controller.takes (controllerInput ch buffer n)).toNat := by
        unfold storedWord
        cases (channel ch buffer n).controller.takes (controllerInput ch buffer n) <;> rfl
      rw [events_succ, List.length_append, hword]
      omega

theorem queue_of_channel (hen : ∀ n, EnabledAt ch n) (hok : KeepsUp ch buffer) (n : Nat) :
    QueueInv (controllerInput ch buffer n) (channel ch buffer n).controller
      (stored (.reset buffer) (controllerInput ch buffer) n) := by
  rw [channel_controller]
  refine queue_run buffer (fun k => controllerInput_enabled buffer (hen k))
    (receiver_port buffer hen) (fun k => ?_) n
  rw [← channel_controller]
  exact hok k

theorem unread_succ (hen : ∀ n, EnabledAt ch n) (hok : KeepsUp ch buffer) (n : Nat) :
    unread ch buffer n ++ (storedWord ch buffer n).toList =
      (readWord ch buffer n).toList ++ unread ch buffer (n + 1) := by
  have hinv := queue_of_channel buffer hen hok n
  have hnext : unread ch buffer (n + 1) =
      (if (channel ch buffer n).controller.takes (controllerInput ch buffer n) then
        offer 512 (stored (.reset buffer) (controllerInput ch buffer) n)
          (((channel ch buffer n).controller.readedAddr +
            (channel ch buffer n).controller.diff) % 512,
            (controllerInput ch buffer n).port.arincDataOut)
      else if (channel ch buffer n).controller.serves then
        (stored (.reset buffer) (controllerInput ch buffer) n).tail
      else stored (.reset buffer) (controllerInput ch buffer) n).map Prod.snd := by
    rw [channel_controller]
    rfl
  rw [hnext]
  unfold storedWord readWord unread
  cases ht : (channel ch buffer n).controller.takes (controllerInput ch buffer n) with
  | true =>
      have hfits := hinv.fits
      have hcount := hinv.count
      have hroom := hok n ht
      have hflag : (channel ch buffer n).controller.rxFlagSig = true := by
        simp only [RxController.takes, Bool.and_eq_true] at ht
        exact ht.1
      have hserves : (channel ch buffer n).controller.serves = false := by
        simp [RxController.serves, hflag]
      rw [hserves, if_pos rfl, if_pos rfl, offer_of_lt _ (by omega), List.map_append]
      rfl
  | false =>
      rw [if_neg Bool.false_ne_true, if_neg Bool.false_ne_true]
      cases (channel ch buffer n).controller.serves with
      | false => exact List.append_nil _
      | true =>
          rw [if_pos rfl, if_pos rfl]
          cases stored (.reset buffer) (controllerInput ch buffer) n with
          | nil => rfl
          | cons e rest => exact List.append_nil _

theorem words_of_buffer (hen : ∀ n, EnabledAt ch n) (hok : KeepsUp ch buffer) (n : Nat) :
    events (storedWord ch buffer) n = events (readWord ch buffer) n ++ unread ch buffer n := by
  induction n with
  | zero => rfl
  | succ n ih =>
      rw [events_succ, events_succ, ih, List.append_assoc, List.append_assoc,
        unread_succ buffer hen hok]

theorem readedAddr_eq (hen : ∀ n, EnabledAt ch n) (hok : KeepsUp ch buffer) (n : Nat) :
    (channel ch buffer n).controller.readedAddr =
      (events (readWord ch buffer) n).length % 512 := by
  induction n with
  | zero => rfl
  | succ n ih =>
      have hstep : (channel ch buffer (n + 1)).controller.readedAddr =
          if (channel ch buffer n).controller.serves &&
            decide ((channel ch buffer n).controller.diff ≠ 0) then
            ((channel ch buffer n).controller.readedAddr + 1) % 512
          else if enabled (controllerInput ch buffer n) then
            (channel ch buffer n).controller.readedAddr else 0 := rfl
      have hcount := (queue_of_channel buffer hen hok n).count
      rw [hstep, controllerInput_enabled buffer (hen n), if_pos rfl, ih, hcount, events_succ,
        List.length_append]
      unfold readWord unread
      cases (channel ch buffer n).controller.serves with
      | false => rfl
      | true =>
          cases stored (.reset buffer) (controllerInput ch buffer) n with
          | nil => rfl
          | cons e rest => simp

/-! ## From the one host to the other -/

section Joined

variable {f : DcFifo} {inp : Nat → TxInput}

theorem channel_on_link (hen : ∀ n, EnabledAt ch n) (hline : ∀ n, (ch n).line = link f inp n)
    (n : Nat) : (channel ch buffer n).receiver = receiver f inp n := by
  have hpins : (fun k => RxChannel.pins (ch k)) = fun k => ⟨true, link f inp k⟩ := by
    funext k
    have hk : ((ch k).rxconfig.getLsbD 0 && !(ch k).rxconfig.getLsbD 1) = true := hen k
    rw [RxChannel.pins, hk, hline]
  rw [channel_receiver, hpins]
  rfl

theorem Feeds.storedWord_succ (h : Feeds f inp) (hen : ∀ n, EnabledAt ch n)
    (hline : ∀ n, (ch n).line = link f inp n) (n : Nat) :
    storedWord ch buffer (n + 1) = receivedWord f inp n := by
  have hport := receiver_port buffer hen
  have hflag : (channel ch buffer (n + 1)).controller.rxFlagSig =
      (receiver f inp n).srcRxValid := by
    rw [channel_controller, flag_next buffer hport n, ← channel_on_link buffer hen hline]
    rfl
  have hgood : (controllerInput ch buffer (n + 1)).port.parErr = false := by
    change (channel ch buffer (n + 1)).receiver.rxErrPe = false
    rw [channel_on_link buffer hen hline]
    exact h.noError (n + 1)
  unfold storedWord receivedWord RxController.takes
  rw [hflag, hgood, Bool.not_false, Bool.and_true]
  cases hvalid : (receiver f inp n).srcRxValid with
  | false => rfl
  | true =>
      have hheld : (channel ch buffer (n + 1)).receiver.astWrd =
          (channel ch buffer n).receiver.astWrd := by
        refine hport.held n (hport.spaced n ?_).1
        change (channel ch buffer n).receiver.srcRxValid = true
        rw [channel_on_link buffer hen hline, hvalid]
      rw [if_pos rfl, if_pos rfl, ← channel_on_link buffer hen hline, ← hheld]
      rfl

theorem Feeds.stored_late (h : Feeds f inp) (hen : ∀ n, EnabledAt ch n)
    (hline : ∀ n, (ch n).line = link f inp n) (n : Nat) :
    events (storedWord ch buffer) (n + 1) = events (receivedWord f inp) n :=
  events_late rfl (h.storedWord_succ buffer hen hline) n

/-- What has been put into the buffer is the beginning of what was written into the FIFO. -/
theorem Feeds.stored_prefix (h : Feeds f inp) (hen : ∀ n, EnabledAt ch n)
    (hline : ∀ n, (ch n).line = link f inp n) (n : Nat) :
    events (storedWord ch buffer) n <+: f.words ++ events (acceptedWord f inp) n := by
  rw [words_of_fifo]
  refine List.IsPrefix.trans ?_ (List.prefix_append _ _)
  cases n with
  | zero => exact List.nil_prefix
  | succ n =>
      rw [h.stored_late buffer hen hline]
      exact (h.relays.prefix_of_sent n).trans (events_prefix_succ _ n)

theorem Feeds.all_stored (h : Feeds f inp) (hen : ∀ n, EnabledAt ch n)
    (hline : ∀ n, (ch n).line = link f inp n) {n : Nat}
    (hquiet : ∀ start, SendingStarts f inp start → n ≤ start ∨ start + 62 + receiveTime ≤ n) :
    events (storedWord ch buffer) n = events (takenWord f inp) n := by
  cases n with
  | zero => rfl
  | succ n =>
      rw [h.stored_late buffer hen hline]
      refine h.relays.events_eq ?_ fun k k' hR hk => ?_
      · rintro _ _ ⟨start, hstart, k, hk, rfl, rfl⟩ hbefore
        have hdone := hquiet start hstart
        unfold receiveTime fixAt at hdone
        unfold wordAt fixAt
        omega
      · have hlater := h.relays.later k k' hR
        omega

theorem unread_intact (hen : ∀ n, EnabledAt ch n) (hok : KeepsUp ch buffer) {n k : Nat} {w : Word}
    (hw : (unread ch buffer n)[k]? = some w) :
    (channel ch buffer (n + 1)).controller.ramBuf.ram
      (((channel ch buffer n).controller.readedAddr + k) % 512) = w := by
  rw [unread, List.getElem?_map, Option.map_eq_some_iff] at hw
  obtain ⟨e, he, rfl⟩ := hw
  obtain ⟨hk, rfl⟩ := List.getElem?_eq_some_iff.mp he
  have hcell := (queue_of_channel buffer hen hok n).holds k hk
  rw [slot_eq_mod, Nat.add_zero] at hcell
  rw [hcell]
  rfl

/-- The words written on one side are those read on the other, in their order. -/
structure Crosses (f : DcFifo) (inp : Nat → TxInput) (ch : Nat → ChannelInput)
    (buffer : Nat → Word) : Prop where
  order : ∀ n, events (readWord ch buffer) n ++ unread ch buffer n <+:
    f.words ++ events (acceptedWord f inp) n
  /-- While no frame is on its way all others are still in the FIFO. -/
  complete : ∀ n, (∀ start, SendingStarts f inp start →
      n ≤ start ∨ start + 62 + receiveTime ≤ n) →
    events (readWord ch buffer) n ++ unread ch buffer n ++ (transmitter f inp n).fifo.words =
      f.words ++ events (acceptedWord f inp) n
  /-- The unread words can be read from the memory. -/
  cells : ∀ n k w, (unread ch buffer n)[k]? = some w →
    (channel ch buffer (n + 1)).controller.ramBuf.ram
      (((channel ch buffer n).controller.readedAddr + k) % 512) = w

theorem words_cross (hen : ∀ n, (inp n).txconfig.getLsbD 0 = true)
    (harrive : ∀ n, ∃ k < 1000, 0 < (inp (n + k)).fifoDelay.arrive)
    (hfull : ∀ n, SendingStarts f inp n → 50 ≤ (transmitter f inp n).fifo.words.length)
    (hline : ∀ n, (ch n).line = link f inp n) (hrx : ∀ n, EnabledAt ch n)
    (hok : KeepsUp ch buffer) : Crosses f inp ch buffer := by
  have h : Feeds f inp := ⟨hen, harrive, hfull⟩
  refine ⟨fun n => ?_, fun n hquiet => ?_, fun n k w hw => unread_intact buffer hrx hok hw⟩
  · rw [← words_of_buffer buffer hrx hok]
    exact h.stored_prefix buffer hrx hline n
  · rw [← words_of_buffer buffer hrx hok, h.all_stored buffer hrx hline hquiet, words_of_fifo]

end Joined

end Buffer

/-! ## A host that reads in every cycle -/

def readingHost (n : Nat) : ChannelInput where
  rxconfig := 1#3
  irqClear := false
  buferData := 0
  buferAddr := 0
  buferRd := true
  line := link filledFifo steadyHost n

theorem readingHost_enabled (n : Nat) : EnabledAt readingHost n := by
  simp [EnabledAt, RxChannel.pins, readingHost]

/-- At most one word is unread, and it is read next. -/
def Prompt (c : RxController) : Prop :=
  c.diff = 0 ∨ c.diff = 1 ∧ c.rxFlagSig = false ∧ c.buferRdSig = true

theorem Prompt.step {c : RxController} {i : RxInput} (h : Prompt c) (hread : i.buferRd = true) :
    Prompt (c.step i) := by
  rcases h with hnone | ⟨hone, hflag, hrd⟩
  · cases ht : c.takes i with
    | false =>
        left
        simp [RxController.step, ht, hnone]
    | true =>
        have hflag : c.rxFlagSig = true := by
          simp only [RxController.takes, Bool.and_eq_true] at ht
          exact ht.1
        right
        simp [RxController.step, RxController.serves, ht, hnone, hflag, hread]
  · left
    simp [RxController.step, RxController.serves, RxController.takes, hone, hflag, hrd]

theorem readingHost_prompt (n : Nat) :
    Prompt (channel readingHost (fun _ => 0) n).controller := by
  induction n with
  | zero => exact .inl rfl
  | succ n ih => exact ih.step rfl

theorem words_cross_steady : Crosses filledFifo steadyHost readingHost fun _ => 0 := by
  refine words_cross _ (fun n => by simp [steadyHost]) (fun _ => ⟨0, by omega, Nat.one_pos⟩)
    (fun n _ => (steadyHost_full n).1) (fun _ => rfl) readingHost_enabled fun n _ => ?_
  rcases readingHost_prompt n with hnone | ⟨hone, _⟩
  · rw [hnone]
    decide
  · rw [hone]
    decide

end Mfi.Arinc708
