import Mfi.Arinc708.RxFrame
import Mfi.Arinc708.TxRun

/-!
# Frames from the FIFO to the receiver

A transmitter and a receiver, both enabled from reset on, are joined by a line. Every
time sending starts with fifty words in the FIFO, the line carries these words as one
frame, and the receiver delivers them; so it does for any number of frames.
-/

namespace Mfi.Arinc708

open Core Arinc708Rx

section Link

variable (f : DcFifo) (inp : Nat → TxInput)

def link (n : Nat) : Line := (transmitter f inp n).tx.line

def receiver : Nat → Arinc708Rx :=
  trace (Arinc708Rx.step inputFrequency) (.reset false) fun n => ⟨true, link f inp n⟩

/-- Sending starts in cycle `n`. -/
def SendingStarts (n : Nat) : Prop := (transmitter f inp n).Starts

def frameWords (start k : Nat) : Word := (transmitter f inp start).fifo.words.getD k 0

/-- The link carries the words of the FIFO: one frame for every start, which begins on the
line a bit time later, and null between the frames. -/
structure CarriesFrames : Prop where
  line : ∀ start, SendingStarts f inp start → ∀ x < frameLength,
    link f inp (start + 62 + x) = frameLine (frameWords f inp start) x
  null : ∀ n, (∀ start, SendingStarts f inp start →
    n < start + 62 ∨ start + 62 + frameLength ≤ n) → link f inp n = .null
  /-- At least two bit times are between two frames on the line. -/
  apart : ∀ start start', SendingStarts f inp start → SendingStarts f inp start' →
    start < start' → start + frameLength + 124 ≤ start'
  /-- The words of a frame are removed, and no other. -/
  removed : ∀ start, SendingStarts f inp start →
    ∃ later, (transmitter f inp (start + 62 + frameLength)).fifo.words =
      (transmitter f inp start).fifo.words.drop 50 ++ later
  /-- The receiver delivers fifty words for every frame, and nothing else. -/
  valid : ∀ n, (receiver f inp n).srcRxValid = true ↔
    ∃ start, SendingStarts f inp start ∧ ∃ k < 50, n = start + 62 + wordAt k
  word : ∀ start, SendingStarts f inp start → ∀ k < 50,
    (receiver f inp (start + 62 + wordAt k)).astWrd = frameWords f inp start k
  noError : ∀ n, (receiver f inp n).rxErrPe = false
  /-- It completes every frame once. -/
  compl : ∀ n, (receiver f inp n).rxComplPe inputFrequency (link f inp n) = true ↔
    ∃ start, SendingStarts f inp start ∧ n = start + 62 + complAt

variable {f inp}

/-! ## The receiver on the link -/

theorem receiver_succ (n : Nat) : receiver f inp (n + 2) =
    (receiver f inp (n + 1)).clkEdge inputFrequency (link f inp (n + 1)) := by
  have hrst : (receiver f inp (n + 1)).rstN = true := by
    change ((receiver f inp n).step inputFrequency ⟨true, link f inp n⟩).rstN = true
    unfold Arinc708Rx.step
    split <;> rfl
  change (receiver f inp (n + 1)).step inputFrequency ⟨true, link f inp (n + 1)⟩ = _
  unfold Arinc708Rx.step
  rw [hrst]
  rfl

theorem receiver_run (n m : Nat) : receiver f inp (n + 1 + m) =
    trace (clkEdge inputFrequency) (receiver f inp (n + 1))
      (fun k => link f inp (n + 1 + k)) m := by
  induction m with
  | zero => rfl
  | succ m ih =>
      rw [trace_succ, ← ih, show n + 1 + (m + 1) = n + m + 2 by omega, receiver_succ,
        show n + 1 + m = n + m + 1 by omega]

theorem frameLine_congr {ws ws' : Nat → Word} (h : ∀ k < 50, ws k = ws' k) (x : Nat) :
    frameLine ws x = frameLine ws' x := by
  unfold frameLine frameBit
  split
  · rfl
  · split
    · rfl
    · split
      · rw [h _ (by omega)]
      · rfl

/-- The transmitter is held enabled, a word in its FIFO becomes visible within 1000 cycles
when it is the oldest, and fifty words are there whenever sending starts. -/
structure Feeds (f : DcFifo) (inp : Nat → TxInput) : Prop where
  enabled : ∀ n, (inp n).txconfig.getLsbD 0 = true
  arrives : ∀ n, ∃ k < 1000, 0 < (inp (n + k)).fifoDelay.arrive
  full : ∀ n, SendingStarts f inp n → 50 ≤ (transmitter f inp n).fifo.words.length

variable {start k : Nat}

theorem Feeds.frameAt (h : Feeds f inp) (hstart : SendingStarts f inp start) :
    FrameAt f inp start :=
  (starts_iff h.enabled start).mp hstart

theorem Feeds.frameWords_eq (h : Feeds f inp) (hstart : SendingStarts f inp start) (hk : k < 50) :
    frameWords f inp start k = askedWord f inp start k := by
  have hword := (h.frameAt hstart).asked h.enabled h.arrives (h.full start hstart) hk
  rw [frameWords, List.getD_eq_getElem?_getD, hword]
  rfl

theorem Feeds.line (h : Feeds f inp) (hstart : SendingStarts f inp start) {x : Nat}
    (hx : x < frameLength) :
    link f inp (start + 62 + x) = frameLine (frameWords f inp start) x := by
  rw [frameLine_congr fun k hk => h.frameWords_eq hstart hk]
  exact (h.frameAt hstart).line h.enabled hx

theorem Feeds.null (h : Feeds f inp) {n : Nat} (hout : ∀ start, SendingStarts f inp start →
    n < start + 62 ∨ start + 62 + frameLength ≤ n) : link f inp n = .null :=
  line_null h.enabled fun start hframe => hout start ((starts_iff h.enabled start).mpr hframe)

theorem Feeds.apart (h : Feeds f inp) {start' : Nat} (hstart : SendingStarts f inp start)
    (hstart' : SendingStarts f inp start') (hlt : start < start') :
    start + frameLength + 124 ≤ start' := by
  have hgap := (h.frameAt hstart).apart h.enabled (h.frameAt hstart') hlt
  unfold frameLength
  omega

theorem Feeds.hasFrame (h : Feeds f inp) (hstart : SendingStarts f inp start) :
    HasFrame (frameWords f inp start) fun x => link f inp (start + 62 + x) := by
  intro x hx
  split
  · rename_i hin
    exact h.line hstart hin
  · apply h.null
    intro start' hstart'
    unfold receiveTime fixAt at hx
    rename_i hout
    unfold frameLength at hout ⊢
    rcases Nat.lt_trichotomy start start' with hlt | rfl | hgt
    · have hgap := h.apart hstart hstart' hlt
      unfold frameLength at hgap
      omega
    · omega
    · have hgap := h.apart hstart' hstart hgt
      unfold frameLength at hgap
      omega

theorem Feeds.received (h : Feeds f inp) (hstart : SendingStarts f inp start)
    (hidle : (receiver f inp (start + 62)).Idle) :
    Received (frameWords f inp start) (fun x => link f inp (start + 62 + x))
      (fun x => receiver f inp (start + 62 + x)) := by
  have hrun : (fun x => receiver f inp (start + 62 + x)) =
      trace (clkEdge inputFrequency) (receiver f inp (start + 62))
        fun x => link f inp (start + 62 + x) :=
    funext fun x => receiver_run (start + 61) x
  rw [hrun]
  exact Receives.received ⟨hidle, h.hasFrame hstart⟩

/-- The receiver waits whenever no frame is being received. -/
theorem Feeds.idle (h : Feeds f inp) (n : Nat) (hout : ∀ start, SendingStarts f inp start →
    n + 1 ≤ start + 62 ∨ start + 62 + receiveTime ≤ n + 1) : (receiver f inp (n + 1)).Idle := by
  induction n using Nat.strongRecOn with
  | ind n ih =>
      cases n with
      | zero => rfl
      | succ n =>
          by_cases hend : ∃ start, SendingStarts f inp start ∧ start + 62 + receiveTime = n + 2
          · obtain ⟨start, hstart, heq⟩ := hend
            have hbefore : (receiver f inp (start + 61 + 1)).Idle := by
              refine ih (start + 61) (by unfold receiveTime fixAt at heq; omega)
                fun start' hstart' => ?_
              rcases Nat.lt_or_ge start' start with hlt | hge
              · have hgap := h.apart hstart' hstart hlt
                unfold frameLength at hgap
                unfold receiveTime fixAt
                omega
              · omega
            have hdone := (h.received hstart hbefore).idle
            rwa [heq] at hdone
          · have hidle : (receiver f inp (n + 1)).Idle := by
              refine ih n (by omega) fun start hstart => ?_
              have hnot : start + 62 + receiveTime ≠ n + 2 := fun heq => hend ⟨start, hstart, heq⟩
              have hnow := hout start hstart
              omega
            have hnull : link f inp (n + 1) = .null := by
              apply h.null
              intro start hstart
              have hnow := hout start hstart
              unfold receiveTime fixAt at hnow
              unfold frameLength
              omega
            rw [receiver_succ, hnull]
            exact hidle.null

theorem Feeds.receives (h : Feeds f inp) (hstart : SendingStarts f inp start) :
    Received (frameWords f inp start) (fun x => link f inp (start + 62 + x))
      (fun x => receiver f inp (start + 62 + x)) := by
  refine h.received hstart (h.idle (start + 61) fun start' hstart' => ?_)
  rcases Nat.lt_or_ge start' start with hlt | hge
  · have hgap := h.apart hstart' hstart hlt
    unfold frameLength at hgap
    unfold receiveTime fixAt
    omega
  · omega

theorem Feeds.cycle_cases (h : Feeds f inp) (n : Nat) :
    (∃ start, SendingStarts f inp start ∧ ∃ x < receiveTime, n = start + 62 + x) ∨
      (receiver f inp n).strobes (link f inp n) = (false, false, false) ∧
        ∀ start, SendingStarts f inp start → n < start + 62 ∨ start + 62 + receiveTime ≤ n := by
  by_cases hin : ∃ start, SendingStarts f inp start ∧ start + 62 ≤ n ∧ n < start + 62 + receiveTime
  · obtain ⟨start, hstart, hlo, hhi⟩ := hin
    exact Or.inl ⟨start, hstart, n - start - 62, by omega, by omega⟩
  · have hout : ∀ start, SendingStarts f inp start →
        n < start + 62 ∨ start + 62 + receiveTime ≤ n := by
      intro start hstart
      by_contra hboth
      exact hin ⟨start, hstart, by omega, by omega⟩
    refine Or.inr ⟨?_, hout⟩
    cases n with
    | zero => rfl
    | succ n =>
        have hidle := h.idle n fun start hstart => (hout start hstart).imp_left Nat.le_of_lt
        exact hidle.strobes _

theorem wordAt_lt (hk : k < 50) : wordAt k < receiveTime := by
  unfold wordAt receiveTime fixAt
  omega

theorem complAt_lt : complAt < receiveTime := by
  unfold complAt receiveTime
  omega

theorem Feeds.valid_at (h : Feeds f inp) (hstart : SendingStarts f inp start) {x : Nat}
    (hx : x < receiveTime) :
    (receiver f inp (start + 62 + x)).srcRxValid = true ↔ ∃ k < 50, x = wordAt k :=
  (h.receives hstart).valid x hx

theorem Feeds.word_at (h : Feeds f inp) (hstart : SendingStarts f inp start) {x : Nat}
    (hk : k < 50) (hx : x = wordAt k) :
    (receiver f inp (start + 62 + x)).astWrd = frameWords f inp start k :=
  (h.receives hstart).word x k hk hx

theorem Feeds.valid_iff (h : Feeds f inp) (n : Nat) : (receiver f inp n).srcRxValid = true ↔
    ∃ start, SendingStarts f inp start ∧ ∃ k < 50, n = start + 62 + wordAt k := by
  constructor
  · intro hvalid
    rcases h.cycle_cases n with ⟨start, hstart, x, hx, rfl⟩ | ⟨hquiet, _⟩
    · obtain ⟨k, hk, hword⟩ := (h.valid_at hstart hx).mp hvalid
      exact ⟨start, hstart, k, hk, by rw [hword]⟩
    · have hnone : (receiver f inp n).srcRxValid = false := congrArg Prod.fst hquiet
      rw [hnone] at hvalid
      cases hvalid
  · rintro ⟨start, hstart, k, hk, rfl⟩
    exact (h.valid_at hstart (wordAt_lt hk)).mpr ⟨k, hk, rfl⟩

theorem Feeds.noError (h : Feeds f inp) (n : Nat) : (receiver f inp n).rxErrPe = false := by
  rcases h.cycle_cases n with ⟨start, hstart, x, hx, rfl⟩ | ⟨hquiet, _⟩
  · exact (h.receives hstart).noError x hx
  · exact congrArg (fun o => o.2.1) hquiet

theorem Feeds.compl_iff (h : Feeds f inp) (n : Nat) :
    (receiver f inp n).rxComplPe inputFrequency (link f inp n) = true ↔
      ∃ start, SendingStarts f inp start ∧ n = start + 62 + complAt := by
  constructor
  · intro hcompl
    rcases h.cycle_cases n with ⟨start, hstart, x, hx, rfl⟩ | ⟨hquiet, _⟩
    · have hend := ((h.receives hstart).compl x hx).mp hcompl
      exact ⟨start, hstart, by rw [hend]⟩
    · have hnone : (receiver f inp n).rxComplPe inputFrequency (link f inp n) = false :=
        congrArg (fun o => o.2.2) hquiet
      rw [hnone] at hcompl
      cases hcompl
  · rintro ⟨start, hstart, rfl⟩
    exact ((h.receives hstart).compl _ complAt_lt).mpr rfl

/-- With the transmitter held enabled and fifty words in its FIFO whenever sending starts,
every frame arrives as it was sent, for any number of frames. -/
theorem frames_round_trip (hen : ∀ n, (inp n).txconfig.getLsbD 0 = true)
    (harrive : ∀ n, ∃ k < 1000, 0 < (inp (n + k)).fifoDelay.arrive)
    (hfull : ∀ n, SendingStarts f inp n → 50 ≤ (transmitter f inp n).fifo.words.length) :
    CarriesFrames f inp := by
  have h : Feeds f inp := ⟨hen, harrive, hfull⟩
  refine ⟨fun start hstart x hx => h.line hstart hx, fun n hout => h.null hout,
    fun start start' hstart hstart' hlt => h.apart hstart hstart' hlt, fun start hstart => ?_,
    h.valid_iff, fun start hstart k hk => h.word_at hstart hk rfl, h.noError, h.compl_iff⟩
  exact (h.frameAt hstart).removed hen harrive (hfull start hstart)

/-- With fifty words in the FIFO a frame is being sent, or one starts in the next 1066 cycles,
unless the host holds the transmitter busy. -/
theorem frame_starts (hen : ∀ n, (inp n).txconfig.getLsbD 0 = true)
    (harrive : ∀ n, ∃ k < 1000, 0 < (inp (n + k)).fifoDelay.arrive)
    (hbusy : ∀ n, TxController.busy (inp n) = false) {n : Nat}
    (hfull : 50 ≤ (transmitter f inp (n + 3)).fifo.words.length) :
    ∃ start, SendingStarts f inp start ∧ n + 3 < start + 62 * 1607 ∧ start ≤ n + 3 + 1066 := by
  rcases waits_or_sends (f := f) hen (n + 1) with ⟨φ, hφ, hwait⟩ | ⟨start, hle, hlt, hframe⟩
  · have hword : (transmitter f inp (n + 3)).fifo.words ≠ [] :=
      List.ne_nil_of_length_pos (by omega)
    obtain ⟨k, hk, hframe⟩ := next_frame hen harrive hbusy hφ hwait hword
    exact ⟨n + 3 + k + 1, (starts_iff hen _).mpr hframe, by omega, by omega⟩
  · exact ⟨start, (starts_iff hen _).mpr hframe, hlt, by omega⟩

end Link

/-! ## A host that writes in every cycle -/

/-- Fifty words in the FIFO at reset, and one new word in every cycle. -/
def filledFifo : DcFifo := ⟨List.replicate 50 0x12345678#32, [], 0, 0⟩

def steadyHost (n : Nat) : TxInput where
  txconfig := 1#4
  irqClear := false
  buferData := BitVec.ofNat 32 n
  buferWr := true
  fifoDelay := ⟨1, 1⟩

theorem fifty_words_stay {fifo : DcFifo} (data : Word) (rdreq : Bool)
    (hwords : 50 ≤ fifo.words.length) (hunreleased : fifo.unreleased ≤ 1) :
    50 ≤ (fifo.step data true rdreq ⟨1, 1⟩).words.length ∧
      (fifo.step data true rdreq ⟨1, 1⟩).unreleased ≤ 1 := by
  have hused : fifo.used = fifo.words.length + fifo.unreleased := by
    simp [DcFifo.used, DcFifo.words]
  have hstored : (if fifo.stores true then [data] else []).length =
      if fifo.words.length + fifo.unreleased < 512 then 1 else 0 := by
    simp only [DcFifo.stores, DcFifo.full, hused, Bool.true_and]
    by_cases hroom : fifo.words.length + fifo.unreleased < 512
    · rw [if_pos hroom, decide_eq_false (by omega)]
      rfl
    · rw [if_neg hroom, decide_eq_true (by omega)]
      rfl
  have hreleased : (fifo.step data true rdreq ⟨1, 1⟩).unreleased =
      fifo.unreleased - 1 + (fifo.takes rdreq).toNat := rfl
  cases htakes : fifo.takes rdreq with
  | false =>
      have hwords : (fifo.step data true rdreq ⟨1, 1⟩).words =
          fifo.words ++ if fifo.stores true then [data] else [] :=
        DcFifo.step_words_of_not_takes htakes
      have hlength := congrArg List.length hwords
      rw [List.length_append, hstored] at hlength
      rw [hreleased, htakes, Bool.toNat_false]
      omega
  | true =>
      have hwords : fifo.words ++ (if fifo.stores true then [data] else []) =
          (fifo.step data true rdreq ⟨1, 1⟩).q :: (fifo.step data true rdreq ⟨1, 1⟩).words :=
        DcFifo.step_words_of_takes htakes
      have hlength := congrArg List.length hwords
      rw [List.length_append, hstored, List.length_cons] at hlength
      rw [hreleased, htakes, Bool.toNat_true]
      split at hlength <;> omega

theorem steadyHost_full (n : Nat) : 50 ≤ (transmitter filledFifo steadyHost n).fifo.words.length ∧
    (transmitter filledFifo steadyHost n).fifo.unreleased ≤ 1 := by
  induction n with
  | zero => exact ⟨by decide, by decide⟩
  | succ n ih => exact fifty_words_stay _ _ ih.1 ih.2

/-- The frames arrive; the first of them starts in cycle 33. -/
theorem frames_round_trip_steady_host :
    CarriesFrames filledFifo steadyHost ∧ SendingStarts filledFifo steadyHost 33 := by
  have hstarts : (transmitter filledFifo steadyHost 33).tx.currentStateTx = .idle ∧
      (transmitter filledFifo steadyHost 33).tx.sinkTxReadyPe = true := by
    decide +kernel
  exact ⟨frames_round_trip (fun n => by simp [steadyHost]) (fun _ => ⟨0, by omega, Nat.one_pos⟩)
    fun n _ => (steadyHost_full n).1, hstarts⟩

end Mfi.Arinc708
