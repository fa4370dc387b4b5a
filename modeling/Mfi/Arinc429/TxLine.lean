import Mfi.Core.History
import Mfi.Arinc429.TxStages

/-!
# The transmitter carries the words of its FIFO

For any times of writes and any phase of the bit clock the line carries the words
accepted by the FIFO in their order, each once, as a frame of 32 symbols; between
two frames and whenever nothing is sent it is null. Every accepted word is sent, as
every word in the FIFO becomes visible to its read side at some time.
-/

namespace Mfi.Arinc429

open Core

/-! ## The specification -/

/-- The bits on the line for a word: 31 data bits, least significant first, and a
last bit that makes the number of ones odd. -/
structure IsFrame (w : Word) (bits : Nat → Bool) : Prop where
  data : ∀ i < 31, bits i = w.getLsbD i
  odd : (List.range 32).countP bits % 2 = 1

/-- The line carries the 32 return-to-zero symbols of a word from cycle `start` on;
`T` is the bit time. -/
def CarriesWord (T : Nat) (line : Nat → Line) (start : Nat) (w : Word) : Prop :=
  ∃ bits, IsFrame w bits ∧ ∀ i < 32, ∀ t < T,
    line (start + (i * T + t)) = if t < T / 2 then .symbol (bits i) else .null

/-- The line carries the written words: word `k` is taken over in cycle `taken k`,
with the label order then configured, and begins in cycle `start k`. -/
structure CarriesWords (T : Nat) (inp : Nat → TxInput) (line : Nat → Line)
    (written : Nat → Word → Prop) (taken start : Nat → Nat) : Prop where
  after : ∀ k w, written k w → taken k < start k
  carried : ∀ k w, written k w →
    CarriesWord T line (start k) (TxController.wordToTrancieve (inp (taken k)).txconfig w)
  /-- The words come in order, with at least four bit times between two of them. -/
  spaced : ∀ j k, j < k → (∃ w, written k w) → start j + 32 * T + 4 * T ≤ start k
  null : ∀ t, (∀ k w, written k w → t < start k ∨ start k + 32 * T ≤ t) → line t = .null

section Ghost

variable (f : Nat) (inp : Nat → TxInput)

/-- The words that the FIFO accepted before cycle `n`. -/
def accepted : Nat → List Word
  | 0 => []
  | n + 1 =>
      accepted n ++
        if (trace (TxController.step f) .reset inp n).fifo.stores (inp n).buferWr then
          [(inp n).buferData]
        else []

structure SentWord where
  start : Nat
  taken : Nat
  word : Word

variable (D : Nat)

def stage : Nat → TxStage
  | 0 => .boot
  | n + 1 => (stage n).next D (trace (TxController.step f) .reset inp n) (inp n)

/-- The words taken over before cycle `n`. -/
def sent : Nat → List SentWord
  | 0 => []
  | n + 1 =>
      sent n ++ match stage f inp D n with
        | .valid w =>
            let c := trace (TxController.step f) .reset inp n
            [⟨n + 1 + 18 * D - c.tx.entryPosition D, n, w⟩]
        | _ => []

end Ghost

def SentWord.onLine (inp : Nat → TxInput) (e : SentWord) : Word :=
  TxController.wordToTrancieve (inp e.taken).txconfig e.word

/-! ## Frames and symbols -/

theorem isFrame_frameBit (w : Word) : IsFrame w (frameBit w) :=
  ⟨fun i hi => by rw [frameBit, if_pos hi], frame_odd w⟩

theorem carriesWord_of_frameLine {D : Nat} {line : Nat → Line} {start : Nat}
    {w : Word} (h : ∀ t < 32 * (4 * D), line (start + t) = frameLine D w t) :
    CarriesWord (4 * D) line start w := by
  refine ⟨frameBit w, isFrame_frameBit w, fun i hi t ht => ?_⟩
  have hle := Nat.mul_le_mul_right (4 * D) (show i + 1 ≤ 32 from hi)
  rw [Nat.succ_mul] at hle
  obtain ⟨hquot, hrest⟩ := div_mod_of_eq (x := i * (4 * D) + t) ht
    (show i * (4 * D) + t = 4 * D * i + t by rw [Nat.mul_comm])
  rw [h _ (by omega), frameLine, hquot, hrest, show 4 * D / 2 = 2 * D by omega]

theorem frameLine_tail {D : Nat} (w : Word) {t : Nat} (hlo : 126 * D ≤ t) (hhi : t < 128 * D) :
    frameLine D w t = .null := by
  have hrest := (div_mod_of_eq (x := t) (T := 4 * D) (q := 31) (r := t - 124 * D)
    (by omega) (by omega)).2
  rw [frameLine, hrest, if_neg (by omega)]

/-! ## Where the words are -/

/-- The frame of `e` is over but for its last half symbol, and lies a whole number
of bit times back. -/
def Aligned (D n phase : Nat) (e : SentWord) : Prop :=
  ∃ m, 36 ≤ m ∧ n + 18 * D = e.start + 4 * D * m + phase

/-- The frames taken over, in a stage of cycle `n`. -/
def Placed (D : Nat) (inp : Nat → TxInput) (n phase : Nat) : TxStage → List SentWord → Prop
  | .boot, l => l = []
  | .sending v x, l => ∃ init e, l = init ++ [e] ∧ (∀ e' ∈ init, Aligned D n phase e') ∧
      e.start + x = n + 18 * D ∧ e.onLine inp = v
  | _, l => ∀ e ∈ l, Aligned D n phase e

structure TxInv (D : Nat) (inp : Nat → TxInput) (accepted : List Word) (sent : List SentWord)
    (p : TxStage) (n : Nat) (c : TxController) : Prop where
  stage : InStage D p c
  words : accepted = sent.map SentWord.word ++ p.held ++ c.fifo.words
  placed : Placed D inp n (c.tx.phase D) p sent
  spaced : sent.Pairwise fun a b => a.start + 36 * (4 * D) ≤ b.start
  after : ∀ e ∈ sent, e.taken < e.start

section Step

variable {D f n : Nat} {inp : Nat → TxInput} {l : List Word} {es : List SentWord} {p : TxStage}
  {c : TxController}

theorem InStage.running (h : InStage D p c) (hp : p ≠ .boot) : c.tx.Running D := by
  have htx := h.tx
  cases p with
  | boot => exact absurd rfl hp
  | ready => exact Arinc429Tx.Idle.running htx
  | armed => exact Arinc429Tx.Idle.running htx
  | popping => exact Arinc429Tx.Idle.running htx
  | loading w => exact Arinc429Tx.Idle.running htx
  | valid w => exact Arinc429Tx.Idle.running htx
  | sending v x => exact Arinc429Tx.Sending.running htx
  | completing k => exact Arinc429Tx.Completing.running htx

theorem Aligned.next {phase : Nat} {e : SentWord} (h : Aligned D n phase e) :
    Aligned D (n + 1) (if phase + 1 = 4 * D then 0 else phase + 1) e := by
  obtain ⟨m, hm, heq⟩ := h
  by_cases hlast : phase + 1 = 4 * D
  · refine ⟨m + 1, by omega, ?_⟩
    rw [if_pos hlast, Nat.mul_add]
    omega
  · exact ⟨m, hm, by rw [if_neg hlast]; omega⟩

/-- The word that the serialiser takes over at the end of a stage. -/
def TxStage.takes : TxStage → List Word
  | .valid w => [w]
  | _ => []

/-- A word is in the FIFO or in the pipe until the serialiser takes it over. -/
theorem InStage.words_step {i : TxInput} (h : InStage D p c) :
    p.takes ++ ((p.next D c i).held ++ (c.step f i).fifo.words) =
      p.held ++ c.fifo.words ++ if c.fifo.stores i.buferWr then [i.buferData] else [] := by
  have hkept : p.isPopping = false → (c.step f i).fifo.words =
      c.fifo.words ++ if c.fifo.stores i.buferWr then [i.buferData] else [] := by
    intro hp
    apply DcFifo.step_words_of_not_takes
    simp [DcFifo.takes, h.rdreq, hp]
  cases p with
  | boot => rw [hkept rfl]; rfl
  | ready => rw [hkept rfl]; rfl
  | armed =>
      rw [hkept rfl]
      simp only [TxStage.next]
      split <;> rfl
  | popping =>
      have htakes : c.fifo.takes (c.rdreq && !c.rdreqSig) = true := by
        rw [h.rdreq, h.rdreqSig rfl, DcFifo.takes, show c.fifo.empty = false from h.readSide]
        rfl
      have hwords : c.fifo.words ++ (if c.fifo.stores i.buferWr then [i.buferData] else []) =
          (c.step f i).fifo.q :: (c.step f i).fifo.words := DcFifo.step_words_of_takes htakes
      have hq : (c.step f i).fifo.q = c.fifo.visible.headD c.fifo.q := by
        change (c.fifo.step i.buferData i.buferWr (c.rdreq && !c.rdreqSig) i.fifoDelay).q = _
        simp only [DcFifo.step, htakes, if_true]
      rw [hq] at hwords
      exact hwords.symm
  | loading w =>
      rw [hkept rfl, ← List.append_assoc]
      rfl
  | valid w =>
      rw [hkept rfl]
      rfl
  | sending v x =>
      rw [hkept rfl]
      simp only [TxStage.next]
      split <;> rfl
  | completing k =>
      rw [hkept rfl]
      simp only [TxStage.next]
      split <;> rfl

theorem Placed.not_sending {phase : Nat} (hp : ∀ v x, p ≠ .sending v x)
    (h : Placed D inp n phase p es) : ∀ e ∈ es, Aligned D n phase e := by
  cases p with
  | sending v x => exact absurd rfl (hp v x)
  | boot =>
      rw [show es = [] from h]
      simp
  | ready => exact h
  | armed => exact h
  | popping => exact h
  | loading w => exact h
  | valid w => exact h
  | completing k => exact h

theorem Placed.of_aligned {phase : Nat} (hboot : p ≠ .boot) (hp : ∀ v x, p ≠ .sending v x)
    (h : ∀ e ∈ es, Aligned D n phase e) : Placed D inp n phase p es := by
  cases p with
  | sending v x => exact absurd rfl (hp v x)
  | boot => exact absurd rfl hboot
  | ready => exact h
  | armed => exact h
  | popping => exact h
  | loading w => exact h
  | valid w => exact h
  | completing k => exact h

/-- The frame of the word that is taken over at the end of a valid stage. -/
def sentAt (D n : Nat) (c : TxController) (w : Word) : SentWord :=
  ⟨n + 1 + 18 * D - c.tx.entryPosition D, n, w⟩

theorem TxInv.valid_step {w : Word} (h : TxInv D inp l es (.valid w) n c)
    (hi : txDevider f (c.port (inp n)).speed = D) :
    TxInv D inp (l ++ if c.fifo.stores (inp n).buferWr then [(inp n).buferData] else [])
      (es ++ [sentAt D n c w]) (TxStage.next D c (inp n) (.valid w)) (n + 1)
      (c.step f (inp n)) := by
  have hrun := h.stage.running (by simp)
  have hD : 0 < D := by
    have hlt := hrun.cnt_lt
    omega
  have hc := Arinc429Tx.cycle hrun hi
  have hlt := Arinc429Tx.phase_lt hrun
  have hwords := h.stage.words_step (f := f) (i := inp n)
  have hplaced := Placed.not_sending (by simp) h.placed
  have hstart : (sentAt D n c w).start + c.tx.entryPosition D = n + 1 + 18 * D := by
    simp only [sentAt, Arinc429Tx.entryPosition]
    omega
  have hentry : c.tx.entryPosition D = c.tx.phase D + 1 := rfl
  refine ⟨h.stage.step hD hrun.fits hi, ?_, ?_, ?_, ?_⟩
  · rw [h.words, List.append_assoc, List.append_assoc, ← List.append_assoc (TxStage.held _),
      ← hwords]
    simp [TxStage.takes, sentAt]
  · refine ⟨es, sentAt D n c w, rfl, fun e' he' => ?_, hstart, rfl⟩
    have hnext := (hplaced e' he').next
    rw [← hc.phase] at hnext
    exact hnext
  · rw [List.pairwise_append]
    refine ⟨h.spaced, List.pairwise_singleton _ _, fun a ha b hb => ?_⟩
    rw [List.mem_singleton.mp hb]
    obtain ⟨m, hm, heq⟩ := hplaced a ha
    have hle := Nat.mul_le_mul_left (4 * D) hm
    omega
  · intro e he
    rw [List.mem_append, List.mem_singleton] at he
    rcases he with he | rfl
    · exact h.after e he
    · simp only [sentAt, Arinc429Tx.entryPosition]
      omega

theorem TxStage.next_ne_boot (i : TxInput) : p.next D c i ≠ .boot := by
  cases p <;> simp only [TxStage.next] <;> (try split) <;> simp

theorem TxStage.next_not_sending (i : TxInput) (hs : ∀ v x, p ≠ .sending v x)
    (hv : ∀ w, p ≠ .valid w) : ∀ v x, p.next D c i ≠ .sending v x := by
  intro v x
  cases p with
  | sending v' x' => exact absurd rfl (hs v' x')
  | valid w => exact absurd rfl (hv w)
  | boot => simp [TxStage.next]
  | ready => simp [TxStage.next]
  | armed =>
      simp only [TxStage.next]
      split <;> simp
  | popping => simp [TxStage.next]
  | loading w => simp [TxStage.next]
  | completing k =>
      simp only [TxStage.next]
      split <;> simp

theorem Placed.sending_step {v : Word} {x : Nat} (hstage : InStage D (.sending v x) c)
    (hi : txDevider f (c.port (inp n)).speed = D)
    (h : Placed D inp n (c.tx.phase D) (.sending v x) es) :
    Placed D inp (n + 1) ((c.step f (inp n)).tx.phase D)
      (TxStage.next D c (inp n) (.sending v x)) es := by
  obtain ⟨init, e, rfl, hinit, hstart, hline⟩ := h
  have hrun := hstage.running (by simp)
  have hphase : (c.step f (inp n)).tx.phase D = _ := (Arinc429Tx.cycle hrun hi).phase
  have hinit' : ∀ e' ∈ init, Aligned D (n + 1) ((c.step f (inp n)).tx.phase D) e' := by
    intro e' he'
    rw [hphase]
    exact (hinit e' he').next
  simp only [TxStage.next]
  split
  · exact ⟨init, e, rfl, hinit', by omega, hline⟩
  · rename_i hx
    intro e' he'
    rw [List.mem_append, List.mem_singleton] at he'
    rcases he' with he' | rfl
    · exact hinit' e' he'
    · have htx : c.tx.Sending D v x := hstage.tx
      have hlast : x + 1 = 36 * (4 * D) := by
        have hpos := htx.position
        omega
      have hD := hrun.cnt_lt
      have hmod := succ_div_mod x (show 0 < 4 * D by omega)
      rw [hlast, Nat.mul_mod_left] at hmod
      have hend : c.tx.phase D + 1 = 4 * D := by
        rw [htx.phase]
        split at hmod
        · assumption
        · omega
      rw [hphase, if_pos hend]
      exact ⟨36, Nat.le_refl 36, by omega⟩

theorem TxInv.other_step (hD : 0 < D) (hfits : D ≤ 65536) (h : TxInv D inp l es p n c)
    (hp : ∀ w, p ≠ .valid w)
    (hi : txDevider f (c.port (inp n)).speed = D) :
    TxInv D inp (l ++ if c.fifo.stores (inp n).buferWr then [(inp n).buferData] else [])
      es (p.next D c (inp n)) (n + 1) (c.step f (inp n)) := by
  have hwords := h.stage.words_step (f := f) (i := inp n)
  have hnone : p.takes = [] := by
    cases p with
    | valid w => exact absurd rfl (hp w)
    | _ => rfl
  refine ⟨h.stage.step hD hfits hi, ?_, ?_, h.spaced, h.after⟩
  · rw [hnone, List.nil_append] at hwords
    rw [h.words, List.append_assoc, List.append_assoc, ← List.append_assoc (TxStage.held _),
      ← hwords, List.append_assoc]
  · by_cases hs : ∃ v x, p = .sending v x
    · obtain ⟨v, x, rfl⟩ := hs
      exact Placed.sending_step h.stage hi h.placed
    · have hs' : ∀ v x, p ≠ .sending v x := fun v x he => hs ⟨v, x, he⟩
      apply Placed.of_aligned (TxStage.next_ne_boot _) (TxStage.next_not_sending _ hs' hp)
      intro e he
      by_cases hboot : p = .boot
      · subst hboot
        rw [show es = [] from h.placed] at he
        simp at he
      · have hphase : (c.step f (inp n)).tx.phase D = _ :=
          (Arinc429Tx.cycle (h.stage.running hboot) hi).phase
        rw [hphase]
        exact (h.placed.not_sending hs' e he).next

structure LineNow (D : Nat) (inp : Nat → TxInput) (es : List SentWord) (n : Nat) (line : Line) :
    Prop where
  frame : ∀ e ∈ es, e.start ≤ n → n < e.start + 128 * D →
    line = frameLine D (e.onLine inp) (n - e.start)
  null : (∀ e ∈ es, n < e.start ∨ e.start + 128 * D ≤ n) → line = .null

theorem lineNow_of_aligned {phase : Nat} (h : ∀ e ∈ es, Aligned D n phase e) {line : Line}
    (hnull : line = .null) : LineNow D inp es n line := by
  refine ⟨fun e he hlo hhi => ?_, fun _ => hnull⟩
  obtain ⟨m, hm, heq⟩ := h e he
  have hle := Nat.mul_le_mul_left (4 * D) hm
  rw [hnull, frameLine_tail _ (by omega) (by omega)]

theorem TxInv.lineNow (h : TxInv D inp l es p n c) : LineNow D inp es n c.tx.line := by
  by_cases hs : ∃ v x, p = .sending v x
  · obtain ⟨v, x, rfl⟩ := hs
    obtain ⟨init, e, rfl, hinit, hstart, hline⟩ := h.placed
    have htx : c.tx.Sending D v x := h.stage.tx
    have hpos := htx.position
    have hspaced := (List.pairwise_append.mp h.spaced).2.2
    by_cases hx : 18 * D ≤ x
    · -- inside the frame of the last word
      constructor
      · intro e' he' hlo hhi
        rw [List.mem_append, List.mem_singleton] at he'
        rcases he' with he' | rfl
        · have hfar := hspaced e' he' e (List.mem_singleton.mpr rfl)
          omega
        · rw [htx.line_eq, if_pos hx, hline]
          congr 1
          omega
      · intro hout
        have hlast := hout e (by simp)
        omega
    · -- before the frame of the last word
      have hnull : c.tx.line = .null := by rw [htx.line_eq, if_neg hx]
      have hbefore : LineNow D inp init n c.tx.line := lineNow_of_aligned hinit hnull
      refine ⟨fun e' he' hlo hhi => ?_, fun _ => hnull⟩
      rw [List.mem_append, List.mem_singleton] at he'
      rcases he' with he' | rfl
      · exact hbefore.frame e' he' hlo hhi
      · omega
  · have hs' : ∀ v x, p ≠ .sending v x := fun v x he => hs ⟨v, x, he⟩
    refine lineNow_of_aligned (h.placed.not_sending hs') ?_
    have htx := h.stage.tx
    have hidle : c.tx.Idle D → c.tx.line = .null :=
      fun hi => Arinc429Tx.line_of_resting hi.running hi.bits
    cases p with
    | sending v x => exact absurd rfl (hs' v x)
    | boot =>
        rw [show c.tx = .reset 0 from htx]
        rfl
    | ready => exact hidle htx
    | armed => exact hidle htx
    | popping => exact hidle htx
    | loading w => exact hidle htx
    | valid w => exact hidle htx
    | completing k =>
        have hcompl : c.tx.Completing D k := htx
        exact Arinc429Tx.line_of_resting hcompl.running hcompl.bits

end Step

/-! ## The run -/

section Run

variable {D f : Nat} {inp : Nat → TxInput}

def TxRuns (D f : Nat) (inp : Nat → TxInput) : Prop :=
  ∀ n, TxInv D inp (accepted f inp n) (sent f inp D n) (stage f inp D n) n
    (trace (TxController.step f) .reset inp n)

theorem tx_run (hD : 0 < D) (hfits : D ≤ 65536)
    (hspeed : ∀ n, txDevider f ((inp n).txconfig.extractLsb' 0 2) = D) : TxRuns D f inp := by
  intro n
  induction n with
  | zero => exact ⟨.reset, rfl, rfl, List.Pairwise.nil, by simp [sent]⟩
  | succ n ih =>
      by_cases hv : ∃ w, stage f inp D n = .valid w
      · obtain ⟨w, hw⟩ := hv
        have hstep := (hw ▸ ih).valid_step (hspeed n)
        simp only [accepted, sent, stage, trace_succ, hw]
        exact hstep
      · have hother : ∀ w, stage f inp D n ≠ .valid w := fun w hw => hv ⟨w, hw⟩
        have hstep := ih.other_step hD hfits hother (hspeed n)
        have hsent : sent f inp D (n + 1) = sent f inp D n := by
          simp only [sent]
          cases hs : stage f inp D n with
          | valid w => exact absurd hs (hother w)
          | _ => simp
        rw [hsent]
        exact hstep

theorem accepted_prefix (n : Nat) : accepted f inp n <+: accepted f inp (n + 1) :=
  List.prefix_append _ _

theorem sent_prefix (n : Nat) : sent f inp D n <+: sent f inp D (n + 1) :=
  List.prefix_append _ _

/-- A frame that was not yet taken over in cycle `t` begins later. -/
theorem sent_later (hinv : TxRuns D f inp) {t m : Nat} (htm : t ≤ m) :
    ∀ e ∈ sent f inp D m, e ∈ sent f inp D t ∨ t < e.start := by
  induction m with
  | zero =>
      intro e he
      simp [sent] at he
  | succ m ih =>
      intro e he
      by_cases heq : t = m + 1
      · exact Or.inl (heq ▸ he)
      · have hold := he
        simp only [sent, List.mem_append] at he
        rcases he with he | he
        · exact ih (by omega) e he
        · have hafter := (hinv (m + 1)).after e hold
          have htaken : e.taken = m := by
            split at he
            · rw [List.mem_singleton] at he
              rw [he]
            · simp at he
          exact Or.inr (by omega)

/-! ### Every word is sent -/

/-- Cycles until the controller is armed again, for the stages in which it only waits
for the serialiser. -/
def TxStage.rank (D : Nat) : TxStage → Nat
  | .boot => 2
  | .ready => 1
  | .completing k => 5 - k
  | .sending _ x => 6 + (36 * (4 * D) - x)
  | _ => 0

def TxStage.Active : TxStage → Prop
  | .armed => True
  | .popping => True
  | .loading _ => True
  | .valid _ => True
  | _ => False

theorem rank_next {p : TxStage} {c : TxController} {i : TxInput} (h : InStage D p c)
    (hp : ¬ p.Active) : (p.next D c i).rank D < p.rank D := by
  cases p with
  | armed => exact absurd trivial hp
  | popping => exact absurd trivial hp
  | loading w => exact absurd trivial hp
  | valid w => exact absurd trivial hp
  | boot => simp [TxStage.next, TxStage.rank]
  | ready => simp [TxStage.next, TxStage.rank]
  | sending v x =>
      have hpos := Arinc429Tx.Sending.position h.tx
      simp only [TxStage.next]
      split
      · simp only [TxStage.rank]
        omega
      · simp only [TxStage.rank]
        omega
  | completing k =>
      have hlast := Arinc429Tx.Completing.last h.tx
      simp only [TxStage.next]
      split
      · simp only [TxStage.rank]
        omega
      · simp only [TxStage.rank]
        omega

theorem sent_length_le {m n : Nat} (h : m ≤ n) :
    (sent f inp D m).length ≤ (sent f inp D n).length :=
  (prefix_of_le (l := sent f inp D) sent_prefix h).length_le

theorem accepted_length_le {m n : Nat} (h : m ≤ n) :
    (accepted f inp m).length ≤ (accepted f inp n).length :=
  (prefix_of_le (l := accepted f inp) accepted_prefix h).length_le

theorem sent_grows {n : Nat} {w : Word} (h : stage f inp D n = .valid w) :
    (sent f inp D (n + 1)).length = (sent f inp D n).length + 1 := by
  simp [sent, h]

theorem popped_is_sent {n : Nat} (h : stage f inp D n = .popping) :
    ∃ m > n, (sent f inp D n).length < (sent f inp D m).length := by
  have hload : ∃ w, stage f inp D (n + 1) = .loading w := ⟨_, by simp only [stage, h]; rfl⟩
  obtain ⟨w, hload⟩ := hload
  have hvalid : stage f inp D (n + 2) = .valid w := by
    rw [stage, hload]
    rfl
  have hle : (sent f inp D n).length ≤ (sent f inp D (n + 2)).length := sent_length_le (by omega)
  exact ⟨n + 3, by omega, by rw [sent_grows hvalid]; omega⟩

theorem armed_next {n : Nat} (hs : stage f inp D n = .armed) : stage f inp D (n + 1) =
    if (trace (TxController.step f) .reset inp n).fifo.empty then .armed else .popping := by
  rw [stage, hs]
  rfl

theorem armed_visible (hinv : TxRuns D f inp) {n : Nat} (hs : stage f inp D n = .armed)
    (hempty : (trace (TxController.step f) .reset inp n).fifo.empty = true)
    (hwords : (trace (TxController.step f) .reset inp n).fifo.words ≠ [])
    (harrive : 0 < (inp n).fifoDelay.arrive) :
    (trace (TxController.step f) .reset inp (n + 1)).fifo.empty = false := by
  have hrdreq : (trace (TxController.step f) .reset inp n).rdreq = false := by
    rw [(hinv n).stage.rdreq, hs]
    rfl
  have htakes : (trace (TxController.step f) .reset inp n).fifo.takes
      ((trace (TxController.step f) .reset inp n).rdreq &&
        !(trace (TxController.step f) .reset inp n).rdreqSig) = false := by
    simp [DcFifo.takes, hrdreq]
  simp only [DcFifo.empty, List.isEmpty_iff] at hempty
  simp only [DcFifo.words, hempty, List.nil_append] at hwords
  rw [trace_succ]
  simp only [TxController.step, DcFifo.step, DcFifo.empty, htakes, hempty]
  simp [List.take_eq_nil_iff, hwords]
  omega

theorem armed_keeps (hinv : TxRuns D f inp) {n : Nat} (hs : stage f inp D n = .armed)
    (hempty : (trace (TxController.step f) .reset inp n).fifo.empty = true)
    (hwords : (trace (TxController.step f) .reset inp n).fifo.words ≠ []) :
    (trace (TxController.step f) .reset inp (n + 1)).fifo.words ≠ [] := by
  have hmore := (hinv n).stage.words_step (f := f) (i := inp n)
  rw [hs] at hmore
  simp only [TxStage.takes, TxStage.held, TxStage.next, hempty, if_true,
    List.nil_append] at hmore
  rw [trace_succ, hmore]
  simp [hwords]

theorem armed_pops (hinv : TxRuns D f inp) (left : Nat) :
    ∀ n, stage f inp D n = .armed →
      (trace (TxController.step f) .reset inp n).fifo.words ≠ [] →
      0 < (inp (n + left)).fifoDelay.arrive → ∃ m > n, stage f inp D m = .popping := by
  induction left with
  | zero =>
      intro n hs hwords harrive
      have hnext := armed_next hs
      cases hempty : (trace (TxController.step f) .reset inp n).fifo.empty with
      | false =>
          rw [hempty] at hnext
          exact ⟨n + 1, by omega, hnext⟩
      | true =>
          rw [hempty, if_pos rfl] at hnext
          have hlater := armed_next hnext
          rw [armed_visible hinv hs hempty hwords harrive] at hlater
          exact ⟨n + 2, by omega, hlater⟩
  | succ left ih =>
      intro n hs hwords harrive
      have hnext := armed_next hs
      cases hempty : (trace (TxController.step f) .reset inp n).fifo.empty with
      | false =>
          rw [hempty] at hnext
          exact ⟨n + 1, by omega, hnext⟩
      | true =>
          rw [hempty, if_pos rfl] at hnext
          obtain ⟨m, hm, hpop⟩ := ih (n + 1) hnext (armed_keeps hinv hs hempty hwords)
            (by rwa [show n + 1 + left = n + (left + 1) by omega])
          exact ⟨m, by omega, hpop⟩

/-- While an accepted word is not taken over, another one will be. -/
theorem next_is_sent (hinv : TxRuns D f inp)
    (hfair : ∀ n, ∃ m ≥ n, 0 < (inp m).fifoDelay.arrive) {n : Nat}
    (h : (sent f inp D n).length < (accepted f inp n).length) :
    ∃ m ≥ n, (sent f inp D n).length < (sent f inp D m).length := by
  obtain ⟨m, hm, hactive⟩ := exists_of_rank (P := fun m => (stage f inp D m).Active) (m := n)
    (fun m => (stage f inp D m).rank D)
    (fun k _ hk => rank_next (hinv k).stage hk)
  by_cases hgrown : (sent f inp D n).length < (sent f inp D m).length
  · exact ⟨m, hm, hgrown⟩
  · have hsent : (sent f inp D m).length = (sent f inp D n).length := by
      have hle : (sent f inp D n).length ≤ (sent f inp D m).length := sent_length_le hm
      omega
    have hacc : (accepted f inp n).length ≤ (accepted f inp m).length := accepted_length_le hm
    have hpopped : ∀ k ≥ m, stage f inp D k = .popping →
        ∃ m' ≥ n, (sent f inp D n).length < (sent f inp D m').length := by
      intro k hk hpop
      obtain ⟨m', hm', hlt⟩ := popped_is_sent hpop
      have hle : (sent f inp D m).length ≤ (sent f inp D k).length := sent_length_le hk
      exact ⟨m', by omega, by omega⟩
    cases hs : stage f inp D m with
    | armed =>
        obtain ⟨k, hk, harrive⟩ := hfair m
        have hwords : (trace (TxController.step f) .reset inp m).fifo.words ≠ [] := by
          intro hnil
          have hall := (hinv m).words
          rw [hs, hnil] at hall
          have hlen := congrArg List.length hall
          simp [TxStage.held] at hlen
          omega
        obtain ⟨m', hm', hpop⟩ := armed_pops hinv (k - m) m hs hwords
          (by rwa [show m + (k - m) = k by omega])
        exact hpopped m' (by omega) hpop
    | popping => exact hpopped m (Nat.le_refl m) hs
    | loading w =>
        have hvalid : stage f inp D (m + 1) = .valid w := by
          rw [stage, hs]
          rfl
        have hle : (sent f inp D m).length ≤ (sent f inp D (m + 1)).length :=
          sent_length_le (by omega)
        exact ⟨m + 2, by omega, by rw [sent_grows hvalid]; omega⟩
    | valid w => exact ⟨m + 1, by omega, by rw [sent_grows hs]; omega⟩
    | _ =>
        rw [hs] at hactive
        exact absurd hactive id

theorem all_are_sent (hinv : TxRuns D f inp)
    (hfair : ∀ n, ∃ m ≥ n, 0 < (inp m).fifoDelay.arrive) {n k : Nat}
    (h : k ≤ (accepted f inp n).length) : ∃ m ≥ n, k ≤ (sent f inp D m).length := by
  induction k with
  | zero => exact ⟨n, Nat.le_refl n, Nat.zero_le _⟩
  | succ k ih =>
      obtain ⟨m, hm, hk⟩ := ih (by omega)
      by_cases hgrown : k + 1 ≤ (sent f inp D m).length
      · exact ⟨m, hm, hgrown⟩
      · have hacc : (accepted f inp n).length ≤ (accepted f inp m).length :=
          accepted_length_le hm
        obtain ⟨m', hm', hlt⟩ := next_is_sent hinv hfair (n := m) (by omega)
        exact ⟨m', by omega, by omega⟩

/-! ### The words on the line -/

theorem written_sent (hinv : TxRuns D f inp)
    (hfair : ∀ n, ∃ m ≥ n, 0 < (inp m).fifoDelay.arrive) {k : Nat} {w : Word}
    (h : Recorded (accepted f inp) k w) :
    ∃ m e, (sent f inp D m)[k]? = some e ∧ e.word = w := by
  obtain ⟨n, hn⟩ := h
  have hlt := (List.getElem?_eq_some_iff.mp hn).1
  obtain ⟨m, hm, hk⟩ := all_are_sent hinv hfair (n := n) (k := k + 1) hlt
  have hget : (sent f inp D m)[k]? = some (sent f inp D m)[k] := List.getElem?_eq_getElem hk
  refine ⟨m, _, hget, ?_⟩
  have hacc := getElem?_of_le accepted_prefix hm hn
  rw [(hinv m).words, List.append_assoc,
    List.getElem?_append_left (by rw [List.length_map]; exact hk), List.getElem?_map, hget] at hacc
  exact Option.some.inj hacc

theorem sent_carried (hinv : TxRuns D f inp) {m : Nat} {e : SentWord}
    (he : e ∈ sent f inp D m) {t : Nat} (ht : t < 128 * D) :
    (trace (TxController.step f) .reset inp (e.start + t)).tx.line =
      frameLine D (e.onLine inp) t := by
  have hlater : e ∈ sent f inp D (max m (e.start + t)) :=
    (prefix_of_le (l := sent f inp D) sent_prefix (Nat.le_max_left _ _)).subset he
  rcases sent_later hinv (Nat.le_max_right m (e.start + t)) e hlater with hin | hlt
  · have hline := (hinv (e.start + t)).lineNow.frame e hin (by omega) (by omega)
    rwa [Nat.add_sub_cancel_left] at hline
  · omega

/-- With a constant speed the line carries the words that the FIFO accepted. The bit
time is four times the divider; every word in the FIFO becomes visible at some time. -/
theorem transmitter_carries_words {speed : BitVec 2}
    (hspeed : ∀ n, (inp n).txconfig.extractLsb' 0 2 = speed)
    (hon : 0 < txDevider f speed) (hfits : txDevider f speed ≤ 65536)
    (hfair : ∀ n, ∃ m ≥ n, 0 < (inp m).fifoDelay.arrive) :
    ∃ taken start, CarriesWords (4 * txDevider f speed) inp
      (fun n => (trace (TxController.step f) .reset inp n).tx.line)
      (Recorded (accepted f inp)) taken start := by
  generalize hD : txDevider f speed = D at hon hfits ⊢
  have hinv : TxRuns D f inp := tx_run hon hfits (fun n => by rw [hspeed n, hD])
  have hne : Nonempty SentWord := ⟨⟨0, 0, 0⟩⟩
  obtain ⟨entry, hentry⟩ := exists_entries (l := sent f inp D) sent_prefix
  -- the entry of an accepted word
  have hword : ∀ k w, Recorded (accepted f inp) k w →
      ∃ m, (sent f inp D m)[k]? = some (entry k) ∧ (entry k).word = w := by
    intro k w hk
    obtain ⟨m, e, he, hw⟩ := written_sent hinv hfair hk
    have heq := hentry k e ⟨m, he⟩
    exact ⟨m, by rw [heq]; exact he, by rw [heq]; exact hw⟩
  refine ⟨fun k => (entry k).taken, fun k => (entry k).start, ?_, ?_, ?_, ?_⟩
  · intro k w hk
    obtain ⟨m, hm, _⟩ := hword k w hk
    exact (hinv m).after _ (List.mem_of_getElem? hm)
  · intro k w hk
    obtain ⟨m, hm, hw⟩ := hword k w hk
    rw [← hw]
    apply carriesWord_of_frameLine
    intro t ht
    exact sent_carried hinv (List.mem_of_getElem? hm) (by omega)
  · intro j k hjk ⟨w, hk⟩
    obtain ⟨m, hm, _⟩ := hword k w hk
    obtain ⟨hklt, hkget⟩ := List.getElem?_eq_some_iff.mp hm
    have hj : (sent f inp D m)[j]? = some (sent f inp D m)[j] :=
      List.getElem?_eq_getElem (by omega)
    have hjget := hentry j _ ⟨m, hj⟩
    have hspaced := List.pairwise_iff_getElem.mp (hinv m).spaced j k (by omega) hklt hjk
    rw [← hjget, hkget] at hspaced
    omega
  · intro t hout
    apply (hinv t).lineNow.null
    intro e he
    obtain ⟨k, hk, hget⟩ := List.getElem_of_mem he
    have hsome : (sent f inp D t)[k]? = some e := by
      rw [List.getElem?_eq_getElem hk, hget]
    have hek := hentry k e ⟨t, hsome⟩
    have hrec : Recorded (accepted f inp) k e.word := by
      refine ⟨t, ?_⟩
      rw [(hinv t).words, List.append_assoc, List.getElem?_append_left (by simpa using hk),
        List.getElem?_map, hsome]
      rfl
    have hbound := hout k e.word hrec
    rw [hek] at hbound
    omega

end Run

/-- Four writes at 100 kbit/s and with the label bits reversed, three of them one after another. -/
def fourWrites (n : Nat) : TxInput where
  txconfig := 0x3#4
  irqClear := false
  buferData := 0x12345678#32 + BitVec.ofNat 32 n
  buferWr := decide (n ∈ [5, 6, 7, 60])
  fifoDelay := ⟨1, 1⟩

theorem transmitter_carries_four_writes :
    accepted 62500000 fourWrites 61 =
        [0x1234567D#32, 0x1234567E#32, 0x1234567F#32, 0x123456B4#32] ∧
      ∃ taken start, CarriesWords (4 * txDevider 62500000 3#2) fourWrites
        (fun n => (trace (TxController.step 62500000) .reset fourWrites n).tx.line)
        (Recorded (accepted 62500000 fourWrites)) taken start :=
  ⟨by decide +kernel, transmitter_carries_words (fun _ => rfl) (by decide) (by decide)
    fun n => ⟨n, Nat.le_refl n, Nat.one_pos⟩⟩

end Mfi.Arinc429
