import Mfi.Arinc429.RxSpacing
import Mfi.Arinc429.TxLine

/-!
# A word sent is the word received

`arinc429_tx` and `arinc429_rx` at one speed: the frame that the serialiser puts on
the line is delivered as one word by a receiver whose line was null before it. The
two sides were reset at any times, so their derived clocks are in any phase.
-/

namespace Mfi.Arinc429

open Core

/-! ## The serialiser alone -/

/-- A frame on the line: null before it and for four bit times after it. -/
structure FrameOn (D : Nat) (line : Nat → Line) (w : Word) (start : Nat) : Prop where
  before : ∀ t < start, line t = .null
  frame : ∀ t < 128 * D, line (start + t) = frameLine D w t
  after : ∀ t, 128 * D ≤ t → t < 144 * D → line (start + t) = .null

namespace Arinc429Tx

variable {D f : Nat} {s : Arinc429Tx} {port : Nat → TxPort} {w : Word}

def Live (D : Nat) (s : Arinc429Tx) : Prop :=
  Idle D s ∨ (∃ w x, Sending D w x s) ∨ ∃ k, Completing D k s

theorem Live.step {i : TxPort} (h : Live D s) (hi : txDevider f i.speed = D) :
    Live D (s.step f i) := by
  rcases h with h | ⟨w, x, h⟩ | ⟨k, h⟩
  · cases hv : i.sinkTxValid with
    | false => exact Or.inl (h.wait hi hv)
    | true => exact Or.inr (Or.inl ⟨_, _, h.send hi hv⟩)
  · rcases h.next hi with ⟨_, hsend⟩ | ⟨_, hcompl⟩
    · exact Or.inr (Or.inl ⟨_, _, hsend⟩)
    · exact Or.inr (Or.inr ⟨_, hcompl⟩)
  · have hlast := h.last
    by_cases hk : k < 3
    · exact Or.inr (Or.inr ⟨_, h.next hi hk⟩)
    · obtain rfl : k = 3 := by omega
      exact Or.inl (h.idle hi)

theorem live_run (h : Live D s) (hspeed : ∀ n, txDevider f (port n).speed = D) (n : Nat) :
    Live D (trace (Arinc429Tx.step f) s port n) :=
  trace_invariant (fun _ => Live D) h (fun n hn => hn.step (hspeed n)) n

theorem Live.idle_of_ready (h : Live D s) (hready : s.sinkTxReady = true) : Idle D s := by
  have hstate : s.stateAvlTx = .idle := by
    simp only [sinkTxReady, Bool.and_eq_true, decide_eq_true_eq] at hready
    exact hready.1
  rcases h with h | ⟨w, x, h⟩ | ⟨k, h⟩
  · exact h
  · rw [h.state] at hstate
    cases hstate
  · have hcompl := h.state
    rw [hstate] at hcompl
    rcases k with _ | _ | _ | k <;> cases hcompl

/-- Cycle `j` after the last edge of a frame: the next one has not begun. -/
structure Gap (D j : Nat) (s : Arinc429Tx) : Prop where
  phase : s.phase D ≤ j
  state : Completing D j s ∨ Idle D s ∨ ∃ w x, x ≤ j ∧ Sending D w x s

theorem Gap.next {i : TxPort} {j : Nat} (h : Gap D j s) (hj : j + 1 < 18 * D)
    (hi : txDevider f i.speed = D) : Gap D (j + 1) (s.step f i) := by
  have hphase : ∀ (_ : Running D s), (s.step f i).phase D ≤ j + 1 := by
    intro hrun
    have hle := h.phase
    rw [(cycle hrun hi).phase]
    split <;> omega
  have hle := h.phase
  rcases h.state with h | h | ⟨w, x, hx, h⟩
  · have hlast := h.last
    refine ⟨hphase h.running, ?_⟩
    by_cases hk : j < 3
    · exact Or.inl (h.next hi hk)
    · obtain rfl : j = 3 := by omega
      exact Or.inr (Or.inl (h.idle hi))
  · refine ⟨hphase h.running, ?_⟩
    cases hv : i.sinkTxValid with
    | false => exact Or.inr (Or.inl (h.wait hi hv))
    | true =>
        refine Or.inr (Or.inr ⟨_, _, ?_, h.send hi hv⟩)
        unfold entryPosition
        omega
  · refine ⟨hphase h.running, ?_⟩
    rcases h.next hi with ⟨_, hsend⟩ | ⟨hend, _⟩
    · exact Or.inr (Or.inr ⟨w, x + 1, by omega, hsend⟩)
    · omega

theorem Gap.line_eq {j : Nat} (h : Gap D j s) (hj : j < 18 * D) : s.line = .null := by
  rcases h.state with h | h | ⟨w, x, hx, h⟩
  · exact line_of_resting h.running h.bits
  · exact line_of_resting h.running h.bits
  · rw [h.line_eq, if_neg (by omega)]

theorem sending_run {x : Nat} (h : Sending D w x s)
    (hspeed : ∀ n, txDevider f (port n).speed = D) {j : Nat} (hj : x + j < 36 * (4 * D)) :
    Sending D w (x + j) (trace (Arinc429Tx.step f) s port j) := by
  induction j with
  | zero => exact h
  | succ j ih =>
      rcases (ih (by omega)).next (hspeed j) with ⟨_, hsend⟩ | ⟨hend, _⟩
      · exact hsend
      · omega

theorem Sending.last {x : Nat} {i : TxPort} (h : Sending D w x s) (hx : x + 1 = 36 * (4 * D))
    (hi : txDevider f i.speed = D) : Gap D 0 (s.step f i) := by
  have hlt := h.running.cnt_lt
  have hphase := h.phase
  rcases h.next hi with ⟨hmore, _⟩ | ⟨_, hcompl⟩
  · omega
  · refine ⟨?_, Or.inl hcompl⟩
    have hmod := succ_div_mod x (show 0 < 4 * D by omega)
    rw [hx, Nat.mul_mod_left] at hmod
    have hend : s.phase D + 1 = 4 * D := by
      rw [hphase]
      split at hmod
      · assumption
      · omega
    rw [(cycle h.running hi).phase, if_pos hend]

theorem gap_run (h : Gap D 0 s) (hspeed : ∀ n, txDevider f (port n).speed = D) {j : Nat}
    (hj : j < 18 * D) : Gap D j (trace (Arinc429Tx.step f) s port j) := by
  induction j with
  | zero => exact h
  | succ j ih => exact (ih (by omega)).next hj (hspeed j)

/-- The word that a serialiser at rest is given goes out as a frame, whatever it is
given afterwards. -/
theorem Idle.sends_frame (h : Idle D s) (hspeed : ∀ n, txDevider f (port n).speed = D)
    (hvalid : (port 0).sinkTxValid = true) :
    ∃ start > 0, FrameOn D (fun n => (trace (Arinc429Tx.step f) s port n).line)
      (port 0).sinkTxData start := by
  have hsend := h.send (hspeed 0) hvalid
  have hentry : s.entryPosition D ≤ 4 * D := phase_lt h.running
  have hlt := h.running.cnt_lt
  generalize s.entryPosition D = x at hsend hentry
  have hfirst : trace (Arinc429Tx.step f) s port 1 = s.step f (port 0) := rfl
  rw [← hfirst] at hsend
  have hspeed' : ∀ n, txDevider f (port (1 + n)).speed = D := fun n => hspeed _
  have hrun : ∀ j, x + j < 36 * (4 * D) →
      Sending D (port 0).sinkTxData (x + j) (trace (Arinc429Tx.step f) s port (1 + j)) := by
    intro j hj
    rw [trace_add]
    exact sending_run hsend hspeed' hj
  obtain ⟨m, hm⟩ : ∃ m, x + m + 1 = 36 * (4 * D) := ⟨36 * (4 * D) - x - 1, by omega⟩
  have hgap0 : Gap D 0 (trace (Arinc429Tx.step f) s port (1 + m + 1)) :=
    (hrun m (by omega)).last hm (hspeed (1 + m))
  have hgap : ∀ j < 18 * D, Gap D j (trace (Arinc429Tx.step f) s port (1 + m + 1 + j)) := by
    intro j hj
    rw [trace_add]
    exact gap_run hgap0 (fun n => hspeed _) hj
  refine ⟨1 + (18 * D - x), by omega, fun t ht => ?_, fun t ht => ?_, fun t hlo hhi => ?_⟩
  · cases t with
    | zero => exact line_of_resting h.running h.bits
    | succ t =>
        rw [Nat.add_comm, (hrun t (by omega)).line_eq, if_neg (by omega)]
  · by_cases hlast : t < 126 * D
    · rw [show 1 + (18 * D - x) + t = 1 + (18 * D - x + t) by omega,
        (hrun (18 * D - x + t) (by omega)).line_eq, if_pos (by omega)]
      congr 1
      omega
    · rw [frameLine_tail _ (by omega) ht,
        show 1 + (18 * D - x) + t = 1 + m + 1 + (t - 126 * D) by omega,
        (hgap _ (by omega)).line_eq (by omega)]
  · rw [show 1 + (18 * D - x) + t = 1 + m + 1 + (t - 126 * D) by omega,
      (hgap _ (by omega)).line_eq (by omega)]

end Arinc429Tx

/-! ## The receiver on the line -/

/-- In the cycles from `lo` to `hi` exactly one word is delivered, in cycle `n`: the 31
bits of `w` with odd parity, and no parity error. -/
structure DeliversWord (run : Nat → Arinc429Rx) (w : Word) (lo hi n : Nat) : Prop where
  within : lo ≤ n ∧ n ≤ hi
  valid : (run n).srcRxValid = true
  once : ∀ k, lo ≤ k → k ≤ hi → (run k).srcRxValid = true → k = n
  word : IsFrame w (run n).srcRxData.getLsbD
  parity : (run n).parErr = false

theorem lineHas_of_frameLine {D : Nat} {pins : Nat → RxPins} {w : Word}
    (h : ∀ t < 128 * D, (pins t).line = frameLine D w t) :
    Arinc429Rx.LineHas D pins (frameBit w) 32 := by
  intro i hi
  have hle := Nat.mul_le_mul_left (4 * D) (show i + 1 ≤ 32 from hi)
  rw [Nat.mul_add] at hle
  constructor
  · intro k hk
    obtain ⟨hquot, hrest⟩ := div_mod_of_eq (x := 4 * D * i + k) (T := 4 * D) (q := i) (r := k)
      (by omega) (by omega)
    rw [h _ (by omega), frameLine, hrest, hquot, if_pos hk]
  · intro k hk
    have hrest := (div_mod_of_eq (x := 4 * D * i + 2 * D + k) (T := 4 * D) (q := i)
      (r := 2 * D + k) (by omega) (by omega)).2
    rw [h _ (by omega), frameLine, hrest, if_neg (by omega)]

theorem isFrame_of_bits {w v : Word} (h : ∀ j < 32, v.getLsbD j = frameBit w j) :
    IsFrame w v.getLsbD := by
  have hframe := isFrame_frameBit w
  refine ⟨fun j hj => by rw [h j (by omega), hframe.data j hj], ?_⟩
  rw [← hframe.odd]
  congr 1
  apply List.countP_congr
  intro j hj
  rw [h j (List.mem_range.mp hj)]

namespace Arinc429Rx

variable {D E f : Nat} {s : Arinc429Rx} {pins : Nat → RxPins} {w : Word}

/-- A receiver at rest in cycle `lo` delivers the word of the next frame on its line. -/
theorem receives_word (h : Sound E s) (hspeed : ∀ n, rxDevider f (pins n).speed = E)
    (hlo : 8 * E ≤ D) (hhi : D ≤ 9 * E) {lo start last : Nat}
    (hsettle : 16 * D ≤ lo) (hls : lo ≤ start) (hlast : start + 144 * D ≤ last)
    (hbefore : ∀ t, lo - 16 * D ≤ t → t < start → (pins t).line = .null)
    (hframe : ∀ t < 128 * D, (pins (start + t)).line = frameLine D w t)
    (hafter : ∀ t, start + 128 * D ≤ t → t < last → (pins t).line = .null) :
    ∃ n, DeliversWord (trace (step f) s pins) w lo last n := by
  have hidle : ∀ t, lo ≤ t → t ≤ start → Idle E (trace (step f) s pins t) := by
    intro t hlt hts
    have hsound := sound_run h hspeed (lo - 16 * D)
    have hquiet : Idle E (trace (step f) (trace (step f) s pins (lo - 16 * D))
        (fun k => pins (lo - 16 * D + k)) (16 * D)) :=
      null_line_idles hsound (fun n => hspeed _) (by omega)
        (fun k hk => hbefore _ (by omega) (by omega))
    rw [← trace_add, show lo - 16 * D + 16 * D = lo by omega] at hquiet
    have hstay : Idle E (trace (step f) (trace (step f) s pins lo)
        (fun k => pins (lo + k)) (t - lo)) :=
      idle_run_null hquiet (fun n => hspeed _) (fun k hk => hbefore _ (by omega) (by omega))
    rwa [← trace_add, show lo + (t - lo) = t by omega] at hstay
  obtain ⟨gap, rfl⟩ : ∃ gap, last = start + (128 * D + gap) :=
    ⟨last - start - 128 * D, by omega⟩
  have hnull : ∀ k < gap, (pins (start + (128 * D + k))).line = .null :=
    fun k hk => hafter _ (by omega) (by omega)
  obtain ⟨⟨n, hn⟩, _⟩ := receives_frame (hidle start hls (Nat.le_refl _)) (fun k => hspeed _)
    hlo hhi (lineHas_of_frameLine hframe) (by omega) hnull
  have hshift : ∀ k, trace (step f) (trace (step f) s pins start) (fun k => pins (start + k)) k =
      trace (step f) s pins (start + k) := fun k => (trace_add ..).symm
  have hwithin := hn.within
  refine ⟨start + n, by omega, ?_, fun k hlk hkl hvalid => ?_, ?_, ?_⟩
  · rw [← hshift, hn.valid]
  · by_cases hk : k < start
    · rw [(hidle k hlk (by omega)).srcRxValid] at hvalid
      cases hvalid
    · have honce := hn.once (k - start) (by omega)
      rw [hshift, show start + (k - start) = k by omega] at honce
      have heq := honce hvalid
      omega
  · rw [← hshift]
    exact isFrame_of_bits hn.data
  · rw [← hshift, hn.parity, frame_odd]
    rfl

end Arinc429Rx

/-! ## The round trip -/

theorem label_order {w : Word} {txconfig : BitVec 4} {i : RxInput}
    (horder : i.rxconfig.getLsbD 7 = txconfig.getLsbD 2)
    (hword : IsFrame (TxController.wordToTrancieve txconfig w) i.port.recievedWord.getLsbD) :
    ∀ j < 31, (arincDataOut i).getLsbD j = w.getLsbD j := by
  intro j hj
  have hdata := hword.data
  unfold arincDataOut
  rw [horder]
  cases ht : txconfig.getLsbD 2 with
  | true =>
      simp only [TxController.wordToTrancieve, ht, if_true] at hdata
      rw [if_pos rfl, hdata j hj]
  | false =>
      simp only [TxController.wordToTrancieve, ht, Bool.false_eq_true, if_false] at hdata
      rw [if_neg Bool.false_ne_true, reverseLabel_getLsbD _ (by omega),
        hdata _ (by split <;> omega), ← reverseLabel_getLsbD _ (by omega),
        reverseLabel_reverseLabel]

/-- The clock of `arinc429.sv`. -/
def inputFrequency : Nat := 62500000

/-- Half a bit time is between 8 and 9 sampling periods at every speed. -/
theorem deviders_match : ∀ speed : BitVec 2, speed ≠ 0#2 →
    8 * rxDevider inputFrequency speed ≤ txDevider inputFrequency speed ∧
      txDevider inputFrequency speed ≤ 9 * rxDevider inputFrequency speed ∧
      0 < rxDevider inputFrequency speed ∧ txDevider inputFrequency speed ≤ 65536 := by
  decide

section RoundTrip

variable (speed : BitVec 2) (port : Nat → TxPort) (pins : Nat → RxPins)

def txRun : Nat → Arinc429Tx :=
  trace (Arinc429Tx.step inputFrequency) (.reset (txDevider inputFrequency speed)) port

def rxRun : Nat → Arinc429Rx :=
  trace (Arinc429Rx.step inputFrequency) (.reset (rxDevider inputFrequency speed) false) pins

def bitTime : Nat := 4 * txDevider inputFrequency speed

variable {speed port pins}

/-- A word that the ready serialiser is given in its cycle `m` is delivered once by a
receiver at the same speed. Cycle `n` of the serialiser is cycle `lag + n` of the
receiver, with any inputs of both before: its line is null for four bit times before
cycle `m`, and then the line of the serialiser. -/
theorem round_trip (hspeed : speed ≠ 0#2) (hport : ∀ n, (port n).speed = speed)
    (hpins : ∀ n, (pins n).speed = speed) {m lag : Nat} {txconfig : BitVec 4} {d : Word}
    (hready : (txRun speed port m).sinkTxReady = true)
    (hvalid : (port m).sinkTxValid = true)
    (hdata : (port m).sinkTxData = TxController.wordToTrancieve txconfig d)
    (hsettle : 4 * bitTime speed ≤ lag + m)
    (hquiet : ∀ t, t < lag + m → lag + m ≤ t + 4 * bitTime speed → (pins t).line = .null)
    (hwire : ∀ n ≥ m, (pins (lag + n)).line = (txRun speed port n).line) :
    ∃ start > m,
      CarriesWord (bitTime speed) (fun n => (txRun speed port n).line) start
        (port m).sinkTxData ∧
      (∀ n, start + 32 * bitTime speed ≤ n → n < start + 36 * bitTime speed →
        (txRun speed port n).line = .null) ∧
      ∀ last ≥ start + 36 * bitTime speed,
        (∀ n, start + 32 * bitTime speed ≤ n → n < last → (txRun speed port n).line = .null) →
        ∃ n, DeliversWord (rxRun speed pins) (port m).sinkTxData (lag + m) (lag + last) n ∧
          ∀ i : RxInput, i.port = (rxRun speed pins n).port →
            i.rxconfig.getLsbD 7 = txconfig.getLsbD 2 →
            ∀ j < 31, (arincDataOut i).getLsbD j = d.getLsbD j := by
  obtain ⟨hlo, hhi, hE, hfits⟩ := deviders_match speed hspeed
  have htx : ∀ n, txDevider inputFrequency (port n).speed = txDevider inputFrequency speed :=
    fun n => by rw [hport]
  have hrx : ∀ n, rxDevider inputFrequency (pins n).speed = rxDevider inputFrequency speed :=
    fun n => by rw [hpins]
  unfold bitTime at hsettle hquiet ⊢
  unfold txRun at hready hwire ⊢
  unfold rxRun
  generalize txDevider inputFrequency speed = D at hlo hhi hfits htx hready hsettle hquiet hwire ⊢
  generalize rxDevider inputFrequency speed = E at hlo hhi hE hrx ⊢
  have hlive := Arinc429Tx.live_run (Or.inl (.reset (by omega) hfits)) htx m
  have hspeed' : ∀ n, txDevider inputFrequency (port (m + n)).speed = D := fun n => htx _
  obtain ⟨start, hpos, hframe⟩ := (hlive.idle_of_ready hready).sends_frame hspeed' hvalid
  have hline : ∀ n, (trace (Arinc429Tx.step inputFrequency)
      (trace (Arinc429Tx.step inputFrequency) (.reset D) port m) (fun n => port (m + n)) n).line =
      (trace (Arinc429Tx.step inputFrequency) (.reset D) port (m + n)).line :=
    fun n => by rw [trace_add]
  have hbefore := hframe.before
  have hword := hframe.frame
  have hafter := hframe.after
  simp only [hline, Nat.add_zero] at hbefore hword hafter
  refine ⟨m + start, by omega, carriesWord_of_frameLine fun t ht => ?_, fun n hn hn2 => ?_,
    fun last hlast hnull => ?_⟩
  · rw [Nat.add_assoc]
    exact hword t (by omega)
  · have hgap := hafter (n - m - start) (by omega) (by omega)
    rwa [show m + (start + (n - m - start)) = n by omega] at hgap
  · have hwired : ∀ t, lag + m ≤ t → (pins t).line =
        (trace (Arinc429Tx.step inputFrequency) (.reset D) port (t - lag)).line := by
      intro t ht
      rw [← hwire (t - lag) (by omega), show lag + (t - lag) = t by omega]
    have hnull' : ∀ t, lag + m - 16 * D ≤ t → t < lag + (m + start) → (pins t).line = .null := by
      intro t ht ht2
      by_cases hold : t < lag + m
      · exact hquiet t hold (by omega)
      · rw [hwired t (by omega), ← hbefore (t - lag - m) (by omega),
          show m + (t - lag - m) = t - lag by omega]
    have hword' : ∀ t < 128 * D,
        (pins (lag + (m + start) + t)).line = frameLine D (port m).sinkTxData t := by
      intro t ht
      rw [Nat.add_assoc, hwire _ (by omega), Nat.add_assoc]
      exact hword t ht
    have hafter' : ∀ t, lag + (m + start) + 128 * D ≤ t → t < lag + last →
        (pins t).line = .null := by
      intro t ht ht2
      rw [hwired t (by omega)]
      exact hnull _ (by omega) (by omega)
    obtain ⟨n, hn⟩ := Arinc429Rx.receives_word (.reset hE (by omega) false) hrx hlo hhi
      (show 16 * D ≤ lag + m by omega) (by omega) (by omega) hnull' hword' hafter'
    refine ⟨n, hn, fun i hi horder => label_order horder ?_⟩
    rw [hi, ← hdata]
    exact hn.word

end RoundTrip

/-- One word in cycle 0 of the serialiser, at 100 kbit/s. -/
def oneWord (n : Nat) : TxPort := ⟨n == 0, reverseLabel 0x12345678#32, 3#2⟩

/-- A line that is null for four bit times and then that of the serialiser. -/
def oneWordLine (n : Nat) : RxPins :=
  ⟨3#2, if n < 2496 then .null else (txRun 3#2 oneWord (n - 2496)).line⟩

theorem round_trip_one_word :
    ∃ last n, DeliversWord (rxRun 3#2 oneWordLine) (reverseLabel 0x12345678#32) 2496 last n := by
  have hwire : ∀ n ≥ 0, (oneWordLine (2496 + n)).line = (txRun 3#2 oneWord n).line := by
    intro n _
    simp only [oneWordLine, Nat.add_sub_cancel_left]
    rw [if_neg (by omega)]
  have hquiet : ∀ t, t < 2496 + 0 → 2496 + 0 ≤ t + 4 * bitTime 3#2 →
      (oneWordLine t).line = .null := by
    intro t ht _
    simp only [oneWordLine]
    rw [if_pos (by omega)]
  have hdata : (oneWord 0).sinkTxData = TxController.wordToTrancieve 3#4 0x12345678#32 := rfl
  obtain ⟨start, _, _, hgap, hdelivers⟩ := round_trip (show 3#2 ≠ 0#2 by decide) (fun _ => rfl)
    (fun _ => rfl) rfl rfl hdata (show 4 * bitTime 3#2 ≤ 2496 + 0 by decide) hquiet hwire
  obtain ⟨n, hn, _⟩ := hdelivers _ (Nat.le_refl _) hgap
  exact ⟨_, n, hn⟩

end Mfi.Arinc429
