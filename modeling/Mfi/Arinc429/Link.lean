import Mathlib.Tactic.Choose
import Mfi.Arinc429.RoundTrip

/-!
# An ARINC 429 link

The line of a transmitter goes to a receiver at the same speed. Every word that the transmit
FIFO takes is delivered once, in order, and nothing else is.
-/

namespace Mfi.Arinc429

open Core

/-! ## The receiver on a line of frames -/

/-- From cycle `lag` on the line carries frames `0`, `1` and so on, as many as satisfy `P`, with
four bit times of null between them. -/
structure Frames (D lag : Nat) (line : Nat → Line) (P : Nat → Prop) (word : Nat → Word)
    (start : Nat → Nat) : Prop where
  settle : 16 * D ≤ lag
  quiet : ∀ t, t < lag → lag ≤ t + 16 * D → line t = .null
  first : ∀ k, P k → lag ≤ start k
  spaced : ∀ j k, j < k → P k → start j + 144 * D ≤ start k
  frame : ∀ k, P k → ∀ t < 128 * D, line (start k + t) = frameLine D (word k) t
  null : ∀ t, lag ≤ t → (∀ k, P k → t < start k ∨ start k + 128 * D ≤ t) → line t = .null

namespace Frames

variable {D lag : Nat} {line : Nat → Line} {P : Nat → Prop} {word : Nat → Word}
  {start : Nat → Nat} {k t n : Nat}

theorem starts_mono (h : Frames D lag line P word start) {j : Nat} (hjk : j ≤ k) (hk : P k) :
    start j ≤ start k := by
  rcases Nat.eq_or_lt_of_le hjk with rfl | hlt
  · exact Nat.le_refl _
  · have hspaced := h.spaced j k hlt hk
    omega

theorem null_before (h : Frames D lag line P word start) (hk : P k) (hlo : start k ≤ t + 16 * D)
    (hhi : t < start k) : line t = .null := by
  by_cases ht : t < lag
  · have hfirst := h.first k hk
    exact h.quiet t ht (by omega)
  · apply h.null t (by omega)
    intro j hj
    by_cases hjk : j < k
    · have hspaced := h.spaced j k hjk hk
      omega
    · have hmono := h.starts_mono (Nat.not_lt.mp hjk) hj
      omega

theorem null_after (h : Frames D lag line P word start) (hk : P k)
    (hnext : ∀ j > k, P j → t < start j) (hlo : start k + 128 * D ≤ t) : line t = .null := by
  have hfirst := h.first k hk
  apply h.null t (by omega)
  intro j hj
  by_cases hjk : j ≤ k
  · have hmono := h.starts_mono hjk hk
    omega
  · exact .inl (hnext j (by omega) hj)

theorem exists_last (h : Frames D lag line P word start) (hD : 0 < D) (hk : P k)
    (hn : start k ≤ n) : ∃ j, P j ∧ start j ≤ n ∧ ∀ i > j, P i → n < start i := by
  induction hd : n - start k using Nat.strongRecOn generalizing k with
  | ind d ih =>
      by_cases hlast : ∀ i > k, P i → n < start i
      · exact ⟨k, hk, hn, hlast⟩
      · obtain ⟨i, hik, hi, hle⟩ : ∃ i > k, P i ∧ start i ≤ n := by
          simpa only [not_forall, exists_prop, Nat.not_lt] using hlast
        have hspaced := h.spaced k i hik hi
        exact ih (n - start i) (by omega) hi hle rfl

end Frames

namespace Arinc429Rx

variable {D E f lag : Nat} {s : Arinc429Rx} {pins : Nat → RxPins} {P : Nat → Prop}
  {word : Nat → Word} {start : Nat → Nat}

theorem idle_after_null (h : Sound E s) (hspeed : ∀ n, rxDevider f (pins n).speed = E)
    (hlo : 8 * E ≤ D) {t : Nat} (hsettle : 16 * D ≤ t)
    (hnull : ∀ k, k < t → t ≤ k + 16 * D → (pins k).line = .null) :
    Idle E (trace (step f) s pins t) := by
  have hquiet : Idle E (trace (step f) (trace (step f) s pins (t - 16 * D))
      (fun k => pins (t - 16 * D + k)) (16 * D)) :=
    null_line_idles (sound_run h hspeed (t - 16 * D)) (fun n => hspeed _) (by omega)
      (fun k hk => hnull _ (by omega) (by omega))
  rwa [← trace_add, show t - 16 * D + 16 * D = t by omega] at hquiet

theorem receives_next (h : Sound E s) (hspeed : ∀ n, rxDevider f (pins n).speed = E)
    (hlo : 8 * E ≤ D) (hhi : D ≤ 9 * E)
    (hframes : Frames D lag (fun n => (pins n).line) P word start) {k : Nat} (hk : P k)
    {last : Nat} (hlast : start k + 144 * D ≤ last) (hnext : ∀ j > k, P j → last ≤ start j) :
    ∃ n, start k < n ∧ DeliversWord (trace (step f) s pins) (word k) (start k) last n := by
  have hfirst := hframes.first k hk
  have hsettle := hframes.settle
  have hidle := idle_after_null (t := start k) h hspeed hlo (by omega)
    (fun t ht hlt => hframes.null_before hk hlt ht)
  obtain ⟨n, hn⟩ := receives_word h hspeed hlo hhi (by omega) (Nat.le_refl (start k)) hlast
    (fun t hlt ht => hframes.null_before hk (by omega) ht) (hframes.frame k hk)
    (fun t hlt ht => hframes.null_after hk
      (fun j hj hPj => Nat.lt_of_lt_of_le ht (hnext j hj hPj)) hlt)
  refine ⟨n, ?_, hn⟩
  rcases Nat.eq_or_lt_of_le hn.within.1 with rfl | hlt
  · have hvalid := hn.valid
    rw [hidle.srcRxValid] at hvalid
    exact absurd hvalid nofun
  · exact hlt

/-- Every frame is delivered in its turn, and nothing else is. -/
theorem receives_frames (h : Sound E s) (hspeed : ∀ n, rxDevider f (pins n).speed = E)
    (hlo : 8 * E ≤ D) (hhi : D ≤ 9 * E) (hD : 0 < D)
    (hframes : Frames D lag (fun n => (pins n).line) P word start) :
    ∃ when : Nat → Nat,
      (∀ k, P k → start k < when k ∧
        DeliversWord (trace (step f) s pins) (word k) (start k) (start k + 144 * D) (when k)) ∧
      ∀ n ≥ lag, (trace (step f) s pins n).srcRxValid = true → ∃ k, P k ∧ n = when k := by
  have hone : ∀ k, P k → ∃ n, start k < n ∧
      DeliversWord (trace (step f) s pins) (word k) (start k) (start k + 144 * D) n :=
    fun k hk => receives_next h hspeed hlo hhi hframes hk (Nat.le_refl _)
      (fun j hj hPj => hframes.spaced k j hj hPj)
  choose! when hwhen using hone
  refine ⟨when, hwhen, fun n hn hvalid => ?_⟩
  have hsettle := hframes.settle
  by_cases hbegun : ∃ k, P k ∧ start k ≤ n
  · obtain ⟨i, hi, hin⟩ := hbegun
    obtain ⟨k, hk, hkn, hlast⟩ := hframes.exists_last hD hi hin
    obtain ⟨_, hthis⟩ := hwhen k hk
    -- the delivery of frame `k` and that of cycle `n` are in one window
    have hlater : ∀ j > k, P j → max n (start k + 144 * D) ≤ start j := by
      intro j hj hPj
      have hspaced := hframes.spaced k j hj hPj
      have hlater := hlast j hj hPj
      omega
    obtain ⟨m, _, hm⟩ :=
      receives_next h hspeed hlo hhi hframes hk (Nat.le_max_right _ _) hlater
    have hnm := hm.once n hkn (Nat.le_max_left _ _) hvalid
    have hwm := hm.once _ hthis.within.1
      (Nat.le_trans hthis.within.2 (Nat.le_max_right _ _)) hthis.valid
    exact ⟨k, hk, hnm.trans hwm.symm⟩
  · have hidle := idle_after_null (t := n) h hspeed hlo (by omega) (fun t ht hlt => by
      by_cases hquiet : t < lag
      · exact hframes.quiet t hquiet (by omega)
      · apply hframes.null t (by omega)
        intro j hj
        have hlater : ¬ start j ≤ n := fun hle => hbegun ⟨j, hj, hle⟩
        omega)
    rw [hidle.srcRxValid] at hvalid
    exact absurd hvalid nofun

end Arinc429Rx

/-! ## The transmitter on the line -/

section Transmit

variable {D f lag : Nat} {inp : Nat → TxInput} {line : Nat → Line}

theorem exists_sentWords (hinv : TxRuns D f inp)
    (hfair : ∀ n, ∃ m ≥ n, 0 < (inp m).fifoDelay.arrive) :
    ∃ entry : Nat → SentWord,
      (∀ k w, Recorded (accepted f inp) k w →
        (entry k).word = w ∧ ∃ m, (sent f inp D m)[k]? = some (entry k)) ∧
      ∀ m k e, (sent f inp D m)[k]? = some e →
        entry k = e ∧ Recorded (accepted f inp) k e.word := by
  have hne : Nonempty SentWord := ⟨⟨0, 0, 0⟩⟩
  obtain ⟨entry, hentry⟩ := exists_entries (l := sent f inp D) sent_prefix
  refine ⟨entry, fun k w hk => ?_, fun m k e he => ⟨hentry k e ⟨m, he⟩, m, ?_⟩⟩
  · obtain ⟨m, e, he, hw⟩ := written_sent hinv hfair hk
    have heq := hentry k e ⟨m, he⟩
    rw [heq]
    exact ⟨hw, m, he⟩
  · have hk := (List.getElem?_eq_some_iff.mp he).1
    rw [(hinv m).words, List.append_assoc, List.getElem?_append_left (by simpa using hk),
      List.getElem?_map, he]
    rfl

/-- The line of the transmitter, seen `lag` cycles later, is a line of frames. -/
theorem transmits_frames (hinv : TxRuns D f inp)
    (hfair : ∀ n, ∃ m ≥ n, 0 < (inp m).fifoDelay.arrive) (hsettle : 16 * D ≤ lag)
    (hquiet : ∀ t, t < lag → lag ≤ t + 16 * D → line t = .null)
    (hwire : ∀ n, line (lag + n) = (trace (TxController.step f) .reset inp n).tx.line) :
    ∃ entry : Nat → SentWord,
      (∀ k w, Recorded (accepted f inp) k w → (entry k).word = w) ∧
      Frames D lag line (fun k => ∃ w, Recorded (accepted f inp) k w)
        (fun k => (entry k).onLine inp) (fun k => lag + (entry k).start) := by
  obtain ⟨entry, hentry, hall⟩ := exists_sentWords hinv hfair
  refine ⟨entry, fun k w hk => (hentry k w hk).1, hsettle, hquiet,
    fun _ _ => Nat.le_add_right _ _, ?_, ?_, ?_⟩
  · rintro j k hjk ⟨w, hk⟩
    obtain ⟨_, m, hm⟩ := hentry k w hk
    obtain ⟨hklt, hkget⟩ := List.getElem?_eq_some_iff.mp hm
    have hj : (sent f inp D m)[j]? = some (sent f inp D m)[j] :=
      List.getElem?_eq_getElem (by omega)
    have hspaced := List.pairwise_iff_getElem.mp (hinv m).spaced j k (by omega) hklt hjk
    rw [← (hall m j _ hj).1, hkget] at hspaced
    omega
  · rintro k ⟨w, hk⟩ t ht
    obtain ⟨_, m, hm⟩ := hentry k w hk
    rw [Nat.add_assoc, hwire]
    exact sent_carried hinv (List.mem_of_getElem? hm) ht
  · intro t ht hout
    obtain ⟨n, rfl⟩ := Nat.exists_eq_add_of_le ht
    rw [hwire]
    apply (hinv n).lineNow.null
    intro e he
    obtain ⟨k, hk, hget⟩ := List.getElem_of_mem he
    have hsome : (sent f inp D n)[k]? = some e := by rw [List.getElem?_eq_getElem hk, hget]
    obtain ⟨rfl, hrec⟩ := hall n k e hsome
    have hbound := hout k ⟨_, hrec⟩
    omega

end Transmit

/-- A transmitter with a constant configuration and a receiver at its speed, which sees the line
`lag` cycles later and saw it null for four bit times before: every word that the transmit FIFO
takes is delivered once, in order and without a parity error, and the receive controller with
the same label order finds its 31 bits; no other word is ever delivered. -/
theorem link_delivers {speed : BitVec 2} {txconfig : BitVec 4} {inp : Nat → TxInput}
    {pins : Nat → RxPins} {lag : Nat} (hspeed : speed ≠ 0#2)
    (hconfig : ∀ n, (inp n).txconfig = txconfig) (htx : txconfig.extractLsb' 0 2 = speed)
    (hpins : ∀ n, (pins n).speed = speed) (hfair : ∀ n, ∃ m ≥ n, 0 < (inp m).fifoDelay.arrive)
    (hsettle : 4 * bitTime speed ≤ lag)
    (hquiet : ∀ t, t < lag → lag ≤ t + 4 * bitTime speed → (pins t).line = .null)
    (hwire : ∀ n, (pins (lag + n)).line =
      (trace (TxController.step inputFrequency) .reset inp n).tx.line) :
    ∃ when : Nat → Nat,
      (∀ k w, Recorded (accepted inputFrequency inp) k w →
        (rxRun speed pins (when k)).srcRxValid = true ∧
        (rxRun speed pins (when k)).parErr = false ∧
        ∀ i : RxInput, i.port = (rxRun speed pins (when k)).port →
          i.rxconfig.getLsbD 7 = txconfig.getLsbD 2 →
          ∀ j < 31, (arincDataOut i).getLsbD j = w.getLsbD j) ∧
      (∀ j k, j < k → (∃ w, Recorded (accepted inputFrequency inp) k w) → when j < when k) ∧
      ∀ n ≥ lag, (rxRun speed pins n).srcRxValid = true →
        ∃ k, (∃ w, Recorded (accepted inputFrequency inp) k w) ∧ n = when k := by
  obtain ⟨hlo, hhi, hE, hfits⟩ := deviders_match speed hspeed
  have hrx : ∀ n, rxDevider inputFrequency (pins n).speed = rxDevider inputFrequency speed :=
    fun n => by rw [hpins]
  have htxDevider : ∀ n, txDevider inputFrequency ((inp n).txconfig.extractLsb' 0 2) =
      txDevider inputFrequency speed := fun n => by rw [hconfig, htx]
  unfold bitTime at hsettle hquiet
  unfold rxRun
  generalize txDevider inputFrequency speed = D at hlo hhi hfits hsettle hquiet htxDevider
  generalize rxDevider inputFrequency speed = E at hlo hhi hE hrx ⊢
  have hquiet' : ∀ t, t < lag → lag ≤ t + 16 * D → (pins t).line = .null :=
    fun t ht hlt => hquiet t ht (by omega)
  obtain ⟨entry, hword, hframes⟩ := transmits_frames
    (tx_run (show 0 < D by omega) hfits htxDevider) hfair (show 16 * D ≤ lag by omega) hquiet'
    hwire
  obtain ⟨when, hwhen, honly⟩ := Arinc429Rx.receives_frames
    (.reset hE (show E ≤ 65536 by omega) false) hrx hlo hhi (show 0 < D by omega) hframes
  refine ⟨when, fun k w hk => ?_, fun j k hjk ⟨w, hk⟩ => ?_, honly⟩
  · obtain ⟨_, hdelivers⟩ := hwhen k ⟨w, hk⟩
    refine ⟨hdelivers.valid, hdelivers.parity, fun i hi horder => label_order horder ?_⟩
    have hframe := hdelivers.word
    rw [SentWord.onLine, hconfig, hword k w hk] at hframe
    rw [hi]
    exact hframe
  · obtain ⟨n, hn⟩ := hk
    have hklt := (List.getElem?_eq_some_iff.mp hn).1
    have hj : Recorded (accepted inputFrequency inp) j (accepted inputFrequency inp n)[j] :=
      ⟨n, List.getElem?_eq_getElem (by omega)⟩
    have hbefore := (hwhen j ⟨_, hj⟩).2.within.2
    have hafter := (hwhen k ⟨w, n, hn⟩).1
    have hspaced := hframes.spaced j k hjk ⟨w, n, hn⟩
    omega

/-- A host that writes a word every 5000 cycles, at 100 kbit/s, and a receiver on its line. -/
def steadyWrites (n : Nat) : TxInput where
  txconfig := 0x3#4
  irqClear := false
  buferData := BitVec.ofNat 32 n
  buferWr := n % 5000 == 5
  fifoDelay := ⟨1, 1⟩

def steadyLine (n : Nat) : RxPins :=
  ⟨3#2, if n < 2496 then .null
    else (trace (TxController.step inputFrequency) .reset steadyWrites (n - 2496)).tx.line⟩

theorem link_delivers_steady :
    ∃ when : Nat → Nat, ∀ n ≥ 2496, (rxRun 3#2 steadyLine n).srcRxValid = true →
      ∃ k, (∃ w, Recorded (accepted inputFrequency steadyWrites) k w) ∧ n = when k := by
  have hconfig : ∀ n, (steadyWrites n).txconfig = 0x3#4 := fun _ => rfl
  have hpins : ∀ n, (steadyLine n).speed = 3#2 := fun _ => rfl
  have hquiet : ∀ t, t < 2496 → 2496 ≤ t + 4 * bitTime 3#2 → (steadyLine t).line = .null := by
    intro t ht _
    unfold steadyLine
    exact if_pos ht
  have hwire : ∀ n, (steadyLine (2496 + n)).line =
      (trace (TxController.step inputFrequency) .reset steadyWrites n).tx.line := by
    intro n
    unfold steadyLine
    rw [if_neg (by omega), Nat.add_sub_cancel_left]
  obtain ⟨when, _, _, honly⟩ := link_delivers (by decide) hconfig rfl hpins
    (fun n => ⟨n, Nat.le_refl n, Nat.one_pos⟩) (by decide) hquiet hwire
  exact ⟨when, honly⟩

end Mfi.Arinc429
