import Mfi.Core.Search
import Mfi.Core.Stretches
import Mfi.LvdsSerdes.Shifter

/-!
# The second LVDS receiver

`LVDS_RX_Single` of `LVDS_Receiver_Serdes.sv`: the deserializer of the device, the registers of
the video and the machine that asks the deserializer for slips until the words are right.
-/

namespace Mfi.LvdsSerdes

open Core

structure Single where
  ctrlDelay : BitVec 3
  hsyncN : Bool
  vsyncN : Bool
  de : Bool
  data : BitVec 24
  shifter : Shifter
  deriving DecidableEq, Repr

namespace Single

/-- One clock of the video, with the word of the deserializer. -/
def step (r : Single) (busOut : BitVec 28) : Single where
  ctrlDelay := busOut.extractLsb' 18 3
  hsyncN := r.ctrlDelay.getLsbD 0
  vsyncN := r.ctrlDelay.getLsbD 1
  de := r.ctrlDelay.getLsbD 2
  data := busOut.extractLsb' 21 2 ++ busOut.extractLsb' 0 6 ++ busOut.extractLsb' 23 2 ++
    busOut.extractLsb' 6 6 ++ busOut.extractLsb' 25 2 ++ busOut.extractLsb' 12 6
  shifter := r.shifter.step r.hsyncN

variable (s : Single) (busOut : Nat → BitVec 28)

abbrev run (n : Nat) : Single := trace step s busOut n

def hsync (n : Nat) : Bool := (run s busOut n).hsyncN

def align (n : Nat) : Bool := (run s busOut n).shifter.align

def locked (n : Nat) : Bool := (run s busOut n).shifter.locked

theorem run_shifter (n : Nat) :
    (run s busOut n).shifter = Shifter.run s.shifter (hsync s busOut) n :=
  trace_part Single.shifter (fun _ => rfl) n

theorem hsync_add (n : Nat) : hsync s busOut (n + 2) = (busOut n).getLsbD 18 := by
  change ((busOut n).extractLsb' 18 3).getLsbD 0 = _
  rw [BitVec.getLsbD_extractLsb']
  rfl

end Single

/-! ## Slips -/

/-- The rising edges of a line up to cycle `n`. -/
def edges (line : Nat → Bool) : Nat → Nat
  | 0 => 0
  | n + 1 => if !line n && line (n + 1) then edges line n + 1 else edges line n

section Edges

variable {line : Nat → Bool}

theorem edges_succ (n : Nat) :
    edges line (n + 1) = if !line n && line (n + 1) then edges line n + 1 else edges line n := rfl

theorem edges_mono {m n : Nat} (hmn : m ≤ n) : edges line m ≤ edges line n := by
  induction hmn with
  | refl => exact Nat.le_refl _
  | step _ ih =>
      refine Nat.le_trans ih ?_
      rw [edges_succ]
      split <;> omega

theorem edges_same {m n : Nat} (hmn : m ≤ n)
    (h : ∀ c, m ≤ c → c < n → line c = false → line (c + 1) = false) :
    edges line n = edges line m := by
  induction hmn with
  | refl => rfl
  | @step n hmn ih =>
      have hsame := ih fun c hfrom hto => h c hfrom (Nat.lt_succ_of_lt hto)
      rw [edges_succ, ← hsame]
      cases hnow : line n with
      | true => rfl
      | false =>
          rw [h n hmn (Nat.lt_succ_self n) hnow]
          rfl

theorem edges_rise {n : Nat} (hlow : line n = false) (hhigh : line (n + 1) = true) :
    edges line (n + 1) = edges line n + 1 := by
  rw [edges_succ, hlow, hhigh]
  rfl

end Edges

/-- What the documentation of the deserializer says: each rising edge of its alignment input moves
the words by one of seven bits, and some cycles later the words are those of the new place. -/
structure Deserializes (latency : Nat) (words : Nat → Nat → BitVec 28) (align : Nat → Bool)
    (busOut : Nat → BitVec 28) : Prop where
  settled : ∀ n, (∀ k ≤ latency, edges align (n - k) = edges align n) →
    busOut n = words (edges align n % 7) n

/-- A sync with short pulses which are not far from each other. -/
structure Steady (sync : Nat → Bool) (n : Nat) : Prop where
  high : ∀ m ≥ n, ∃ k ≤ 22, sync (m + k) = true
  low : ∀ m ≥ n, ∃ k < 2024, sync (m + k) = false

/-! ## The rounds of the receiver -/

/-- In a round that asks for a slip the sync was not steady until then. -/
theorem Round.locks_of_steady {hsync sync : Nat → Bool} {n n' : Nat} {ok : Bool}
    (hr : Round hsync n n' ok) (hsteady : Steady sync n)
    (hsame : ok = false → ∀ c, n ≤ c → c + 196 ≤ n' → hsync c = sync c) : ok = true := by
  cases hr with
  | locks hp hlt hslips => rfl
  | @slips w l hp hlt hslips =>
      have hsame := hsame rfl
      obtain ⟨k, hk, hhigh⟩ := hsteady.high (n + w) (by omega)
      have hlong : 23 ≤ l := by
        have hmod := Nat.mod_le (l - 1) (2 ^ 10)
        unfold Slips at hslips
        omega
      have hlow := hp.low k (by omega)
      rw [hsame (n + w + k) (by omega) (by omega), hhigh] at hlow
      exact hlow.symm
  | silent hnone =>
      have hsame := hsame rfl
      obtain ⟨j, hj, hlow⟩ := hsteady.low n (Nat.le_refl n)
      have hthere : hsync (n + j) = false := by rw [hsame _ (by omega) (by omega), hlow]
      obtain ⟨w, hwle, hw, hbefore⟩ := exists_first (f := fun k => hsync (n + k)) hthere
      obtain ⟨i, hi, hhigh⟩ := hsteady.high (n + w) (by omega)
      have hover : hsync (n + w + i) = true := by rw [hsame _ (by omega) (by omega), hhigh]
      obtain ⟨l, hlle, hl, hduring⟩ := exists_first (f := fun k => hsync (n + w + k)) hover
      have hpos : 0 < l := by
        rcases Nat.eq_zero_or_pos l with hzero | hpos
        · rw [hzero] at hl
          exact absurd (hw.symm.trans hl) Bool.false_ne_true
        · exact hpos
      have hle := hnone w l ⟨hbefore, hpos, hduring, hl⟩
      omega

theorem Round.length {hsync : Nat → Bool} {n n' : Nat} {ok : Bool} (hr : Round hsync n n' ok) :
    n' ≤ n + 2243 ∧ if ok then n + 3 ≤ n' else n + 197 ≤ n' := by
  cases hr with
  | locks hp hlt hslips =>
      have hpos := hp.pos
      rw [if_pos rfl]
      omega
  | slips hp hlt hslips =>
      have hpos := hp.pos
      rw [if_neg Bool.false_ne_true]
      omega
  | silent hnone =>
      rw [if_neg Bool.false_ne_true]
      omega

namespace Single

/-- The begins of the rounds of a run, and whether the words were locked at each. -/
structure InRounds (s : Single) (busOut : Nat → BitVec 28) (start : Nat → Nat) (ok : Nat → Bool) :
    Prop where
  first : start 0 ≤ 2245
  round : ∀ k, Round (hsync s busOut) (start k) (start (k + 1)) (ok (k + 1))
  outputs : ∀ k c, start k ≤ c → c < start (k + 1) →
    align s busOut c = alignIn (start (k + 1)) (ok (k + 1)) c ∧
      locked s busOut c = lockedIn (start (k + 1)) (ok (k + 1)) (ok k) c

theorem exists_inRounds (s : Single) (busOut : Nat → BitVec 28) :
    ∃ start ok, InRounds s busOut start ok := by
  obtain ⟨start, ok, hfirst, hround⟩ := Shifter.runs_in_rounds s.shifter (hsync s busOut)
  refine ⟨start, ok, hfirst, fun k => (hround k).1, fun k c hfrom hto => ?_⟩
  unfold align locked
  rw [run_shifter]
  exact (hround k).2 c hfrom hto

section Rounds

variable {s : Single} {busOut : Nat → BitVec 28} {start : Nat → Nat} {ok : Nat → Bool}

theorem InRounds.lt (h : InRounds s busOut start ok) (k : Nat) : start k < start (k + 1) :=
  (h.round k).lt

theorem InRounds.align_start (h : InRounds s busOut start ok) (k : Nat) :
    align s busOut (start k) = false := by
  have hlength := (h.round k).length.2
  rw [(h.outputs k _ (Nat.le_refl _) (h.lt k)).1, alignIn]
  cases hok : ok (k + 1) with
  | true => rfl
  | false =>
      rw [hok, if_neg Bool.false_ne_true] at hlength
      rw [Bool.not_false, Bool.true_and, decide_eq_false]
      omega

theorem InRounds.rise (h : InRounds s busOut start ok) {k c : Nat} (hfrom : start k ≤ c)
    (hto : c < start (k + 1)) (hlow : align s busOut c = false)
    (hhigh : align s busOut (c + 1) = true) : ok (k + 1) = false ∧ c + 195 = start (k + 1) := by
  rcases Nat.lt_or_ge (c + 1) (start (k + 1)) with hin | hend
  · rw [(h.outputs k c hfrom hto).1] at hlow
    rw [(h.outputs k (c + 1) (by omega) hin).1] at hhigh
    unfold alignIn at hlow hhigh
    rw [Bool.and_eq_true, Bool.not_eq_true', decide_eq_true_eq] at hhigh
    rw [hhigh.1, Bool.not_false, Bool.true_and, decide_eq_false_iff_not] at hlow
    exact ⟨hhigh.1, by omega⟩
  · rw [show c + 1 = start (k + 1) by omega, h.align_start] at hhigh
    exact absurd hhigh Bool.false_ne_true

theorem InRounds.rise_before (h : InRounds s busOut start ok) {k c : Nat} (hfrom : start 0 ≤ c)
    (hto : c < start k) (hlow : align s busOut c = false)
    (hhigh : align s busOut (c + 1) = true) : c + 195 ≤ start k := by
  obtain ⟨j, hj, hj'⟩ := exists_round_of_time h.lt hfrom
  have hlast := (h.rise hj hj' hlow hhigh).2
  have hjk : j + 1 ≤ k := by
    by_contra hlate
    have hle := le_of_rounds h.lt (show k ≤ j by omega)
    omega
  have hle := le_of_rounds h.lt hjk
  omega

theorem InRounds.edges_window (h : InRounds s busOut start ok) {k c : Nat}
    (hk : start 0 + 194 ≤ start k) (hfrom : start k ≤ c + 194)
    (hto : c + (if ok (k + 1) then 0 else 195) ≤ start (k + 1)) :
    edges (align s busOut) c = edges (align s busOut) (start k) := by
  rcases Nat.le_total c (start k) with hbefore | hafter
  · symm
    apply edges_same hbefore
    intro d hd hdk hlow
    rw [Bool.eq_false_iff]
    intro hhigh
    have hrise := h.rise_before (by omega) hdk hlow hhigh
    omega
  · apply edges_same hafter
    intro d hd hdc hlow
    rw [Bool.eq_false_iff]
    intro hhigh
    obtain ⟨hok, hlast⟩ := h.rise hd (by omega) hlow hhigh
    rw [hok, if_neg Bool.false_ne_true] at hto
    omega

/-- The slips before a round count the rounds that failed. -/
theorem InRounds.searches (h : InRounds s busOut start ok) :
    Searches (fun k => edges (align s busOut) (start k)) ok where
  next := by
    intro k
    have hlt := h.lt k
    have hlength := (h.round k).length.2
    cases hok : ok (k + 1) with
    | true =>
        rw [if_pos rfl]
        apply edges_same (Nat.le_of_lt hlt)
        intro c hfrom hto hlow
        rw [Bool.eq_false_iff]
        intro hhigh
        rw [(h.rise hfrom hto hlow hhigh).1] at hok
        exact Bool.false_ne_true hok
    | false =>
        rw [hok, if_neg Bool.false_ne_true] at hlength
        rw [if_neg Bool.false_ne_true]
        have hout := h.outputs k
        rw [hok] at hout
        have hrise : start (k + 1) - 195 + 1 = start (k + 1) - 194 := by omega
        have hlow : align s busOut (start (k + 1) - 195) = false := by
          rw [(hout _ (by omega) (by omega)).1, alignIn, Bool.not_false, Bool.true_and,
            decide_eq_false (by omega)]
        have hhigh : align s busOut (start (k + 1) - 195 + 1) = true := by
          rw [(hout _ (by omega) (by omega)).1, alignIn, Bool.not_false, Bool.true_and,
            decide_eq_true (by omega)]
        have hbefore : edges (align s busOut) (start (k + 1) - 195) =
            edges (align s busOut) (start k) := by
          apply edges_same (by omega)
          intro c hfrom hto hc
          rw [Bool.eq_false_iff]
          intro hc'
          have hlast := (h.rise hfrom (by omega) hc hc').2
          omega
        have hafter : edges (align s busOut) (start (k + 1)) =
            edges (align s busOut) (start (k + 1) - 195 + 1) := by
          apply edges_same (by omega)
          intro c hfrom hto hc
          rw [Bool.eq_false_iff]
          intro hc'
          have hlast := (h.rise (by omega) hto hc hc').2
          omega
        rw [hafter, edges_rise hlow hhigh, hbefore]

section Search

variable {words : Nat → Nat → BitVec 28} {latency : Nat}

theorem InRounds.busOut_eq (h : InRounds s busOut start ok) (hlatency : latency ≤ 190)
    (hdes : Deserializes latency words (align s busOut) busOut) {k c : Nat}
    (hk : start 0 + 194 ≤ start k) (hfrom : start k ≤ c + 4)
    (hto : c + (if ok (k + 1) then 0 else 195) ≤ start (k + 1)) :
    busOut c = words (edges (align s busOut) (start k) % 7) c := by
  have hnow := h.edges_window hk (by omega) hto
  rw [← hnow]
  apply hdes.settled
  intro j hj
  rw [hnow]
  exact h.edges_window hk (by omega) (by omega)

/-- At a place with a steady sync no round fails. -/
theorem InRounds.passes (h : InRounds s busOut start ok) (hlatency : latency ≤ 190)
    (hdes : Deserializes latency words (align s busOut) busOut) {p n k : Nat}
    (hsteady : Steady (fun m => (words (p % 7) m).getLsbD 18) n)
    (hk : start 0 + 194 ≤ start k) (hn : n + 2 ≤ start k)
    (hplace : edges (align s busOut) (start k) % 7 = p % 7) : ok (k + 1) = true := by
  have hlater : Steady (fun m => (words (p % 7) (m - 2)).getLsbD 18) (start k) := by
    constructor
    · intro m hm
      obtain ⟨i, hi, hhigh⟩ := hsteady.high (m - 2) (by omega)
      rw [show m - 2 + i = m + i - 2 by omega] at hhigh
      exact ⟨i, hi, hhigh⟩
    · intro m hm
      obtain ⟨i, hi, hlow⟩ := hsteady.low (m - 2) (by omega)
      rw [show m - 2 + i = m + i - 2 by omega] at hlow
      exact ⟨i, hi, hlow⟩
  apply (h.round k).locks_of_steady hlater
  intro hfails c hfrom hto
  obtain ⟨d, rfl⟩ := Nat.exists_eq_add_of_le' (show 2 ≤ c by omega)
  have hword := h.busOut_eq hlatency hdes (c := d) hk (by omega) (by
    rw [hfails, if_neg Bool.false_ne_true]
    omega)
  rw [hsync_add, hword, hplace]
  rfl

/-- If the sync is steady at one of the seven places of the words, the search ends: from 5000 cycles
later on there are at most six more slips, and from some time on the receiver is locked for ever on
the words of one place. -/
theorem search_ends (s : Single) (busOut : Nat → BitVec 28) (hlatency : latency ≤ 190)
    (hdes : Deserializes latency words (align s busOut) busOut) {p n : Nat}
    (hsteady : Steady (fun m => (words (p % 7) m).getLsbD 18) n) :
    (∀ a b, n + 5000 ≤ a → edges (align s busOut) b < edges (align s busOut) a + 7) ∧
      ∃ q m, ∀ c ≥ m, align s busOut c = false ∧ locked s busOut c = true ∧
        busOut c = words q c := by
  obtain ⟨start, ok, h⟩ := exists_inRounds s busOut
  have hfirst := h.first
  -- The first round that begins when the sync is steady.
  obtain ⟨j, hj, hj'⟩ := exists_round_of_time h.lt (show start 0 ≤ start 0 + 194 + n by omega)
  have hlength := (h.round j).length.1
  have hlate : ∀ k ≥ j + 1, start (j + 1) ≤ start k := fun k hk => le_of_rounds h.lt hk
  have hgood : ∀ k ≥ j + 1, edges (align s busOut) (start k) % 7 = p % 7 → ok (k + 1) = true := by
    intro k hk hplace
    have hle := hlate k hk
    exact h.passes hlatency hdes hsteady (by omega) (by omega) hplace
  obtain ⟨hbound, l, hl, hends⟩ := h.searches.ends (show 0 < 7 by decide) hgood
  constructor
  · intro a b ha
    have hcover : b ≤ start (max (j + 1) b) :=
      Nat.le_trans (Nat.le_max_right (j + 1) b) (le_round h.lt _)
    have hmost := hbound (max (j + 1) b) (Nat.le_max_left _ _)
    have hleft : edges (align s busOut) b ≤
        edges (align s busOut) (start (max (j + 1) b)) := edges_mono hcover
    have hright : edges (align s busOut) (start (j + 1)) ≤ edges (align s busOut) a :=
      edges_mono (by omega)
    omega
  · refine ⟨edges (align s busOut) (start l) % 7, start (l + 1), fun c hc => ?_⟩
    have hstart0 := le_of_rounds h.lt (Nat.zero_le (l + 1))
    obtain ⟨k, hk, hk'⟩ := exists_round_of_time h.lt (show start 0 ≤ c by omega)
    have hlk : l + 1 ≤ k := by
      by_contra hless
      have hle := le_of_rounds h.lt (show k + 1 ≤ l + 1 by omega)
      omega
    obtain ⟨i, rfl⟩ := Nat.exists_eq_add_of_le' (show 1 ≤ k by omega)
    have hbefore := (hends i (by omega)).2
    obtain ⟨hplace, hok⟩ := hends (i + 1) (by omega)
    have hle := hlate (i + 1) (by omega)
    have hword := h.busOut_eq hlatency hdes (c := c) (show start 0 + 194 ≤ start (i + 1) by omega)
      (by omega) (by rw [hok, if_pos rfl]; omega)
    obtain ⟨halign, hlocked⟩ := h.outputs (i + 1) c hk hk'
    rw [halign, hlocked, hok, hbefore, hword, hplace]
    unfold alignIn lockedIn
    exact ⟨rfl, ite_self _, rfl⟩

end Search

end Rounds

/-! ## A deserializer with its latency -/

section Loop

variable (words : Nat → Nat → BitVec 28) (latency : Nat)

/-- What the deserializer has seen: the cycle, its alignment input before, and the edges of it up to
each of the cycles before. -/
structure Seen where
  cycle : Nat
  before : Bool
  counts : Nat → Nat

/-- The edges up to now and up to each of the cycles before. -/
def Seen.now (e : Seen) (align : Bool) : Nat → Nat
  | 0 => if !e.before && align then e.counts 0 + 1 else e.counts 0
  | k + 1 => e.counts k

def Seen.next (e : Seen) (align : Bool) : Seen := ⟨e.cycle + 1, align, e.now align⟩

/-- The word of the place that the edges up to `latency` cycles before lead to. -/
def Seen.word (e : Seen) (align : Bool) : BitVec 28 := words (e.now align latency % 7) e.cycle

def loopRun (s : Single) : Nat → Single × Seen :=
  closedRun step (fun r e => e.word words latency r.shifter.align)
    (fun r e => e.next r.shifter.align) (s, ⟨0, s.shifter.align, fun _ => 0⟩)

def loopWords (s : Single) : Nat → BitVec 28 :=
  closedInput step (fun r (e : Seen) => e.word words latency r.shifter.align)
    (fun r e => e.next r.shifter.align) (s, ⟨0, s.shifter.align, fun _ => 0⟩)

theorem loopRun_align (s : Single) (n : Nat) :
    (loopRun words latency s n).1.shifter.align = align s (loopWords words latency s) n := by
  unfold align run loopWords loopRun
  rw [trace_closedInput (s := (s, (⟨0, s.shifter.align, fun _ => 0⟩ : Seen)))]

theorem loopRun_seen (s : Single) (n : Nat) :
    (loopRun words latency s n).2.cycle = n ∧
      ∀ k, (loopRun words latency s n).2.now (align s (loopWords words latency s) n) k =
        edges (align s (loopWords words latency s)) (n - k) := by
  induction n with
  | zero =>
      refine ⟨rfl, fun k => ?_⟩
      rw [Nat.zero_sub]
      cases k with
      | zero =>
          change (if !s.shifter.align && s.shifter.align then 1 else 0) = 0
          cases s.shifter.align <;> rfl
      | succ k => rfl
  | succ n ih =>
      obtain ⟨hcycle, hcounts⟩ := ih
      have hnext : (loopRun words latency s (n + 1)).2 =
          (loopRun words latency s n).2.next (loopRun words latency s n).1.shifter.align := rfl
      rw [hnext, loopRun_align]
      refine ⟨congrArg (· + 1) hcycle, fun k => ?_⟩
      cases k with
      | zero =>
          rw [Nat.sub_zero, edges_succ, ← Nat.sub_zero n, ← hcounts 0]
          rfl
      | succ k =>
          rw [Nat.add_sub_add_right, ← hcounts k]
          rfl

theorem loopWords_deserializes (s : Single) :
    Deserializes latency words (align s (loopWords words latency s))
      (loopWords words latency s) where
  settled := by
    intro n hstays
    obtain ⟨hcycle, hcounts⟩ := loopRun_seen words latency s n
    have hword : loopWords words latency s n =
        (loopRun words latency s n).2.word words latency
          (loopRun words latency s n).1.shifter.align := rfl
    rw [hword, loopRun_align, Seen.word, hcounts, hcycle, hstays latency (Nat.le_refl latency)]

end Loop

/-- Seven bits of a line from serial clock `t` on, the first one on top. -/
def laneWord (line : Nat → Bool) (t : Nat) : BitVec 7 :=
  BitVec.ofBool (line t) ++ BitVec.ofBool (line (t + 1)) ++ BitVec.ofBool (line (t + 2)) ++
    BitVec.ofBool (line (t + 3)) ++ BitVec.ofBool (line (t + 4)) ++ BitVec.ofBool (line (t + 5)) ++
    BitVec.ofBool (line (t + 6))

/-- A line on which in every hundred words the first twenty are low. -/
def pulseLine (t : Nat) : Bool := decide (20 ≤ t / 7 % 100)

/-- The words of four such lanes at each of the places. -/
def pulseWords (p n : Nat) : BitVec 28 :=
  laneWord pulseLine (7 * n + p) ++ laneWord pulseLine (7 * n + p) ++
    laneWord pulseLine (7 * n + p) ++ laneWord pulseLine (7 * n + p)

theorem pulseWords_sync (p n : Nat) : (pulseWords p n).getLsbD 18 = pulseLine (7 * n + p + 2) := by
  unfold pulseWords laneWord
  simp only [BitVec.getLsbD_append, BitVec.getLsbD_ofBool]
  rfl

theorem pulseWords_steady : Steady (fun n => (pulseWords (0 % 7) n).getLsbD 18) 0 := by
  have hsync : ∀ n, (pulseWords (0 % 7) n).getLsbD 18 = decide (20 ≤ n % 100) := by
    intro n
    rw [pulseWords_sync, pulseLine, show (7 * n + 0 % 7 + 2) / 7 = n by omega]
  constructor
  · intro m _
    refine ⟨20 - m % 100, by omega, ?_⟩
    rw [hsync, decide_eq_true_eq]
    omega
  · intro m _
    refine ⟨(100 - m % 100) % 100, by omega, ?_⟩
    rw [hsync, decide_eq_false_iff_not]
    omega

/-- A deserializer that takes four cycles for a slip. -/
theorem search_ends_pulseWords :
    ∃ q m, ∀ c ≥ m,
      locked ⟨0, false, false, false, 0, .fresh false⟩
        (loopWords pulseWords 4 ⟨0, false, false, false, 0, .fresh false⟩) c = true ∧
      loopWords pulseWords 4 ⟨0, false, false, false, 0, .fresh false⟩ c = pulseWords q c := by
  obtain ⟨_, q, m, hends⟩ := search_ends ⟨0, false, false, false, 0, .fresh false⟩
    (loopWords pulseWords 4 ⟨0, false, false, false, 0, .fresh false⟩) (show 4 ≤ 190 by decide)
    (loopWords_deserializes pulseWords 4 _) pulseWords_steady
  exact ⟨q, m, fun c hc => ⟨(hends c hc).2.1, (hends c hc).2.2⟩⟩

end Single

end Mfi.LvdsSerdes
