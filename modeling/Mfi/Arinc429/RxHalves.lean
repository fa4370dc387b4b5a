import Mfi.Arinc429.RxIdle

/-!
# Half symbols of different lengths

The two halves of a symbol need not be equal, nor those of different symbols. If each
is seen as 7 to 11 samples, the stages behind the line have settled at its end and the
history of `sig_clk` never shows twelve equal values inside a message. The falling
half shifts the bit in, with its seventh sample.
-/

namespace Mfi.Arinc429

/-! ## The history of `sig_clk` -/

/-- `sig_clk` on a settled line. -/
def Line.isNull (l : Line) : Bool := !(l.a ^^ l.b)

@[simp] theorem isNull_null : Line.null.isNull = true := rfl

@[simp] theorem isNull_symbol (bit : Bool) : (Line.symbol bit).isNull = false := by
  cases bit <;> rfl

def enter (st : BitVec 12) (v : Bool) : BitVec 12 := st.extractLsb' 0 11 ++ BitVec.ofBool v

/-- The history with `k` more equal values. -/
def enters (st : BitVec 12) (v : Bool) : Nat → BitVec 12
  | 0 => st
  | k + 1 => enter (enters st v k) v

def mixed (st : BitVec 12) : Bool := !(st == 0#12 || st == 0xfff#12)

/-- The latest `m` values are `v`, and the one before is not. -/
structure Latest (v : Bool) (m : Nat) (st : BitVec 12) : Prop where
  same : ∀ j < 12, j < m → st.getLsbD j = v
  other : m < 12 → st.getLsbD m = !v

theorem getLsbD_enter (st : BitVec 12) (v : Bool) {j : Nat} (hj : j < 12) :
    (enter st v).getLsbD j = if j = 0 then v else st.getLsbD (j - 1) := by
  rw [enter, BitVec.getLsbD_append]
  by_cases h0 : j = 0
  · rw [if_pos (by omega), if_pos h0, h0]
    cases v <;> rfl
  · rw [if_neg (by omega), if_neg h0, BitVec.getLsbD_extractLsb', decide_eq_true (by omega),
      Bool.true_and, Nat.zero_add]

section History

variable {v : Bool} {m : Nat} {st : BitVec 12}

theorem Latest.enter (h : Latest v m st) : Latest v (m + 1) (enter st v) := by
  constructor
  · intro j hj hm
    rw [getLsbD_enter st v hj]
    split
    · rfl
    · exact h.same (j - 1) (by omega) (by omega)
  · intro hm
    rw [getLsbD_enter st v hm, if_neg (by omega)]
    exact h.other (by omega)

theorem Latest.enters (h : Latest v m st) (k : Nat) : Latest v (m + k) (enters st v k) := by
  induction k with
  | zero => exact h
  | succ k ih => exact ih.enter

theorem Latest.flip (h : Latest v m st) (hm : 0 < m) : Latest (!v) 0 st := by
  constructor
  · intro j _ hj
    omega
  · intro _
    rw [h.same 0 (by omega) hm, Bool.not_not]

theorem Latest.mixed (h : Latest v m st) (hm : 0 < m) (hlt : m < 12) : mixed st = true := by
  have hfirst := h.same 0 (by omega) hm
  have hother := h.other hlt
  have hones : ∀ j < 12, (0xfff#12).getLsbD j = true := by decide
  have hzero : st ≠ 0#12 := by
    intro heq
    rw [heq, BitVec.getLsbD_zero] at hfirst hother
    rw [← hfirst] at hother
    cases hother
  have hfull : st ≠ 0xfff#12 := by
    intro heq
    rw [heq, hones 0 (by omega)] at hfirst
    rw [heq, hones m hlt, ← hfirst] at hother
    cases hother
  simp [Arinc429.mixed, hzero, hfull]

end History

/-! ## A change of the line -/

namespace RxFront

def settled (line : Line) (bit : Bool) (st : BitVec 12) (rstN : Bool) : RxFront :=
  ⟨line, line, ⟨line, 3, line⟩, line.isNull, bit, st, rstN⟩

/-- `sig_bit` on a settled line. -/
def Fits (line : Line) (bit : Bool) : Prop := line.isNull = false → bit = line.a

theorem settled_tick {line : Line} {bit : Bool} (hbit : Fits line bit) (st : BitVec 12)
    (rstN : Bool) :
    (settled line bit st rstN).tick line =
      settled line bit (enter st line.isNull) (mixed st) := by
  simp [tick, settled, FilterInput.clkEdge, enter, mixed, Line.isNull]
  intro hdata
  exact (hbit (by simp [Line.isNull, hdata])).symm

theorem settled_ticks {line : Line} {bit : Bool} (hbit : Fits line bit) (st : BitVec 12)
    (rstN : Bool) (k : Nat) :
    ∃ rstN', (settled line bit st rstN).ticks line k =
      settled line bit (enters st line.isNull k) rstN' := by
  induction k with
  | zero => exact ⟨rstN, rfl⟩
  | succ k ih =>
      cases ih with
      | intro rstN' hk =>
          refine ⟨mixed (enters st line.isNull k), ?_⟩
          rw [ticks, hk, settled_tick hbit]
          rfl

/-- `k` samples after a change of the line, at most seven: it moves through the two stages of
`DDIN`, the filter and the bit clock. -/
def crossing (old new : Line) (bit : Bool) (st : BitVec 12) (rstN : Bool) (k : Nat) : RxFront where
  dTrigger0 := if k < 1 then old else new
  dTrigger1 := if k < 2 then old else new
  filterInputRx :=
    ⟨if k < 3 then old else new, if k < 3 then 3 else min (k - 3) 3, if k < 6 then old else new⟩
  sigClk := if k < 7 then old.isNull else new.isNull
  sigBit := if k < 7 then bit else if new.isNull then bit else new.a
  sigClkState := enters st old.isNull k
  sigRstN := rstN

theorem crossing_tick {old new : Line} (hne : old ≠ new) {bit : Bool} (hbit : Fits old bit)
    (st : BitVec 12) (rstN : Bool) {k : Nat} (hk : k < 7) :
    (crossing old new bit st rstN k).tick new =
      crossing old new bit st (mixed (enters st old.isNull k)) (k + 1) := by
  have hdata : ¬old.a = old.b → old.a = bit := by
    intro hab
    exact (hbit (by simp [Line.isNull, hab])).symm
  have hcases : k = 0 ∨ k = 1 ∨ k = 2 ∨ k = 3 ∨ k = 4 ∨ k = 5 ∨ k = 6 := by omega
  rcases hcases with rfl | rfl | rfl | rfl | rfl | rfl | rfl <;>
    simp [crossing, tick, FilterInput.clkEdge, hne, Line.isNull, enters, enter, mixed]
  all_goals exact hdata

theorem settled_crossing {old new : Line} (hne : old ≠ new) {bit : Bool} (hbit : Fits old bit)
    (st : BitVec 12) (rstN : Bool) {k : Nat} (hk : k ≤ 7) :
    ∃ rstN', (settled old bit st rstN).ticks new k = crossing old new bit st rstN' k := by
  induction k with
  | zero => exact ⟨rstN, rfl⟩
  | succ k ih =>
      cases ih (by omega) with
      | intro rstN' hrun =>
          refine ⟨mixed (enters st old.isNull k), ?_⟩
          rw [ticks, hrun, crossing_tick hne hbit st rstN' hk]

end RxFront

/-! ## The received bits in a half of a symbol -/

theorem bits_kept {r : RxSampled} {line : Line}
    (hcounting : mixed r.front.sigClkState = true ∨ r.bits = .reset)
    (hedge : r.front.sigClk = true ∨ (r.front.tick line).sigClk = false) :
    (r.tick line).bits = r.bits := by
  have hno : (!r.front.sigClk && (r.front.tick line).sigClk) = false := by
    cases hedge with
    | inl hhigh => rw [hhigh, Bool.not_true, Bool.false_and]
    | inr hlow => rw [hlow, Bool.and_false]
  change r.bits.follow r.front (r.front.tick line) = r.bits
  unfold RxBits.follow
  rw [hno]
  cases hcounting with
  | inl hmixed =>
      have hrst : (r.front.tick line).sigRstN = true := hmixed
      rw [hrst]
      rfl
  | inr hreset =>
      rw [hreset]
      split <;> rfl

theorem bits_shifted {r : RxSampled} {line : Line} (hmixed : mixed r.front.sigClkState = true)
    (hlow : r.front.sigClk = false) (hhigh : (r.front.tick line).sigClk = true) :
    (r.tick line).bits = r.bits.shift (r.front.tick line).sigBit := by
  have hrst : (r.front.tick line).sigRstN = true := hmixed
  change r.bits.follow r.front (r.front.tick line) = _
  unfold RxBits.follow
  rw [hrst, hlow, hhigh]
  rfl

/-- The stages show `line`, and the bits are counted or none has come. -/
structure Ready (line : Line) (bit : Bool) (m : Nat) (r : RxSampled) : Prop where
  front : ∃ rstN, r.front = .settled line bit r.front.sigClkState rstN
  fits : RxFront.Fits line bit
  latest : Latest line.isNull m r.front.sigClkState
  counting : mixed r.front.sigClkState = true ∨ r.bits = .reset

section Half

variable {old new : Line} {bit : Bool} {m k : Nat} {r : RxSampled}

theorem Ready.crossing (h : Ready old bit m r) (hne : old ≠ new) (hk : k ≤ 7) :
    ∃ rstN, (r.ticks new k).front = .crossing old new bit r.front.sigClkState rstN k := by
  cases h.front with
  | intro rstN hfront =>
      rw [ticks_front, hfront]
      exact RxFront.settled_crossing hne h.fits _ rstN hk

theorem Ready.crossed (h : Ready old bit m r) (hne : old ≠ new) (hk : 7 ≤ k) :
    ∃ rstN, (r.ticks new k).front =
      .settled new (if new.isNull then bit else new.a)
        (enters (enters r.front.sigClkState old.isNull 7) new.isNull (k - 7)) rstN := by
  have hfits : RxFront.Fits new (if new.isNull then bit else new.a) := by
    intro hdata
    rw [hdata]
    rfl
  cases h.crossing hne (Nat.le_refl 7) with
  | intro rstN hfront =>
      have hrun := RxFront.settled_ticks hfits (enters r.front.sigClkState old.isNull 7) rstN
        (k - 7)
      rw [show k = 7 + (k - 7) by omega, RxSampled.ticks_add, ticks_front, hfront,
        Nat.add_sub_cancel_left]
      exact hrun

theorem Ready.sigClk (h : Ready old bit m r) (hne : old ≠ new) (k : Nat) :
    (r.ticks new k).front.sigClk = if k < 7 then old.isNull else new.isNull := by
  by_cases hk : k < 7
  · cases h.crossing hne (Nat.le_of_lt hk) with
    | intro rstN hfront =>
        rw [hfront]
        rfl
  · cases h.crossed hne (show 7 ≤ k by omega) with
    | intro rstN hfront =>
        rw [hfront, if_neg hk]
        rfl

theorem Ready.latest_old (h : Ready old bit m r) (hne : old ≠ new) (hk : k ≤ 7) :
    Latest old.isNull (m + k) (r.ticks new k).front.sigClkState := by
  cases h.crossing hne hk with
  | intro rstN hfront =>
      rw [hfront]
      exact h.latest.enters k

theorem Ready.latest_new (h : Ready old bit m r) (hturn : new.isNull = !old.isNull)
    (hk : 7 ≤ k) : Latest new.isNull (k - 7) (r.ticks new k).front.sigClkState := by
  have hne : old ≠ new := by
    intro heq
    rw [heq] at hturn
    cases hnull : new.isNull <;> rw [hnull] at hturn <;> cases hturn
  cases h.crossed hne hk with
  | intro rstN hfront =>
      have hflip := (h.latest.enters 7).flip (by omega)
      rw [← hturn] at hflip
      have hlatest := hflip.enters (k - 7)
      rw [Nat.zero_add] at hlatest
      rw [hfront]
      exact hlatest

/-- The history is mixed for eighteen samples after a change of the line. -/
theorem Ready.stays_mixed (h : Ready old bit m r) (hturn : new.isNull = !old.isNull)
    (hne : old ≠ new) (hm : m ≤ 4) (hpos : 1 ≤ k) (hk : k ≤ 18) :
    mixed (r.ticks new k).front.sigClkState = true := by
  by_cases hold : k ≤ 7
  · exact (h.latest_old hne hold).mixed (by omega) (by omega)
  · exact (h.latest_new hturn (by omega)).mixed (by omega) (by omega)

theorem Ready.next (h : Ready old bit m r) (hturn : new.isNull = !old.isNull) (hne : old ≠ new)
    (hlo : 7 ≤ k) (hhi : k ≤ 11)
    (hcounting : m ≤ 4 ∨ (r.ticks new k).bits = .reset) :
    Ready new (if new.isNull then bit else new.a) (k - 7) (r.ticks new k) := by
  have hlatest := h.latest_new hturn hlo
  constructor
  · cases h.crossed hne hlo with
    | intro rstN hfront =>
        refine ⟨rstN, ?_⟩
        rw [hfront]
        rfl
  · intro hdata
    rw [hdata]
    rfl
  · exact hlatest
  · cases hcounting with
    | inl hm => exact Or.inl (h.stays_mixed hturn hne hm (by omega) (by omega))
    | inr hreset => exact Or.inr hreset

theorem Ready.high {b : Bool} (h : Ready .null bit m r) (hm : m ≤ 4 ∨ r.bits = .reset)
    (hk : k ≤ 18) : (r.ticks (.symbol b) k).bits = r.bits := by
  have hne : Line.null ≠ .symbol b := by cases b <;> decide
  induction k with
  | zero => rfl
  | succ k ih =>
      have hbits := ih (by omega)
      have hclk := h.sigClk hne k
      have hclk' := h.sigClk hne (k + 1)
      rw [isNull_symbol] at hclk hclk'
      rw [RxSampled.ticks, ← hbits]
      apply bits_kept
      · cases hm with
        | inl hm =>
            cases k with
            | zero => exact h.counting
            | succ k => exact Or.inl (h.stays_mixed (isNull_symbol b) hne hm (by omega) (by omega))
        | inr hreset => exact Or.inr (hbits.trans hreset)
      · by_cases hold : k < 7
        · rw [if_pos hold] at hclk
          exact Or.inl hclk
        · rw [if_neg (by omega)] at hclk'
          exact Or.inr hclk'

theorem Ready.high_next {b : Bool} (h : Ready .null bit m r) (hm : m ≤ 4 ∨ r.bits = .reset)
    (hlo : 7 ≤ k) (hhi : k ≤ 11) : Ready (.symbol b) b (k - 7) (r.ticks (.symbol b) k) := by
  have hne : Line.null ≠ .symbol b := by cases b <;> decide
  have hcounting : m ≤ 4 ∨ (r.ticks (.symbol b) k).bits = .reset := by
    cases hm with
    | inl hm => exact Or.inl hm
    | inr hreset => exact Or.inr ((h.high (Or.inr hreset) (by omega)).trans hreset)
  have hnext := h.next (isNull_symbol b) hne hlo hhi hcounting
  rwa [isNull_symbol] at hnext

theorem Ready.low {b : Bool} (h : Ready (.symbol b) b m r) (hm : m ≤ 4) (hk : k ≤ 19) :
    (r.ticks .null k).bits = if k < 7 then r.bits else r.bits.shift b := by
  have hne : Line.symbol b ≠ .null := by cases b <;> decide
  have hturn : Line.null.isNull = !(Line.symbol b).isNull := by rw [isNull_symbol]; rfl
  induction k with
  | zero => rfl
  | succ k ih =>
      have hbits := ih (by omega)
      have hclk := h.sigClk hne k
      have hclk' := h.sigClk hne (k + 1)
      rw [isNull_symbol, isNull_null] at hclk hclk'
      have hcounting : mixed (r.ticks .null k).front.sigClkState = true ∨
          (r.ticks .null k).bits = .reset := by
        cases k with
        | zero => exact h.counting
        | succ k => exact Or.inl (h.stays_mixed hturn hne hm (by omega) (by omega))
      rcases Nat.lt_trichotomy k 6 with hbefore | hrise | hafter
      · rw [if_pos (by omega)] at hbits hclk' ⊢
        rw [RxSampled.ticks, bits_kept hcounting (Or.inr hclk'), hbits]
      · -- the seventh sample
        subst hrise
        cases h.crossing hne (Nat.le_refl 7) with
        | intro rstN hfront =>
            have hbit : ((r.ticks .null 6).front.tick .null).sigBit = b :=
              congrArg RxFront.sigBit hfront
            rw [RxSampled.ticks,
              bits_shifted (h.stays_mixed hturn hne hm (by omega) (by omega)) hclk hclk', hbits,
              hbit]
            rfl
      · rw [if_neg (by omega)] at hbits hclk ⊢
        rw [RxSampled.ticks, bits_kept hcounting (Or.inl hclk), hbits]

theorem Ready.low_next {b : Bool} (h : Ready (.symbol b) b m r) (hm : m ≤ 4) (hlo : 7 ≤ k)
    (hhi : k ≤ 11) : Ready .null b (k - 7) (r.ticks .null k) := by
  have hne : Line.symbol b ≠ .null := by cases b <;> decide
  have hturn : Line.null.isNull = !(Line.symbol b).isNull := by rw [isNull_symbol]; rfl
  exact h.next hturn hne hlo hhi (Or.inl hm)

end Half

/-! ## Between symbols -/

/-- A symbol may begin: inside a message, or on the idle line. -/
structure AwaitsSymbol (r : RxSampled) : Prop where
  ready : ∃ bit m, Ready .null bit m r ∧ (m ≤ 4 ∨ r.bits = .reset)

theorem AwaitsSymbol.idle (bit : Bool) : AwaitsSymbol ⟨.idle bit, .reset⟩ := by
  have hones : ∀ j < 12, (0xfff#12).getLsbD j = true := by decide
  refine ⟨bit, 12, ⟨⟨false, rfl⟩, ?_, ⟨fun j hj _ => hones j hj, ?_⟩, Or.inr rfl⟩, Or.inr rfl⟩
  · intro hdata
    cases hdata
  · intro hm
    omega

/-- The line stays null: a sample keeps the bits or clears them. -/
theorem settled_null_tick {r : RxSampled} {bit : Bool} {st : BitVec 12} {rstN : Bool}
    (h : r.front = .settled .null bit st rstN) :
    (r.tick .null).bits = r.bits ∨ (r.tick .null).bits = .reset := by
  have hclk : r.front.sigClk = true := by
    rw [h]
    rfl
  change r.bits.follow r.front (r.front.tick .null) = _ ∨ r.bits.follow r.front _ = _
  unfold RxBits.follow
  rw [hclk]
  split
  · exact Or.inr rfl
  · exact Or.inl rfl

end Mfi.Arinc429
