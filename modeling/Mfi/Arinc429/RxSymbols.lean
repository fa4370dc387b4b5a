import Mfi.Arinc429.RxClock

/-!
# One symbol in samples

A symbol is seen as 8 or 9 samples of the line high and as many of the line null,
whatever the phase of the sampling clock. The control registers are then in one of a
few states, which are run through here; the received bits stay general. Each symbol
shifts in its bit with the seventh null sample, and twenty null samples end the word.
-/

namespace Mfi.Arinc429

/-! ## The effect of the samples on the bits -/

inductive RxAct where
  | keep
  | clear
  | shift (bit : Bool)
  deriving DecidableEq

def RxAct.run (b : RxBits) : RxAct → RxBits
  | keep => b
  | clear => .reset
  | shift bit => b.shift bit

namespace RxFront

def act (r r' : RxFront) : RxAct :=
  if !r'.sigRstN then .clear
  else if !r.sigClk && r'.sigClk then .shift r'.sigBit
  else .keep

/-- `k` samples of a constant line. -/
def ticks (r : RxFront) (line : Line) : Nat → RxFront
  | 0 => r
  | k + 1 => (r.ticks line k).tick line

/-- What `k` samples of a constant line do to the bits. -/
def acts (r : RxFront) (line : Line) : Nat → List RxAct
  | 0 => []
  | k + 1 => r.act (r.tick line) :: (r.tick line).acts line k

end RxFront

theorem follow_eq_run (b : RxBits) (r r' : RxFront) : b.follow r r' = (r.act r').run b := by
  unfold RxBits.follow RxFront.act
  split
  · rfl
  · split <;> rfl

theorem ticks_front (r : RxSampled) (line : Line) (k : Nat) :
    (r.ticks line k).front = r.front.ticks line k := by
  induction k with
  | zero => rfl
  | succ k ih =>
      change (r.ticks line k).front.tick line = _
      rw [ih]
      rfl

theorem ticks_tick (r : RxFront) (line : Line) (k : Nat) :
    (r.tick line).ticks line k = r.ticks line (k + 1) := by
  induction k with
  | zero => rfl
  | succ k ih => exact congrArg (RxFront.tick · line) ih

theorem acts_add (r : RxFront) (line : Line) (m n : Nat) :
    r.acts line (m + n) = r.acts line m ++ (r.ticks line m).acts line n := by
  induction m generalizing r with
  | zero =>
      rw [Nat.zero_add]
      rfl
  | succ m ih =>
      rw [Nat.add_right_comm, RxFront.acts, ih, ticks_tick]
      rfl

theorem acts_length (r : RxFront) (line : Line) (k : Nat) : (r.acts line k).length = k := by
  induction k generalizing r with
  | zero => rfl
  | succ k ih => simp [RxFront.acts, ih]

theorem acts_take (r : RxFront) (line : Line) {k n : Nat} (h : k ≤ n) :
    r.acts line k = (r.acts line n).take k := by
  obtain ⟨m, rfl⟩ := Nat.exists_eq_add_of_le h
  rw [acts_add, List.take_left' (acts_length _ _ _)]

theorem ticks_bits (r : RxSampled) (line : Line) (k : Nat) :
    (r.ticks line k).bits = (r.front.acts line k).foldl RxAct.run r.bits := by
  induction k with
  | zero => rfl
  | succ k ih =>
      have hstep : (r.ticks line (k + 1)).bits =
          (r.ticks line k).bits.follow (r.ticks line k).front
            ((r.ticks line k).front.tick line) := rfl
      rw [hstep, follow_eq_run, ih, ticks_front, acts_add, List.foldl_append]
      rfl

theorem foldl_keep (l : List RxAct) (b : RxBits) :
    l.foldl RxAct.run b = (l.filter (· ≠ .keep)).foldl RxAct.run b := by
  induction l generalizing b with
  | nil => rfl
  | cons a l ih =>
      cases a with
      | keep => exact ih b
      | clear => exact ih _
      | shift bit => exact ih _

/-! ## The states between two symbols -/

/-- Long null: the word is over and the bit counter is held in reset. -/
def RxFront.idle (bit : Bool) : RxFront :=
  ⟨.null, .null, ⟨.null, 3, .null⟩, true, bit, 0xfff#12, false⟩

def RxFront.between (bit : Bool) (sigClkState : BitVec 12) : RxFront :=
  ⟨.null, .null, ⟨.null, 3, .null⟩, true, bit, sigClkState, true⟩

/-- The history of `sig_clk` there, after `p` samples high and `q` samples null: one or
two ones, eight or nine zeros, ones. -/
def gapState (p q : Nat) : BitVec 12 :=
  if p = 8 then if q = 8 then 0xe01#12 else 0xc03#12
  else if q = 8 then 0xc01#12 else 0x803#12

/-- A symbol may begin: inside a word, or on the idle line. -/
inductive SymbolStart : RxSampled → Prop
  | between (bit : Bool) (p q : Nat) (bits : RxBits) (hp : p ∈ [8, 9]) (hq : q ∈ [8, 9]) :
      SymbolStart ⟨.between bit (gapState p q), bits⟩
  | idle (bit : Bool) : SymbolStart ⟨.idle bit, .reset⟩

/-- The samples of the null half: the seventh one ends the symbol, the twentieth one
ends the word. -/
def nullActs (bit : Bool) : List RxAct :=
  List.replicate 6 .keep ++ [.shift bit] ++ List.replicate 12 .keep ++ [.clear]

theorem between_run : ∀ bit0 bit : Bool, ∀ p0 ∈ [8, 9], ∀ q0 ∈ [8, 9], ∀ p ∈ [8, 9],
    (RxFront.between bit0 (gapState p0 q0)).acts (.symbol bit) p = List.replicate p .keep ∧
      let r := (RxFront.between bit0 (gapState p0 q0)).ticks (.symbol bit) p
      r.acts .null 20 = nullActs bit ∧ r.ticks .null 20 = .idle bit ∧
        ∀ q ∈ [8, 9], r.ticks .null q = .between bit (gapState p q) := by
  decide +kernel

/-- The first symbol of a word; the bits are held in reset until the symbol is high. -/
theorem idle_run : ∀ bit0 bit : Bool, ∀ p ∈ [8, 9],
    (∀ a ∈ (RxFront.idle bit0).acts (.symbol bit) p, a = .keep ∨ a = .clear) ∧
      let r := (RxFront.idle bit0).ticks (.symbol bit) p
      r.acts .null 20 = nullActs bit ∧ r.ticks .null 20 = .idle bit ∧
        ∀ q ∈ [8, 9], r.ticks .null q = .between bit (gapState p q) := by
  decide +kernel

/-! ## The received bits during a symbol -/

section Symbol

variable {r : RxSampled} {b : Bool} {p k : Nat}

theorem foldl_clear {l : List RxAct} (h : ∀ a ∈ l, a = .keep ∨ a = .clear) :
    l.foldl RxAct.run .reset = .reset := by
  induction l with
  | nil => rfl
  | cons a l ih =>
      have hrest := ih (fun a ha => h a (List.mem_cons_of_mem _ ha))
      rcases h a List.mem_cons_self with rfl | rfl
      · exact hrest
      · exact hrest

theorem SymbolStart.high (h : SymbolStart r) (hp : p ∈ [8, 9]) (hk : k ≤ p) :
    (r.ticks (.symbol b) k).bits = r.bits := by
  rw [ticks_bits, acts_take _ _ hk]
  cases h with
  | between bit0 p0 q0 bits hp0 hq0 =>
      rw [(between_run bit0 b p0 hp0 q0 hq0 p hp).1, foldl_keep]
      simp
  | idle bit0 =>
      exact foldl_clear fun a ha => (idle_run bit0 b p hp).1 a (List.mem_of_mem_take ha)

theorem SymbolStart.null_run (h : SymbolStart r) (hp : p ∈ [8, 9]) :
    let r' := (r.ticks (.symbol b) p).front
    r'.acts .null 20 = nullActs b ∧ r'.ticks .null 20 = .idle b ∧
      ∀ q ∈ [8, 9], r'.ticks .null q = .between b (gapState p q) := by
  rw [ticks_front]
  cases h with
  | between bit0 p0 q0 bits hp0 hq0 => exact (between_run bit0 b p0 hp0 q0 hq0 p hp).2
  | idle bit0 => exact (idle_run bit0 b p hp).2

theorem nullActs_take : ∀ bit : Bool, ∀ k < 20, ((nullActs bit).take k).filter (· ≠ .keep) =
    if k < 7 then [] else [.shift bit] := by
  decide +kernel

theorem SymbolStart.null (h : SymbolStart r) (hp : p ∈ [8, 9]) (hk : k < 20) :
    ((r.ticks (.symbol b) p).ticks .null k).bits =
      if k < 7 then r.bits else r.bits.shift b := by
  rw [ticks_bits, acts_take _ _ (Nat.le_of_lt hk), (h.null_run hp).1, foldl_keep,
    nullActs_take b k hk, h.high hp (Nat.le_refl p)]
  split <;> rfl

theorem SymbolStart.next (h : SymbolStart r) (hp : p ∈ [8, 9]) (hk : k ∈ [8, 9]) :
    SymbolStart ((r.ticks (.symbol b) p).ticks .null k) := by
  have hfront : ((r.ticks (.symbol b) p).ticks .null k).front = .between b (gapState p k) := by
    rw [ticks_front]
    exact (h.null_run hp).2.2 k hk
  have hstart := SymbolStart.between b p k ((r.ticks (.symbol b) p).ticks .null k).bits hp hk
  rwa [← hfront] at hstart

theorem idle_ticks (bit : Bool) (k : Nat) :
    (RxSampled.mk (.idle bit) .reset).ticks .null k = ⟨.idle bit, .reset⟩ := by
  induction k with
  | zero => rfl
  | succ k ih =>
      have hstay : ∀ bit, (RxSampled.mk (.idle bit) .reset).tick .null = ⟨.idle bit, .reset⟩ := by
        decide +kernel
      rw [RxSampled.ticks, ih, hstay]

theorem SymbolStart.finish (h : SymbolStart r) (hp : p ∈ [8, 9]) (hk : 20 ≤ k) :
    (r.ticks (.symbol b) p).ticks .null k = ⟨.idle b, .reset⟩ := by
  obtain ⟨hacts, hidle, _⟩ := h.null_run (b := b) hp
  obtain ⟨j, rfl⟩ := Nat.exists_eq_add_of_le hk
  have hend : (r.ticks (.symbol b) p).ticks .null 20 = ⟨.idle b, .reset⟩ := by
    have hfront := ticks_front (r.ticks (.symbol b) p) .null 20
    have hbits := ticks_bits (r.ticks (.symbol b) p) .null 20
    rw [hidle] at hfront
    rw [hacts] at hbits
    exact RxSampled.ext hfront hbits
  rw [RxSampled.ticks_add, hend, idle_ticks]

end Symbol

end Mfi.Arinc429
