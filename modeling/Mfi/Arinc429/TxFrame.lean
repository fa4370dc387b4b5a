import Mfi.Core.Period
import Mfi.Arinc429.TxClock

/-!
# One word on the line

The frame of a word is 32 symbols: its bits 0..30 and a last bit that makes the
number of ones odd. From the cycle in which the send state is entered the
serialiser is followed through 36 rising edges of `sig_clk`, to the falling edge of
`sig_busy_d1`, and through the four cycles until it is idle again.
-/

namespace Mfi.Arinc429

open Core

/-! ## The frame -/

/-- The number of ones below bit `n`. -/
def onesBelow (w : Word) (n : Nat) : Nat := (List.range n).countP w.getLsbD

/-- The bits of the frame of a word: 31 data bits and odd parity. -/
def frameBit (w : Word) (i : Nat) : Bool :=
  if i < 31 then w.getLsbD i else decide (onesBelow w 31 % 2 = 0)

/-- The line in cycle `t` of the frame: each symbol is high for half a bit time. -/
def frameLine (D : Nat) (w : Word) (t : Nat) : Line :=
  if t % (4 * D) < 2 * D then .symbol (frameBit w (t / (4 * D))) else .null

theorem onesBelow_succ (w : Word) (n : Nat) :
    onesBelow w (n + 1) = onesBelow w n + (w.getLsbD n).toNat := by
  unfold onesBelow
  rw [List.range_succ, List.countP_append, List.countP_singleton]
  cases w.getLsbD n <;> rfl

theorem xor_parity (bit : Bool) (n : Nat) :
    (bit ^^ decide (n % 2 = 1)) = decide ((n + bit.toNat) % 2 = 1) := by
  rcases Nat.mod_two_eq_zero_or_one n with h | h <;> cases bit <;> simp [Nat.add_mod, h]

theorem frame_odd (w : Word) : (List.range 32).countP (frameBit w) % 2 = 1 := by
  have hdata : (List.range 31).countP (frameBit w) = onesBelow w 31 := by
    unfold onesBelow
    apply List.countP_congr
    intro i hi
    have hlt := List.mem_range.mp hi
    simp [frameBit, hlt]
  rw [show (32 : Nat) = 31 + 1 from rfl, List.range_succ, List.countP_append, hdata,
    List.countP_singleton]
  by_cases h : onesBelow w 31 % 2 = 0
  · simp [frameBit, h]
    omega
  · simp [frameBit, h]
    omega

/-! ## The bits between two edges -/

structure TxBits.Resting (b : TxBits) : Prop where
  start : b.start = .reset
  cntBit : b.cntBit = 0
  sigBusy : b.sigBusy = false
  sigBusyD1 : b.sigBusyD1 = false

theorem TxBits.Resting.edge {b : TxBits} (h : b.Resting) (w : Word) : (b.edge w).Resting := by
  constructor <;> simp [TxBits.edge, h.start, h.cntBit, h.sigBusy, SyncPe.clkEdge, SyncPe.reset]

/-- The start synchroniser after `j` edges. -/
def startAt : Nat → SyncPe
  | 0 => ⟨true, false, false, false⟩
  | 1 => ⟨true, true, false, false⟩
  | 2 => ⟨false, false, true, true⟩
  | _ => .reset

theorem startAt_succ (j : Nat) : (startAt j).clkEdge = startAt (j + 1) := by
  rcases j with _ | _ | _ | j <;> rfl

/-- The bits `j` edges after the send state was entered with the word `w`. -/
structure TxBits.At (w : Word) (j : Nat) (b : TxBits) : Prop where
  start : b.start = startAt j
  cntBit : b.cntBit = if j < 3 then 0 else 34 - j
  sigBusy : b.sigBusy = decide (3 ≤ j ∧ j ≤ 34)
  sigBusyD1 : b.sigBusyD1 = decide (4 ≤ j ∧ j ≤ 35)
  shift : 1 ≤ j → j ≤ 34 → b.sigDataShift = w >>> (j - 3)
  par : 3 ≤ j → j ≤ 34 → b.sigPar = decide (onesBelow w (j - 3) % 2 = 1)
  bit : 4 ≤ j → j ≤ 35 → b.sigBit = frameBit w (j - 4)

theorem startAt_syncOut (j : Nat) : (startAt j).syncOut = decide (j = 2) := by
  rcases j with _ | _ | _ | j
  · rfl
  · rfl
  · rfl
  · simp [startAt, SyncPe.reset]

theorem TxBits.Resting.enter {b : TxBits} (h : b.Resting) (w : Word) :
    TxBits.At w 0 { b with start := b.start.asyncEdge } := by
  refine ⟨?_, h.cntBit, h.sigBusy, h.sigBusyD1, by omega, by omega, by omega⟩
  rw [h.start]
  rfl

theorem TxBits.At.edge {b : TxBits} {w : Word} {j : Nat} (h : b.At w j) (hj : j < 36) :
    (b.edge w).At w (j + 1) := by
  have hstart : b.start.syncOut = decide (j = 2) := by rw [h.start, startAt_syncOut]
  have hcnt := h.cntBit
  have hshifting : 0 < b.cntBit ↔ 3 ≤ j ∧ j < 34 := by
    rw [hcnt]
    split <;> omega
  refine ⟨?_, ?_, ?_, ?_, ?_, ?_, ?_⟩
  · change b.start.clkEdge = _
    rw [h.start, startAt_succ]
  · change (if b.start.syncOut then 31 else b.cntBit - 1) = _
    rw [hstart, hcnt]
    by_cases h2 : j = 2
    · simp [h2]
    · rw [decide_eq_false h2]
      simp only [Bool.false_eq_true, if_false]
      split <;> split <;> omega
  · change (b.start.syncOut || decide (0 < b.cntBit)) = _
    rw [hstart, ← Bool.decide_or]
    apply decide_eq_decide.mpr
    omega
  · change b.sigBusy = _
    rw [h.sigBusy]
    apply decide_eq_decide.mpr
    omega
  · intro h1 h34
    change (if 0 < b.cntBit then b.sigDataShift >>> 1 else w) = _
    by_cases hlow : j < 3
    · rw [if_neg (by omega), show j + 1 - 3 = 0 by omega]
      simp
    · rw [if_pos (by omega), h.shift (by omega) (by omega),
        ← BitVec.shiftRight_add, show j - 3 + 1 = j + 1 - 3 by omega]
  · intro h3 h34
    change (if 0 < b.cntBit then b.sigDataShift.getLsbD 0 ^^ b.sigPar else false) = _
    by_cases hlow : j < 3
    · rw [if_neg (by omega), show j + 1 - 3 = 0 by omega]
      rfl
    · rw [if_pos (by omega), h.shift (by omega) (by omega),
        h.par (by omega) (by omega), show j + 1 - 3 = (j - 3) + 1 by omega, onesBelow_succ,
        BitVec.getLsbD_ushiftRight, Nat.add_zero, xor_parity]
  · intro h4 h35
    change (if 0 < b.cntBit then b.sigDataShift.getLsbD 0 else !b.sigPar) = _
    by_cases hlast : j = 34
    · rw [if_neg (by omega), h.par (by omega) (by omega), hlast, show 34 - 3 = 31 from rfl]
      rw [frameBit, if_neg (by omega), ← decide_not]
      apply decide_eq_decide.mpr
      omega
    · rw [if_pos (by omega), h.shift (by omega) (by omega),
        BitVec.getLsbD_ushiftRight, Nat.add_zero, frameBit, if_pos (by omega),
        show j + 1 - 4 = j - 3 by omega]

theorem TxBits.At.resting {b : TxBits} {w : Word} (h : b.At w 36) : b.Resting :=
  ⟨h.start, h.cntBit, h.sigBusy, h.sigBusyD1⟩

/-! ## The serialiser -/

namespace Arinc429Tx

variable {D f : Nat} {s : Arinc429Tx} {i : TxPort} {w : Word}

structure Idle (D : Nat) (s : Arinc429Tx) : Prop where
  running : Running D s
  state : s.stateAvlTx = .idle
  completion : s.syncPeSigAvs = .reset
  bits : s.bits.Resting

/-- Sending the word `w`. The position `x` counts cycles: it is the phase plus one
bit time for each edge of `sig_clk` since the send state was entered. -/
structure Sending (D : Nat) (w : Word) (x : Nat) (s : Arinc429Tx) : Prop where
  running : Running D s
  position : x < 36 * (4 * D)
  phase : s.phase D = x % (4 * D)
  state : s.stateAvlTx = .send
  sigData : s.sigData = w
  completion : s.syncPeSigAvs = .reset
  bits : s.bits.At w (x / (4 * D))

/-- The state and the completion synchroniser in the cycles after the last edge. -/
def completing : Nat → TxState × SyncPe
  | 0 => (.send, ⟨true, false, false, false⟩)
  | 1 => (.send, ⟨true, true, false, false⟩)
  | 2 => (.send, ⟨false, false, true, true⟩)
  | _ => (.done, .reset)

/-- Cycle `k` of the four cycles from the last edge to the idle state. -/
structure Completing (D k : Nat) (s : Arinc429Tx) : Prop where
  running : Running D s
  last : k < 4
  state : s.stateAvlTx = (completing k).1
  completion : s.syncPeSigAvs = (completing k).2
  bits : s.bits.Resting

theorem Idle.reset (hD : 0 < D) (hfits : D ≤ 65536) : Idle D (Arinc429Tx.reset D) :=
  ⟨.reset hD hfits, rfl, rfl, ⟨rfl, rfl, rfl, rfl⟩⟩

theorem sigClk_eq (h : Running D s) : s.sigClk = decide (s.phase D < 2 * D) := by
  have hlt := h.cnt_lt
  unfold Arinc429Tx.phase
  cases s.sigClk <;> cases s.clk2x <;> simp <;> omega

theorem line_of_resting (h : Running D s) (hb : s.bits.Resting) : s.line = .null := by
  have hbusy : s.sigBusyD1 = false := hb.sigBusyD1
  rw [h.line, hbusy]
  rfl

theorem step_resting (h : Running D s) (hb : s.bits.Resting) (hi : txDevider f i.speed = D)
    (henter : s.enters i = false) :
    (s.step f i).bits.Resting ∧ (s.step f i).syncPeSigAvs = s.syncPeSigAvs.clkEdge := by
  have hc := cycle h hi
  have hlatched : s.latchedBits i = s.bits := by
    simp [latchedBits, henter, Arinc429Tx.bits]
  have hbusy : s.sigBusyD1 = false := hb.sigBusyD1
  constructor
  · rw [hc.bits, hlatched]
    split
    · exact hb.edge _
    · exact hb
  · rw [hc.completion, if_neg]
    simp [hbusy]

theorem Idle.wait (h : Idle D s) (hi : txDevider f i.speed = D) (hv : i.sinkTxValid = false) :
    Idle D (s.step f i) := by
  have hc := cycle h.running hi
  obtain ⟨hbits, hcompl⟩ := step_resting h.running h.bits hi (by simp [enters, hv])
  refine ⟨hc.running, ?_, ?_, hbits⟩
  · rw [hc.state, h.state]
    simp [hv]
  · rw [hcompl, h.completion]
    rfl

theorem Completing.next {k : Nat} (h : Completing D k s) (hi : txDevider f i.speed = D)
    (hk : k < 3) : Completing D (k + 1) (s.step f i) := by
  have hc := cycle h.running hi
  have hsend : s.stateAvlTx = .send := by
    rw [h.state]
    rcases k with _ | _ | _ | k
    · rfl
    · rfl
    · rfl
    · omega
  obtain ⟨hbits, hcompl⟩ := step_resting h.running h.bits hi (by simp [enters, hsend])
  refine ⟨hc.running, by omega, ?_, ?_, hbits⟩
  · rw [hc.state, hsend, h.completion]
    rcases k with _ | _ | _ | k
    · rfl
    · rfl
    · rfl
    · omega
  · rw [hcompl, h.completion]
    rcases k with _ | _ | _ | k
    · rfl
    · rfl
    · rfl
    · omega

theorem Completing.idle (h : Completing D 3 s) (hi : txDevider f i.speed = D) :
    Idle D (s.step f i) := by
  have hc := cycle h.running hi
  have hdone : s.stateAvlTx = .done := h.state
  obtain ⟨hbits, hcompl⟩ := step_resting h.running h.bits hi (by simp [enters, hdone])
  refine ⟨hc.running, ?_, ?_, hbits⟩
  · rw [hc.state, hdone]
  · rw [hcompl, h.completion]
    rfl

/-- The position of the cycle after the word was taken over. -/
def entryPosition (D : Nat) (s : Arinc429Tx) : Nat := s.phase D + 1

theorem Idle.send (h : Idle D s) (hi : txDevider f i.speed = D) (hv : i.sinkTxValid = true) :
    Sending D i.sinkTxData (s.entryPosition D) (s.step f i) := by
  have hc := cycle h.running hi
  have hlt := phase_lt h.running
  have hdata : (s.step f i).sigData = i.sinkTxData := by
    rw [hc.sigData, if_pos h.state]
  have hlatched : (s.latchedBits i).At i.sinkTxData 0 := by
    unfold latchedBits
    rw [if_pos (by simp [enters, h.state, hv])]
    exact h.bits.enter i.sinkTxData
  have hbusy : s.sigBusyD1 = false := h.bits.sigBusyD1
  unfold entryPosition
  refine ⟨hc.running, by omega, ?_, ?_, hdata, ?_, ?_⟩
  · rw [hc.phase]
    split
    · rename_i hlast
      rw [hlast, Nat.mod_self]
    · exact (Nat.mod_eq_of_lt (by omega)).symm
  · rw [hc.state, h.state]
    simp [hv]
  · rw [hc.completion, if_neg (by simp [hbusy]), h.completion]
    rfl
  · rw [hc.bits, hdata]
    split
    · rename_i hlast
      rw [hlast, Nat.div_self (by omega)]
      exact hlatched.edge (by omega)
    · rw [Nat.div_eq_of_lt (by omega)]
      exact hlatched

theorem Sending.next {x : Nat} (h : Sending D w x s) (hi : txDevider f i.speed = D) :
    (x + 1 < 36 * (4 * D) ∧ Sending D w (x + 1) (s.step f i)) ∨
      (x + 1 = 36 * (4 * D) ∧ Completing D 0 (s.step f i)) := by
  have hc := cycle h.running hi
  have hpos := h.position
  have hDpos := h.running.cnt_lt
  have hmod := Nat.mod_lt x (show 0 < 4 * D by omega)
  have hdiv := Nat.div_add_mod x (4 * D)
  have hphase := h.phase
  have hlatched : s.latchedBits i = s.bits := by
    simp [latchedBits, enters, h.state, Arinc429Tx.bits]
  have hdata : (s.step f i).sigData = w := by
    rw [hc.sigData, if_neg (by simp [h.state]), h.sigData]
  have hstate : (s.step f i).stateAvlTx = .send := by
    rw [hc.state, h.state, h.completion]
    rfl
  have hsucc := succ_div_mod x (show 0 < 4 * D by omega)
  have hj : x / (4 * D) < 36 := (Nat.div_lt_iff_lt_mul (by omega)).mpr hpos
  have hends : (s.sigBusyD1 && !s.sigBusy) = decide (x / (4 * D) = 35) := by
    have hbusy : s.sigBusy = _ := h.bits.sigBusy
    have hbusyD1 : s.sigBusyD1 = _ := h.bits.sigBusyD1
    rw [hbusy, hbusyD1, ← decide_not, ← Bool.decide_and]
    apply decide_eq_decide.mpr
    omega
  by_cases hedge : s.phase D + 1 = 4 * D
  · rw [if_pos (by omega)] at hsucc
    have hbits : (s.step f i).bits.At w (x / (4 * D) + 1) := by
      rw [hc.bits, if_pos hedge, hlatched, hdata]
      exact h.bits.edge hj
    have hcompl := hc.completion
    rw [hends, h.completion] at hcompl
    by_cases hlast : x / (4 * D) = 35
    · right
      rw [if_pos ⟨hedge, by simp [hlast]⟩] at hcompl
      rw [hlast] at hbits
      have hx : x + 1 = 36 * (4 * D) := by
        rw [hlast] at hdiv
        omega
      exact ⟨hx, hc.running, by omega, hstate, hcompl, hbits.resting⟩
    · left
      rw [if_neg (by simp [hlast])] at hcompl
      have hx : x + 1 < 36 * (4 * D) := by
        have hlt : (x + 1) / (4 * D) < 36 := by omega
        exact (Nat.div_lt_iff_lt_mul (by omega)).mp hlt
      refine ⟨hx, hc.running, hx, ?_, hstate, hdata, hcompl, ?_⟩
      · rw [hc.phase, if_pos hedge, hsucc.2]
      · rw [hsucc.1]
        exact hbits
  · left
    rw [if_neg (by omega)] at hsucc
    have hx : x + 1 < 36 * (4 * D) := by
      have hlt : (x + 1) / (4 * D) < 36 := by omega
      exact (Nat.div_lt_iff_lt_mul (by omega)).mp hlt
    refine ⟨hx, hc.running, hx, ?_, hstate, hdata, ?_, ?_⟩
    · rw [hc.phase, if_neg hedge, hsucc.2, hphase]
    · rw [hc.completion, if_neg (fun he => hedge he.1), h.completion]
      rfl
    · rw [hc.bits, if_neg hedge, hlatched, hsucc.1]
      exact h.bits

/-- The line follows the frame, which begins four edges and a half bit time after the
send state was entered. -/
theorem Sending.line_eq {x : Nat} (h : Sending D w x s) :
    s.line = if 18 * D ≤ x then frameLine D w (x - 18 * D) else .null := by
  have hpos := h.position
  have hDpos := h.running.cnt_lt
  have hphase := h.phase
  have hdiv := Nat.div_add_mod x (4 * D)
  have hmod := Nat.mod_lt x (show 0 < 4 * D by omega)
  have hbusy : s.sigBusyD1 = decide (4 ≤ x / (4 * D) ∧ x / (4 * D) ≤ 35) := h.bits.sigBusyD1
  have hj : x / (4 * D) < 36 := (Nat.div_lt_iff_lt_mul (by omega)).mpr hpos
  rw [h.running.line, sigClk_eq h.running, hphase, hbusy]
  by_cases hhigh : x % (4 * D) < 2 * D
  · -- the second half of a symbol, or no symbol at all
    rw [decide_eq_true hhigh, Bool.not_true, Bool.and_false, if_neg Bool.false_ne_true]
    split
    · obtain ⟨k, hk⟩ : ∃ k, x / (4 * D) = 5 + k := by
        refine Nat.exists_eq_add_of_le ?_
        by_contra hlt
        have hle := Nat.mul_le_mul_left (4 * D) (show x / (4 * D) ≤ 4 by omega)
        omega
      rw [hk, Nat.mul_add] at hdiv
      have hrest := (div_mod_of_eq (x := x - 18 * D) (T := 4 * D) (q := k)
        (r := x % (4 * D) + 2 * D) (by omega) (by omega)).2
      rw [frameLine, hrest, if_neg (by omega)]
    · rfl
  · rw [decide_eq_false hhigh, Bool.not_false, Bool.and_true]
    by_cases h4 : 4 ≤ x / (4 * D)
    · obtain ⟨k, hk⟩ := Nat.exists_eq_add_of_le h4
      have hbit : s.sigBit = frameBit w (x / (4 * D) - 4) := h.bits.bit h4 (by omega)
      rw [hk, Nat.mul_add] at hdiv
      obtain ⟨hquot, hrest⟩ := div_mod_of_eq (x := x - 18 * D) (T := 4 * D) (q := k)
        (r := x % (4 * D) - 2 * D) (by omega) (by omega)
      rw [if_pos (by simp; omega), if_pos (by omega), frameLine, hrest, hquot, if_pos (by omega),
        hbit, hk, Nat.add_sub_cancel_left]
    · have hle := Nat.mul_le_mul_left (4 * D) (show x / (4 * D) ≤ 3 by omega)
      rw [if_neg (by simp; omega), if_neg (by omega)]

end Arinc429Tx

end Mfi.Arinc429
