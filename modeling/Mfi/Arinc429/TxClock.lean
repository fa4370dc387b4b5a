import Mfi.Arinc429.Transmitter

/-!
# The clocks of the serialiser

The divided clocks of `arinc429_tx` are one counter modulo the bit time `4 * D`,
where `D` is the divider: `phase` counts the cycles since the last rising edge of
`sig_clk`. What a cycle does to the registers clocked by `sig_clk` depends on the
phase only, and the line follows them by half a bit time.
-/

namespace Mfi.Arinc429

/-- The registers clocked by `sig_clk`. -/
structure TxBits where
  cntBit : Nat
  sigBusy : Bool
  sigBusyD1 : Bool
  sigDataShift : Word
  sigBit : Bool
  sigPar : Bool
  start : SyncPe

/-- A rising edge of `sig_clk`, with the word to be sent. -/
def TxBits.edge (b : TxBits) (sigData : Word) : TxBits where
  cntBit := if b.start.syncOut then 31 else b.cntBit - 1
  sigBusy := b.start.syncOut || decide (0 < b.cntBit)
  sigBusyD1 := b.sigBusy
  sigDataShift := if 0 < b.cntBit then b.sigDataShift >>> 1 else sigData
  sigBit := if 0 < b.cntBit then b.sigDataShift.getLsbD 0 else !b.sigPar
  sigPar := if 0 < b.cntBit then b.sigDataShift.getLsbD 0 ^^ b.sigPar else false
  start := b.start.clkEdge

namespace Arinc429Tx

def bits (s : Arinc429Tx) : TxBits :=
  ⟨s.cntBit, s.sigBusy, s.sigBusyD1, s.sigDataShift, s.sigBit, s.sigPar, s.syncPeAvsSig⟩

/-- Cycles since the last rising edge of `sig_clk`, modulo the bit time. -/
def phase (D : Nat) (s : Arinc429Tx) : Nat :=
  (if s.sigClk then 0 else 2 * D) + (if s.clk2x then 0 else D) + s.cntClk

/-- The serialiser runs with divider `D`, and the line follows its bits. -/
structure Running (D : Nat) (s : Arinc429Tx) : Prop where
  devider : s.clkDevider = D
  fits : D ≤ 65536
  cnt_lt : s.cntClk < D
  line : s.line = if s.sigBusyD1 && !s.sigClk then .symbol s.sigBit else .null

def enters (s : Arinc429Tx) (i : TxPort) : Bool :=
  decide (s.stateAvlTx = .idle) && i.sinkTxValid

variable {D f : Nat} {s : Arinc429Tx} {i : TxPort}

theorem phase_lt (h : Running D s) : s.phase D < 4 * D := by
  have hlt := h.cnt_lt
  unfold phase
  cases s.sigClk <;> cases s.clk2x <;> simp <;> omega

theorem Running.reset (hD : 0 < D) (hfits : D ≤ 65536) : Running D (Arinc429Tx.reset D) :=
  ⟨rfl, hfits, hD, rfl⟩

theorem step_running (h : Running D s) (hi : txDevider f i.speed = D) :
    s.step f i =
      let n := s.avsEdge i D
      if n.clk2x && !s.clk2x then n.halfEdge else n := by
  have hpos := h.cnt_lt
  have hne : ¬(D = 0 ∨ D = 0) := by omega
  unfold step
  simp only [h.devider, hi, ite_self, if_neg hne]

theorem clk2x_rises_iff (h : Running D s) :
    ((s.avsEdge i D).clk2x && !s.clk2x) = true ↔ s.cntClk = D - 1 ∧ s.clk2x = false := by
  have hlt := h.cnt_lt
  have hge : D - 1 ≤ s.cntClk ↔ s.cntClk = D - 1 := by omega
  simp only [avsEdge, h.devider, ge_iff_le, hge]
  cases s.clk2x <;> by_cases hc : s.cntClk = D - 1 <;> simp [hc]

/-- A cycle has no derived edge, or `sig_clk` falls in it, or `sig_clk` rises in it. -/
theorem step_cases (h : Running D s) (hi : txDevider f i.speed = D) :
    (¬(s.cntClk = D - 1 ∧ s.clk2x = false) ∧ s.step f i = s.avsEdge i D) ∨
    (s.cntClk = D - 1 ∧ s.clk2x = false ∧ s.sigClk = true ∧ s.step f i =
      { s.avsEdge i D with
        sigClk := false
        line := if s.sigBusyD1 then .symbol s.sigBit else .null }) ∨
    (s.cntClk = D - 1 ∧ s.clk2x = false ∧ s.sigClk = false ∧ s.step f i =
      { s.avsEdge i D with
        sigClk := true
        line := .null }.bitEdge) := by
  rw [step_running h hi]
  dsimp only
  by_cases hrise : s.cntClk = D - 1 ∧ s.clk2x = false
  · rw [if_pos ((clk2x_rises_iff h).mpr hrise)]
    cases hsig : s.sigClk with
    | true =>
        refine Or.inr (Or.inl ⟨hrise.1, hrise.2, rfl, ?_⟩)
        cases hb : s.sigBusyD1 <;> simp [halfEdge, avsEdge, hsig, hb, Line.symbol, Line.null]
    | false =>
        refine Or.inr (Or.inr ⟨hrise.1, hrise.2, rfl, ?_⟩)
        simp [halfEdge, avsEdge, hsig, Line.null]
  · rw [if_neg (fun hr => hrise ((clk2x_rises_iff h).mp hr))]
    exact Or.inl ⟨hrise, rfl⟩

/-! ## What a cycle does -/

/-- The send state is latched for the bit clock when it is entered. -/
def latchedBits (s : Arinc429Tx) (i : TxPort) : TxBits :=
  { s.bits with start := if s.enters i then s.syncPeAvsSig.asyncEdge else s.syncPeAvsSig }

theorem avsEdge_bits : (s.avsEdge i D).bits = s.latchedBits i := by
  simp [avsEdge, bits, latchedBits, enters]

theorem bitEdge_bits : s.bitEdge.bits = s.bits.edge s.sigData := rfl

structure Cycle (D f : Nat) (s : Arinc429Tx) (i : TxPort) : Prop where
  running : Running D (s.step f i)
  phase : (s.step f i).phase D = if s.phase D + 1 = 4 * D then 0 else s.phase D + 1
  state : (s.step f i).stateAvlTx =
    match s.stateAvlTx with
    | .idle => if i.sinkTxValid then .send else .idle
    | .send => if s.syncPeSigAvs.syncOut then .done else .send
    | .done => .idle
  sigData : (s.step f i).sigData = if s.stateAvlTx = .idle then i.sinkTxData else s.sigData
  bits : (s.step f i).bits =
    if s.phase D + 1 = 4 * D then (s.latchedBits i).edge (s.step f i).sigData
    else s.latchedBits i
  completion : (s.step f i).syncPeSigAvs =
    if s.phase D + 1 = 4 * D ∧ (s.sigBusyD1 && !s.sigBusy) = true then
      s.syncPeSigAvs.clkEdge.asyncEdge
    else s.syncPeSigAvs.clkEdge

theorem Running.phase_last (h : Running D s) :
    s.phase D + 1 = 4 * D ↔ s.cntClk = D - 1 ∧ s.clk2x = false ∧ s.sigClk = false := by
  have hlt := h.cnt_lt
  have hline := h.line
  unfold phase
  cases s.clk2x <;> cases s.sigClk <;> simp <;> omega

theorem Running.avsEdge_cntClk (h : Running D s) :
    (s.avsEdge i D).cntClk = if s.cntClk < D - 1 then s.cntClk + 1 else 0 := by
  have hlt := h.cnt_lt
  have hfits := h.fits
  simp only [avsEdge, h.devider]
  split
  · exact Nat.mod_eq_of_lt (by omega)
  · rfl

theorem Running.avsEdge_clk2x (h : Running D s) :
    (s.avsEdge i D).clk2x = if s.cntClk ≥ D - 1 then !s.clk2x else s.clk2x := by
  simp [avsEdge, h.devider]

theorem Running.avsEdge_cnt_lt (h : Running D s) : (s.avsEdge i D).cntClk < D := by
  have hlt := h.cnt_lt
  rw [h.avsEdge_cntClk]
  split <;> omega

theorem Running.phase_quiet (h : Running D s) (hno : ¬(s.cntClk = D - 1 ∧ s.clk2x = false)) :
    (s.avsEdge i D).phase D = s.phase D + 1 := by
  have hlt := h.cnt_lt
  have hcnt : (s.avsEdge i D).cntClk = _ := h.avsEdge_cntClk
  have hclk : (s.avsEdge i D).clk2x = _ := h.avsEdge_clk2x
  have hsig : (s.avsEdge i D).sigClk = s.sigClk := rfl
  by_cases hend : s.cntClk = D - 1
  · have h2x : s.clk2x = true := by
      cases h2x : s.clk2x with
      | true => rfl
      | false => exact absurd ⟨hend, h2x⟩ hno
    rw [if_neg (by omega)] at hcnt
    rw [if_pos (by omega), h2x] at hclk
    simp only [phase, hcnt, hclk, hsig, h2x, Bool.not_true, Bool.false_eq_true, if_false,
      if_true]
    omega
  · rw [if_pos (by omega)] at hcnt
    rw [if_neg (by omega)] at hclk
    simp only [phase, hcnt, hclk, hsig]
    omega

theorem cycle (h : Running D s) (hi : txDevider f i.speed = D) : Cycle D f s i := by
  have hlt := h.cnt_lt
  have hline := h.line
  have hlast := h.phase_last
  have hcnt : (s.avsEdge i D).cntClk = _ := h.avsEdge_cntClk
  have hclk : (s.avsEdge i D).clk2x = _ := h.avsEdge_clk2x
  rcases step_cases h hi with ⟨hno, hstep⟩ | ⟨hc, h2x, hsig, hstep⟩ | ⟨hc, h2x, hsig, hstep⟩
  · have hphase : ¬ s.phase D + 1 = 4 * D := fun he => hno ⟨(hlast.mp he).1, (hlast.mp he).2.1⟩
    refine ⟨⟨?_, h.fits, ?_, ?_⟩, ?_, ?_, ?_, ?_, ?_⟩ <;> rw [hstep]
    · rfl
    · exact h.avsEdge_cnt_lt
    · exact hline
    · rw [if_neg hphase]
      exact h.phase_quiet hno
    · rfl
    · rfl
    · rw [if_neg hphase, avsEdge_bits]
    · rw [if_neg (fun he => hphase he.1)]
      rfl
  · have hphase : ¬ s.phase D + 1 = 4 * D := by
      rw [hlast, hsig]
      simp
    refine ⟨⟨?_, h.fits, ?_, ?_⟩, ?_, ?_, ?_, ?_, ?_⟩ <;> rw [hstep]
    · rfl
    · exact h.avsEdge_cnt_lt (i := i)
    · simp [avsEdge]
    · rw [if_neg hphase]
      rw [if_neg (by omega)] at hcnt
      rw [if_pos (by omega), h2x] at hclk
      simp only [phase, hcnt, hclk, hsig, h2x, Bool.not_false, Bool.false_eq_true, if_false,
        if_true]
      omega
    · rfl
    · rfl
    · rw [if_neg hphase]
      exact avsEdge_bits (D := D) (s := s) (i := i)
    · simp only [hphase, false_and, if_false]
      rfl
  · have hphase : s.phase D + 1 = 4 * D := hlast.mpr ⟨hc, h2x, hsig⟩
    refine ⟨⟨?_, h.fits, ?_, ?_⟩, ?_, ?_, ?_, ?_, ?_⟩ <;> rw [hstep]
    · rfl
    · exact h.avsEdge_cnt_lt (i := i)
    · simp [bitEdge]
    · rw [if_pos hphase]
      rw [if_neg (by omega)] at hcnt
      rw [if_pos (by omega), h2x] at hclk
      simp [phase, bitEdge, hcnt, hclk]
    · rfl
    · rfl
    · rw [if_pos hphase, bitEdge_bits]
      exact congrArg (fun b => TxBits.edge b _) (avsEdge_bits (D := D) (s := s) (i := i))
    · simp only [hphase, true_and]
      rfl

end Arinc429Tx

end Mfi.Arinc429
