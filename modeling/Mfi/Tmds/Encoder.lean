import Mathlib.Tactic.IntervalCases
import Mfi.Core.LineCode
import Mfi.Core.Trace

/-!
# TMDS encoder

A colour byte is encoded in two steps. Each bit is joined to the one before it by XOR or by
XNOR, whichever makes fewer transitions, and a ninth bit tells which. Then the byte is sent
as it is or inverted, and a tenth bit tells which, so that ones and zeros stay in balance.
In the blanking interval one of four control words is sent and the balance starts again.
-/

namespace Mfi.Tmds

open Core

structure EncoderInput where
  iRstN : Bool
  iData : BitVec 8
  iCtrl : BitVec 2
  iDe : Bool
  deriving DecidableEq, Repr

structure Encoder where
  oTmds : BitVec 10
  bias : BitVec 5
  deriving DecidableEq, Repr

/-! ## The encoded byte -/

def dOnes (iData : BitVec 8) : BitVec 4 :=
  let bit := fun i => (BitVec.ofBool (iData.getLsbD i)).setWidth 4
  bit 0 + bit 1 + bit 2 + bit 3 + bit 4 + bit 5 + bit 6 + bit 7

def useXnor (iData : BitVec 8) : Bool :=
  (4#4).ult (dOnes iData) || (dOnes iData == 4#4 && !iData.getLsbD 0)

/-- Bit `k` of the encoded byte. -/
def encBit (iData : BitVec 8) : Nat → Bool
  | 0 => iData.getLsbD 0
  | k + 1 =>
      if useXnor iData then !(encBit iData k ^^ iData.getLsbD (k + 1))
      else encBit iData k ^^ iData.getLsbD (k + 1)

def encQm (iData : BitVec 8) : BitVec 9 :=
  BitVec.ofBool (!useXnor iData) ++ (BitVec.ofBool (encBit iData 7) ++
    BitVec.ofBool (encBit iData 6) ++ BitVec.ofBool (encBit iData 5) ++
    BitVec.ofBool (encBit iData 4) ++ BitVec.ofBool (encBit iData 3) ++
    BitVec.ofBool (encBit iData 2) ++ BitVec.ofBool (encBit iData 1) ++
    BitVec.ofBool (encBit iData 0))

def ones (encQm : BitVec 9) : BitVec 5 :=
  let bit := fun i => (BitVec.ofBool (encQm.getLsbD i)).setWidth 5
  bit 0 + bit 1 + bit 2 + bit 3 + bit 4 + bit 5 + bit 6 + bit 7

def zeros (encQm : BitVec 9) : BitVec 5 := 0b01000#5 - ones encQm

def balance (encQm : BitVec 9) : BitVec 5 := ones encQm - zeros encQm

/-! ## The registers -/

def ctrlWord (iCtrl : BitVec 2) : BitVec 10 :=
  if iCtrl = 0b00#2 then 0b1101010100#10
  else if iCtrl = 0b01#2 then 0b0010101011#10
  else if iCtrl = 0b10#2 then 0b0101010100#10
  else 0b1010101011#10

/-- The choice of the second step, for a byte that is out of balance. -/
def sameSign (bias balance : BitVec 5) : Bool :=
  (0#5).slt bias && (0#5).slt balance || bias.slt 0#5 && balance.slt 0#5

def Encoder.pixel (r : Encoder) (encQm : BitVec 9) : Encoder :=
  let qm := encQm.extractLsb' 0 8
  let qm8 := encQm.getLsbD 8
  if r.bias = 0#5 ∨ balance encQm = 0#5 then
    if !qm8 then { oTmds := 0b10#2 ++ ~~~qm, bias := r.bias - balance encQm }
    else { oTmds := 0b01#2 ++ qm, bias := r.bias + balance encQm }
  else if sameSign r.bias (balance encQm) then
    { oTmds := 1#1 ++ BitVec.ofBool qm8 ++ ~~~qm
      bias := r.bias + (0#3 ++ BitVec.ofBool qm8 ++ 0#1) - balance encQm }
  else
    { oTmds := 0#1 ++ BitVec.ofBool qm8 ++ qm
      bias := r.bias - (0#3 ++ BitVec.ofBool (!qm8) ++ 0#1) + balance encQm }

def Encoder.step (r : Encoder) (i : EncoderInput) : Encoder :=
  if !i.iRstN then { oTmds := 0b1101010100#10, bias := 0#5 }
  else if !i.iDe then { oTmds := ctrlWord i.iCtrl, bias := 0#5 }
  else r.pixel (encQm i.iData)

/-- The encoder before clock `n`. -/
def encoderRun (r : Encoder) (inp : Nat → EncoderInput) : Nat → Encoder := trace Encoder.step r inp

/-! ## What the words stand for -/

inductive Character where
  | control (c : BitVec 2)
  | pixel (d : BitVec 8)
  deriving DecidableEq, Repr

/-- The character that an encoder is given. A reset counts as control word 0. -/
def EncoderInput.character (i : EncoderInput) : Character :=
  if !i.iRstN then .control 0#2 else if !i.iDe then .control i.iCtrl else .pixel i.iData

/-- The colour byte of a word, as a receiver finds it. -/
def pixelOf (w : BitVec 10) : BitVec 8 :=
  let qm := if w.getLsbD 9 then ~~~(w.extractLsb' 0 8) else w.extractLsb' 0 8
  let joined := qm ^^^ (qm <<< 1)
  if w.getLsbD 8 then joined else joined ^^^ 0xFE#8

/-- The receiver knows the control words and takes every other word for a colour byte. -/
def decode (w : BitVec 10) : Character :=
  if w = 0b1101010100#10 then .control 0#2
  else if w = 0b0010101011#10 then .control 1#2
  else if w = 0b0101010100#10 then .control 2#2
  else if w = 0b1010101011#10 then .control 3#2
  else .pixel (pixelOf w)

/-! ## Data words -/

def dataWord (inverted : Bool) (encQm : BitVec 9) : BitVec 10 :=
  BitVec.ofBool inverted ++ BitVec.ofBool (encQm.getLsbD 8) ++
    (if inverted then ~~~(encQm.extractLsb' 0 8) else encQm.extractLsb' 0 8)

def inverts (bias : BitVec 5) (encQm : BitVec 9) : Bool :=
  if bias = 0#5 ∨ balance encQm = 0#5 then !encQm.getLsbD 8 else sameSign bias (balance encQm)

theorem pixel_oTmds (r : Encoder) (encQm : BitVec 9) :
    (r.pixel encQm).oTmds = dataWord (inverts r.bias encQm) encQm := by
  unfold Encoder.pixel inverts
  dsimp only
  by_cases hrest : r.bias = 0#5 ∨ balance encQm = 0#5
  · rw [if_pos hrest, if_pos hrest]
    cases hbit : encQm.getLsbD 8 with
    | false => simp only [Bool.not_false, if_true, dataWord, hbit]; rfl
    | true => simp only [Bool.not_true, Bool.false_eq_true, if_false, dataWord, hbit]; rfl
  · rw [if_neg hrest, if_neg hrest]
    cases hsign : sameSign r.bias (balance encQm) with
    | false => rfl
    | true => rfl

theorem encQm_getLsbD (iData : BitVec 8) {k : Nat} (hk : k < 8) :
    (encQm iData).getLsbD k = encBit iData k := by
  unfold encQm
  simp only [BitVec.getLsbD_append, BitVec.getLsbD_ofBool]
  interval_cases k <;> rfl

theorem encQm_top (iData : BitVec 8) : (encQm iData).getLsbD 8 = !useXnor iData := by
  unfold encQm
  rw [BitVec.getLsbD_append, if_neg (by decide), BitVec.getLsbD_ofBool]
  rfl

theorem encBit_succ (iData : BitVec 8) (k : Nat) :
    (encBit iData k != encBit iData (k + 1)) = (iData.getLsbD (k + 1) != useXnor iData) := by
  rw [encBit]
  cases useXnor iData <;> cases encBit iData k <;> cases iData.getLsbD (k + 1) <;> rfl

/-! ## Decoding -/

theorem byte_dataWord (inverted : Bool) (encQm : BitVec 9) :
    (if (dataWord inverted encQm).getLsbD 9 then ~~~((dataWord inverted encQm).extractLsb' 0 8)
      else (dataWord inverted encQm).extractLsb' 0 8) = encQm.extractLsb' 0 8 := by
  have htop : (dataWord inverted encQm).getLsbD 9 = inverted := by
    rw [dataWord, BitVec.append_assoc, BitVec.getLsbD_cast, BitVec.getLsbD_append,
      if_neg (by decide), BitVec.getLsbD_ofBool]
    cases inverted <;> rfl
  have hlow : (dataWord inverted encQm).extractLsb' 0 8 =
      if inverted then ~~~(encQm.extractLsb' 0 8) else encQm.extractLsb' 0 8 := by
    apply BitVec.eq_of_getLsbD_eq
    intro k hk
    rw [BitVec.getLsbD_extractLsb', dataWord, BitVec.getLsbD_append, Nat.zero_add, if_pos hk]
    simp only [hk, decide_true, Bool.true_and]
  rw [htop, hlow]
  cases inverted with
  | false => rfl
  | true => exact BitVec.not_not

theorem dataWord_eight (inverted : Bool) (encQm : BitVec 9) :
    (dataWord inverted encQm).getLsbD 8 = encQm.getLsbD 8 := by
  rw [dataWord, BitVec.getLsbD_append, if_neg (by decide), BitVec.getLsbD_append,
    if_pos (by decide), BitVec.getLsbD_ofBool]
  rfl

theorem byte_encQm (iData : BitVec 8) {k : Nat} (hk : k < 8) :
    ((encQm iData).extractLsb' 0 8).getLsbD k = encBit iData k := by
  rw [BitVec.getLsbD_extractLsb', Nat.zero_add, encQm_getLsbD iData hk]
  simp only [hk, decide_true, Bool.true_and]

/-- The receiver undoes both steps. -/
theorem pixelOf_dataWord (inverted : Bool) (iData : BitVec 8) :
    pixelOf (dataWord inverted (encQm iData)) = iData := by
  unfold pixelOf
  rw [byte_dataWord, dataWord_eight, encQm_top]
  apply BitVec.eq_of_getLsbD_eq
  intro k hk
  have hjoined : ((encQm iData).extractLsb' 0 8 ^^^ ((encQm iData).extractLsb' 0 8 <<< 1)).getLsbD
      k = (iData.getLsbD k ^^ (decide (0 < k) && useXnor iData)) := by
    rw [BitVec.getLsbD_xor, BitVec.getLsbD_shiftLeft, byte_encQm iData hk]
    cases k with
    | zero =>
        simp [encBit]
    | succ k =>
        have hbits := encBit_succ iData k
        rw [Nat.add_sub_cancel, byte_encQm iData (by omega)]
        simp only [hk, decide_true, Bool.true_and, Nat.zero_lt_succ, show ¬ k + 1 < 1 by omega,
          decide_false, Bool.not_false]
        rw [Bool.xor_comm]
        exact hbits
  dsimp only
  cases hxnor : useXnor iData with
  | false =>
      rw [hxnor, Bool.and_false, Bool.xor_false] at hjoined
      exact hjoined
  | true =>
      rw [hxnor, Bool.and_true] at hjoined
      rw [Bool.not_true, if_neg Bool.false_ne_true, BitVec.getLsbD_xor, hjoined]
      have hmask : ∀ k < 8, (0xFE#8).getLsbD k = decide (0 < k) := by decide
      rw [hmask k hk, Bool.xor_assoc, Bool.xor_self, Bool.xor_false]

/-! ## Transitions -/

theorem dOnes_toNat (iData : BitVec 8) :
    (dOnes iData).toNat = (List.range 8).countP fun i => iData.getLsbD i := by
  revert iData
  decide +kernel

theorem countP_bits (iData : BitVec 8) :
    ((List.range 8).countP fun i => iData.getLsbD i) =
      (List.range 7).countP (fun i => iData.getLsbD (i + 1)) +
        if iData.getLsbD 0 then 1 else 0 := by
  rw [List.range_succ_eq_map, List.countP_cons, List.countP_map]
  rfl

theorem useXnor_iff (iData : BitVec 8) :
    useXnor iData = true ↔
      4 < (dOnes iData).toNat ∨ (dOnes iData).toNat = 4 ∧ iData.getLsbD 0 = false := by
  unfold useXnor
  rw [Bool.or_eq_true, Bool.and_eq_true, BitVec.ult_eq_decide, decide_eq_true_iff, beq_iff_eq,
    Bool.not_eq_true', ← BitVec.toNat_inj]
  rfl

/-- The choice between XOR and XNOR leaves at most three transitions in the encoded byte. -/
theorem transitions_byte (iData : BitVec 8) :
    transitions (lsbFirst ((encQm iData).extractLsb' 0 8)) ≤ 3 := by
  have hbits : lsbFirst ((encQm iData).extractLsb' 0 8) = (List.range (7 + 1)).map (encBit iData) :=
    List.map_congr_left fun k hk => byte_encQm iData (List.mem_range.mp hk)
  have hones := countP_bits iData
  rw [← dOnes_toNat] at hones
  rw [hbits, transitions_range]
  simp only [encBit_succ]
  have hchoice := useXnor_iff iData
  cases hxnor : useXnor iData with
  | false =>
      simp only [hxnor, Bool.false_eq_true, false_iff] at hchoice
      simp only [Bool.bne_false]
      cases hzero : iData.getLsbD 0 with
      | false =>
          simp only [hzero, Bool.false_eq_true, if_false, and_true] at hchoice hones
          omega
      | true =>
          simp only [hzero, if_true] at hones
          omega
  | true =>
      simp only [hxnor, true_iff] at hchoice
      simp only [Bool.bne_true]
      have hsum := List.length_eq_countP_add_countP (fun i => iData.getLsbD (i + 1))
        (l := List.range 7)
      rw [List.length_range] at hsum
      simp only [decide_not, Bool.decide_eq_true] at hsum
      cases hzero : iData.getLsbD 0 with
      | false =>
          simp only [hzero, Bool.false_eq_true, if_false] at hones
          omega
      | true =>
          simp only [hzero, if_true, Bool.true_eq_false, and_false, or_false] at hchoice hones
          omega

theorem lsbFirst_dataWord (inverted : Bool) (encQm : BitVec 9) :
    lsbFirst (dataWord inverted encQm) =
      (if inverted then (lsbFirst (encQm.extractLsb' 0 8)).map not
        else lsbFirst (encQm.extractLsb' 0 8)) ++ [encQm.getLsbD 8, inverted] := by
  rw [dataWord, lsbFirst_append, lsbFirst_append, lsbFirst_ofBool, lsbFirst_ofBool]
  cases inverted with
  | false => rfl
  | true => exact congrArg (· ++ _) (lsbFirst_not _)

theorem transitions_dataWord (inverted : Bool) (iData : BitVec 8) :
    transitions (lsbFirst (dataWord inverted (encQm iData))) ≤ 5 := by
  have hbyte := transitions_byte iData
  have htail : transitions [(encQm iData).getLsbD 8, inverted] ≤ 1 := by
    cases (encQm iData).getLsbD 8 <;> cases inverted <;> decide
  rw [lsbFirst_dataWord]
  cases inverted with
  | false =>
      have happend := transitions_append_le (lsbFirst ((encQm iData).extractLsb' 0 8))
        [(encQm iData).getLsbD 8, false]
      simp only [Bool.false_eq_true, if_false]
      omega
  | true =>
      have happend := transitions_append_le ((lsbFirst ((encQm iData).extractLsb' 0 8)).map not)
        [(encQm iData).getLsbD 8, true]
      rw [transitions_not] at happend
      simp only [if_true]
      omega

theorem transitions_ctrlWord (iCtrl : BitVec 2) :
    7 ≤ transitions (lsbFirst (ctrlWord iCtrl)) := by
  revert iCtrl
  decide

theorem decode_ctrlWord (iCtrl : BitVec 2) : decode (ctrlWord iCtrl) = .control iCtrl := by
  revert iCtrl
  decide

/-- A word with few transitions is none of the control words. -/
theorem decode_of_transitions {w : BitVec 10} (h : transitions (lsbFirst w) ≤ 5) :
    decode w = .pixel (pixelOf w) := by
  have hne : ∀ c, w ≠ ctrlWord c := by
    rintro c rfl
    have hmany := transitions_ctrlWord c
    omega
  have hzero : w ≠ 0b1101010100#10 := hne 0#2
  have hone : w ≠ 0b0010101011#10 := hne 1#2
  have htwo : w ≠ 0b0101010100#10 := hne 2#2
  have hthree : w ≠ 0b1010101011#10 := hne 3#2
  rw [decode, if_neg hzero, if_neg hone, if_neg htwo, if_neg hthree]

/-! ## Every word of a run -/

/-- The numbers of transitions that a word of this kind may have. -/
def Character.Paced (c : Character) (transitions : Nat) : Prop :=
  match c with
  | .control _ => 7 ≤ transitions
  | .pixel _ => transitions ≤ 5

theorem step_word (r : Encoder) (i : EncoderInput) :
    decode (r.step i).oTmds = i.character ∧
      i.character.Paced (transitions (lsbFirst (r.step i).oTmds)) := by
  unfold Encoder.step EncoderInput.character
  cases i.iRstN with
  | false => exact ⟨decode_ctrlWord 0#2, transitions_ctrlWord 0#2⟩
  | true =>
      cases i.iDe with
      | false => exact ⟨decode_ctrlWord i.iCtrl, transitions_ctrlWord i.iCtrl⟩
      | true =>
          simp only [Bool.not_true, Bool.false_eq_true, if_false]
          rw [pixel_oTmds]
          have hfew := transitions_dataWord (inverts r.bias (encQm i.iData)) i.iData
          rw [decode_of_transitions hfew, pixelOf_dataWord]
          exact ⟨rfl, hfew⟩

/-- Whatever the account of ones and zeros makes of a character, the word that is sent stands for
it and for no other, and its transitions tell colour from control. -/
theorem words_decode (r : Encoder) (inp : Nat → EncoderInput) (n : Nat) :
    decode (encoderRun r inp (n + 1)).oTmds = (inp n).character ∧
      (inp n).character.Paced (transitions (lsbFirst (encoderRun r inp (n + 1)).oTmds)) :=
  step_word (encoderRun r inp n) (inp n)

end Mfi.Tmds
