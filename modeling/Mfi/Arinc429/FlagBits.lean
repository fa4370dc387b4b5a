import Mfi.Arinc429.RxController

/-!
# Bits of the mask/flag words

A mask or flag word carries one bit for each of 32 labels. The controller handles
it as four bytes; here the byte accesses are read as accesses to the bit
`label % 32`.
-/

namespace Mfi.Arinc429

theorem maskArr_getLsbD (q : Word) (k : Fin 4) {j : Nat} (hj : j < 8) :
    (maskArr q k).getLsbD j = q.getLsbD (8 * k.val + j) := by
  simp [maskArr, hj]

theorem flagsDataB_getLsbD (d : Fin 4 → BitVec 8) {j : Nat} (hj : j < 32) :
    (flagsDataB d).getLsbD j = (d (byteIndex j)).getLsbD (j % 8) := by
  unfold flagsDataB
  have hbyte : byteIndex j = ⟨j / 8 % 4, Nat.mod_lt _ (by decide)⟩ := rfl
  rw [BitVec.getLsbD_append, BitVec.getLsbD_append, BitVec.getLsbD_append]
  have hcases : j / 8 = 0 ∨ j / 8 = 1 ∨ j / 8 = 2 ∨ j / 8 = 3 := by omega
  simp only [hbyte]
  rcases hcases with h | h | h | h
  · rw [if_pos (by omega), h, show j % 8 = j by omega]
    rfl
  · rw [if_neg (by omega), if_pos (by omega), h, show j % 8 = j - 8 by omega]
    rfl
  · rw [if_neg (by omega), if_neg (by omega), if_pos (by omega), h,
      show j % 8 = j - 8 - 8 by omega]
    rfl
  · rw [if_neg (by omega), if_neg (by omega), if_neg (by omega), h,
      show j % 8 = j - 8 - 8 - 8 by omega]
    rfl

theorem byteBit_getLsbD (l : Nat) {j : Nat} (hj : j < 8) :
    ((1 : BitVec 8) <<< (l % 8)).getLsbD j = decide (j = l % 8) := by
  have hall : ∀ m < 8, ∀ j < 8, ((1 : BitVec 8) <<< m).getLsbD j = decide (j = m) := by decide
  exact hall (l % 8) (Nat.mod_lt _ (by decide)) j hj

theorem flagClearBuf_getLsbD (a : Nat) {j : Nat} (hj : j < 8) :
    (flagClearBuf a).getLsbD j = decide (j ≠ a % 8) := by
  unfold flagClearBuf
  rw [BitVec.getLsbD_not, byteBit_getLsbD a hj]
  simp only [hj, decide_true, Bool.true_and, ne_eq, decide_not]

theorem byte_and_bit {j l : Nat} (hj : j < 32) :
    j = l % 32 ↔ byteIndex j = byteIndex l ∧ j % 8 = l % 8 := by
  simp only [byteIndex, Fin.mk.injEq]
  omega

theorem maskArr_byteIndex (q : Word) {j : Nat} (hj : j < 32) :
    (maskArr q (byteIndex j)).getLsbD (j % 8) = q.getLsbD j := by
  rw [maskArr_getLsbD _ _ (Nat.mod_lt _ (by decide))]
  congr 1
  simp only [byteIndex]
  omega

/-- The bytes written at the end of a reception: the word shown on port B with the
bit of the label set. -/
theorem setFlag_getLsbD (q : Word) (l : Nat) {j : Nat} (hj : j < 32) :
    (flagsDataB fun k => if k = byteIndex l then maskArr q k ||| (1 : BitVec 8) <<< (l % 8)
      else maskArr q k).getLsbD j = (q.getLsbD j || decide (j = l % 32)) := by
  have hlt : j % 8 < 8 := Nat.mod_lt _ (by decide)
  rw [flagsDataB_getLsbD _ hj]
  by_cases hbyte : byteIndex j = byteIndex l
  · rw [if_pos hbyte, BitVec.getLsbD_or, maskArr_byteIndex q hj, byteBit_getLsbD l hlt]
    simp only [byte_and_bit hj, hbyte, true_and]
  · rw [if_neg hbyte, maskArr_byteIndex q hj]
    simp only [byte_and_bit hj, hbyte, false_and, decide_false, Bool.or_false]

theorem clearFlag_getLsbD (q : Word) (a : Nat) {j : Nat} (hj : j < 32) :
    (flagsDataB fun k => if k = byteIndex a then maskArr q k &&& flagClearBuf a
      else maskArr q k).getLsbD j = (q.getLsbD j && decide (j ≠ a % 32)) := by
  have hlt : j % 8 < 8 := Nat.mod_lt _ (by decide)
  rw [flagsDataB_getLsbD _ hj]
  by_cases hbyte : byteIndex j = byteIndex a
  · rw [if_pos hbyte, BitVec.getLsbD_and, maskArr_byteIndex q hj, flagClearBuf_getLsbD a hlt]
    simp only [ne_eq, byte_and_bit hj, hbyte, true_and]
  · rw [if_neg hbyte, maskArr_byteIndex q hj]
    simp only [ne_eq, byte_and_bit hj, hbyte, false_and, not_false_eq_true, decide_true,
      Bool.and_true]

end Mfi.Arinc429
