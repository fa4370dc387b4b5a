import Mfi.DualPortRam

/-!
# Label order

The eight label bits of a word may be stored in the opposite order. Both
controllers turn them with the same wiring.
-/

namespace Mfi.Arinc429

/-- A word with its eight label bits in the opposite order. -/
def reverseLabel (w : Word) : Word := w.extractLsb' 8 24 ++ (w.extractLsb' 0 8).reverse

theorem reverseLabel_getLsbD (w : Word) {j : Nat} (hj : j < 32) :
    (reverseLabel w).getLsbD j = w.getLsbD (if j < 8 then 7 - j else j) := by
  unfold reverseLabel
  rw [BitVec.getLsbD_append]
  split
  · rename_i h
    rw [BitVec.getLsbD_reverse, BitVec.getMsbD_eq_getLsbD]
    simp only [h, decide_true, Bool.true_and, BitVec.getLsbD_extractLsb']
    rw [decide_eq_true (by omega), Bool.true_and]
    congr 1
    omega
  · rename_i h
    rw [BitVec.getLsbD_extractLsb', decide_eq_true (by omega), Bool.true_and]
    congr 1
    omega

theorem reverseLabel_reverseLabel (w : Word) : reverseLabel (reverseLabel w) = w := by
  apply BitVec.eq_of_getLsbD_eq
  intro j hj
  rw [reverseLabel_getLsbD _ hj, reverseLabel_getLsbD _ (by split <;> omega)]
  congr 1
  by_cases h8 : j < 8
  · rw [if_pos h8, if_pos (by omega)]
    omega
  · rw [if_neg h8, if_neg h8]

end Mfi.Arinc429
