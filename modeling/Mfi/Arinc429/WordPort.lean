import Mfi.Arinc429.RxController

/-!
# What the serial receiver promises

Words arrive far apart: between two flags of `arinc429_rx` lie at least the 32
bits of a word. The controller needs only the few cycles of `wordGap`. The word
and its parity flag change only together with the flag.
-/

namespace Mfi.Arinc429

/-- Cycles after a received word in which no further word arrives. -/
def wordGap : Nat := 16

structure WordPort (port : Nat → RxPort) : Prop where
  spaced : ∀ n k, (port n).rxFlag = true → 0 < k → k ≤ wordGap → (port (n + k)).rxFlag = false
  heldWord : ∀ n, (port (n + 1)).rxFlag = false →
    (port (n + 1)).recievedWord = (port n).recievedWord
  heldErr : ∀ n, (port (n + 1)).rxFlag = false → (port (n + 1)).parErr = (port n).parErr

variable {port : Nat → RxPort}

theorem WordPort.far (h : WordPort port) {m n : Nat} (hm : (port m).rxFlag = true)
    (hn : (port n).rxFlag = true) (hlt : m < n) : m + wordGap < n := by
  by_contra hle
  have hclear := h.spaced m (n - m) hm (by omega) (by omega)
  rw [show m + (n - m) = n by omega, hn] at hclear
  cases hclear

theorem WordPort.word_held (h : WordPort port) {n : Nat} (hn : (port n).rxFlag = true) {k : Nat}
    (hk : k ≤ wordGap) : (port (n + k)).recievedWord = (port n).recievedWord := by
  induction k with
  | zero => rfl
  | succ k ih =>
      rw [← ih (by omega)]
      exact h.heldWord (n + k) (h.spaced n (k + 1) hn (by omega) hk)

theorem WordPort.err_held (h : WordPort port) {n : Nat} (hn : (port n).rxFlag = true) {k : Nat}
    (hk : k ≤ wordGap) : (port (n + k)).parErr = (port n).parErr := by
  induction k with
  | zero => rfl
  | succ k ih =>
      rw [← ih (by omega)]
      exact h.heldErr (n + k) (h.spaced n (k + 1) hn (by omega) hk)

end Mfi.Arinc429
