import Mathlib.Data.List.Induction
import Mathlib.Data.List.GetD
import Mfi.AmsI2c.Handshake

/-!
# Transactions on an I2C bus

A transaction is a list of symbols: conditions, and bits with what the master and what the
slave put on the data line. The grammar says which lists a command may give, for every
answer of the slave.
-/

namespace Mfi.AmsI2c

open Core

/-- A symbol on the bus. At a fault both lines move at once. -/
inductive Symbol where
  | start
  | stop
  | bit (master slave : Bool)
  | fault
deriving DecidableEq

/-! ## Bytes -/

def bitsOf (b : BitVec 8) : List Bool := (List.range 8).map fun j => b.getLsbD (7 - j)

/-- The master sends the first bits of a byte, as many as the slave shows bits. -/
def byteSymbols (b : BitVec 8) (vs : List Bool) : List Symbol := List.zipWith .bit (bitsOf b) vs

/-- A byte with its acknowledge slot, in which the master leaves the line. -/
def exchange (b : BitVec 8) (vs : List Bool) (a : Bool) : List Symbol :=
  byteSymbols b vs ++ [.bit true a]

theorem byteSymbols_snoc (b : BitVec 8) {vs : List Bool} (h : vs.length < 8) (v : Bool) :
    byteSymbols b (vs ++ [v]) = byteSymbols b vs ++ [.bit (b.getLsbD (7 - vs.length)) v] := by
  have hlen : (bitsOf b).length = 8 := by simp [bitsOf]
  apply List.ext_getElem
  · simp only [byteSymbols, List.length_zipWith, List.length_append, List.length_singleton, hlen]
    omega
  · intro j hj hj'
    simp only [byteSymbols, List.length_zipWith, List.length_append, List.length_singleton,
      hlen] at hj
    by_cases hlast : j = vs.length
    · subst hlast
      simp only [byteSymbols, List.getElem_zipWith]
      have hzip : (List.zipWith Symbol.bit (bitsOf b) vs).length ≤ vs.length := by
        rw [List.length_zipWith]
        exact Nat.min_le_right _ _
      rw [List.getElem_append_right (Nat.le_refl _), List.getElem_append_right hzip]
      simp [bitsOf]
    · simp only [byteSymbols, List.getElem_zipWith]
      rw [List.getElem_append_left (by omega), List.getElem_append_left (by simp [hlen]; omega)]
      simp

/-- The shift register after the bits `ds` have come in. -/
def shiftIn (x : BitVec 8) (ds : List Bool) : BitVec 8 :=
  ds.foldl (fun y d => y.extractLsb' 0 7 ++ BitVec.ofBool d) x

theorem shiftIn_snoc (x : BitVec 8) (ds : List Bool) (d : Bool) :
    shiftIn x (ds ++ [d]) = (shiftIn x ds).extractLsb' 0 7 ++ BitVec.ofBool d := by
  simp [shiftIn]

theorem getLsbD_shift (y : BitVec 8) (d : Bool) (j : Nat) (hj : j < 8) :
    (y.extractLsb' 0 7 ++ BitVec.ofBool d : BitVec 8).getLsbD j =
      if j = 0 then d else y.getLsbD (j - 1) := by
  rw [BitVec.getLsbD_append]
  by_cases h0 : j = 0
  · subst h0
    cases d <;> rfl
  · have hpos : ¬ j < 1 := by omega
    rw [if_neg hpos, if_neg h0, BitVec.getLsbD_extractLsb']
    simp
    omega

theorem getLsbD_shiftIn (x : BitVec 8) (ds : List Bool) (hlen : ds.length ≤ 8) (j : Nat)
    (hj : j < 8) :
    (shiftIn x ds).getLsbD j =
      if j < ds.length then ds.getD (ds.length - 1 - j) false else x.getLsbD (j - ds.length) := by
  induction ds using List.reverseRecOn generalizing j with
  | nil => simp [shiftIn]
  | append_singleton ds d ih =>
      rw [List.length_append, List.length_singleton] at hlen ⊢
      rw [shiftIn_snoc, getLsbD_shift _ _ _ hj]
      by_cases h0 : j = 0
      · subst h0
        rw [if_pos rfl, if_pos (by omega)]
        simp
      · rw [if_neg h0, ih (by omega) _ (by omega)]
        by_cases hlow : j < ds.length + 1
        · rw [if_pos (by omega), if_pos hlow, List.getD_append _ _ _ _ (by omega)]
          congr 1
          omega
        · rw [if_neg (by omega), if_neg hlow]
          congr 1
          omega

theorem bitsOf_shiftIn (x : BitVec 8) {ds : List Bool} (hlen : ds.length = 8) :
    bitsOf (shiftIn x ds) = ds := by
  apply List.ext_getElem
  · simp [bitsOf, hlen]
  · intro j hj hj'
    simp only [bitsOf, List.length_map, List.length_range] at hj
    simp only [bitsOf, List.getElem_map, List.getElem_range]
    rw [getLsbD_shiftIn x ds (by omega) _ (by omega), if_pos (by omega),
      List.getD_eq_getElem _ _ (by omega)]
    congr 1
    omega

/-! ## The grammar -/

/-- The bytes of a transaction; the last is that of the slave. -/
inductive Byte where
  | device
  | register
  | data
  | deviceAgain
  | slave
deriving DecidableEq

def Command.byte (c : Command) : Byte → BitVec 8
  | .device => c.address.extractLsb' 9 7 ++ BitVec.ofBool false
  | .register => c.address.extractLsb' 0 8
  | .data => c.data
  | .deviceAgain => c.address.extractLsb' 9 7 ++ BitVec.ofBool true
  | .slave => 0xFF

/-- What comes before a byte: every byte before it was acknowledged. -/
inductive Before (c : Command) : Byte → List Symbol → Prop where
  | device : Before c .device [.start]
  | register {l : List Symbol} (h : Before c .device l) (vs : List Bool) (hlen : vs.length = 8) :
      Before c .register (l ++ exchange (c.byte .device) vs false)
  | data {l : List Symbol} (h : Before c .register l) (hw : c.isRead = false) (vs : List Bool)
      (hlen : vs.length = 8) :
      Before c .data (l ++ exchange (c.byte .register) vs false)
  | deviceAgain {l : List Symbol} (h : Before c .register l) (hr : c.isRead = true)
      (vs : List Bool) (hlen : vs.length = 8) :
      Before c .deviceAgain (l ++ exchange (c.byte .register) vs false ++ [.start])
  | slave {l : List Symbol} (h : Before c .deviceAgain l) (vs : List Bool)
      (hlen : vs.length = 8) :
      Before c .slave (l ++ exchange (c.byte .deviceAgain) vs false)

/-- The transactions of a command, with the byte that a successful read gives. After a
refused address byte comes the stop; so it does after the data byte, and after the byte of
the slave, which the master does not acknowledge. -/
inductive Transaction (c : Command) : List Symbol → Option (BitVec 8) → Prop where
  | refused {y : Byte} {l : List Symbol} (h : Before c y l)
      (hy : y = .device ∨ y = .register ∨ y = .deviceAgain) (vs : List Bool)
      (hlen : vs.length = 8) :
      Transaction c (l ++ exchange (c.byte y) vs true ++ [.stop]) none
  | written {l : List Symbol} (h : Before c .data l) (vs : List Bool) (hlen : vs.length = 8)
      (a : Bool) :
      Transaction c (l ++ exchange (c.byte .data) vs a ++ [.stop]) none
  | read {l : List Symbol} (h : Before c .slave l) (b : BitVec 8) (a : Bool) :
      Transaction c (l ++ exchange (c.byte .slave) (bitsOf b) a ++ [.stop]) (some b)

end Mfi.AmsI2c
