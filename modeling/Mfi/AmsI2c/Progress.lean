import Mfi.AmsI2c.Transaction
import Mfi.AmsI2c.Waveform

/-!
# The master inside a transaction

At the beginning of each period of `i2c_clock` the registers of the master tell how much of
the transaction has been on the bus. A falling edge adds the symbol of the period.
-/

namespace Mfi.AmsI2c

open Core

namespace Byte

def word : Byte → WordState
  | .device => .device
  | .register => .address
  | .data => .write
  | .deviceAgain => .device
  | .slave => .read

def readBit : Byte → Bool
  | .device => false
  | .register => false
  | .data => false
  | .deviceAgain => true
  | .slave => true

/-- What is loaded for a byte. The register address stays for the byte of the slave. -/
def loaded (y : Byte) (c : Command) : BitVec 8 :=
  match y with
  | .slave => c.byte .register
  | y => c.byte y

end Byte

namespace Master

/-- The master sends or takes the byte `y`; the bits `ds` have come in. -/
structure InByte (m : Master) (c : Command) (y : Byte) (ds : List Bool) : Prop where
  word : m.i2cWord = y.word
  readBit : m.i2cReadBit = y.readBit
  readOp : m.i2cReadOp = c.isRead
  shift : m.i2cShiftData = shiftIn (y.loaded c) ds

end Master

/-- The symbols `l` of the transaction have been on the bus. -/
inductive Progress (c : Command) (m : Master) : List Symbol → Prop where
  | starting (h : m.Starts c) : Progress c m []
  | sending {y : Byte} {l : List Symbol} (h : Before c y l) (vs ds : List Bool)
      (hm : m.InByte c y ds) (hs : m.i2cState = .data) (hlen : ds.length = vs.length)
      (hcnt : m.i2cBitCnt.toNat + vs.length = 7) (hslave : y = .slave → ds = vs) :
      Progress c m (l ++ byteSymbols (c.byte y) vs)
  | sent {y : Byte} {l : List Symbol} (h : Before c y l) (vs ds : List Bool)
      (hm : m.InByte c y ds) (hs : m.i2cState = .ack) (hlen : ds.length = vs.length)
      (hvs : vs.length = 8) (hslave : y = .slave → ds = vs) :
      Progress c m (l ++ byteSymbols (c.byte y) vs)
  | restarting {l : List Symbol} (h : Before c .register l) (hr : c.isRead = true)
      (vs : List Bool) (hvs : vs.length = 8) (hs : m.i2cState = .restart)
      (hword : m.i2cWord = .device) (hbit : m.i2cReadBit = true) (hop : m.i2cReadOp = c.isRead) :
      Progress c m (l ++ exchange (c.byte .register) vs false)
  | stopping {l : List Symbol} {r : Option (BitVec 8)} (h : Transaction c (l ++ [.stop]) r)
      (hs : m.i2cState = .stop) (hbyte : m.i2cReaddata = r.getD 0) : Progress c m l
  | finished {l : List Symbol} {r : Option (BitVec 8)} (h : Transaction c l r)
      (hs : m.i2cState = .idle) (hbusy : m.i2cBusy = true) (hbyte : m.i2cReaddata = r.getD 0) :
      Progress c m l

/-! ## One period -/

namespace Progress

variable {c : Command} {m : Master} {l : List Symbol} {wl rl : Bool}

theorem level_byte {y : Byte} {ds : List Bool} (hm : m.InByte c y ds) (hs : m.i2cState = .data)
    (hlen : ds.length ≤ 7) : m.levelLow = (c.byte y).getLsbD (7 - ds.length) := by
  unfold Master.levelLow
  rw [hs]
  simp only
  by_cases hy : y = .slave
  · subst hy
    have hones : ∀ j ≤ 7, (0xFF : BitVec 8).getLsbD j = true := by decide
    rw [hm.word, if_pos (show Byte.slave.word = .read from rfl)]
    exact (hones _ (by omega)).symm
  · have hword : y.word ≠ .read := by
      cases y with
      | slave => exact absurd rfl hy
      | device => decide
      | register => decide
      | data => decide
      | deviceAgain => decide
    have hloaded : y.loaded c = c.byte y := by
      cases y with
      | slave => exact absurd rfl hy
      | device => rfl
      | register => rfl
      | data => rfl
      | deviceAgain => rfl
    rw [hm.word, if_neg hword, hm.shift, getLsbD_shiftIn _ _ (by omega) _ (by omega),
      if_neg (by omega), hloaded]

theorem periodSymbols_bit (hs : m.i2cState = .data ∨ m.i2cState = .ack) (u : Bool) :
    m.periodSymbols u = [.bit m.levelLow u] := by
  unfold Master.periodSymbols Master.condition Master.pulls
  rcases hs with hs | hs <;> rw [hs] <;> rfl

theorem periodSymbols_condition {x : Symbol} (h : m.condition = some x) (u : Bool) :
    m.periodSymbols u = [x] := by
  unfold Master.periodSymbols
  rw [h]

theorem step_sending {y : Byte} (h : Before c y l) {vs ds : List Bool} (hm : m.InByte c y ds)
    (hs : m.i2cState = .data) (hlen : ds.length = vs.length)
    (hcnt : m.i2cBitCnt.toNat + vs.length = 7) (hslave : y = .slave → ds = vs) (u : Bool) :
    Progress c (m.step c.address c.data wl rl (m.levelLow && u) false)
      (l ++ byteSymbols (c.byte y) vs ++ m.periodSymbols u) := by
  have hlevel := level_byte hm hs (by omega)
  have hsymbols : l ++ byteSymbols (c.byte y) vs ++ m.periodSymbols u =
      l ++ byteSymbols (c.byte y) (vs ++ [u]) := by
    rw [periodSymbols_bit (.inl hs), byteSymbols_snoc _ (by omega), hlevel, hlen, List.append_assoc]
  have hlen' : (ds ++ [m.levelLow && u]).length = (vs ++ [u]).length := by simp [hlen]
  have hslave' : y = .slave → ds ++ [m.levelLow && u] = vs ++ [u] := by
    intro hy
    have hhigh : m.levelLow = true := by
      rw [Master.levelLow, hs]
      simp only
      rw [if_pos (by rw [hm.word, hy]; rfl)]
    rw [hslave hy, hhigh, Bool.true_and]
  have hshift : m.i2cShiftData.extractLsb' 0 7 ++ BitVec.ofBool (m.levelLow && u) =
      shiftIn (y.loaded c) (ds ++ [m.levelLow && u]) := by
    rw [shiftIn_snoc, ← hm.shift]
  rw [hsymbols]
  by_cases hb : 0 < m.i2cBitCnt
  · have hpos : 0 < m.i2cBitCnt.toNat := hb
    have hnext : (m.i2cBitCnt - 1).toNat = m.i2cBitCnt.toNat - 1 := by
      have hsub : ∀ k : BitVec 3, 0 < k.toNat → (k - 1).toNat = k.toNat - 1 := by decide
      exact hsub _ hpos
    have hcnt' : (m.i2cBitCnt - 1).toNat + (vs ++ [u]).length = 7 := by
      rw [List.length_append, List.length_singleton]
      omega
    rw [Master.step_data_next hs hb]
    exact .sending h (vs ++ [u]) (ds ++ [m.levelLow && u])
      ⟨hm.word, hm.readBit, hm.readOp, hshift⟩ hs hlen' hcnt' hslave'
  · have hzero : m.i2cBitCnt.toNat = 0 := by
      have hnot : ¬ 0 < m.i2cBitCnt.toNat := hb
      omega
    have hvs : (vs ++ [u]).length = 8 := by
      rw [List.length_append, List.length_singleton]
      omega
    rw [Master.step_data_last hs hb]
    exact .sent h (vs ++ [u]) (ds ++ [m.levelLow && u])
      ⟨hm.word, hm.readBit, hm.readOp, hshift⟩ rfl hlen' hvs hslave'

theorem sending_first {y : Byte} (h : Before c y l) (hm : m.InByte c y [])
    (hs : m.i2cState = .data) (hcnt : m.i2cBitCnt = 7) : Progress c m l := by
  have hnil : l ++ byteSymbols (c.byte y) [] = l := by
    rw [byteSymbols, List.zipWith_nil_right, List.append_nil]
  rw [← hnil]
  exact .sending h [] [] hm hs rfl (by rw [hcnt]; rfl) fun _ => rfl

theorem step_sent {y : Byte} (h : Before c y l) {vs ds : List Bool} (hm : m.InByte c y ds)
    (hs : m.i2cState = .ack) (hvs : vs.length = 8) (hslave : y = .slave → ds = vs) (u : Bool) :
    Progress c (m.step c.address c.data wl rl (m.levelLow && u) false)
      (l ++ byteSymbols (c.byte y) vs ++ m.periodSymbols u) := by
  have hhigh : m.levelLow = true := by
    rw [Master.levelLow, hs]
  rw [periodSymbols_bit (.inr hs), hhigh, Bool.true_and, Master.step_ack hs, List.append_assoc]
  change Progress c _ (l ++ exchange (c.byte y) vs u)
  unfold Master.ack
  rw [hm.word]
  cases y with
  | device =>
      cases u with
      | false =>
          apply sending_first (.register h vs hvs) _ rfl rfl
          exact ⟨by simp [hm.readBit, Byte.readBit, Byte.word], hm.readBit, hm.readOp, rfl⟩
      | true => exact .stopping (.refused h (.inl rfl) vs hvs) rfl rfl
  | register =>
      cases u with
      | false =>
          cases hr : c.isRead with
          | true =>
              simp only [Byte.word, Bool.not_false, hm.readOp, hr, if_true]
              exact .restarting h hr vs hvs rfl rfl rfl (by simp [hr])
          | false =>
              simp only [Byte.word, Bool.not_false, hm.readOp, hr, if_true, Bool.false_eq_true,
                if_false]
              apply sending_first (.data h hr vs hvs) _ rfl rfl
              exact ⟨rfl, rfl, by simp [hr], rfl⟩
      | true => exact .stopping (.refused h (.inr (.inl rfl)) vs hvs) rfl rfl
  | data => exact .stopping (.written h vs hvs u) rfl rfl
  | deviceAgain =>
      cases u with
      | false =>
          apply sending_first (.slave h vs hvs) _ rfl rfl
          exact ⟨by simp [hm.readBit, Byte.readBit, Byte.word], hm.readBit, hm.readOp, rfl⟩
      | true => exact .stopping (.refused h (.inr (.inr rfl)) vs hvs) rfl rfl
  | slave =>
      have hbits : bitsOf m.i2cShiftData = vs := by
        rw [hm.shift, hslave rfl]
        exact bitsOf_shiftIn _ hvs
      rw [← hbits]
      exact .stopping (.read h m.i2cShiftData u) rfl rfl

theorem step (h : Progress c m l) (hs : m.i2cState ≠ .idle) (u : Bool) :
    Progress c (m.step c.address c.data wl rl (m.levelLow && u) false)
      (l ++ m.periodSymbols u) := by
  cases h with
  | starting h =>
      rw [periodSymbols_condition (x := .start) (by rw [Master.condition, h.state]),
        Master.step_start (.inl h.state), h.readBit]
      exact sending_first .device ⟨h.word, rfl, h.readOp, rfl⟩ rfl rfl
  | sending h vs ds hm hs hlen hcnt hslave => exact step_sending h hm hs hlen hcnt hslave u
  | sent h vs ds hm hs hlen hvs hslave => exact step_sent h hm hs hvs hslave u
  | restarting h hr vs hvs hs hword hbit hop =>
      rw [periodSymbols_condition (x := .start) (by rw [Master.condition, hs]),
        Master.step_start (.inr hs), hbit]
      exact sending_first (.deviceAgain h hr vs hvs) ⟨hword, rfl, hop, rfl⟩ rfl rfl
  | stopping h hs hbyte =>
      rw [periodSymbols_condition (x := .stop) (by rw [Master.condition, hs]),
        Master.step_stop hs]
      exact .finished h rfl rfl hbyte
  | finished h hs' => exact absurd hs' hs

end Progress

end Mfi.AmsI2c
