import Mfi.Core.Events
import Mfi.Core.Words
import Mfi.AmsI2c.Waveform

/-!
# Slaves that hold the clock line

A slave may keep the clock line low after the master has let go of it. The wait register,
which is set in the middle of the high half, then keeps the bit counter and nothing else:
the byte is shifted all the same, the last bit does not wait, and the data line is sampled
when the master lets go of the clock and not when it rises. The bits on the lines are those
of the bytes as long as the clock line has risen by then.
-/

namespace Mfi.AmsI2c

open Core

/-! ## The real lines -/

section Lines

variable (r : Nat → BridgeRegs) (inp : Nat → BridgeInput)

/-- The clock line after cycle `n`. -/
def sclLine (n : Nat) : Bool := (r (n + 1)).scl && (inp n).sclReleased

/-- The data line after cycle `n`. -/
def sdaLine (n : Nat) : Bool := (r (n + 1)).sda && (inp n).sdaReleased

/-- The clock line rises in cycle `n`. -/
def sclRises (n : Nat) : Bool := !sclLine r inp (n - 1) && sclLine r inp n

/-- The values that `f` has at the rising edges of the `m` cycles after cycle `a`. -/
def atRises (f : Nat → Bool) (a m : Nat) : List Bool :=
  events (fun k => if sclRises r inp (a + k + 1) then some (f (a + k + 1)) else none) m

/-- A slave holds the clock line only when it is low already, and it leaves the data line alone
at the edges of a byte that the master sends. -/
structure Stretches : Prop where
  holds : ∀ n, (inp (n + 1)).sclReleased = false →
    (inp n).sclReleased = false ∨ (r (n + 2)).scl = false
  silent : ∀ n, (r n).master.i2cState = .data → (r n).master.i2cWord ≠ .read →
    sclRises r inp n = true → (inp n).sdaReleased = true

/-- The master is in the data state after cycle `a` for `m` cycles. -/
structure ByteAt (a m : Nat) : Prop where
  before : (r a).master.i2cState ≠ .data
  inside : ∀ k, k < m → (r (a + k + 1)).master.i2cState = .data
  after : (r (a + m + 1)).master.i2cState ≠ .data
  nonempty : 0 < m

/-- The clock line has risen when it is looked at: in the middle of the high half, and for the
last bit at its end. In a byte that is read the slave drives the bit at this edge that it has
driven when the master let go of the clock. -/
structure InTime (i2cClockTime : BitVec 32) : Prop where
  middle : ∀ n, (r n).master.i2cState = .data → 0 < (r n).master.i2cBitCnt → (r n).count = 5 →
    (r (n + 1)).count = 6 → (inp n).sclReleased = true
  last : ∀ n, (r n).master.i2cState = .data → ¬0 < (r n).master.i2cBitCnt →
    (r (n + 1)).falls i2cClockTime = true → (inp n).sclReleased = true
  steady : ∀ m n, m ≤ n → (r m).rises i2cClockTime = true →
    (∀ k, m ≤ k → k ≤ n → (r k).falls i2cClockTime = false) →
    (r n).master.i2cState = .data → (r n).master.i2cWord = .read → sclRises r inp n = true →
    (inp n).sdaReleased = (inp m).sdaReleased

end Lines

/-! ## Inside a byte -/

/-- The bits of a byte `b` that the edges have carried when `ds` has been shifted in. -/
def carried (word : WordState) (b : BitVec 8) (ds : List Bool) : List Bool :=
  if word = .read then ds else (bitsOf b).take ds.length

/-- The bit of the running period: what has been sampled in a byte that is read, and what is sent
in the others. -/
def BridgeRegs.bit (s : BridgeRegs) : Bool :=
  if s.master.i2cWord = .read then s.samples.i2cDataIn else s.master.levelLow

/-- The slave drives what has been sampled, or leaves the line to the master. -/
def Drives (word : WordState) (v : Bool) (i : BridgeInput) : Prop :=
  i.sdaReleased = if word = .read then v else true

/-- A byte `b` of which the bits `ds` have been shifted in. `line` is the clock line, `es` are the
bits at its edges, and `v` is what the slave drove when the master let go of the clock. -/
structure InByte (ws : WordState) (b : BitVec 8) (s : BridgeRegs) (line v : Bool)
    (es ds : List Bool) : Prop where
  state : s.master.i2cState = .data
  word : s.master.i2cWord = ws
  clockEn : s.lines.i2cClockEn = true
  left : ds.length + s.master.i2cBitCnt.toNat = 7
  shift : s.master.i2cShiftData = shiftIn b ds
  low : s.count < 4 → line = false ∧ es = carried ws b ds
  level : 2 ≤ s.count → s.lines.i2cData = s.master.levelLow
  sampled : 4 ≤ s.count → s.samples.i2cDataIn = (s.master.levelLow && v)
  high : 4 ≤ s.count → es = if line then carried ws b ds ++ [s.bit] else carried ws b ds
  ready : 6 ≤ s.count → 0 < s.master.i2cBitCnt → line = true ∧ s.lines.i2cWait = false

namespace BridgeRegs

variable {i2cClockTime : BitVec 32} {s s' : BridgeRegs} {i : BridgeInput} {word : WordState}
  {b : BitVec 8} {line v : Bool} {es ds : List Bool}

theorem lines_data (hs : s.master.i2cState = .data) (l : Lines) (clock released : Bool) :
    (l.step s.master clock released).i2cClockEn = true ∧
      (l.step s.master clock released).i2cData = s.master.levelLow ∧
      (l.step s.master clock released).i2cWait = (clock && !released) := by
  unfold Lines.step Master.levelLow
  rw [hs]
  exact ⟨rfl, rfl, rfl⟩

def risen (line line' : Bool) (x : Bool) (es : List Bool) : List Bool :=
  es ++ (if !line && line' then some x else none).toList

theorem risen_high (h : line = true) (line' x : Bool) : risen line line' x es = es := by
  rw [risen, h]
  exact List.append_nil es

theorem risen_low (line x : Bool) : risen line false x es = es := by
  rw [risen, Bool.and_false]
  exact List.append_nil es

theorem high_step {x : Bool} (hes : es = if line then ds ++ [x] else ds) {line' : Bool}
    (hkeep : line = true → line' = true) :
    risen line line' x es = if line' then ds ++ [x] else ds := by
  cases line with
  | true =>
      rw [risen_high rfl, hkeep rfl, hes]
  | false =>
      rw [hes, risen]
      cases line' with
      | true => rfl
      | false => exact List.append_nil ds

theorem edge_bit (hword : s.master.i2cWord = word) (hlevel : s.sda = s.master.levelLow)
    (hsampled : s.samples.i2cDataIn = (s.master.levelLow && v)) (hdrives : Drives word v i) :
    (s.sda && i.sdaReleased) = s.bit := by
  unfold Drives at hdrives
  unfold bit
  rw [hdrives, hlevel, hsampled, hword]
  by_cases hread : word = .read
  · rw [if_pos hread, if_pos hread]
  · rw [if_neg hread, if_neg hread, Bool.and_true]

theorem carried_snoc (hword : s.master.i2cWord = word) (hstate : s.master.i2cState = .data)
    (hshift : s.master.i2cShiftData = shiftIn b ds) (hlen : ds.length ≤ 7) :
    carried word b ds ++ [s.bit] = carried word b (ds ++ [s.samples.i2cDataIn]) := by
  unfold carried bit
  rw [hword]
  by_cases hread : word = .read
  · rw [if_pos hread, if_pos hread, if_pos hread]
  · have hlevel : s.master.levelLow = b.getLsbD (7 - ds.length) := by
      unfold Master.levelLow
      rw [hstate]
      dsimp only
      rw [if_neg (hword ▸ hread), hshift, getLsbD_shiftIn b ds (by omega) 7 (by omega),
        if_neg (by omega)]
    have hlt : ds.length < (bitsOf b).length := by
      simp [bitsOf]
      omega
    rw [if_neg hread, if_neg hread, if_neg hread, hlevel, List.length_append,
      List.length_singleton, List.take_add_one, List.getElem?_eq_getElem hlt]
    simp [bitsOf]

theorem inByte_flat (h : InByte word b s line v es ds)
    (hcount : s'.count = s.count ∨ s'.count = s.count + 1 ∧ s.count % 2 = 0)
    (hlines : s'.lines = s.lines) (hsamples : s'.samples = s.samples)
    (hmaster : s'.master = s.master) (hkeep : line = true → i.sclReleased = true)
    (hmatch : line = false → (s'.scl && i.sclReleased) = true → Drives word v i) :
    InByte word b s' (s'.scl && i.sclReleased) v
      (risen line (s'.scl && i.sclReleased) (s'.sda && i.sdaReleased) es) ds := by
  constructor
  · rw [hmaster]
    exact h.state
  · rw [hmaster]
    exact h.word
  · rw [hlines]
    exact h.clockEn
  · rw [hmaster]
    exact h.left
  · rw [hmaster]
    exact h.shift
  · intro hk
    have hscl : s'.scl = false := by
      rw [scl_low hk, hlines, h.clockEn]
      rfl
    rw [hscl, Bool.false_and, risen_low]
    exact ⟨rfl, (h.low (by omega)).2⟩
  · rw [hlines, hmaster]
    exact fun hk => h.level (by omega)
  · rw [hsamples, hmaster]
    exact fun hk => h.sampled (by omega)
  · intro hk
    have hsampled := h.sampled (by omega)
    have hlevel : s'.sda = s.master.levelLow := (congrArg Lines.i2cData hlines).trans
      (h.level (by omega))
    have hscl : s'.scl = true := scl_high hk
    have hbit : s'.bit = s.bit := by
      unfold bit
      rw [hmaster, hsamples]
    cases hline : line with
    | true =>
        rw [risen_high rfl, hscl, hkeep hline, h.high (by omega), hline, hbit]
        rfl
    | false =>
        cases hreleased : i.sclReleased with
        | false =>
            rw [Bool.and_false, risen_low, h.high (by omega), hline]
            rfl
        | true =>
            have hedge : (s'.sda && i.sdaReleased) = s'.bit :=
              edge_bit (hmaster ▸ h.word) (hmaster ▸ hlevel) (hmaster ▸ hsamples ▸ hsampled)
                (hmatch hline (by rw [hscl, hreleased]; rfl))
            rw [hedge, hbit]
            exact high_step (by rw [h.high (by omega), hline]) nofun
  · rw [hmaster, hlines]
    intro hk hleft
    have hready := h.ready (by omega) hleft
    rw [scl_high (by omega), hkeep hready.1]
    exact ⟨rfl, hready.2⟩

theorem inByte_low (h : InByte word b s line v es ds) (hcount : s.count = 1 ∧ s'.count = 2)
    (hlines : s'.lines = s.lines.step s.master false i.sclReleased)
    (hmaster : s'.master = s.master) :
    InByte word b s' (s'.scl && i.sclReleased) v
      (risen line (s'.scl && i.sclReleased) (s'.sda && i.sdaReleased) es) ds := by
  rcases hcount with ⟨hk, hk'⟩
  rcases lines_data h.state s.lines false i.sclReleased with ⟨hen, hlevel, _⟩
  have hscl : s'.scl = false := by
    rw [scl_low (by omega), hlines, hen]
    rfl
  rw [hscl, Bool.false_and, risen_low]
  constructor
  · rw [hmaster]
    exact h.state
  · rw [hmaster]
    exact h.word
  · rw [hlines]
    exact hen
  · rw [hmaster]
    exact h.left
  · rw [hmaster]
    exact h.shift
  · exact fun _ => ⟨rfl, (h.low (by omega)).2⟩
  · rw [hlines, hmaster]
    exact fun _ => hlevel
  · omega
  · omega
  · omega

theorem inByte_rise (h : InByte word b s line v es ds) (hcount : s.count = 3 ∧ s'.count = 4)
    (hlines : s'.lines = s.lines) (hdata : s'.samples.i2cDataIn = (s.sda && i.sdaReleased))
    (hmaster : s'.master = s.master)
    (hmatch : line = false → (s'.scl && i.sclReleased) = true → Drives word i.sdaReleased i) :
    InByte word b s' (s'.scl && i.sclReleased) i.sdaReleased
      (risen line (s'.scl && i.sclReleased) (s'.sda && i.sdaReleased) es) ds := by
  rcases hcount with ⟨hk, hk'⟩
  rcases h.low (by omega) with ⟨hline, hes⟩
  have hlevel : s.sda = s.master.levelLow := h.level (by omega)
  have hsda : s'.sda = s.sda := congrArg Lines.i2cData hlines
  constructor
  · rw [hmaster]
    exact h.state
  · rw [hmaster]
    exact h.word
  · rw [hlines]
    exact h.clockEn
  · rw [hmaster]
    exact h.left
  · rw [hmaster]
    exact h.shift
  · omega
  · rw [hmaster]
    exact fun _ => hsda.trans hlevel
  · rw [hmaster, hdata, hlevel]
    exact fun _ => rfl
  · intro _
    cases hedge : s'.scl && i.sclReleased with
    | false =>
        rw [risen_low, hes]
        rfl
    | true =>
        have hbit : (s'.sda && i.sdaReleased) = s'.bit := by
          apply edge_bit (hmaster ▸ h.word) (hsda.trans (hmaster ▸ hlevel))
          · rw [hdata, hlevel, hmaster]
          · exact hmatch hline hedge
        rw [hbit, risen, hline, hes]
        rfl
  · omega

theorem inByte_high (h : InByte word b s line v es ds) (hcount : s.count = 5 ∧ s'.count = 6)
    (hlines : s'.lines = s.lines.step s.master true i.sclReleased)
    (hsamples : s'.samples = s.samples) (hmaster : s'.master = s.master)
    (hkeep : line = true → i.sclReleased = true)
    (hmatch : line = false → i.sclReleased = true → Drives word v i)
    (hmiddle : 0 < s.master.i2cBitCnt → i.sclReleased = true) :
    InByte word b s' (s'.scl && i.sclReleased) v
      (risen line (s'.scl && i.sclReleased) (s'.sda && i.sdaReleased) es) ds := by
  rcases hcount with ⟨hk, hk'⟩
  rcases lines_data h.state s.lines true i.sclReleased with ⟨hen, hlevel, hwait⟩
  rw [← hlines] at hen hlevel hwait
  have hscl : s'.scl = true := scl_high (by omega)
  rw [hscl, Bool.true_and]
  constructor
  · rw [hmaster]
    exact h.state
  · rw [hmaster]
    exact h.word
  · exact hen
  · rw [hmaster]
    exact h.left
  · rw [hmaster]
    exact h.shift
  · omega
  · rw [hmaster]
    exact fun _ => hlevel
  · rw [hmaster, hsamples]
    exact fun _ => h.sampled (by omega)
  · intro _
    have hbit : s'.bit = s.bit := by
      unfold bit
      rw [hmaster, hsamples]
    cases hreleased : i.sclReleased with
    | false =>
        rw [risen_low, h.high (by omega)]
        cases hline : line with
        | true => exact absurd (hreleased.symm.trans (hkeep hline)) Bool.false_ne_true
        | false => rfl
    | true =>
        cases hline : line with
        | true =>
            rw [risen_high rfl, h.high (by omega), hline, hbit]
        | false =>
            have hedge : (s'.sda && i.sdaReleased) = s'.bit :=
              edge_bit (hmaster ▸ h.word) (hmaster ▸ hlevel)
                (hmaster ▸ hsamples ▸ h.sampled (by omega)) (hmatch hline hreleased)
            rw [hedge, hbit]
            exact high_step (by rw [h.high (by omega), hline]) fun _ => rfl
  · rw [hmaster]
    intro _ hleft
    have hreleased := hmiddle hleft
    rw [hreleased] at hwait ⊢
    exact ⟨rfl, hwait⟩

theorem inByte_fall (h : InByte word b s line v es ds) (hcount : s.count = 7 ∧ s'.count = 0)
    (hlines : s'.lines = s.lines) (hleft : 0 < s.master.i2cBitCnt) {address : BitVec 16}
    {data : BitVec 8} {wl rl : Bool}
    (hmaster : s'.master =
      s.master.step address data wl rl s.samples.i2cDataIn s.lines.i2cWait) :
    InByte word b s' (s'.scl && i.sclReleased) v
      (risen line (s'.scl && i.sclReleased) (s'.sda && i.sdaReleased) es)
      (ds ++ [s.samples.i2cDataIn]) := by
  rcases hcount with ⟨hk, hk'⟩
  rcases h.ready (by omega) hleft with ⟨hline, hwait⟩
  rw [hwait, Master.step_data_next h.state hleft] at hmaster
  have hscl : s'.scl = false := by
    rw [scl_low (by omega), hlines, h.clockEn]
    rfl
  have hpos : 0 < s.master.i2cBitCnt.toNat := BitVec.lt_def.mp hleft
  rw [hscl, Bool.false_and, risen_low]
  constructor
  · rw [hmaster]
    exact h.state
  · rw [hmaster]
    exact h.word
  · rw [hlines]
    exact h.clockEn
  · have hcnt : (s.master.i2cBitCnt - 1).toNat = s.master.i2cBitCnt.toNat - 1 :=
      toNat_sub_one hpos
    have hsum := h.left
    rw [hmaster, List.length_append, List.length_singleton]
    show _ + (s.master.i2cBitCnt - 1).toNat = 7
    omega
  · rw [hmaster, shiftIn_snoc, ← h.shift]
  · intro _
    have hsum := h.left
    rw [h.high (by omega), hline]
    exact ⟨rfl, carried_snoc h.word h.state h.shift (by omega)⟩
  · omega
  · omega
  · omega
  · omega

theorem inByte_last (h : InByte word b s line v es ds) (hcount : s.count = 7 ∧ s'.count = 0)
    (hleft : ¬0 < s.master.i2cBitCnt) (hline : line = true)
    {address : BitVec 16} {data : BitVec 8} {wl rl : Bool}
    (hmaster : s'.master =
      s.master.step address data wl rl s.samples.i2cDataIn s.lines.i2cWait) :
    s'.master.i2cState = .ack ∧ s'.master.i2cWord = word ∧
      s'.master.i2cShiftData = shiftIn b (ds ++ [s.samples.i2cDataIn]) ∧
      risen line (s'.scl && i.sclReleased) (s'.sda && i.sdaReleased) es =
        carried word b (ds ++ [s.samples.i2cDataIn]) ∧
      ds.length = 7 := by
  rcases hcount with ⟨hk, hk'⟩
  rw [Master.step_data_last h.state hleft] at hmaster
  have hzero : s.master.i2cBitCnt.toNat = 0 := by
    rw [BitVec.lt_def] at hleft
    exact Nat.eq_zero_of_not_pos hleft
  have hsum := h.left
  have hsnoc := carried_snoc h.word h.state h.shift (by omega)
  rw [hmaster, risen_high hline, shiftIn_snoc, ← h.shift, h.high (by omega), hline]
  exact ⟨rfl, h.word, rfl, hsnoc, by omega⟩

/-- The clock enable at the end of a period, however long the clock line is held. -/
def Enabled (s : BridgeRegs) : Prop :=
  6 ≤ s.count → s.lines.i2cClockEn = s.master.pullsNext

theorem lines_enabled (l : Lines) (m : Master) (released : Bool) :
    (l.step m true released).i2cClockEn = m.pullsNext := by
  unfold Lines.step Master.pullsNext
  cases m.i2cState with
  | idle => rfl
  | start => exact Bool.or_true _
  | restart => exact Bool.or_true _
  | data => rfl
  | ack => rfl
  | stop => exact Bool.and_false _
  | reset => rfl

theorem enabled_step (h : s.Enabled) : (s.step i2cClockTime i).Enabled := by
  have hedge : Edge s (s.step i2cClockTime i) i := edge_step
  intro hk
  cases hedge with
  | flat hcount hlines hsamples hmaster =>
      rw [hlines, hmaster]
      exact h (by omega)
  | low hcount => omega
  | rise hcount => omega
  | high hcount hlines hsamples hmaster =>
      rw [hlines, hmaster]
      exact lines_enabled s.lines s.master i.sclReleased
  | fall hcount => omega

theorem begins_step {m : Master} {address : BitVec 16} {data : BitVec 8} {wl rl d w : Bool}
    (hbefore : m.i2cState ≠ .data) (hdata : (m.step address data wl rl d w).i2cState = .data) :
    m.pullsNext = true ∧ (m.step address data wl rl d w).i2cBitCnt = 7 := by
  unfold Master.pullsNext
  cases hs : m.i2cState with
  | idle =>
      unfold Master.step at hdata
      rw [hs] at hdata
      cases hl : wl || rl <;> simp [hl] at hdata
  | start =>
      rw [Master.step_start (.inl hs)]
      exact ⟨rfl, rfl⟩
  | restart =>
      rw [Master.step_start (.inr hs)]
      exact ⟨rfl, rfl⟩
  | data => exact absurd hs hbefore
  | ack =>
      rw [Master.step_ack hs] at hdata ⊢
      unfold Master.ack at hdata ⊢
      cases hw : m.i2cWord <;> cases d <;> cases ho : m.i2cReadOp <;>
        simp [hw, ho] at hdata ⊢
  | stop =>
      rw [Master.step_stop hs] at hdata
      exact absurd hdata (by simp)
  | reset =>
      rw [Master.step_reset hs] at hdata
      exact absurd hdata (by simp)

theorem falls_of_begin (hbefore : s.master.i2cState ≠ .data)
    (hdata : (s.step i2cClockTime i).master.i2cState = .data) : s.falls i2cClockTime = true := by
  rcases Bool.eq_false_or_eq_true (s.falls i2cClockTime) with hf | hf
  · exact hf
  · rw [master_quiet hf] at hdata
    exact absurd hdata hbefore

theorem inByte_begin (h : s.Enabled) (hbefore : s.master.i2cState ≠ .data)
    (hdata : (s.step i2cClockTime i).master.i2cState = .data) :
    InByte (s.step i2cClockTime i).master.i2cWord (s.step i2cClockTime i).master.i2cShiftData
      (s.step i2cClockTime i) ((s.step i2cClockTime i).scl && i.sclReleased) true [] [] := by
  have hf := falls_of_begin hbefore hdata
  have hcount := falls_count (i := i) hf
  have hlines : (s.step i2cClockTime i).lines = s.lines := step_lines (.inr hf)
  have hmaster : (s.step i2cClockTime i).master = _ := step_master
  rw [hf, if_pos rfl] at hmaster
  have hbegins := begins_step hbefore (hmaster ▸ hdata)
  rw [← hmaster] at hbegins
  have hen : (s.step i2cClockTime i).lines.i2cClockEn = true := by
    rw [hlines, h (by omega)]
    exact hbegins.1
  constructor
  · exact hdata
  · rfl
  · exact hen
  · rw [hbegins.2]
    rfl
  · rfl
  · intro _
    rw [scl_low (by omega), hen]
    exact ⟨rfl, (ite_self []).symm⟩
  · omega
  · omega
  · omega
  · omega

end BridgeRegs

/-! ## A byte of a run -/

section Run

variable {r : Nat → BridgeRegs} {inp : Nat → BridgeInput} {i2cClockTime : BitVec 32}
  {word : WordState} {b : BitVec 8} {a k : Nat} {ds : List Bool} {v : Bool}

/-- The byte `b` that begins after cycle `a`, after `k` cycles. -/
structure BytePart (r : Nat → BridgeRegs) (inp : Nat → BridgeInput) (i2cClockTime : BitVec 32)
    (word : WordState) (b : BitVec 8) (a k : Nat) (ds : List Bool) (v : Bool) : Prop where
  here : InByte word b (r (a + k + 1)) (sclLine r inp (a + k)) v
    (atRises r inp (sdaLine r inp) a k) ds
  origin : 4 ≤ (r (a + k + 1)).count → ∃ m, m ≤ a + k ∧ (r m).rises i2cClockTime = true ∧
    (∀ j, m ≤ j → j ≤ a + k → (r j).falls i2cClockTime = false) ∧ v = (inp m).sdaReleased
  read : word = .read → atRises r inp (fun n => (inp n).sdaReleased) a k =
    atRises r inp (sdaLine r inp) a k

theorem atRises_succ (f : Nat → Bool) (a k : Nat) :
    atRises r inp f a (k + 1) =
      BridgeRegs.risen (sclLine r inp (a + k)) (sclLine r inp (a + k + 1)) (f (a + k + 1))
        (atRises r inp f a k) := by
  unfold atRises
  rw [events_succ]
  rfl

variable (hr : ∀ n, r (n + 1) = (r n).step i2cClockTime (inp n)) (hs : Stretches r inp)
  (ht : InTime r inp i2cClockTime)

include hs in
theorem released_of_line (n : Nat) (hline : sclLine r inp n = true)
    (hscl : (r (n + 2)).scl = true) : (inp (n + 1)).sclReleased = true := by
  unfold sclLine at hline
  rw [Bool.and_eq_true] at hline
  cases hnow : (inp (n + 1)).sclReleased with
  | true => rfl
  | false =>
      rcases hs.holds n hnow with hheld | hpulled
      · exact hheld.symm.trans hline.2
      · exact hpulled.symm.trans hscl

include hs ht in
/-- What the slave drives at a real edge is what it drove when the master let go. -/
theorem drives_of_origin {n m : Nat} (hmn : m ≤ n) (hrises : (r m).rises i2cClockTime = true)
    (hquiet : ∀ j, m ≤ j → j ≤ n → (r j).falls i2cClockTime = false)
    (hdata : (r n).master.i2cState = .data) (hword : (r n).master.i2cWord = word)
    (hedge : sclRises r inp n = true) : Drives word (inp m).sdaReleased (inp n) := by
  unfold Drives
  by_cases hread : word = .read
  · rw [if_pos hread]
    exact ht.steady m n hmn hrises hquiet hdata (hword.trans hread) hedge
  · rw [if_neg hread]
    exact hs.silent n hdata (hword ▸ hread) hedge

theorem bytePart_succ {ds' : List Bool} {v' : Bool}
    (h : BytePart r inp i2cClockTime word b a k ds v)
    (hhere : InByte word b (r (a + k + 2)) (sclLine r inp (a + k + 1)) v'
      (atRises r inp (sdaLine r inp) a (k + 1)) ds')
    (horigin : 4 ≤ (r (a + k + 2)).count → ∃ m, m ≤ a + k + 1 ∧ (r m).rises i2cClockTime = true ∧
      (∀ j, m ≤ j → j ≤ a + k + 1 → (r j).falls i2cClockTime = false) ∧
      v' = (inp m).sdaReleased) :
    BytePart r inp i2cClockTime word b a (k + 1) ds' v' := by
  constructor
  · exact hhere
  · exact horigin
  · intro hread
    rw [atRises_succ, atRises_succ, h.read hread]
    cases hline : sclLine r inp (a + k + 1) with
    | false => rw [BridgeRegs.risen_low, BridgeRegs.risen_low]
    | true =>
        have hcount : 4 ≤ (r (a + k + 2)).count := by
          rcases Nat.lt_or_ge (r (a + k + 2)).count 4 with hlow | hhigh
          · exact absurd (hline.symm.trans (hhere.low hlow).1) nofun
          · exact hhigh
        have hsda : (r (a + k + 2)).sda = true := by
          have hlevel := hhere.level (by omega)
          unfold Master.levelLow at hlevel
          rw [hhere.state, if_pos (hhere.word.trans hread)] at hlevel
          exact hlevel
        have hbit : sdaLine r inp (a + k + 1) = (inp (a + k + 1)).sdaReleased := by
          unfold sdaLine
          rw [hsda, Bool.true_and]
        rw [hbit]

theorem sclRises_of_lines {n : Nat} (hlow : sclLine r inp n = false)
    (hhigh : sclLine r inp (n + 1) = true) : sclRises r inp (n + 1) = true := by
  show (!sclLine r inp n && sclLine r inp (n + 1)) = true
  rw [hlow, hhigh]
  rfl

/-- Until the clock falls the sample is the one taken when the master let go of it. -/
theorem origin_next (h : BytePart r inp i2cClockTime word b a k ds v)
    (hf : (r (a + k + 1)).falls i2cClockTime = false) (hk : 4 ≤ (r (a + k + 1)).count) :
    ∃ m, m ≤ a + k + 1 ∧ (r m).rises i2cClockTime = true ∧
      (∀ j, m ≤ j → j ≤ a + k + 1 → (r j).falls i2cClockTime = false) ∧
      v = (inp m).sdaReleased := by
  rcases h.origin hk with ⟨m, hm, hrises, hquiet, hrest⟩
  refine ⟨m, by omega, hrises, ?_, hrest⟩
  intro j hj hj'
  rcases Nat.eq_or_lt_of_le hj' with heq | hlt
  · rw [heq]
    exact hf
  · exact hquiet j hj (by omega)

include hs ht in
theorem match_next (h : BytePart r inp i2cClockTime word b a k ds v)
    (hf : (r (a + k + 1)).falls i2cClockTime = false) (hk : 4 ≤ (r (a + k + 1)).count)
    (hlow : sclLine r inp (a + k) = false) (hhigh : sclLine r inp (a + k + 1) = true) :
    Drives word v (inp (a + k + 1)) := by
  rcases origin_next h hf hk with ⟨m, hm, hrises, hquiet, hv⟩
  rw [hv]
  exact drives_of_origin hs ht hm hrises hquiet h.here.state h.here.word
    (sclRises_of_lines hlow hhigh)

include hr hs ht in
theorem bytePart_inside (h : BytePart r inp i2cClockTime word b a k ds v)
    (hf : (r (a + k + 1)).falls i2cClockTime = false) :
    ∃ v', BytePart r inp i2cClockTime word b a (k + 1) ds v' := by
  have hedge : BridgeRegs.Edge (r (a + k + 1)) (r (a + k + 2)) (inp (a + k + 1)) := by
    rw [show r (a + k + 2) = _ from hr (a + k + 1)]
    exact BridgeRegs.edge_step
  have hmove : (r (a + k + 2)).count = (r (a + k + 1)).count ∨
      (r (a + k + 2)).count = (r (a + k + 1)).count + 1 := by
    rw [show r (a + k + 2) = _ from hr (a + k + 1)]
    exact BridgeRegs.count_step hf
  -- the clock line stays high
  have hkeep : 4 ≤ (r (a + k + 2)).count → sclLine r inp (a + k) = true →
      (inp (a + k + 1)).sclReleased = true :=
    fun hk hline => released_of_line hs (a + k) hline (BridgeRegs.scl_high hk)
  cases hedge with
  | flat hcount hlines hsamples hmaster =>
      use v
      apply bytePart_succ h
      · rw [atRises_succ]
        apply BridgeRegs.inByte_flat h.here hcount hlines hsamples hmaster
        · intro hline
          apply hkeep _ hline
          rcases Nat.lt_or_ge (r (a + k + 1)).count 4 with hlow | hhigh
          · exact absurd (hline.symm.trans (h.here.low hlow).1) nofun
          · omega
        · intro hlow hhigh
          refine match_next hs ht h hf ?_ hlow hhigh
          rcases Nat.lt_or_ge (r (a + k + 2)).count 4 with hearly | hlate
          · rw [BridgeRegs.scl_low hearly, hlines, h.here.clockEn] at hhigh
            exact absurd hhigh nofun
          · omega
      · exact fun hk => origin_next h hf (by omega)
  | low hcount hlines hsamples hmaster =>
      use v
      apply bytePart_succ h
      · rw [atRises_succ]
        exact BridgeRegs.inByte_low h.here hcount hlines hmaster
      · omega
  | rise hcount hlines hdata hmaster =>
      use (inp (a + k + 1)).sdaReleased
      apply bytePart_succ h
      · rw [atRises_succ]
        apply BridgeRegs.inByte_rise h.here hcount hlines hdata hmaster
        intro hlow hhigh
        unfold Drives
        by_cases hread : word = .read
        · rw [if_pos hread]
        · rw [if_neg hread]
          exact hs.silent _ h.here.state (h.here.word ▸ hread) (sclRises_of_lines hlow hhigh)
      · intro _
        refine ⟨a + k + 1, Nat.le_refl _, ?_, ?_, rfl⟩
        · apply BridgeRegs.rises_of_count (i := inp (a + k + 1)) (by omega)
          rw [← show r (a + k + 2) = _ from hr (a + k + 1)]
          omega
        · intro j hj hj'
          rw [Nat.le_antisymm hj' hj]
          exact hf
  | high hcount hlines hsamples hmaster =>
      use v
      apply bytePart_succ h
      · rw [atRises_succ]
        apply BridgeRegs.inByte_high h.here hcount hlines hsamples hmaster
        · exact hkeep (by omega)
        · intro hlow hreleased
          apply match_next hs ht h hf (by omega) hlow
          unfold sclLine
          rw [BridgeRegs.scl_high (show 4 ≤ (r (a + k + 2)).count by omega), hreleased]
          rfl
        · intro hleft
          exact ht.middle _ h.here.state hleft hcount.1 hcount.2
      · exact fun _ => origin_next h hf (by omega)
  | fall hcount => omega

include hr ht in
theorem line_of_fall (h : BytePart r inp i2cClockTime word b a k ds v)
    (hf : (r (a + k + 1)).falls i2cClockTime = true) : sclLine r inp (a + k) = true := by
  have hcount := BridgeRegs.falls_count (i := inp (a + k + 1)) hf
  by_cases hleft : 0 < (r (a + k + 1)).master.i2cBitCnt
  · exact (h.here.ready (by omega) hleft).1
  · have hquiet : (r (a + k)).falls i2cClockTime = false := by
      rcases Bool.eq_false_or_eq_true ((r (a + k)).falls i2cClockTime) with hfall | hquiet
      · have hzero := BridgeRegs.falls_count (i := inp (a + k)) hfall
        rw [← hr] at hzero
        omega
      · exact hquiet
    have hmaster : (r (a + k + 1)).master = (r (a + k)).master := by
      rw [hr]
      exact BridgeRegs.master_quiet hquiet
    have hdata := h.here.state
    rw [hmaster] at hdata hleft
    unfold sclLine
    rw [BridgeRegs.scl_high (by omega), ht.last (a + k) hdata hleft hf]
    rfl

include hr in
theorem bytePart_next (h : BytePart r inp i2cClockTime word b a k ds v)
    (hf : (r (a + k + 1)).falls i2cClockTime = true)
    (hleft : 0 < (r (a + k + 1)).master.i2cBitCnt) :
    BytePart r inp i2cClockTime word b a (k + 1) (ds ++ [(r (a + k + 1)).samples.i2cDataIn]) v := by
  have hcount := BridgeRegs.falls_count (i := inp (a + k + 1)) hf
  have hlines := BridgeRegs.step_lines (i := inp (a + k + 1)) (.inr hf)
  have hmaster : ((r (a + k + 1)).step i2cClockTime (inp (a + k + 1))).master = _ :=
    BridgeRegs.step_master
  rw [hf, if_pos rfl] at hmaster
  rw [← show r (a + k + 2) = _ from hr (a + k + 1)] at hcount hlines hmaster
  apply bytePart_succ h
  · rw [atRises_succ]
    exact BridgeRegs.inByte_fall h.here hcount hlines hleft hmaster
  · omega

include hr ht in
theorem bytePart_last (h : BytePart r inp i2cClockTime word b a k ds v)
    (hf : (r (a + k + 1)).falls i2cClockTime = true)
    (hleft : ¬0 < (r (a + k + 1)).master.i2cBitCnt) :
    (r (a + k + 2)).master.i2cState = .ack ∧ (r (a + k + 2)).master.i2cWord = word ∧
      (word ≠ .read → atRises r inp (sdaLine r inp) a (k + 1) = bitsOf b) ∧
      (word = .read → atRises r inp (fun n => (inp n).sdaReleased) a (k + 1) =
        bitsOf (r (a + k + 2)).master.i2cShiftData) := by
  have hcount := BridgeRegs.falls_count (i := inp (a + k + 1)) hf
  have hmaster : ((r (a + k + 1)).step i2cClockTime (inp (a + k + 1))).master = _ :=
    BridgeRegs.step_master
  rw [hf, if_pos rfl] at hmaster
  rw [← show r (a + k + 2) = _ from hr (a + k + 1)] at hcount hmaster
  have hline := line_of_fall hr ht h hf
  rcases BridgeRegs.inByte_last (i := inp (a + k + 1)) h.here hcount hleft hline hmaster with
    ⟨hack, hword', hshift, hedges, hlen⟩
  constructor
  · exact hack
  constructor
  · exact hword'
  constructor
  · intro hword
    rw [atRises_succ]
    refine hedges.trans ?_
    unfold carried
    rw [if_neg hword, List.length_append, hlen]
    exact List.take_of_length_le (by simp [bitsOf])
  · intro hread
    have hds : carried word b (ds ++ [(r (a + k + 1)).samples.i2cDataIn]) =
        ds ++ [(r (a + k + 1)).samples.i2cDataIn] := if_pos hread
    rw [hshift, bitsOf_shiftIn b (by simp [hlen]), ← hds, ← hedges, atRises_succ, hline,
      BridgeRegs.risen_high rfl, BridgeRegs.risen_high rfl, h.read hread]

include hr in
theorem bytePart_begin (hen : (r a).Enabled) (hbefore : (r a).master.i2cState ≠ .data)
    (hdata : (r (a + 1)).master.i2cState = .data) :
    BytePart r inp i2cClockTime (r (a + 1)).master.i2cWord (r (a + 1)).master.i2cShiftData a 0 []
      true := by
  have hstep : ((r a).step i2cClockTime (inp a)).master.i2cState = .data := hr a ▸ hdata
  have hbegin := BridgeRegs.inByte_begin hen hbefore hstep
  have hcount := BridgeRegs.falls_count (i := inp a) (BridgeRegs.falls_of_begin hbefore hstep)
  rw [← hr] at hbegin hcount
  constructor
  · exact hbegin
  · intro hk
    have hzero : (r (a + 0 + 1)).count = 0 := hcount.2
    omega
  · exact fun _ => rfl

include hr hs ht in
/-- As long as the master is in the data state the bits are those of the byte. -/
theorem bytePart_run {m : Nat} (hen : (r a).Enabled) (hbyte : ByteAt r a m) (hk : k < m) :
    ∃ ds v, BytePart r inp i2cClockTime (r (a + 1)).master.i2cWord
      (r (a + 1)).master.i2cShiftData a k ds v := by
  induction k with
  | zero => exact ⟨[], true, bytePart_begin hr hen hbyte.before (hbyte.inside 0 hk)⟩
  | succ k ih =>
      rcases ih (by omega) with ⟨ds, v, h⟩
      rcases Bool.eq_false_or_eq_true ((r (a + k + 1)).falls i2cClockTime) with hf | hf
      · by_cases hleft : 0 < (r (a + k + 1)).master.i2cBitCnt
        · exact ⟨_, v, bytePart_next hr h hf hleft⟩
        · have hack := (bytePart_last hr ht h hf hleft).1
          have hdata := hbyte.inside (k + 1) hk
          exact absurd (hack.symm.trans hdata) nofun
      · rcases bytePart_inside hr hs ht h hf with ⟨v', h'⟩
        exact ⟨ds, v', h'⟩

end Run

theorem bridgeRun_enabled (i2cClockTime : BitVec 32) (i2cWait : Bool) (inp : Nat → BridgeInput)
    (n : Nat) : (bridgeRun i2cClockTime i2cWait inp n).Enabled := by
  induction n with
  | zero =>
      intro hk
      exact absurd (show 6 ≤ 0 from hk) (by omega)
  | succ n ih => exact BridgeRegs.enabled_step ih

/-- If the clock line has always risen in time, a byte of the master is on the data line at the
eight real edges of the clock line, and a byte that is read consists of the bits that the slave
drives there. -/
theorem bytes_at_real_edges (i2cClockTime : BitVec 32) (i2cWait : Bool) (inp : Nat → BridgeInput)
    (hs : Stretches (bridgeRun i2cClockTime i2cWait inp) inp)
    (ht : InTime (bridgeRun i2cClockTime i2cWait inp) inp i2cClockTime) (a m : Nat)
    (hbyte : ByteAt (bridgeRun i2cClockTime i2cWait inp) a m) :
    ((bridgeRun i2cClockTime i2cWait inp (a + 1)).master.i2cWord ≠ .read →
      atRises (bridgeRun i2cClockTime i2cWait inp) inp
          (sdaLine (bridgeRun i2cClockTime i2cWait inp) inp) a m =
        bitsOf (bridgeRun i2cClockTime i2cWait inp (a + 1)).master.i2cShiftData) ∧
      ((bridgeRun i2cClockTime i2cWait inp (a + 1)).master.i2cWord = .read →
        ∀ address data wl rl d w,
          bitsOf ((bridgeRun i2cClockTime i2cWait inp (a + m + 1)).master.step address data wl rl
            d w).i2cReaddata =
          atRises (bridgeRun i2cClockTime i2cWait inp) inp (fun n => (inp n).sdaReleased) a m) := by
  have hr := bridgeRun_succ i2cClockTime i2cWait inp
  have hen := bridgeRun_enabled i2cClockTime i2cWait inp a
  generalize bridgeRun i2cClockTime i2cWait inp = r at *
  cases m with
  | zero => exact absurd hbyte.nonempty (Nat.lt_irrefl 0)
  | succ k =>
      rcases bytePart_run hr hs ht hen hbyte (Nat.lt_succ_self k) with ⟨ds, v, h⟩
      -- the next cycle ends the byte
      have hafter : (r (a + k + 2)).master.i2cState ≠ .data := hbyte.after
      rcases Bool.eq_false_or_eq_true ((r (a + k + 1)).falls i2cClockTime) with hf | hf
      · by_cases hleft : 0 < (r (a + k + 1)).master.i2cBitCnt
        · exact absurd (bytePart_next hr h hf hleft).here.state hafter
        · rcases bytePart_last hr ht h hf hleft with ⟨hack, hword, hsent, hread⟩
          constructor
          · exact hsent
          · intro hw address data wl rl d w
            rw [hread hw, show a + (k + 1) + 1 = a + k + 2 from rfl, Master.step_ack hack]
            unfold Master.ack
            rw [hword, hw]
      · rcases bytePart_inside hr hs ht h hf with ⟨v', h'⟩
        exact absurd h'.here.state hafter

/-! ## One held bit -/

/-- The host writes, and the slave holds the clock line from cycle `lo` to cycle `hi`. -/
def heldInput (lo hi n : Nat) : BridgeInput :=
  { amsWrite := true, amsRead := false, amsAddress := 0xA055#16, amsWritedata := 0x3C#8
    sclReleased := !(decide (lo ≤ n) && decide (n < hi)), sdaReleased := true }

def heldRun (lo hi : Nat) : Nat → BridgeRegs := bridgeRun 1#32 false (heldInput lo hi)

theorem heldInput_released {lo hi n : Nat} (h : ¬(lo ≤ n ∧ n < hi)) :
    (heldInput lo hi n).sclReleased = true := by
  unfold heldInput
  rw [← Bool.decide_and, decide_eq_false h]
  rfl

theorem heldRun_stretches {lo hi : Nat} (h : (heldRun lo hi (lo + 1)).scl = false) :
    Stretches (heldRun lo hi) (heldInput lo hi) := by
  constructor
  · intro n hn
    by_cases hlater : lo ≤ n
    · left
      have hheld : lo ≤ n + 1 ∧ n + 1 < hi := by
        by_contra hout
        exact Bool.false_ne_true (hn.symm.trans (heldInput_released hout))
      unfold heldInput
      rw [decide_eq_true hlater, decide_eq_true (show n < hi by omega)]
      rfl
    · right
      have hfirst : n + 1 = lo := by
        by_contra hne
        exact Bool.false_ne_true (hn.symm.trans (heldInput_released (by omega)))
      rw [show n + 2 = lo + 1 by omega]
      exact h
  · exact fun _ _ _ _ => rfl

theorem heldRun_inTime : InTime (heldRun 26 29) (heldInput 26 29) 1#32 := by
  have hheld : ∀ n, (26 ≤ n ∧ n < 29) →
      (heldRun 26 29 n).count < 5 ∧ 0 < (heldRun 26 29 n).master.i2cBitCnt := by
    intro n hn
    have hcases : n = 26 ∨ n = 27 ∨ n = 28 := by omega
    rcases hcases with rfl | rfl | rfl <;> decide +kernel
  constructor
  · intro n _ _ hk _
    apply heldInput_released
    intro hn
    exact absurd (hheld n hn).1 (by omega)
  · intro n _ hleft _
    apply heldInput_released
    intro hn
    exact hleft (hheld n hn).2
  · exact fun _ _ _ _ _ _ _ _ => rfl

/-- The address byte of a write, with its first bit held until just before the middle of the high
half. -/
theorem bytes_at_real_edges_held :
    atRises (heldRun 26 29) (heldInput 26 29) (sdaLine (heldRun 26 29) (heldInput 26 29)) 23 64 =
      bitsOf 0xA0#8 := by
  have hbyte : ByteAt (heldRun 26 29) 23 64 :=
    ⟨by decide +kernel, by decide +kernel, by decide +kernel, by decide⟩
  have hbits := (bytes_at_real_edges 1#32 false (heldInput 26 29)
    (heldRun_stretches (by decide +kernel)) heldRun_inTime 23 64 hbyte).1 (by decide +kernel)
  rw [show (bridgeRun 1#32 false (heldInput 26 29) (23 + 1)).master.i2cShiftData = 0xA0#8
    by decide +kernel] at hbits
  exact hbits

/-- A first bit that is held for the whole high half is lost: the slave sees the seven bits after
it and then the first one. -/
theorem held_bit_lost :
    Stretches (heldRun 26 34) (heldInput 26 34) ∧ ByteAt (heldRun 26 34) 23 72 ∧
      (heldRun 26 34 24).master.i2cWord ≠ .read ∧
      (heldRun 26 34 24).master.i2cShiftData = 0xA0#8 ∧
      atRises (heldRun 26 34) (heldInput 26 34) (sdaLine (heldRun 26 34) (heldInput 26 34)) 23 72 =
        bitsOf 0x41#8 ∧
      bitsOf 0x41#8 ≠ bitsOf (heldRun 26 34 24).master.i2cShiftData := by
  constructor
  · exact heldRun_stretches (by decide +kernel)
  constructor
  · exact ⟨by decide +kernel, by decide +kernel, by decide +kernel, by decide⟩
  decide +kernel

end Mfi.AmsI2c
