import Mathlib.Data.Nat.Count
import Mathlib.Tactic.ByContra
import Mfi.Core.Trace
import Mfi.Core.Words

/-!
# Hot-plug line of the DisplayPort panel

On a panel of 15 inches the main loop of the firmware watches the link of the DisplayPort
transceiver. A timer counts the iterations that find the link down. At its end the hot-plug
line is taken away, and in the next such iteration it is given back and the timer starts
again. An iteration that finds the link up touches neither of them.
-/

namespace Mfi.DpHotPlug

open Core

def edpTimeout : Nat := 5

def mfd15inchType : BitVec 8 := 0x02#8
def mfd12inchType : BitVec 8 := 0x01#8
def mfd10inchType : BitVec 8 := 0x00#8

def gpioDpXcvrLink : BitVec 32 := 1#32 <<< 9
def gpioDpResetN : BitVec 32 := 1#32 <<< 2
def gpioLvdsResetN : BitVec 32 := 1#32 <<< 3
def gpioTmdsResetN : BitVec 32 := 1#32 <<< 4
def gpioAvResetN : BitVec 32 := 1#32 <<< 5
def gpioLvdsLcdScan : BitVec 32 := 1#32 <<< 13
def gpioOut1EnN : BitVec 32 := 1#32 <<< 14
def gpioOut3EnN : BitVec 32 := 1#32 <<< 15
def gpioLcdBkltEn0 : BitVec 32 := 1#32 <<< 16
def gpioLcdBkltEn1 : BitVec 32 := 1#32 <<< 17
def gpioDpHpd : BitVec 32 := 1#32 <<< 19
def gpioImx6Alpha : BitVec 32 := 1#32 <<< 20
def gpioNiosHeartBeat : BitVec 32 := 1#32 <<< 22

/-- The registers of the port that set and clear single outputs. -/
def setBits (outputs mask : BitVec 32) : BitVec 32 := outputs ||| mask

def clearBits (outputs mask : BitVec 32) : BitVec 32 := outputs &&& ~~~mask

/-- The timers of the loop that its outputs depend on, and the outputs of the port. -/
structure State where
  edpTimer : BitVec 8
  heart : BitVec 8
  heartBit : BitVec 8
  outputs : BitVec 32
  deriving DecidableEq, Repr

/-- What one iteration reads: the inputs of the port and the register of the shared memory. -/
structure Seen where
  data : BitVec 32
  alpha : BitVec 32
  deriving DecidableEq, Repr

/-! ## The loop -/

/-- The outputs are set for the type of the panel before the loop is entered. -/
def enter (lcdType : BitVec 8) (outputs : BitVec 32) : State :=
  let reset :=
    if lcdType = mfd15inchType then setBits outputs (gpioDpResetN ||| gpioDpHpd)
    else if lcdType = mfd12inchType ∨ lcdType = mfd10inchType then
      setBits outputs (gpioLvdsResetN ||| gpioLvdsLcdScan)
    else outputs
  let video := setBits reset (gpioAvResetN ||| gpioTmdsResetN ||| gpioImx6Alpha)
  let panel :=
    if lcdType = mfd15inchType then
      setBits video (gpioOut3EnN ||| gpioLcdBkltEn0 ||| gpioLcdBkltEn1)
    else if lcdType = mfd12inchType then setBits video gpioLcdBkltEn0
    else if lcdType = mfd10inchType then setBits video (gpioOut1EnN ||| gpioLcdBkltEn1)
    else video
  { edpTimer := 0#8, heart := 0#8, heartBit := 0#8, outputs := panel }

def alphaStep (s : State) (alpha : BitVec 32) : State :=
  if alpha &&& 0x01#32 ≠ 0#32 then { s with outputs := clearBits s.outputs gpioImx6Alpha }
  else { s with outputs := setBits s.outputs gpioImx6Alpha }

def heartStep (s : State) : State :=
  let heart := if s.heart.toNat < 1 then s.heart + 1 else 0#8
  if heart = 0#8 then
    if ~~~s.heartBit ≠ 0#8 then
      { s with
        heart := heart
        heartBit := ~~~s.heartBit
        outputs := setBits s.outputs gpioNiosHeartBeat }
    else
      { s with
        heart := heart
        heartBit := ~~~s.heartBit
        outputs := clearBits s.outputs gpioNiosHeartBeat }
  else { s with heart := heart }

def edpStep (lcdType : BitVec 8) (s : State) (data : BitVec 32) : State :=
  if lcdType = mfd15inchType ∧ ~~~data &&& gpioDpXcvrLink ≠ 0#32 then
    if s.edpTimer.toNat < edpTimeout - 1 then { s with edpTimer := s.edpTimer + 1 }
    else if s.edpTimer.toNat < edpTimeout then
      { s with edpTimer := s.edpTimer + 1, outputs := clearBits s.outputs gpioDpHpd }
    else { s with edpTimer := 0#8, outputs := setBits s.outputs gpioDpHpd }
  else s

def iteration (lcdType : BitVec 8) (s : State) (seen : Seen) : State :=
  edpStep lcdType (heartStep (alphaStep s seen.alpha)) seen.data

/-- The state before iteration `n` of the loop. -/
def run (lcdType : BitVec 8) (outputs : BitVec 32) (inp : Nat → Seen) (n : Nat) : State :=
  trace (iteration lcdType) (enter lcdType outputs) inp n

/-! ## What it is meant to do -/

def hpd (s : State) : Bool := s.outputs.getLsbD 19

def linkUp (seen : Seen) : Bool := seen.data.getLsbD 9

/-- The line is there after every iteration with the link up, and is never away after two
iterations in a row. -/
structure HoldsLine (lcdType : BitVec 8) (outputs : BitVec 32) (inp : Nat → Seen) : Prop where
  up : ∀ n, linkUp (inp n) = true → hpd (run lcdType outputs inp (n + 1)) = true
  pulse : ∀ n, hpd (run lcdType outputs inp (n + 1)) = true ∨
    hpd (run lcdType outputs inp (n + 2)) = true

/-- The number of the first `n` iterations that find the link down. -/
def downs (inp : Nat → Seen) (n : Nat) : Nat := Nat.count (fun m => linkUp (inp m) = false) n

/-! ## One iteration -/

section Step

variable {s : State} {seen : Seen}

theorem line_setBits {outputs mask : BitVec 32} (h : mask.getLsbD 19 = false) :
    (setBits outputs mask).getLsbD 19 = outputs.getLsbD 19 := by
  rw [setBits, BitVec.getLsbD_or, h, Bool.or_false]

theorem line_clearBits {outputs mask : BitVec 32} (h : mask.getLsbD 19 = false) :
    (clearBits outputs mask).getLsbD 19 = outputs.getLsbD 19 := by
  rw [clearBits, BitVec.getLsbD_and, BitVec.getLsbD_not, h]
  exact Bool.and_true _

theorem line_set (outputs : BitVec 32) : (setBits outputs gpioDpHpd).getLsbD 19 = true := by
  rw [setBits, BitVec.getLsbD_or]
  exact Bool.or_true _

theorem line_clear (outputs : BitVec 32) :
    (clearBits outputs gpioDpHpd).getLsbD 19 = false := by
  rw [clearBits, BitVec.getLsbD_and]
  exact Bool.and_false _

theorem link_test (seen : Seen) :
    ~~~seen.data &&& gpioDpXcvrLink ≠ 0#32 ↔ linkUp seen = false := by
  have hmask : gpioDpXcvrLink = BitVec.twoPow 32 9 := by decide
  have hbit : (~~~seen.data).getLsbD 9 = !linkUp seen := BitVec.getLsbD_not
  rw [hmask, BitVec.and_twoPow, hbit]
  cases linkUp seen with
  | false => exact ⟨fun _ => rfl, fun _ => by decide⟩
  | true => exact ⟨fun h => absurd rfl h, fun h => by cases h⟩

theorem alpha_frame (alpha : BitVec 32) :
    (alphaStep s alpha).edpTimer = s.edpTimer ∧ hpd (alphaStep s alpha) = hpd s := by
  unfold alphaStep
  split
  · exact ⟨rfl, line_clearBits rfl⟩
  · exact ⟨rfl, line_setBits rfl⟩

theorem heart_frame : (heartStep s).edpTimer = s.edpTimer ∧ hpd (heartStep s) = hpd s := by
  unfold heartStep
  dsimp only
  generalize (if s.heart.toNat < 1 then s.heart + 1 else 0#8) = heart
  split
  · split
    · exact ⟨rfl, line_setBits rfl⟩
    · exact ⟨rfl, line_clearBits rfl⟩
  · exact ⟨rfl, rfl⟩

theorem before_edp :
    (heartStep (alphaStep s seen.alpha)).edpTimer = s.edpTimer ∧
      hpd (heartStep (alphaStep s seen.alpha)) = hpd s := by
  constructor
  · rw [heart_frame.1, (alpha_frame seen.alpha).1]
  · rw [heart_frame.2, (alpha_frame seen.alpha).2]

theorem iteration_up (lcdType : BitVec 8) (h : linkUp seen = true) :
    (iteration lcdType s seen).edpTimer = s.edpTimer ∧
      hpd (iteration lcdType s seen) = hpd s := by
  have hskip : ¬ (lcdType = mfd15inchType ∧ ~~~seen.data &&& gpioDpXcvrLink ≠ 0#32) := by
    rintro ⟨_, hdown⟩
    have hlow : linkUp seen = false := (link_test seen).1 hdown
    rw [h] at hlow
    cases hlow
  unfold iteration edpStep
  rw [if_neg hskip]
  exact before_edp

theorem iteration_down (h : linkUp seen = false) (hend : s.edpTimer.toNat ≤ edpTimeout)
    (hline : hpd s = decide (s.edpTimer.toNat < edpTimeout)) :
    (iteration mfd15inchType s seen).edpTimer.toNat = (s.edpTimer.toNat + 1) % (edpTimeout + 1) ∧
      hpd (iteration mfd15inchType s seen) =
        decide ((iteration mfd15inchType s seen).edpTimer.toNat < edpTimeout) := by
  have hdown : ~~~seen.data &&& gpioDpXcvrLink ≠ 0#32 := (link_test seen).2 h
  have hlimit : edpTimeout = 5 := rfl
  unfold iteration
  generalize hmid : heartStep (alphaStep s seen.alpha) = t
  have htimer : t.edpTimer = s.edpTimer := by
    rw [← hmid]
    exact before_edp.1
  have hkept : hpd t = hpd s := by
    rw [← hmid]
    exact before_edp.2
  have hnext : s.edpTimer.toNat < edpTimeout →
      (t.edpTimer + 1).toNat = s.edpTimer.toNat + 1 := by
    intro hlt
    rw [htimer]
    exact toNat_add_one (by omega)
  unfold edpStep
  rw [if_pos ⟨rfl, hdown⟩]
  split
  · next hearly =>
      rw [htimer] at hearly
      dsimp only
      rw [hnext (by omega), Nat.mod_eq_of_lt (by omega)]
      constructor
      · rfl
      · show hpd t = _
        rw [hkept, hline, decide_eq_true (by omega), decide_eq_true (by omega)]
  · next hearly =>
      rw [htimer] at hearly
      split
      · next hlate =>
          rw [htimer] at hlate
          dsimp only
          rw [hnext hlate, Nat.mod_eq_of_lt (by omega)]
          constructor
          · rfl
          · show (clearBits t.outputs gpioDpHpd).getLsbD 19 = _
            rw [line_clear]
            exact (decide_eq_false (by omega)).symm
      · next hlate =>
          rw [htimer] at hlate
          have hfull : s.edpTimer.toNat = edpTimeout := by omega
          rw [hfull]
          constructor
          · rfl
          · exact line_set t.outputs

end Step

/-! ## Along a run -/

section Run

variable (outputs : BitVec 32) (inp : Nat → Seen)

theorem enter_line : hpd (enter mfd15inchType outputs) = true := by
  have hpanel : hpd (enter mfd15inchType outputs) =
      (setBits outputs (gpioDpResetN ||| gpioDpHpd)).getLsbD 19 := by
    show (setBits (setBits (setBits outputs _) _) _).getLsbD 19 = _
    rw [line_setBits rfl, line_setBits rfl]
  rw [hpanel, setBits, BitVec.getLsbD_or]
  exact Bool.or_true _

theorem downs_succ (n : Nat) :
    downs inp (n + 1) = downs inp n + if linkUp (inp n) = false then 1 else 0 :=
  Nat.count_succ _ n

theorem timer_run (n : Nat) :
    (run mfd15inchType outputs inp n).edpTimer.toNat = downs inp n % (edpTimeout + 1) ∧
      hpd (run mfd15inchType outputs inp n) =
        decide ((run mfd15inchType outputs inp n).edpTimer.toNat < edpTimeout) := by
  induction n with
  | zero => exact ⟨rfl, enter_line outputs⟩
  | succ n ih =>
      cases ih with
      | intro htimer hline =>
          have hend : (run mfd15inchType outputs inp n).edpTimer.toNat ≤ edpTimeout := by
            rw [htimer]
            exact Nat.lt_succ_iff.1 (Nat.mod_lt _ (Nat.succ_pos edpTimeout))
          have hsucc : run mfd15inchType outputs inp (n + 1) =
              iteration mfd15inchType (run mfd15inchType outputs inp n) (inp n) := rfl
          rw [hsucc, downs_succ]
          cases hlink : linkUp (inp n) with
          | true =>
              have hkept := iteration_up (s := run mfd15inchType outputs inp n) mfd15inchType hlink
              rw [hkept.1, hkept.2, htimer]
              exact ⟨rfl, by rw [hline, htimer]⟩
          | false =>
              have hnext := iteration_down hlink hend hline
              constructor
              · rw [hnext.1, htimer, Nat.mod_add_mod]
                rfl
              · exact hnext.2

/-- The line is away exactly between the fifth iteration with the link down and the sixth. -/
theorem line_run (n : Nat) :
    hpd (run mfd15inchType outputs inp n) = false ↔
      downs inp n % (edpTimeout + 1) = edpTimeout := by
  have hlt : downs inp n % (edpTimeout + 1) < edpTimeout + 1 :=
    Nat.mod_lt _ (Nat.succ_pos edpTimeout)
  have hrun := timer_run outputs inp n
  rw [hrun.2, hrun.1, decide_eq_false_iff_not]
  omega

end Run

/-- The line does what it is meant to do in exactly the runs in which the link is still down after
the iteration that takes the line away. -/
theorem holdsLine_iff (outputs : BitVec 32) (inp : Nat → Seen) :
    HoldsLine mfd15inchType outputs inp ↔
      ∀ n, downs inp n % (edpTimeout + 1) = edpTimeout → linkUp (inp n) = false := by
  constructor
  · intro hholds n hn
    by_contra hlink
    have hup : linkUp (inp n) = true := Bool.eq_true_of_not_eq_false hlink
    have hsame : downs inp (n + 1) = downs inp n := by
      rw [downs_succ, if_neg hlink, Nat.add_zero]
    have haway : hpd (run mfd15inchType outputs inp (n + 1)) = false := by
      rw [line_run, hsame]
      exact hn
    rw [hholds.up n hup] at haway
    cases haway
  · intro hcond
    constructor
    · intro n hup
      by_contra haway
      have hn := (line_run outputs inp (n + 1)).1 (Bool.eq_false_of_not_eq_true haway)
      rw [downs_succ, if_neg (by rw [hup]; decide)] at hn
      rw [hcond n hn] at hup
      cases hup
    · intro n
      by_contra hboth
      have hfirst : downs inp (n + 1) % (edpTimeout + 1) = edpTimeout := by
        apply (line_run outputs inp (n + 1)).1
        apply Bool.eq_false_of_not_eq_true
        exact fun h => hboth (Or.inl h)
      have hsecond : downs inp (n + 2) % (edpTimeout + 1) = edpTimeout := by
        apply (line_run outputs inp (n + 2)).1
        apply Bool.eq_false_of_not_eq_true
        exact fun h => hboth (Or.inr h)
      have hlimit : edpTimeout = 5 := rfl
      rw [downs_succ, if_pos (hcond (n + 1) hfirst)] at hsecond
      rw [hlimit] at hfirst hsecond
      omega

/-- The link goes down for five iterations and comes up again. -/
def shortLoss (n : Nat) : Seen :=
  { data := if n < 5 then 0#32 else gpioDpXcvrLink, alpha := 0#32 }

/-- The line stays away although the link is up. -/
theorem short_loss_stays : ¬ HoldsLine mfd15inchType 0#32 shortLoss := by
  intro hholds
  have hline := hholds.up 5 rfl
  revert hline
  decide

end Mfi.DpHotPlug
