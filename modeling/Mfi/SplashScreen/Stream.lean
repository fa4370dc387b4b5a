import Mfi.Core.History
import Mfi.Core.Script
import Mfi.Core.Words
import Mfi.SplashScreen.Generator

/-!
# The stream as a script

Seen from outside, the generator follows a script: the words of the control
packet, the header of the data packet, then beats of pixels up to the one that
passes the test for the last beat. The stages of the machines are the places
of the script; a cycle without `asoReady` stays where it is.
-/

namespace Mfi.SplashScreen

open Core

/-- A place in the script. The test for the last beat is not made at the first beat. -/
inductive Place (p : Params) where
  | control (i : Nat)
  | header
  | pixels (first : Bool) (romAddr : BitVec p.romAddrBits) (subpixCnt : BitVec 2)

def controlBeats (p : Params) : Nat :=
  match p.pixelsInParallel with
  | .one => 4
  | .two => 3
  | .four => 2

/-- Word `i` of the control packet. -/
def controlWord (p : Params) (i : Nat) : BitVec p.beatWidth :=
  let W := digit p.picWidth
  let H := digit p.picHeight
  match p.pixelsInParallel, i with
  | _, 0 => BitVec.ofNat _ 15
  | .one, 1 => (0#4 ++ W 2 ++ 0#4 ++ W 1 ++ 0#4 ++ W 0).setWidth p.beatWidth
  | .one, 2 => (0#4 ++ H 1 ++ 0#4 ++ H 0 ++ 0#4 ++ W 3).setWidth p.beatWidth
  | .two, 1 =>
      (0#4 ++ H 1 ++ 0#4 ++ H 0 ++ 0#4 ++ W 3 ++ 0#4 ++ W 2 ++ 0#4 ++ W 1 ++
        0#4 ++ W 0).setWidth p.beatWidth
  | .four, 1 =>
      (3#4 ++ 0#4 ++ H 3 ++ 0#4 ++ H 2 ++ 0#4 ++ H 1 ++ 0#4 ++ H 0 ++
        0#4 ++ W 3 ++ 0#4 ++ W 2 ++ 0#4 ++ W 1 ++ 0#4 ++ W 0).setWidth p.beatWidth
  | _, _ => (3#4 ++ 0#4 ++ H 3 ++ 0#4 ++ H 2).setWidth p.beatWidth

def say (p : Params) (rom : Nat → BitVec 16) : Place p → Beat p.beatWidth
  | .control i => ⟨i == 0, i + 1 == controlBeats p, controlWord p i⟩
  | .header => ⟨true, false, 0⟩
  | .pixels first romAddr subpixCnt =>
      ⟨false, !first && lastBeat p romAddr subpixCnt, pixelBeat p (rom romAddr.toNat) subpixCnt⟩

def next (p : Params) : Place p → Place p
  | .control i => if i + 1 = controlBeats p then .header else .control (i + 1)
  | .header => .pixels true 0 0#2
  | .pixels first romAddr subpixCnt =>
      if !first && lastBeat p romAddr subpixCnt then .control 0
      else .pixels false (advance p romAddr subpixCnt).1 (advance p romAddr subpixCnt).2

/-! ## Stages -/

structure Port.Quiet {w : Nat} (q : Port w) : Prop where
  sop : q.startofpacket = false
  valid : q.valid = false
  eop : q.endofpacket = false

/-- The state in which the control packet has `i` words behind it. -/
def ctrlStateAfter : Nat → CtrlState
  | 1 => .sop
  | 2 => .data1
  | _ => .data2

/-- The registers stand at a place: what comes before it is on the port or has been. -/
inductive Stage (p : Params) (rom : Nat → BitVec 16) (r : Regs p) : Place p → Prop where
  | powerUp (hmain : r.stateMain = .reset) (hctrl : r.stateCtrl = .reset)
      (hdata : r.stateData = .reset) (hc : r.ctrl.Quiet) (hd : r.data.Quiet) :
      Stage p rom r (.control 0)
  | waiting (hmain : r.stateMain = .control) (hctrl : r.stateCtrl = .idle)
      (hdata : r.stateData = .idle) (hc : r.ctrl.Quiet) (hd : r.data.Quiet) :
      Stage p rom r (.control 0)
  | control (i : Nat) (hpos : 1 ≤ i) (hlt : i < controlBeats p) (hmain : r.stateMain = .control)
      (hctrl : r.stateCtrl = ctrlStateAfter i) (hdata : r.stateData = .idle)
      (heop : r.ctrl.endofpacket = false) (hsop : i ≠ 1 → r.ctrl.startofpacket = false)
      (hd : r.data.Quiet) :
      Stage p rom r (.control i)
  | controlEnd (hmain : r.stateMain = .control) (hctrl : r.stateCtrl = .eop)
      (hdata : r.stateData = .idle) (hvalid : r.ctrl.valid = true)
      (heop : r.ctrl.endofpacket = true) (hd : r.data.Quiet) :
      Stage p rom r .header
  | header (hmain : r.stateMain = .data) (hctrl : r.stateCtrl = .idle)
      (hdata : r.stateData = .idle) (hc : r.ctrl.Quiet) (hd : r.data.Quiet)
      (haddr : r.romAddr = 0) (hsub : r.subpixCnt = 0#2) (hrom : r.romData = rom 0) :
      Stage p rom r .header
  | pixels (first : Bool) (hmain : r.stateMain = .data) (hctrl : r.stateCtrl = .idle)
      (hdata : r.stateData = if first then .sop else .data) (hc : r.ctrl.Quiet)
      (heop : r.data.endofpacket = false) (hsop : first = false → r.data.startofpacket = false)
      (hrom : r.romData = rom r.romAddr.toNat) :
      Stage p rom r (.pixels first r.romAddr r.subpixCnt)
  | dataEnd (hmain : r.stateMain = .data) (hctrl : r.stateCtrl = .idle)
      (hdata : r.stateData = .eop) (hc : r.ctrl.Quiet) (hsop : r.data.startofpacket = false)
      (hvalid : r.data.valid = true) (heop : r.data.endofpacket = true) :
      Stage p rom r (.control 0)

/-- What one cycle does to the stream: it shows nothing and stays, or it shows what the script
says and moves on. -/
def Follows (p : Params) (rom : Nat → BitVec 16) (a : Place p) (r : Regs p) : Prop :=
  ((aso r).beat = none ∧ Stage p rom r a) ∨
    ((aso r).beat = some (say p rom a) ∧ Stage p rom r (next p a))

section Step

variable {p : Params} {rom : Nat → BitVec 16} {r : Regs p}

theorem beat_quiet {w : Nat} {q : Port w} (h : q.valid = false) : q.beat = none := by
  rw [Port.beat, h]
  rfl

theorem aso_control (h : r.stateMain = .control) : aso r = r.ctrl := by
  rw [aso, h]

theorem aso_data (h : r.stateMain = .data) : aso r = r.data := by
  rw [aso, h]

theorem dataNext_resting (hdata : r.stateData = .idle) (hmain : r.stateMain = .control)
    (asoReady : Bool) : dataNext r asoReady = (.idle, r.data) := by
  simp [dataNext, hdata, hmain]

theorem ctrlNext_resting (hctrl : r.stateCtrl = .idle) (hmain : r.stateMain = .data)
    (asoReady : Bool) : ctrlNext r asoReady = (.idle, r.ctrl) := by
  simp [ctrlNext, hctrl, hmain]

theorem mainNext_control (hmain : r.stateMain = .control) (heop : r.ctrl.endofpacket = false) :
    mainNext r = .control := by
  simp [mainNext, hmain, aso_control hmain, heop]

theorem mainNext_data (hmain : r.stateMain = .data) (heop : r.data.endofpacket = false) :
    mainNext r = .data := by
  simp [mainNext, hmain, aso_data hmain, heop]

theorem follows_powerUp (hmain : r.stateMain = .reset) (hctrl : r.stateCtrl = .reset)
    (hdata : r.stateData = .reset) (asoReady : Bool) :
    Follows p rom (.control 0) (step p rom r asoReady) := by
  have hmain' : (step p rom r asoReady).stateMain = .control := by
    simp [step, mainNext, hmain]
  have hc : ctrlNext r asoReady = (.idle, ⟨false, false, 0, false⟩) := by
    simp [ctrlNext, hctrl]
  have hd : dataNext r asoReady = (.idle, ⟨false, false, 0, false⟩) := by
    simp [dataNext, hdata]
  left
  constructor
  · rw [aso_control hmain']
    exact beat_quiet (congrArg (fun c => c.2.valid) hc)
  · apply Stage.waiting hmain'
    · exact congrArg Prod.fst hc
    · exact congrArg Prod.fst hd
    · show (ctrlNext r asoReady).2.Quiet
      rw [hc]
      exact ⟨rfl, rfl, rfl⟩
    · show (dataNext r asoReady).2.Quiet
      rw [hd]
      exact ⟨rfl, rfl, rfl⟩

theorem follows_waiting (hmain : r.stateMain = .control) (hctrl : r.stateCtrl = .idle)
    (hdata : r.stateData = .idle) (hc : r.ctrl.Quiet) (hd : r.data.Quiet) (asoReady : Bool) :
    Follows p rom (.control 0) (step p rom r asoReady) := by
  have hmain' : (step p rom r asoReady).stateMain = .control := mainNext_control hmain hc.eop
  have hrest := dataNext_resting hdata hmain asoReady
  have hdata' : (step p rom r asoReady).stateData = .idle := congrArg Prod.fst hrest
  have hd' : (step p rom r asoReady).data.Quiet := by
    show (dataNext r asoReady).2.Quiet
    rw [hrest]
    exact hd
  by_cases hgo : asoReady = true ∧ frameEvent r = true
  · have hc' : ctrlNext r asoReady = (.sop, ⟨true, true, BitVec.ofNat _ 15, false⟩) := by
      simp [ctrlNext, hctrl, hmain, hgo]
    right
    constructor
    · rw [aso_control hmain']
      show (ctrlNext r asoReady).2.beat = _
      rw [hc', Port.beat, if_pos rfl, say, controlWord]
      cases hp : p.pixelsInParallel with
      | one => rw [controlBeats, hp]; rfl
      | two => rw [controlBeats, hp]; rfl
      | four => rw [controlBeats, hp]; rfl
    · have hone : next p (.control 0) = .control 1 := by
        rw [next, if_neg]
        cases hp : p.pixelsInParallel <;> simp [controlBeats, hp]
      rw [hone]
      refine Stage.control 1 (Nat.le_refl 1) ?_ hmain' ?_ hdata' ?_ (fun h => absurd rfl h) hd'
      · cases hp : p.pixelsInParallel <;> simp [controlBeats, hp]
      · exact congrArg Prod.fst hc'
      · exact congrArg (fun c => c.2.endofpacket) hc'
  · have hc' : ctrlNext r asoReady = (.idle, r.ctrl) := by
      rw [ctrlNext, hctrl]
      cases hready : asoReady <;> cases hev : frameEvent r <;> simp_all
    left
    constructor
    · rw [aso_control hmain']
      apply beat_quiet
      show (ctrlNext r asoReady).2.valid = false
      rw [hc']
      exact hc.valid
    · apply Stage.waiting hmain' (congrArg Prod.fst hc') hdata' _ hd'
      show (ctrlNext r asoReady).2.Quiet
      rw [hc']
      exact hc

theorem ctrlNext_ready {i : Nat} (hpos : 1 ≤ i) (hlt : i < controlBeats p)
    (hctrl : r.stateCtrl = ctrlStateAfter i) (heop : r.ctrl.endofpacket = false)
    (hsop : i ≠ 1 → r.ctrl.startofpacket = false) :
    ctrlNext r true = (if i + 1 = controlBeats p then .eop else ctrlStateAfter (i + 1),
      ⟨false, true, controlWord p i, i + 1 == controlBeats p⟩) := by
  unfold controlBeats at hlt
  cases hp : p.pixelsInParallel with
  | one =>
      have hfour : i < 4 := by simpa only [hp] using hlt
      have hi : i = 1 ∨ i = 2 ∨ i = 3 := by omega
      rcases hi with rfl | rfl | rfl <;>
        simp_all [ctrlNext, ctrlStateAfter, controlWord, controlBeats]
  | two =>
      have hthree : i < 3 := by simpa only [hp] using hlt
      have hi : i = 1 ∨ i = 2 := by omega
      rcases hi with rfl | rfl <;>
        simp_all [ctrlNext, ctrlStateAfter, controlWord, controlBeats]
  | four =>
      have htwo : i < 2 := by simpa only [hp] using hlt
      obtain rfl : i = 1 := by omega
      simp_all [ctrlNext, ctrlStateAfter, controlWord, controlBeats]

theorem ctrlNext_stalled {i : Nat} (hpos : 1 ≤ i) (hctrl : r.stateCtrl = ctrlStateAfter i)
    (heop : r.ctrl.endofpacket = false) (hsop : i ≠ 1 → r.ctrl.startofpacket = false) :
    ctrlNext r false = (ctrlStateAfter i, ⟨false, false, r.ctrl.data, false⟩) := by
  by_cases h1 : i = 1
  · subst h1
    simp [ctrlNext, hctrl, ctrlStateAfter, heop]
  · have hstart := hsop h1
    by_cases h2 : i = 2
    · subst h2
      simp [ctrlNext, hctrl, ctrlStateAfter, heop, hstart]
    · have hafter : ctrlStateAfter i = .data2 := by
        rw [ctrlStateAfter.eq_def]
        split <;> simp_all
      simp [ctrlNext, hctrl, hafter, heop, hstart]

theorem follows_control {i : Nat} (hpos : 1 ≤ i) (hlt : i < controlBeats p)
    (hmain : r.stateMain = .control) (hctrl : r.stateCtrl = ctrlStateAfter i)
    (hdata : r.stateData = .idle) (heop : r.ctrl.endofpacket = false)
    (hsop : i ≠ 1 → r.ctrl.startofpacket = false) (hd : r.data.Quiet) (asoReady : Bool) :
    Follows p rom (.control i) (step p rom r asoReady) := by
  have hmain' : (step p rom r asoReady).stateMain = .control := mainNext_control hmain heop
  have hrest := dataNext_resting hdata hmain asoReady
  have hdata' : (step p rom r asoReady).stateData = .idle := congrArg Prod.fst hrest
  have hd' : (step p rom r asoReady).data.Quiet := by
    show (dataNext r asoReady).2.Quiet
    rw [hrest]
    exact hd
  cases asoReady with
  | false =>
      have hc' := ctrlNext_stalled hpos hctrl heop hsop
      left
      constructor
      · rw [aso_control hmain']
        exact beat_quiet (congrArg (fun c => c.2.valid) hc')
      · exact Stage.control i hpos hlt hmain' (congrArg Prod.fst hc') hdata'
          (congrArg (fun c => c.2.endofpacket) hc')
          (fun _ => congrArg (fun c => c.2.startofpacket) hc') hd'
  | true =>
      have hc' := ctrlNext_ready hpos hlt hctrl heop hsop
      right
      constructor
      · rw [aso_control hmain']
        show (ctrlNext r true).2.beat = _
        have hzero : (i == 0) = false := by
          rw [beq_eq_false_iff_ne]
          omega
        rw [hc', Port.beat, if_pos rfl, say, hzero]
      · have hvalid : (step p rom r true).ctrl.valid = true := congrArg (fun c => c.2.valid) hc'
        have hlast : (step p rom r true).ctrl.endofpacket = (i + 1 == controlBeats p) :=
          congrArg (fun c => c.2.endofpacket) hc'
        have hstate : (step p rom r true).stateCtrl =
            if i + 1 = controlBeats p then .eop else ctrlStateAfter (i + 1) :=
          congrArg Prod.fst hc'
        by_cases hend : i + 1 = controlBeats p
        · rw [next, if_pos hend]
          rw [if_pos hend] at hstate
          rw [hend, beq_self_eq_true] at hlast
          exact Stage.controlEnd hmain' hstate hdata' hvalid hlast hd'
        · rw [next, if_neg hend]
          rw [if_neg hend] at hstate
          rw [beq_eq_false_iff_ne.mpr hend] at hlast
          exact Stage.control (i + 1) (by omega) (by omega) hmain' hstate hdata' hlast
            (fun _ => congrArg (fun c => c.2.startofpacket) hc') hd'

theorem follows_controlEnd (hmain : r.stateMain = .control) (hctrl : r.stateCtrl = .eop)
    (hdata : r.stateData = .idle) (hvalid : r.ctrl.valid = true)
    (heop : r.ctrl.endofpacket = true) (hd : r.data.Quiet) (asoReady : Bool) :
    Follows p rom .header (step p rom r asoReady) := by
  have hmain' : (step p rom r asoReady).stateMain = .data := by
    simp [step, mainNext, hmain, aso_control hmain, heop, hvalid]
  have hrest := dataNext_resting hdata hmain asoReady
  have hd' : (step p rom r asoReady).data.Quiet := by
    show (dataNext r asoReady).2.Quiet
    rw [hrest]
    exact hd
  have hc' : ctrlNext r asoReady = (.idle, ⟨false, false, 0, false⟩) := by
    simp [ctrlNext, hctrl]
  have haddr : addrNext r asoReady = (0, 0#2) := if_pos hmain
  left
  constructor
  · rw [aso_data hmain']
    exact beat_quiet hd'.valid
  · apply Stage.header hmain' (congrArg Prod.fst hc') (congrArg Prod.fst hrest) _ hd'
      (congrArg Prod.fst haddr) (congrArg Prod.snd haddr)
    · show rom (addrNext r asoReady).1.toNat = rom 0
      rw [haddr]
      exact congrArg rom (BitVec.toNat_zero)
    · show (ctrlNext r asoReady).2.Quiet
      rw [hc']
      exact ⟨rfl, rfl, rfl⟩

theorem follows_header (hmain : r.stateMain = .data) (hctrl : r.stateCtrl = .idle)
    (hdata : r.stateData = .idle) (hc : r.ctrl.Quiet) (hd : r.data.Quiet) (haddr : r.romAddr = 0)
    (hsub : r.subpixCnt = 0#2) (asoReady : Bool) :
    Follows p rom .header (step p rom r asoReady) := by
  have hmain' : (step p rom r asoReady).stateMain = .data := mainNext_data hmain hd.eop
  have hrest := ctrlNext_resting hctrl hmain asoReady
  have hctrl' : (step p rom r asoReady).stateCtrl = .idle := congrArg Prod.fst hrest
  have hc' : (step p rom r asoReady).ctrl.Quiet := by
    show (ctrlNext r asoReady).2.Quiet
    rw [hrest]
    exact hc
  have hkeep : addrNext r asoReady = (0, 0#2) := by
    simp [addrNext, hmain, hdata, haddr, hsub]
  have haddr' : (step p rom r asoReady).romAddr = 0 := congrArg Prod.fst hkeep
  have hsub' : (step p rom r asoReady).subpixCnt = 0#2 := congrArg Prod.snd hkeep
  have hrom' : (step p rom r asoReady).romData = rom 0 := by
    show rom (addrNext r asoReady).1.toNat = rom 0
    rw [hkeep]
    exact congrArg rom (BitVec.toNat_zero)
  cases asoReady with
  | false =>
      have hd' : dataNext r false = (.idle, r.data) := by
        simp [dataNext, hdata]
      have hquiet : (step p rom r false).data.Quiet := by
        show (dataNext r false).2.Quiet
        rw [hd']
        exact hd
      left
      constructor
      · rw [aso_data hmain']
        exact beat_quiet hquiet.valid
      · exact Stage.header hmain' hctrl' (congrArg Prod.fst hd') hc' hquiet haddr' hsub' hrom'
  | true =>
      have hd' : dataNext r true = (.sop, ⟨true, true, 0, false⟩) := by
        simp [dataNext, hdata, hmain, hd.eop]
      right
      constructor
      · rw [aso_data hmain']
        show (dataNext r true).2.beat = _
        rw [hd', Port.beat, if_pos rfl, say]
      · have hpix : Stage p rom (step p rom r true)
            (.pixels true (step p rom r true).romAddr (step p rom r true).subpixCnt) := by
          apply Stage.pixels true hmain' hctrl' (congrArg Prod.fst hd') hc'
            (congrArg (fun c => c.2.endofpacket) hd') (fun h => by cases h)
          rw [hrom', haddr']
          exact congrArg rom BitVec.toNat_zero.symm
        rw [haddr', hsub'] at hpix
        exact hpix

theorem dataNext_pixels {first : Bool} (hdata : r.stateData = if first then .sop else .data)
    (heop : r.data.endofpacket = false) (hsop : first = false → r.data.startofpacket = false) :
    dataNext r true = (if !first && lastBeat p r.romAddr r.subpixCnt then .eop else .data,
      ⟨false, true, pixelBeat p r.romData r.subpixCnt,
        !first && lastBeat p r.romAddr r.subpixCnt⟩) := by
  cases first with
  | false => simp [dataNext, hdata, hsop rfl]
  | true => simp [dataNext, hdata, heop]

theorem dataNext_stalled {first : Bool} (hdata : r.stateData = if first then .sop else .data)
    (heop : r.data.endofpacket = false) (hsop : first = false → r.data.startofpacket = false) :
    dataNext r false =
      (if first then .sop else .data, ⟨false, false, r.data.data, false⟩) := by
  cases first with
  | false => simp [dataNext, hdata, heop, hsop rfl]
  | true => simp [dataNext, hdata, heop]

theorem addrNext_pixels {first : Bool} (hmain : r.stateMain = .data)
    (hdata : r.stateData = if first then .sop else .data) (asoReady : Bool) :
    addrNext r asoReady =
      if asoReady then advance p r.romAddr r.subpixCnt else (r.romAddr, r.subpixCnt) := by
  cases first <;> simp_all [addrNext]

theorem follows_pixels {first : Bool} (hmain : r.stateMain = .data) (hctrl : r.stateCtrl = .idle)
    (hdata : r.stateData = if first then .sop else .data) (hc : r.ctrl.Quiet)
    (heop : r.data.endofpacket = false) (hsop : first = false → r.data.startofpacket = false)
    (hrom : r.romData = rom r.romAddr.toNat) (asoReady : Bool) :
    Follows p rom (.pixels first r.romAddr r.subpixCnt) (step p rom r asoReady) := by
  have hmain' : (step p rom r asoReady).stateMain = .data := mainNext_data hmain heop
  have hrest := ctrlNext_resting hctrl hmain asoReady
  have hctrl' : (step p rom r asoReady).stateCtrl = .idle := congrArg Prod.fst hrest
  have hc' : (step p rom r asoReady).ctrl.Quiet := by
    show (ctrlNext r asoReady).2.Quiet
    rw [hrest]
    exact hc
  have haddr := addrNext_pixels hmain hdata asoReady
  cases asoReady with
  | false =>
      have hd' := dataNext_stalled hdata heop hsop
      have hkeep : (step p rom r false).romAddr = r.romAddr := congrArg Prod.fst haddr
      have hsub : (step p rom r false).subpixCnt = r.subpixCnt := congrArg Prod.snd haddr
      left
      constructor
      · rw [aso_data hmain']
        exact beat_quiet (congrArg (fun d => d.2.valid) hd')
      · rw [← hkeep, ← hsub]
        exact Stage.pixels first hmain' hctrl' (congrArg Prod.fst hd') hc'
          (congrArg (fun d => d.2.endofpacket) hd')
          (fun _ => congrArg (fun d => d.2.startofpacket) hd') rfl
  | true =>
      have hd' := dataNext_pixels hdata heop hsop
      have hmove : (step p rom r true).romAddr = (advance p r.romAddr r.subpixCnt).1 :=
        congrArg Prod.fst haddr
      have hsub : (step p rom r true).subpixCnt = (advance p r.romAddr r.subpixCnt).2 :=
        congrArg Prod.snd haddr
      have hstate : (step p rom r true).stateData =
          if !first && lastBeat p r.romAddr r.subpixCnt then .eop else .data :=
        congrArg Prod.fst hd'
      have heop' : (step p rom r true).data.endofpacket =
          (!first && lastBeat p r.romAddr r.subpixCnt) :=
        congrArg (fun d => d.2.endofpacket) hd'
      have hsop' : (step p rom r true).data.startofpacket = false :=
        congrArg (fun d => d.2.startofpacket) hd'
      right
      constructor
      · rw [aso_data hmain']
        show (dataNext r true).2.beat = _
        rw [hd', Port.beat, if_pos rfl, say, hrom]
      · cases hlast : (!first && lastBeat p r.romAddr r.subpixCnt) with
        | true =>
            rw [hlast] at hstate heop'
            rw [next, if_pos hlast]
            exact Stage.dataEnd hmain' hctrl' hstate hc' hsop'
              (congrArg (fun d => d.2.valid) hd') heop'
        | false =>
            rw [hlast] at hstate heop'
            rw [next, hlast, ← hmove, ← hsub]
            exact Stage.pixels false hmain' hctrl' hstate hc' heop' (fun _ => hsop') rfl

theorem follows_dataEnd (hmain : r.stateMain = .data) (hctrl : r.stateCtrl = .idle)
    (hdata : r.stateData = .eop) (hc : r.ctrl.Quiet) (hsop : r.data.startofpacket = false)
    (hvalid : r.data.valid = true) (heop : r.data.endofpacket = true) (asoReady : Bool) :
    Follows p rom (.control 0) (step p rom r asoReady) := by
  have hmain' : (step p rom r asoReady).stateMain = .control := by
    simp [step, mainNext, hmain, aso_data hmain, heop, hvalid]
  have hrest := ctrlNext_resting hctrl hmain asoReady
  have hc' : (step p rom r asoReady).ctrl.Quiet := by
    show (ctrlNext r asoReady).2.Quiet
    rw [hrest]
    exact hc
  have hd' : dataNext r asoReady = (.idle, ⟨false, false, 0, false⟩) := by
    simp [dataNext, hdata, hsop]
  left
  constructor
  · rw [aso_control hmain']
    exact beat_quiet hc'.valid
  · apply Stage.waiting hmain' (congrArg Prod.fst hrest) (congrArg Prod.fst hd') hc'
    show (dataNext r asoReady).2.Quiet
    rw [hd']
    exact ⟨rfl, rfl, rfl⟩

/-- Every cycle follows the script. -/
theorem follows_step {a : Place p} (h : Stage p rom r a) (asoReady : Bool) :
    Follows p rom a (step p rom r asoReady) := by
  cases h with
  | powerUp hmain hctrl hdata hc hd => exact follows_powerUp hmain hctrl hdata asoReady
  | waiting hmain hctrl hdata hc hd => exact follows_waiting hmain hctrl hdata hc hd asoReady
  | control i hpos hlt hmain hctrl hdata heop hsop hd =>
      exact follows_control hpos hlt hmain hctrl hdata heop hsop hd asoReady
  | controlEnd hmain hctrl hdata hvalid heop hd =>
      exact follows_controlEnd hmain hctrl hdata hvalid heop hd asoReady
  | header hmain hctrl hdata hc hd haddr hsub hrom =>
      exact follows_header hmain hctrl hdata hc hd haddr hsub asoReady
  | pixels first hmain hctrl hdata hc heop hsop hrom =>
      exact follows_pixels hmain hctrl hdata hc heop hsop hrom asoReady
  | dataEnd hmain hctrl hdata hc hsop hvalid heop =>
      exact follows_dataEnd hmain hctrl hdata hc hsop hvalid heop asoReady

end Step

/-! ## Runs -/

section Run

variable (p : Params) (rom : Nat → BitVec 16) (romData : BitVec 16) (frameTimer : BitVec 23)
  (inp : Nat → Bool)

theorem run_succ (n : Nat) :
    run p rom romData frameTimer inp (n + 1) =
      step p rom (run p rom romData frameTimer inp n) (inp n) := rfl

/-- The transfers of a run are the beginning of the script. -/
theorem beats_eq_said (n : Nat) :
    ∃ k, beats p rom romData frameTimer inp n = said (next p) (say p rom) (.control 0) k ∧
      Follows p rom ((next p)^[k] (.control 0)) (run p rom romData frameTimer inp n) := by
  apply events_eq_said (fun r a => Follows p rom a r)
  · left
    exact ⟨rfl, Stage.powerUp rfl rfl rfl ⟨rfl, rfl, rfl⟩ ⟨rfl, rfl, rfl⟩⟩
  · intro n a h
    rcases h with ⟨hnone, hstage⟩ | ⟨hsome, hstage⟩
    · exact Or.inl ⟨hnone, follows_step hstage (inp n)⟩
    · exact Or.inr ⟨hsome, follows_step hstage (inp n)⟩

/-! ## Progress -/

def Listening {p : Params} (r : Regs p) : Prop :=
  match r.stateMain, r.stateCtrl with
  | .control, .idle => frameEvent r = true
  | .control, .eop => False
  | .control, .reset => False
  | .control, _ => True
  | .data, _ => r.stateData ≠ .eop
  | .reset, _ => False

end Run

section Progress

variable {p : Params} {rom : Nat → BitVec 16} {r : Regs p}

theorem ctrlStateAfter_cases (i : Nat) :
    ctrlStateAfter i = .sop ∨ ctrlStateAfter i = .data1 ∨ ctrlStateAfter i = .data2 := by
  unfold ctrlStateAfter
  split <;> simp

theorem listening_ready {a : Place p} (h : Stage p rom r a) (hl : Listening r) :
    (aso (step p rom r true)).valid = true := by
  cases h with
  | powerUp hmain hctrl hdata hc hd => simp [Listening, hmain] at hl
  | waiting hmain hctrl hdata hc hd =>
      have hev : frameEvent r = true := by simpa [Listening, hmain, hctrl] using hl
      rw [aso_control (mainNext_control hmain hc.eop)]
      simp [step, ctrlNext, hctrl, hmain, hev]
  | control i hpos hlt hmain hctrl hdata heop hsop hd =>
      rw [aso_control (mainNext_control hmain heop)]
      exact congrArg (fun c => c.2.valid) (ctrlNext_ready hpos hlt hctrl heop hsop)
  | controlEnd hmain hctrl hdata hvalid heop hd => simp [Listening, hmain, hctrl] at hl
  | header hmain hctrl hdata hc hd haddr hsub hrom =>
      rw [aso_data (mainNext_data hmain hd.eop)]
      simp [step, dataNext, hdata, hmain]
  | pixels first hmain hctrl hdata hc heop hsop hrom =>
      rw [aso_data (mainNext_data hmain heop)]
      exact congrArg (fun d => d.2.valid) (dataNext_pixels hdata heop hsop)
  | dataEnd hmain hctrl hdata hc hsop hvalid heop => simp [Listening, hmain, hdata] at hl

theorem listening_stalled {a : Place p} (h : Stage p rom r a) (hl : Listening r) :
    Listening (step p rom r false) := by
  cases h with
  | powerUp hmain hctrl hdata hc hd => simp [Listening, hmain] at hl
  | waiting hmain hctrl hdata hc hd =>
      have hev : frameEvent r = true := by simpa [Listening, hmain, hctrl] using hl
      have hmain' : (step p rom r false).stateMain = .control := mainNext_control hmain hc.eop
      have hctrl' : (step p rom r false).stateCtrl = .idle := by
        simp [step, ctrlNext, hctrl]
      have htimer : (step p rom r false).frameTimer = r.frameTimer := by
        simp [step, frameTimerNext, hctrl, hev]
      simpa [Listening, hmain', hctrl', frameEvent, htimer] using hev
  | control i hpos hlt hmain hctrl hdata heop hsop hd =>
      have hmain' : (step p rom r false).stateMain = .control := mainNext_control hmain heop
      have hctrl' : (step p rom r false).stateCtrl = ctrlStateAfter i :=
        congrArg Prod.fst (ctrlNext_stalled hpos hctrl heop hsop)
      rcases ctrlStateAfter_cases i with hi | hi | hi <;>
        simp [Listening, hmain', hctrl', hi]
  | controlEnd hmain hctrl hdata hvalid heop hd => simp [Listening, hmain, hctrl] at hl
  | header hmain hctrl hdata hc hd haddr hsub hrom =>
      have hmain' : (step p rom r false).stateMain = .data := mainNext_data hmain hd.eop
      have hdata' : (step p rom r false).stateData = .idle := by
        simp [step, dataNext, hdata]
      simp [Listening, hmain', hdata']
  | pixels first hmain hctrl hdata hc heop hsop hrom =>
      have hmain' : (step p rom r false).stateMain = .data := mainNext_data hmain heop
      have hdata' : (step p rom r false).stateData = if first then .sop else .data :=
        congrArg Prod.fst (dataNext_stalled hdata heop hsop)
      cases first <;> simp [Listening, hmain', hdata']
  | dataEnd hmain hctrl hdata hc hsop hvalid heop => simp [Listening, hmain, hdata] at hl

def frameWait {p : Params} (r : Regs p) : Nat :=
  match r.stateMain with
  | .reset => 8388609
  | _ => 4194304 - r.frameTimer.toNat

theorem progress_step {a : Place p} (h : Stage p rom r a) (asoReady : Bool) :
    (aso r).valid = true ∨ Listening r ∨
      frameWait (step p rom r asoReady) < frameWait r := by
  cases h with
  | powerUp hmain hctrl hdata hc hd =>
      right; right
      have hmain' : (step p rom r asoReady).stateMain = .control := by
        simp [step, mainNext, hmain]
      rw [frameWait, frameWait, hmain, hmain']
      dsimp only
      omega
  | waiting hmain hctrl hdata hc hd =>
      right
      cases hev : frameEvent r with
      | true =>
          left
          simpa [Listening, hmain, hctrl] using hev
      | false =>
          right
          have hmain' : (step p rom r asoReady).stateMain = .control :=
            mainNext_control hmain hc.eop
          have htimer : (step p rom r asoReady).frameTimer = r.frameTimer + 1 := by
            simp [step, frameTimerNext, hctrl, hev]
          have hlt : r.frameTimer.toNat < 4194304 := toNat_lt_of_top hev
          have hadd : (r.frameTimer + 1).toNat = r.frameTimer.toNat + 1 :=
            toNat_add_one (by omega)
          rw [frameWait, frameWait, hmain, hmain', htimer, hadd]
          dsimp only
          omega
  | control i hpos hlt hmain hctrl hdata heop hsop hd =>
      right; left
      rcases ctrlStateAfter_cases i with hi | hi | hi <;>
        simp [Listening, hmain, hctrl, hi]
  | controlEnd hmain hctrl hdata hvalid heop hd =>
      left
      rw [aso_control hmain, hvalid]
  | header hmain hctrl hdata hc hd haddr hsub hrom =>
      right; left
      simp [Listening, hmain, hdata]
  | pixels first hmain hctrl hdata hc heop hsop hrom =>
      right; left
      cases first <;> simp [Listening, hmain, hdata]
  | dataEnd hmain hctrl hdata hc hsop hvalid heop =>
      left
      rw [aso_data hmain, hvalid]

variable (romData : BitVec 16) (frameTimer : BitVec 23) {inp : Nat → Bool}

theorem exists_stage (p : Params) (rom : Nat → BitVec 16) (inp : Nat → Bool)
    (romData : BitVec 16) (frameTimer : BitVec 23) (n : Nat) :
    ∃ a, Stage p rom (run p rom romData frameTimer inp n) a := by
  obtain ⟨k, _, hfollows⟩ := beats_eq_said p rom romData frameTimer inp n
  rcases hfollows with ⟨_, hstage⟩ | ⟨_, hstage⟩
  · exact ⟨_, hstage⟩
  · exact ⟨_, hstage⟩

theorem exists_beat (hready : ∀ n, ∃ m ≥ n, inp m = true) (n : Nat) :
    ∃ m ≥ n, (aso (run p rom romData frameTimer inp m)).beat ≠ none := by
  have hshow : ∀ m, (aso (run p rom romData frameTimer inp m)).valid = true →
      (aso (run p rom romData frameTimer inp m)).beat ≠ none := by
    intro m hvalid
    rw [Port.beat, if_pos hvalid]
    exact Option.some_ne_none _
  obtain ⟨m, hm, hfirst⟩ := exists_of_rank
    (P := fun m => (aso (run p rom romData frameTimer inp m)).valid = true ∨
      Listening (run p rom romData frameTimer inp m)) (m := n)
    (fun m => frameWait (run p rom romData frameTimer inp m))
    (by
      intro m _ hnot
      obtain ⟨a, hstage⟩ := exists_stage p rom inp romData frameTimer m
      rcases progress_step hstage (inp m) with h | h | h
      · exact absurd (Or.inl h) hnot
      · exact absurd (Or.inr h) hnot
      · exact h)
  rcases hfirst with hvalid | hlisten
  · exact ⟨m, hm, hshow m hvalid⟩
  · obtain ⟨i, hi, hgo⟩ := hready m
    obtain ⟨j, hj, hq⟩ := leads_of_rank
      (P := fun j => Listening (run p rom romData frameTimer inp j) ∧ j ≤ i)
      (Q := fun j => (aso (run p rom romData frameTimer inp (j + 1))).valid = true)
      (fun j => i - j)
      (by
        intro j ⟨hl, hji⟩
        obtain ⟨a, hstage⟩ := exists_stage p rom inp romData frameTimer j
        cases hinp : inp j with
        | true =>
            left
            rw [run_succ, hinp]
            exact listening_ready hstage hl
        | false =>
            right
            have hne : j ≠ i := by
              intro heq
              rw [heq, hgo] at hinp
              cases hinp
            refine ⟨⟨?_, by omega⟩, by omega⟩
            rw [run_succ, hinp]
            exact listening_stalled hstage hl)
      ⟨hlisten, hi⟩
    exact ⟨j + 1, by omega, hshow (j + 1) hq⟩

theorem exists_said (hready : ∀ n, ∃ m ≥ n, inp m = true) (k : Nat) :
    ∃ n j, k ≤ j ∧ beats p rom romData frameTimer inp n =
      said (next p) (say p rom) (.control 0) j := by
  obtain ⟨n, hn⟩ := exists_length_events (exists_beat romData frameTimer hready) k
  obtain ⟨j, hsaid, _⟩ := beats_eq_said p rom romData frameTimer inp n
  refine ⟨n, j, ?_, hsaid⟩
  have hlen : (beats p rom romData frameTimer inp n).length = j := by
    rw [hsaid, length_said]
  rw [← hlen]
  exact hn

end Progress

end Mfi.SplashScreen
