import Mathlib.Data.Nat.Count
import Mfi.Core.Trace
import Mfi.Core.Words

/-!
# Layers of the mixer

The main loop of the firmware switches the two video layers of the mixer. A layer shows the
video input that the switch selects for it, and a timer counts up while that input has
stable video and down while it has not. The layer is enabled at the upper end of the timer
and disabled at the lower one. An input that is itself disabled, and a selection of no
input, leave the layer and its timer alone.
-/

namespace Mfi.MixerLayers

open Core

def layerTimeout : Nat := 3

/-- The two registers of a video input that the loop reads. -/
structure Cvi where
  control : BitVec 32
  status : BitVec 32
  deriving DecidableEq, Repr

structure Seen where
  output : BitVec 32
  cvi0 : Cvi
  cvi1 : Cvi
  cvi2 : Cvi
  cvi3 : Cvi
  layerCtrl : BitVec 8
  deriving DecidableEq, Repr

/-- The timer of a layer, and its enable bit in the mixer. -/
structure Layer where
  timer : BitVec 16
  enable : BitVec 1
  deriving DecidableEq, Repr

/-! ## One iteration -/

/-- Whether an input is enabled and whether its video is stable. -/
def Cvi.levels (c : Cvi) : BitVec 8 × BitVec 8 :=
  ((c.control &&& 0x00000001#32).setWidth 8, ((c.status &&& 0x00000400#32) >>> 10).setWidth 8)

def levels (s : Seen) : BitVec 8 × BitVec 8 :=
  match s.output.toNat with
  | 16 => s.cvi3.levels
  | 8 => s.cvi2.levels
  | 4 => s.cvi1.levels
  | 2 => s.cvi0.levels
  | _ => (0#8, 0#8)

def layerControl (s : Seen) : BitVec 8 := (levels s).1

def layerStatus (s : Seen) : BitVec 8 := (levels s).2

/-- The next timer, and what is assigned to the enable bit, if anything. The bit takes the lowest
bit of the shared register. -/
def layerStep (l : Layer) (s : Seen) : BitVec 16 × Option (BitVec 1) :=
  if layerControl s ≠ 0#8 then
    if layerStatus s ≠ 0#8 then
      if l.timer.toNat < layerTimeout then (l.timer + 1, none)
      else (l.timer, some (s.layerCtrl.setWidth 1))
    else
      if 0 < l.timer.toNat then (l.timer - 1, none)
      else (l.timer, some 0#1)
  else (l.timer, none)

def layerNext (l : Layer) (s : Seen) : Layer :=
  { timer := (layerStep l s).1, enable := (layerStep l s).2.getD l.enable }

/-- The loop over the two layers, which touches each of them by itself. -/
def loop (ls : Fin 2 → Layer) (seen : Fin 2 → Seen) : Fin 2 → Layer :=
  fun i => layerNext (ls i) (seen i)

section Run

variable (e : Fin 2 → BitVec 1) (inp : Nat → Fin 2 → Seen)

/-- The layers when the loop is entered: the timers are cleared, the enable bits are as they
were. -/
def start : Fin 2 → Layer := fun i => { timer := 0#16, enable := e i }

/-- The layers before iteration `n`. -/
def run (n : Nat) : Fin 2 → Layer := trace loop (start e) inp n

/-! ## What it is meant to do -/

/-- The layer has an input that is enabled and has stable video. -/
def Usable (s : Seen) : Prop := layerControl s ≠ 0#8 ∧ layerStatus s ≠ 0#8

/-- From iteration `n` on the layer has no such input. -/
def GoneFrom (i : Fin 2) (n : Nat) : Prop := ∀ m ≥ n, ¬ Usable (inp m i)

/-- A layer is enabled with stable video only and after the timeout, and disabled within the
timeout and one iteration after its input is gone. -/
structure Debounces (i : Fin 2) : Prop where
  enables : ∀ n v, (layerStep (run e inp n i) (inp n i)).2 = some v → v ≠ 0#1 →
    Usable (inp n i) ∧ layerTimeout ≤ (run e inp n i).timer.toNat
  disables : ∀ n, GoneFrom inp i n → ∀ m ≥ n + layerTimeout + 1, (run e inp m i).enable = 0#1

/-- The number of the `k` iterations from `n` on in which the layer has an enabled input. -/
def served (i : Fin 2) (n k : Nat) : Nat :=
  Nat.count (fun j => layerControl (inp (n + j) i) ≠ 0#8) k

end Run

/-! ## One layer in one iteration -/

section Step

variable {l : Layer} {s : Seen}

theorem usable_of_set {v : BitVec 1} (h : (layerStep l s).2 = some v) (hv : v ≠ 0#1) :
    Usable s ∧ layerTimeout ≤ l.timer.toNat := by
  unfold layerStep at h
  by_cases hcontrol : layerControl s = 0#8
  · rw [if_neg (not_not_intro hcontrol)] at h
    cases h
  rw [if_pos hcontrol] at h
  by_cases hstatus : layerStatus s = 0#8
  · rw [if_neg (not_not_intro hstatus)] at h
    split at h
    · cases h
    · cases h
      exact absurd rfl hv
  rw [if_pos hstatus] at h
  split at h
  · cases h
  · next hend => exact ⟨⟨hcontrol, hstatus⟩, Nat.le_of_not_lt hend⟩

theorem next_of_off (h : layerControl s = 0#8) : layerNext l s = l := by
  unfold layerNext layerStep
  rw [if_neg (not_not_intro h)]
  rfl

theorem next_of_unstable (hcontrol : layerControl s ≠ 0#8) (h : ¬ Usable s)
    (hpos : 0 < l.timer.toNat) : layerNext l s = { l with timer := l.timer - 1 } := by
  have hstatus : layerStatus s = 0#8 := by
    by_contra hstatus
    exact h ⟨hcontrol, hstatus⟩
  unfold layerNext layerStep
  rw [if_pos hcontrol, if_neg (not_not_intro hstatus), if_pos hpos]
  rfl

theorem next_of_end (hcontrol : layerControl s ≠ 0#8) (h : ¬ Usable s)
    (hend : l.timer.toNat = 0) : layerNext l s = { l with enable := 0#1 } := by
  have hstatus : layerStatus s = 0#8 := by
    by_contra hstatus
    exact h ⟨hcontrol, hstatus⟩
  unfold layerNext layerStep
  rw [if_pos hcontrol, if_neg (not_not_intro hstatus), if_neg (by omega)]
  rfl

end Step

/-! ## Along a run -/

section Gone

variable {e : Fin 2 → BitVec 1} {inp : Nat → Fin 2 → Seen} {i : Fin 2} {n : Nat}

theorem run_succ (n : Nat) : run e inp (n + 1) i = layerNext (run e inp n i) (inp n i) := rfl

/-- Once its input is gone, only the iterations with an enabled input bring the layer closer to
its end. -/
theorem run_gone (h : GoneFrom inp i n) (k : Nat) :
    (run e inp (n + k) i).timer.toNat = (run e inp n i).timer.toNat - served inp i n k ∧
      (run e inp (n + k) i).enable =
        if (run e inp n i).timer.toNat < served inp i n k then 0#1
        else (run e inp n i).enable := by
  induction k with
  | zero => exact ⟨rfl, rfl⟩
  | succ k ih =>
      have hgone : ¬ Usable (inp (n + k) i) := h (n + k) (Nat.le_add_right n k)
      have hserved : served inp i n (k + 1) = served inp i n k +
          if layerControl (inp (n + k) i) ≠ 0#8 then 1 else 0 := Nat.count_succ _ k
      rw [← Nat.add_assoc, run_succ, hserved]
      cases ih with
      | intro htimer henable =>
          by_cases hcontrol : layerControl (inp (n + k) i) = 0#8
          · rw [next_of_off hcontrol, if_neg (not_not_intro hcontrol), Nat.add_zero]
            exact ⟨htimer, henable⟩
          rw [if_pos hcontrol]
          by_cases hpos : 0 < (run e inp (n + k) i).timer.toNat
          · rw [next_of_unstable hcontrol hgone hpos]
            constructor
            · show ((run e inp (n + k) i).timer - 1).toNat = _
              rw [toNat_sub_one hpos]
              omega
            · show (run e inp (n + k) i).enable = _
              rw [henable, if_neg (by omega), if_neg (by omega)]
          · rw [next_of_end hcontrol hgone (by omega)]
            constructor
            · show (run e inp (n + k) i).timer.toNat = _
              omega
            · show 0#1 = _
              rw [if_pos (by omega)]

theorem served_mono {k m : Nat} (h : k ≤ m) : served inp i n k ≤ served inp i n m :=
  Nat.count_monotone _ h

/-- A layer whose input is gone is disabled in time exactly if it is disabled already, or is
served often enough. -/
theorem disables_iff (h : GoneFrom inp i n) :
    (∀ m ≥ n + layerTimeout + 1, (run e inp m i).enable = 0#1) ↔
      (run e inp n i).enable = 0#1 ∨
        (run e inp n i).timer.toNat < served inp i n (layerTimeout + 1) := by
  constructor
  · intro hdisabled
    have hend := hdisabled (n + (layerTimeout + 1)) (Nat.le_refl _)
    rw [(run_gone h (layerTimeout + 1)).2] at hend
    by_cases hserved : (run e inp n i).timer.toNat < served inp i n (layerTimeout + 1)
    · exact Or.inr hserved
    · rw [if_neg hserved] at hend
      exact Or.inl hend
  · intro hcond m hm
    have hmono : served inp i n (layerTimeout + 1) ≤ served inp i n (m - n) :=
      served_mono (by omega)
    have hrun := (run_gone (e := e) h (m - n)).2
    rw [Nat.add_sub_cancel' (by omega)] at hrun
    rw [hrun]
    rcases hcond with hoff | hserved
    · rw [hoff, ite_self]
    · exact if_pos (by omega)

/-! ## What the timer is good for -/

theorem timer_next (l : Layer) (s : Seen) (h : l.timer.toNat ≤ layerTimeout) :
    (layerNext l s).timer.toNat ≤ layerTimeout := by
  unfold layerNext layerStep
  split
  · split
    · split
      · next hless =>
          have hless' : l.timer.toNat < 3 := hless
          show (l.timer + 1).toNat ≤ layerTimeout
          rw [toNat_add_one (by omega)]
          exact hless
      · exact h
    · split
      · next hpos =>
          show (l.timer - 1).toNat ≤ layerTimeout
          rw [toNat_sub_one hpos]
          omega
      · exact h
  · exact h

theorem timer_le (n : Nat) : (run e inp n i).timer.toNat ≤ layerTimeout := by
  induction n with
  | zero => exact Nat.zero_le _
  | succ n ih => exact timer_next _ _ ih

theorem debounces_of_enabled
    (h : ∀ n, GoneFrom inp i n → ∀ m ≥ n, layerControl (inp m i) ≠ 0#8) : Debounces e inp i := by
  constructor
  · intro n v hset hv
    exact usable_of_set hset hv
  · intro n hgone
    have hserved : served inp i n (layerTimeout + 1) = layerTimeout + 1 :=
      Nat.count_iff_forall.2 (fun j _ => h n hgone (n + j) (Nat.le_add_right n j))
    have htimer : (run e inp n i).timer.toNat ≤ layerTimeout := timer_le n
    rw [disables_iff hgone]
    omega

end Gone

/-- The layers do what they are meant to do in exactly the runs in which a layer whose input is
gone is disabled already, or still has an enabled input in more of the next iterations than its
timer counts. -/
theorem debounces_iff (e : Fin 2 → BitVec 1) (inp : Nat → Fin 2 → Seen) (i : Fin 2) :
    Debounces e inp i ↔ ∀ n, GoneFrom inp i n →
      (run e inp n i).enable = 0#1 ∨
        (run e inp n i).timer.toNat < served inp i n (layerTimeout + 1) := by
  constructor
  · intro hlayer n hgone
    exact (disables_iff hgone).1 (hlayer.disables n hgone)
  · intro hcond
    exact
      { enables := fun _ _ hset hv => usable_of_set hset hv
        disables := fun n hgone => (disables_iff hgone).2 (hcond n hgone) }

/-- The first input is selected and stable, and enabled for four iterations. -/
def switchedOff (n : Nat) (_ : Fin 2) : Seen :=
  { output := 2#32
    cvi0 := { control := if n < 4 then 1#32 else 0#32, status := 0x400#32 }
    cvi1 := { control := 0#32, status := 0#32 }
    cvi2 := { control := 0#32, status := 0#32 }
    cvi3 := { control := 0#32, status := 0#32 }
    layerCtrl := 1#8 }

/-- Its layer is never disabled. -/
theorem switched_off_stays : ¬ Debounces (fun _ => 0#1) switchedOff ⟨0, Nat.two_pos⟩ := by
  intro hlayer
  have hgone : GoneFrom switchedOff ⟨0, Nat.two_pos⟩ 4 := by
    intro m hm husable
    apply husable.1
    show ((if m < 4 then 1#32 else 0#32) &&& 0x00000001#32).setWidth 8 = 0#8
    rw [if_neg (by omega)]
    rfl
  have hoff := hlayer.disables 4 hgone 8 (Nat.le_refl 8)
  revert hoff
  decide

end Mfi.MixerLayers
