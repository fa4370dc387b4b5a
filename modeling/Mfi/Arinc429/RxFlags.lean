import Mfi.Arinc429.FlagBits
import Mfi.Arinc429.RxMailbox

/-!
# The new-data flags

In mailbox mode the words 8..15 of the mask/flag RAM should hold one bit for each
label: set by a store, cleared by a host read of the slot. Both updates read a
word, change a bit and write the word back.

The read of `arinc_event` is one cycle short: with `cnt = 7` port B still shows the
mask word of the label, and this word is written over the flag word. The read of
`flag_check` is in time, but it takes its label from the host bus, twice. The
conditions of `FlagsStepOk` say when this does no harm.
-/

namespace Mfi.Arinc429

open Core

/-! ## The reference -/

/-- The labels of the host reads that the controller still has to serve. -/
structure ReadRequests where
  latched : Option Nat
  checking : Option Nat

/-- The requests after one cycle: the waiting state hands the latched one over. -/
def ReadRequests.next (r : ReadRequests) (s : RxController) (i : RxInput) : ReadRequests :=
  if s.state = .waiting ∧ s.buferRdSig = true then ⟨none, r.latched⟩
  else ⟨if i.buferRd then some i.buferAddr else r.latched, r.checking⟩

/-- Whether a slot holds new data after a cycle; `d` says it did before. -/
def storeOrRead (s : RxController) (i : RxInput) (l : Nat) (d : Bool) : Bool :=
  if s.buferWeB = true ∧ s.buferAddrB = l then true
  else if i.buferRd = true ∧ i.buferAddr = l then false
  else d

section Reference

variable (s : RxController) (inp : Nat → RxInput)

/-- Before cycle `n`, some word with the label was stored since the last host read
of its slot. -/
def newData : Nat → Nat → Bool
  | 0, _ => false
  | n + 1, l => storeOrRead (trace RxController.step s inp n) (inp n) l (newData n l)

def readRequests : Nat → ReadRequests
  | 0 => ⟨none, none⟩
  | n + 1 => (readRequests n).next (trace RxController.step s inp n) (inp n)

end Reference

namespace RxController

def flagBit (s : RxController) (l : Nat) : Bool := (s.ramMask.ram (8 + l / 32)).getLsbD (l % 32)

/-- Back in the waiting state, with the flag write finished and no read to serve. -/
def Settled (s : RxController) : Prop :=
  s.state = .waiting ∧ s.flagWe = false ∧ s.buferRdSig = false

end RxController

/-- The flags tell which slots hold new data, and the label mask is left alone. -/
structure FlagsTrack (s : RxController) (inp : Nat → RxInput) : Prop where
  flags : ∀ n, (trace RxController.step s inp n).Settled → ∀ l < 256,
    (trace RxController.step s inp n).flagBit l = newData s inp n l
  /-- Only a host write changes a word of the label mask. -/
  mask : ∀ n, ∀ a < 8, ((inp n).flagMaskWe = true → (inp n).flagMaskAddr ≠ a) →
    (trace RxController.step s inp (n + 1)).ramMask.ram a =
      (trace RxController.step s inp n).ramMask.ram a

/-! ## The condition on a step -/

structure FlagsStepOk (r : ReadRequests) (s : RxController) (i : RxInput) : Prop where
  /-- Host reads go to mailbox slots. -/
  slot : i.buferRd = true → i.buferAddr < 256
  /-- No read strobe for another slot while a request is latched. -/
  oneRequest : i.buferRd = true → s.buferRdSig = true → r.latched = some i.buferAddr
  /-- The bus still shows the slot when `flag_check` takes the group, and the bit. -/
  heldGroup : s.state = .flagCheck → s.cnt = 0 →
    r.checking.map (· / 32) = some (i.buferAddr / 32 % 8)
  heldBit : s.state = .flagCheck → s.cnt = 3 → r.checking.map (· % 32) = some (i.buferAddr % 32)
  /-- The host does not switch the label in the cycles between the two tests. -/
  maskHeld : s.state = .arincEvent → s.cnt = 4 ∨ s.cnt = 5 → i.flagMaskWe = true →
    i.flagMaskAddr = wordLabel i / 32 →
    maskAccepted i.buferData (wordLabel i) = s.labelEnabled (wordLabel i)
  /-- The mask word written back agrees with the flags of the other labels. -/
  group : s.state = .arincEvent → s.cnt = 7 → s.labelPasses i = true →
    ∀ j < 32, j ≠ wordLabel i % 32 →
      s.ramMask.qB.getLsbD j = (s.ramMask.ram (8 + wordLabel i / 32)).getLsbD j
  /-- No word is stored in a slot while a read of this slot waits or arrives. -/
  apart : s.buferWeB = true → r.latched ≠ some s.buferAddrB ∧
    (i.buferRd = true → i.buferAddr ≠ s.buferAddrB)

set_option synthInstance.maxSize 512 in
instance (r : ReadRequests) (s : RxController) (i : RxInput) : Decidable (FlagsStepOk r s i) :=
  decidable_of_iff
    ((i.buferRd = true → i.buferAddr < 256) ∧
      (i.buferRd = true → s.buferRdSig = true → r.latched = some i.buferAddr) ∧
      (s.state = .flagCheck → s.cnt = 0 →
        r.checking.map (· / 32) = some (i.buferAddr / 32 % 8)) ∧
      (s.state = .flagCheck → s.cnt = 3 →
        r.checking.map (· % 32) = some (i.buferAddr % 32)) ∧
      (s.state = .arincEvent → s.cnt = 4 ∨ s.cnt = 5 → i.flagMaskWe = true →
        i.flagMaskAddr = wordLabel i / 32 →
        maskAccepted i.buferData (wordLabel i) = s.labelEnabled (wordLabel i)) ∧
      (s.state = .arincEvent → s.cnt = 7 → s.labelPasses i = true →
        ∀ j < 32, j ≠ wordLabel i % 32 →
          s.ramMask.qB.getLsbD j = (s.ramMask.ram (8 + wordLabel i / 32)).getLsbD j) ∧
      (s.buferWeB = true → r.latched ≠ some s.buferAddrB ∧
        (i.buferRd = true → i.buferAddr ≠ s.buferAddrB)))
    ⟨fun ⟨h1, h2, h3, h4, h5, h6, h7⟩ => ⟨h1, h2, h3, h4, h5, h6, h7⟩,
      fun ⟨h1, h2, h3, h4, h5, h6, h7⟩ => ⟨h1, h2, h3, h4, h5, h6, h7⟩⟩

/-! ## The flag words -/

namespace RxController

variable {s : RxController} {i : RxInput}

/-- The flag of a label once the write on its way is done. -/
def flagLanded (s : RxController) (l : Nat) : Bool :=
  if s.flagWe = true ∧ 8 + l / 32 = s.maskFlagsAddr then
    (flagsDataB s.flagsData).getLsbD (l % 32)
  else s.flagBit l

theorem flagLanded_of_idle (hf : s.flagWe = false) (l : Nat) : s.flagLanded l = s.flagBit l := by
  simp [flagLanded, hf]

theorem step_flagWord (h : Control s) (hhost : i.flagMaskWe = true → i.flagMaskAddr < 8)
    (g : Nat) :
    (s.step i).ramMask.ram (8 + g) =
      if s.flagWe = true ∧ 8 + g = s.maskFlagsAddr then flagsDataB s.flagsData
      else s.ramMask.ram (8 + g) := by
  rw [step_ramMask h]
  by_cases hw : s.flagWe = true ∧ 8 + g = s.maskFlagsAddr
  · rw [if_pos hw, hw.1, hw.2]
    exact DualPortRam.clock_ram_self _ _ _ _ _ _
  · rw [if_neg hw, DualPortRam.clock_ram_of_ne _ _ _ _ _ _ (fun hf haddr => hw ⟨hf, haddr⟩),
      if_neg]
    intro hwrite
    have hlt := hhost hwrite.1
    omega

theorem step_flagBit (h : Control s) (hhost : i.flagMaskWe = true → i.flagMaskAddr < 8)
    (l : Nat) : (s.step i).flagBit l = s.flagLanded l := by
  unfold flagBit flagLanded
  rw [step_flagWord h hhost]
  split <;> rfl

theorem step_flagLanded (h : Control s) (hhost : i.flagMaskWe = true → i.flagMaskAddr < 8)
    (hf : (s.step i).flagWe = false) (l : Nat) : (s.step i).flagLanded l = s.flagLanded l := by
  rw [flagLanded_of_idle hf, step_flagBit h hhost]

/-- The write of `arinc_event` sets the flag of the label stored, if the mask word
agrees with the other flags of the group. -/
theorem flagLanded_event (h : Control s) (hhost : i.flagMaskWe = true → i.flagMaskAddr < 8)
    (hs : s.state = .arincEvent) (hc : s.cnt = 7) (hmail : mailbox i = true)
    (hgroup : s.labelPasses i = true → ∀ j < 32, j ≠ wordLabel i % 32 →
      s.ramMask.qB.getLsbD j = (s.ramMask.ram (8 + wordLabel i / 32)).getLsbD j)
    (haddr : s.maskFlagsAddr = 8 + wordLabel i / 32) (l : Nat) :
    (s.step i).flagLanded l =
      (s.flagLanded l || (s.labelPasses i && decide (wordLabel i = l))) := by
  have hidle := h.not_flagging (by rw [hs]; decide)
  have hold := step_flagBit h hhost l
  have hstep := step_arincEvent (i := i) hs (by omega)
  cases hpass : s.labelPasses i with
  | false =>
      have hf : (s.step i).flagWe = false := by
        rw [hstep]
        simp [hpass]
      rw [step_flagLanded h hhost hf, Bool.false_and, Bool.or_false]
  | true =>
      have hf : (s.step i).flagWe = true := by
        rw [hstep]
        simp [hpass, hc, hmail]
      have haddr' : (s.step i).maskFlagsAddr = 8 + wordLabel i / 32 := by
        rw [hstep]
        simp [hc, haddr]
      unfold flagLanded
      rw [hold, haddr', hf, flagLanded_of_idle hidle, hidle]
      simp only [Bool.false_eq_true, false_and, if_false, true_and, Bool.true_and]
      by_cases hg : 8 + l / 32 = 8 + wordLabel i / 32
      · have hmod := Nat.mod_lt l (show 0 < 32 by decide)
        have hdata : (flagsDataB (s.step i).flagsData).getLsbD (l % 32) =
            (s.ramMask.qB.getLsbD (l % 32) || decide (l % 32 = wordLabel i % 32)) := by
          rw [hstep]
          exact setFlag_getLsbD _ _ hmod
        rw [if_pos hg, hdata]
        by_cases hl : wordLabel i = l
        · simp [hl]
        · have hbit : l % 32 ≠ wordLabel i % 32 := by omega
          rw [hgroup hpass _ hmod hbit, decide_eq_false hbit, decide_eq_false hl, flagBit, hg]
      · have hl : wordLabel i ≠ l := by
          rintro rfl
          exact hg rfl
        rw [if_neg hg, decide_eq_false hl, Bool.or_false]

/-- The write of `flag_check` clears the flag of the slot read. -/
theorem flagLanded_check (h : Control s) (hhost : i.flagMaskWe = true → i.flagMaskAddr < 8)
    (hs : s.state = .flagCheck) (hc : s.cnt = 3) {a : Nat}
    (haddr : s.maskFlagsAddr = 8 + a / 32) (hshown : s.ramMask.qB = s.ramMask.ram (8 + a / 32))
    (hbit : i.buferAddr % 32 = a % 32) (l : Nat) :
    (s.step i).flagLanded l = (s.flagLanded l && decide (l ≠ a)) := by
  have hidle := h.not_flagging (by rw [hs]; decide)
  have hold := step_flagBit h hhost l
  have hstep := step_flagCheck (i := i) hs (by omega)
  have hf : (s.step i).flagWe = true := by
    rw [hstep]
    simp [hc]
  have haddr' : (s.step i).maskFlagsAddr = 8 + a / 32 := by
    rw [hstep]
    simp [hc, haddr]
  unfold flagLanded
  rw [hold, haddr', hf, flagLanded_of_idle hidle, hidle]
  simp only [Bool.false_eq_true, false_and, if_false, true_and]
  by_cases hg : 8 + l / 32 = 8 + a / 32
  · have hdata : (flagsDataB (s.step i).flagsData).getLsbD (l % 32) =
        (s.ramMask.qB.getLsbD (l % 32) && decide (l % 32 ≠ i.buferAddr % 32)) := by
      rw [hstep]
      exact clearFlag_getLsbD _ _ (Nat.mod_lt l (by decide))
    have heq : l % 32 ≠ i.buferAddr % 32 ↔ l ≠ a := by omega
    rw [if_pos hg, hdata, hshown, flagBit, hg]
    simp only [heq]
  · have hl : l ≠ a := by
      rintro rfl
      exact hg rfl
    rw [if_neg hg, decide_eq_true hl, Bool.and_true]

end RxController

/-! ## The mask word during the filing of a word -/

namespace RxController

variable {s : RxController} {i : RxInput}

theorem step_labelEnabled (h : Control s) {l : Nat} (hl : l < 256)
    (hheld : i.flagMaskWe = true → i.flagMaskAddr = l / 32 →
      maskAccepted i.buferData l = s.labelEnabled l) :
    (s.step i).labelEnabled l = s.labelEnabled l := by
  unfold labelEnabled
  rw [step_mask h (by omega)]
  split
  · rename_i hwrite
    exact hheld hwrite.1 hwrite.2.symm
  · rfl

theorem step_labelPasses (h : Control s) (hs : s.state = .arincEvent) {i' : RxInput}
    (hlabel : wordLabel i' = wordLabel i) (haddr : s.maskFlagsAddr = wordLabel i / 32) :
    (s.step i).labelPasses i' = s.labelEnabled (wordLabel i) := by
  unfold labelPasses labelEnabled
  rw [step_qB h (by rw [hs]; decide), haddr, hlabel]

end RxController

/-! ## The invariant -/

def readDue (r : ReadRequests) (s : RxController) (l : Nat) : Bool :=
  r.latched == some l || (decide (s.state = .flagCheck) && r.checking == some l)

/-- The word just stored has its flag still to be set. -/
def storeDue (s : RxController) (i : RxInput) (l : Nat) : Bool :=
  decide (s.state = .arincEvent) && decide (s.cnt = 7) && s.labelPasses i &&
    decide (wordLabel i = l)

/-- What `newData` is, from the registers and the requests. -/
structure FlagsInv (inp : Nat → RxInput) (d : Nat → Bool) (r : ReadRequests) (n : Nat)
    (c : RxController) : Prop where
  pending : PendingWord inp n c
  latched : r.latched.isSome = c.buferRdSig
  latched_lt : ∀ a ∈ r.latched, a < 256
  checking : c.state = .flagCheck → ∃ a < 256, r.checking = some a ∧
    (0 < c.cnt → c.maskFlagsAddr = 8 + a / 32) ∧
    (1 < c.cnt → c.ramMask.qB = c.ramMask.ram (8 + a / 32))
  maskAddr : c.state = .arincEvent → 0 < c.cnt → c.cnt < 7 →
    c.maskFlagsAddr = wordLabel (inp n) / 32
  flagAddr : c.state = .arincEvent → c.cnt = 7 → c.maskFlagsAddr = 8 + wordLabel (inp n) / 32
  shown : c.state = .arincEvent → c.cnt = 5 →
    c.labelPasses (inp n) = c.labelEnabled (wordLabel (inp n))
  stored : c.state = .arincEvent → c.cnt = 6 →
    c.buferWeB = c.labelEnabled (wordLabel (inp n)) ∧
      (c.buferWeB = true → c.buferAddrB = wordLabel (inp n))
  data : ∀ l < 256, d l = (!readDue r c l && (c.flagLanded l || storeDue c (inp n) l))

section Flags

variable {rxconfig : BitVec 8} {inp : Nat → RxInput}

theorem FlagsInv.reset (buffer : Nat → Word) {maskFlags : Nat → Word}
    (hclear : ∀ g < 8, maskFlags (8 + g) = 0) :
    FlagsInv inp (fun _ => false) ⟨none, none⟩ 0 (RxController.reset buffer maskFlags) := by
  refine ⟨PendingWord.reset buffer maskFlags, rfl, by simp, ?_, ?_, ?_, ?_, ?_, ?_⟩
  · intro h
    cases h
  · intro h
    cases h
  · intro h
    cases h
  · intro h
    cases h
  · intro h
    cases h
  · intro l hl
    rw [RxController.flagLanded_of_idle rfl]
    simp [RxController.flagBit, RxController.reset, DualPortRam.init, storeDue,
      hclear (l / 32) (by omega)]

theorem PendingWord.label_stays {n : Nat} {c : RxController} (h : PendingWord inp n c)
    (hmode : MailboxMode rxconfig inp) (hport : WordPort fun n => (inp n).port)
    (hs : c.state = .arincEvent) : wordLabel (inp (n + 1)) = wordLabel (inp n) := by
  obtain ⟨m, hflag, hlo, hhi⟩ := h.event hs
  have hlt := h.control.cnt_lt
  have hgap : wordGap = 16 := rfl
  have hnow := label_kept hmode hport hflag (k := n - m) (by omega)
  have hnext := label_kept hmode hport hflag (k := n + 1 - m) (by omega)
  rw [show m + (n - m) = n by omega] at hnow
  rw [show m + (n + 1 - m) = n + 1 by omega] at hnext
  rw [hnext, hnow]

end Flags

/-! ## The requests -/

section Requests

variable {r : ReadRequests} {s : RxController} {i : RxInput}

theorem one_more_read (due read x : Bool) : (!due && x && !read) = (!(due || read) && x) := by
  cases due <;> cases read <;> cases x <;> rfl

theorem storeOrRead_of_no_store (hw : s.buferWeB = false) (l : Nat) (d : Bool) :
    storeOrRead s i l d = (d && !(i.buferRd && decide (i.buferAddr = l))) := by
  unfold storeOrRead
  cases i.buferRd <;> by_cases ha : i.buferAddr = l <;> simp [hw, ha]

theorem storeOrRead_of_store {a : Nat} (haddr : s.buferWeB = true → s.buferAddrB = a)
    (hapart : s.buferWeB = true → r.latched ≠ some s.buferAddrB ∧
      (i.buferRd = true → i.buferAddr ≠ s.buferAddrB)) (l : Nat) (x : Bool) :
    storeOrRead s i l (!(r.latched == some l) && x) =
      (!(r.latched == some l || (i.buferRd && decide (i.buferAddr = l))) &&
        (x || (s.buferWeB && decide (a = l)))) := by
  cases hw : s.buferWeB with
  | false =>
      rw [storeOrRead_of_no_store hw, one_more_read, Bool.false_and, Bool.or_false]
  | true =>
      obtain ⟨hlatched, hread⟩ := hapart hw
      rw [haddr hw] at hlatched hread
      unfold storeOrRead
      rw [haddr hw]
      by_cases hl : a = l
      · rw [hl] at hlatched hread
        have hno : (i.buferRd && decide (i.buferAddr = l)) = false := by
          cases hrd : i.buferRd with
          | false => rfl
          | true => simp [hread hrd]
        simp [hl, hw, hno, hlatched]
      · cases i.buferRd <;> by_cases ha : i.buferAddr = l <;> simp [hl, ha]

theorem next_handover (hs : s.state = .waiting) (hrd : s.buferRdSig = true) :
    r.next s i = ⟨none, r.latched⟩ := by
  simp [ReadRequests.next, hs, hrd]

theorem next_keep (h : ¬(s.state = .waiting ∧ s.buferRdSig = true)) :
    r.next s i = ⟨if i.buferRd then some i.buferAddr else r.latched, r.checking⟩ := by
  simp only [ReadRequests.next, if_neg h]

theorem next_latched (hl : r.latched.isSome = s.buferRdSig)
    (hone : i.buferRd = true → s.buferRdSig = true → r.latched = some i.buferAddr)
    (h : ¬(s.state = .waiting ∧ s.buferRdSig = true)) (l : Nat) :
    ((r.next s i).latched == some l) =
      (r.latched == some l || (i.buferRd && decide (i.buferAddr = l))) := by
  rw [next_keep h]
  cases hrd : i.buferRd with
  | false => simp
  | true =>
      cases hsig : s.buferRdSig with
      | true =>
          rw [hone hrd hsig]
          simp
      | false =>
          rw [hsig, Option.isSome_eq_false_iff, Option.isNone_iff_eq_none] at hl
          simp [hl, beq_eq_decide]

theorem next_isSome (hc : s.Control) (hmail : mailbox i = true)
    (hl : r.latched.isSome = s.buferRdSig) :
    (r.next s i).latched.isSome = (s.step i).buferRdSig := by
  cases hs : s.state with
  | waiting =>
      rw [RxController.step_waiting hs]
      cases hsig : s.buferRdSig with
      | true =>
          rw [next_handover hs hsig]
          simp [hmail]
      | false =>
          rw [next_keep (by simp [hsig])]
          cases hrd : i.buferRd <;> simp [hmail, hsig, hl, RxController.pops]
  | arincEvent =>
      rw [RxController.step_arincEvent hs hc.cnt_lt, next_keep (by simp [hs])]
      cases hrd : i.buferRd <;> simp [RxController.beforeCase, hrd, hl]
  | flagCheck =>
      rw [RxController.step_flagCheck hs (hc.checking hs), next_keep (by simp [hs])]
      cases hrd : i.buferRd <;> simp [RxController.beforeCase, hrd, hl]

theorem next_lt (hlt : ∀ a ∈ r.latched, a < 256) (hslot : i.buferRd = true → i.buferAddr < 256) :
    ∀ a ∈ (r.next s i).latched, a < 256 := by
  intro a ha
  unfold ReadRequests.next at ha
  split at ha
  · simp at ha
  · dsimp only at ha
    split at ha
    · rename_i hrd
      rw [Option.mem_some_iff] at ha
      rw [← ha]
      exact hslot hrd
    · exact hlt a ha

end Requests

/-! ## Steps -/

section Steps

variable {rxconfig : BitVec 8} {inp : Nat → RxInput} {d : Nat → Bool} {r : ReadRequests} {n : Nat}
  {c : RxController}

theorem storeDue_of_ne {i : RxInput} (h : c.state = .arincEvent → c.cnt ≠ 7) (l : Nat) :
    storeDue c i l = false := by
  unfold storeDue
  by_cases hs : c.state = .arincEvent
  · rw [decide_eq_false (h hs), Bool.and_false]
    rfl
  · rw [decide_eq_false hs]
    rfl

theorem readDue_of_ne (h : c.state ≠ .flagCheck) (l : Nat) :
    readDue r c l = (r.latched == some l) := by
  unfold readDue
  rw [decide_eq_false h, Bool.false_and, Bool.or_false]

theorem FlagsInv.step_waiting (h : FlagsInv inp d r n c) (hmode : MailboxMode rxconfig inp)
    (hport : WordPort fun n => (inp n).port)
    (hhost : (inp n).flagMaskWe = true → (inp n).flagMaskAddr < 8)
    (hok : FlagsStepOk r c (inp n)) (hs : c.state = .waiting) :
    FlagsInv inp (fun l => storeOrRead c (inp n) l (d l)) (r.next c (inp n)) (n + 1)
      (c.step (inp n)) := by
  have hcontrol := h.pending.control
  have hmail := hmode.mailbox n
  have hstep := RxController.step_waiting (i := inp n) hs
  have hf : (c.step (inp n)).flagWe = false := by
    rw [hstep]
    rfl
  have hcnt : (c.step (inp n)).cnt = 0 := by rw [hstep]
  have hw : c.buferWeB = false := hcontrol.not_writing (by simp [hs])
  refine ⟨h.pending.step hport, next_isSome hcontrol hmail h.latched,
    next_lt h.latched_lt hok.slot, ?_, by omega, by omega, by omega, by omega, ?_⟩
  · intro hcheck
    have hsig : c.buferRdSig = true := by
      rw [hstep] at hcheck
      cases hsig : c.buferRdSig with
      | true => rfl
      | false =>
          simp only [hsig, Bool.and_false, Bool.false_eq_true, if_false] at hcheck
          split at hcheck <;> cases hcheck
    have hsome := h.latched
    rw [hsig, Option.isSome_iff_exists] at hsome
    obtain ⟨a, ha⟩ := hsome
    rw [next_handover hs hsig]
    exact ⟨a, h.latched_lt a ha, ha, by omega, by omega⟩
  · intro l hl
    rw [RxController.step_flagLanded hcontrol hhost hf, storeDue_of_ne (by omega),
      storeOrRead_of_no_store hw, h.data l hl, storeDue_of_ne (by simp [hs]),
      readDue_of_ne (by simp [hs])]
    cases hsig : c.buferRdSig with
    | true =>
        have hcheck : (c.step (inp n)).state = .flagCheck := by
          rw [hstep]
          simp [hmail, hsig]
        -- a strobe in this cycle is lost, but it asked for the same slot
        have hlost : (inp n).buferRd = true → r.latched = some (inp n).buferAddr :=
          fun hrd => hok.oneRequest hrd hsig
        rw [next_handover hs hsig]
        unfold readDue
        rw [hcheck]
        cases hrd : (inp n).buferRd with
        | false => simp
        | true => simp +contextual [hlost hrd]
    | false =>
        have hstate : (c.step (inp n)).state ≠ .flagCheck := by
          rw [hstep]
          simp only [hsig, Bool.and_false, Bool.false_eq_true, if_false]
          split <;> decide
        rw [readDue_of_ne hstate, next_latched h.latched hok.oneRequest (by simp [hsig])]
        exact one_more_read _ _ _

theorem event_no_check (hcontrol : c.Control) (hs : c.state = .arincEvent) (i : RxInput) :
    (c.step i).state ≠ .flagCheck := by
  rw [RxController.step_arincEvent hs hcontrol.cnt_lt]
  dsimp only
  split <;> decide

/-- A word that is filed shows in the flags, whether its flag is still due or has landed. -/
theorem FlagsInv.event_data (h : FlagsInv inp d r n c) (hmode : MailboxMode rxconfig inp)
    (hport : WordPort fun n => (inp n).port)
    (hhost : (inp n).flagMaskWe = true → (inp n).flagMaskAddr < 8)
    (hok : FlagsStepOk r c (inp n)) (hs : c.state = .arincEvent) {l : Nat} (hl : l < 256) :
    storeOrRead c (inp n) l (d l) = (!readDue (r.next c (inp n)) (c.step (inp n)) l &&
      ((c.step (inp n)).flagLanded l || storeDue (c.step (inp n)) (inp (n + 1)) l)) := by
  have hcontrol := h.pending.control
  have hlt := hcontrol.cnt_lt
  have hmail := hmode.mailbox n
  have hlabel := h.pending.label_stays hmode hport hs
  have hstep := RxController.step_arincEvent (i := inp n) hs hlt
  have hcnt : (c.step (inp n)).cnt = (c.cnt + 1) % 8 := by rw [hstep]
  have hstate : (c.step (inp n)).state = if c.cnt = 7 then .waiting else .arincEvent := by
    rw [hstep]
  rw [h.data l hl, readDue_of_ne (event_no_check hcontrol hs (inp n)), readDue_of_ne (by simp [hs]),
    next_latched h.latched hok.oneRequest (by simp [hs])]
  by_cases hc7 : c.cnt = 7
  · -- the flag write of the word is issued
    have hw : c.buferWeB = false := hcontrol.not_writing (by omega)
    have hnew : storeDue (c.step (inp n)) (inp (n + 1)) l = false :=
      storeDue_of_ne (by omega) l
    rw [storeOrRead_of_no_store hw, hnew, RxController.flagLanded_event hcontrol hhost hs hc7
      hmail (hok.group hs hc7) (h.flagAddr hs hc7)]
    rw [one_more_read, Bool.or_false]
    simp [storeDue, hs, hc7]
  · have hf : (c.step (inp n)).flagWe = false := by
      rw [hstep]
      simp [hc7]
    rw [RxController.step_flagLanded hcontrol hhost hf, storeDue_of_ne (fun _ => hc7)]
    by_cases hc6 : c.cnt = 6
    · -- the word is stored in this cycle
      obtain ⟨hwe, hwaddr⟩ := h.stored hs hc6
      have hpass := RxController.step_labelPasses hcontrol hs hlabel
        (h.maskAddr hs (by omega) (by omega))
      have hdue : storeDue (c.step (inp n)) (inp (n + 1)) l =
          (c.buferWeB && decide (wordLabel (inp n) = l)) := by
        unfold storeDue
        rw [hpass, hlabel, ← hwe, hcnt, hstate, hc6]
        simp
      rw [hdue, Bool.or_false]
      exact storeOrRead_of_store hwaddr hok.apart l _
    · have hw : c.buferWeB = false := hcontrol.not_writing (fun _ => hc6)
      rw [storeOrRead_of_no_store hw, storeDue_of_ne (by omega)]
      exact one_more_read _ _ _

theorem FlagsInv.step_event (h : FlagsInv inp d r n c) (hmode : MailboxMode rxconfig inp)
    (hport : WordPort fun n => (inp n).port)
    (hhost : (inp n).flagMaskWe = true → (inp n).flagMaskAddr < 8)
    (hok : FlagsStepOk r c (inp n)) (hs : c.state = .arincEvent) :
    FlagsInv inp (fun l => storeOrRead c (inp n) l (d l)) (r.next c (inp n)) (n + 1)
      (c.step (inp n)) := by
  have hcontrol := h.pending.control
  have hlt := hcontrol.cnt_lt
  have hmail := hmode.mailbox n
  have hlabel := h.pending.label_stays hmode hport hs
  have hl256 := wordLabel_lt (inp n)
  have hstep := RxController.step_arincEvent (i := inp n) hs hlt
  have hcnt : (c.step (inp n)).cnt = (c.cnt + 1) % 8 := by rw [hstep]
  have hstate : (c.step (inp n)).state = if c.cnt = 7 then .waiting else .arincEvent := by
    rw [hstep]
  have hnocheck := event_no_check hcontrol hs (inp n)
  have haddr : (c.step (inp n)).maskFlagsAddr =
      if c.cnt = 0 then wordLabel (inp n) / 32
      else if c.cnt = 6 then 8 + wordLabel (inp n) / 32 else c.maskFlagsAddr := by rw [hstep]
  refine ⟨h.pending.step hport, next_isSome hcontrol hmail h.latched,
    next_lt h.latched_lt hok.slot, fun hcheck => absurd hcheck hnocheck, ?_, ?_, ?_, ?_, ?_⟩
  · intro hev h0 h7
    rw [haddr, hlabel]
    by_cases hc0 : c.cnt = 0
    · rw [if_pos hc0]
    · rw [if_neg hc0, if_neg (by omega)]
      exact h.maskAddr hs (by omega) (by omega)
  · intro hev h7
    rw [haddr, hlabel, if_neg (by omega), if_pos (by omega)]
  · intro hev h5
    rw [hlabel, RxController.step_labelPasses hcontrol hs hlabel
      (h.maskAddr hs (by omega) (by omega))]
    exact (RxController.step_labelEnabled hcontrol hl256
      (hok.maskHeld hs (Or.inl (by omega)))).symm
  · intro hev h6
    have h5 : c.cnt = 5 := by omega
    have hwe : (c.step (inp n)).buferWeB = c.labelPasses (inp n) := by
      rw [hstep]
      exact RxController.accepts_eq_labelPasses hs h5
    rw [hlabel, hwe, RxController.step_labelEnabled hcontrol hl256 (hok.maskHeld hs (Or.inr h5))]
    refine ⟨h.shown hs h5, fun hpass => ?_⟩
    rw [hstep]
    dsimp only
    rw [if_pos (by rw [RxController.accepts_eq_labelPasses hs h5, hpass]), if_pos hmail]
  · exact fun l hl => h.event_data hmode hport hhost hok hs hl

theorem FlagsInv.step_check (h : FlagsInv inp d r n c) (hmode : MailboxMode rxconfig inp)
    (hport : WordPort fun n => (inp n).port)
    (hhost : (inp n).flagMaskWe = true → (inp n).flagMaskAddr < 8)
    (hok : FlagsStepOk r c (inp n)) (hs : c.state = .flagCheck) :
    FlagsInv inp (fun l => storeOrRead c (inp n) l (d l)) (r.next c (inp n)) (n + 1)
      (c.step (inp n)) := by
  have hcontrol := h.pending.control
  have hlt := hcontrol.checking hs
  have hmail := hmode.mailbox n
  obtain ⟨a, ha, hchecking, haddr, hshown⟩ := h.checking hs
  have hstep := RxController.step_flagCheck (i := inp n) hs hlt
  have hcnt : (c.step (inp n)).cnt = c.cnt + 1 := by rw [hstep]
  have hstate : (c.step (inp n)).state = if c.cnt = 3 then .waiting else .flagCheck := by
    rw [hstep]
  have hnoevent : (c.step (inp n)).state ≠ .arincEvent := by
    rw [hstate]
    split <;> decide
  have hidle := hcontrol.not_flagging (by rw [hs]; decide)
  have hw : c.buferWeB = false := hcontrol.not_writing (by simp [hs])
  have hnext := next_keep (r := r) (i := inp n) (s := c) (by simp [hs])
  refine ⟨h.pending.step hport, next_isSome hcontrol hmail h.latched,
    next_lt h.latched_lt hok.slot, ?_, fun hev => absurd hev hnoevent,
    fun hev => absurd hev hnoevent, fun hev => absurd hev hnoevent,
    fun hev => absurd hev hnoevent, ?_⟩
  · intro hcheck
    refine ⟨a, ha, by rw [hnext]; exact hchecking, fun _ => ?_, fun h1 => ?_⟩
    · rw [hstep]
      dsimp only
      by_cases hc0 : c.cnt = 0
      · have hgroup := hok.heldGroup hs hc0
        rw [hchecking, Option.map_some, Option.some_inj] at hgroup
        rw [if_pos hc0, hgroup]
      · rw [if_neg hc0, haddr (by omega)]
    · rw [RxController.step_qB hcontrol (by rw [hs]; decide), haddr (by omega),
        RxController.step_flagWord hcontrol hhost, if_neg (by simp [hidle])]
  · intro l hl
    rw [storeOrRead_of_no_store hw, h.data l hl, storeDue_of_ne (by simp [hs]),
      storeDue_of_ne (fun hev => absurd hev hnoevent)]
    unfold readDue
    rw [next_latched h.latched hok.oneRequest (by simp [hs]), hstate, hs, hnext]
    by_cases hc3 : c.cnt = 3
    · have hbit := hok.heldBit hs hc3
      rw [hchecking, Option.map_some, Option.some_inj] at hbit
      rw [if_pos hc3, RxController.flagLanded_check hcontrol hhost hs hc3 (haddr (by omega))
        (hshown (by omega)) hbit.symm, hchecking]
      have hkeep : decide (l ≠ a) = !(some a == some l) := by
        simp [beq_eq_decide, eq_comm]
      rw [hkeep, one_more_read]
      cases r.latched == some l <;> cases some a == some l <;> simp
    · have hf : (c.step (inp n)).flagWe = false := by
        rw [hstep]
        simp [hc3]
      rw [if_neg hc3, RxController.step_flagLanded hcontrol hhost hf, one_more_read,
        Bool.or_right_comm]

end Steps

/-! ## The run -/

section Run

variable {rxconfig : BitVec 8} {inp : Nat → RxInput}

theorem FlagsInv.step {s : RxController} {n : Nat}
    (h : FlagsInv inp (newData s inp n) (readRequests s inp n) n (trace RxController.step s inp n))
    (hmode : MailboxMode rxconfig inp) (hport : WordPort fun n => (inp n).port)
    (hhost : ∀ n, (inp n).flagMaskWe = true → (inp n).flagMaskAddr < 8)
    (hok : FlagsStepOk (readRequests s inp n) (trace RxController.step s inp n) (inp n)) :
    FlagsInv inp (newData s inp (n + 1)) (readRequests s inp (n + 1)) (n + 1)
      (trace RxController.step s inp (n + 1)) := by
  cases hs : (trace RxController.step s inp n).state with
  | waiting => exact h.step_waiting hmode hport (hhost n) hok hs
  | arincEvent => exact h.step_event hmode hport (hhost n) hok hs
  | flagCheck => exact h.step_check hmode hport (hhost n) hok hs

/-- In mailbox mode, with all flags clear at the start, the flags follow the stores
and the reads on every run whose steps meet `FlagsStepOk`. -/
theorem flags_track (buffer : Nat → Word) {maskFlags : Nat → Word}
    (hclear : ∀ g < 8, maskFlags (8 + g) = 0) (hmode : MailboxMode rxconfig inp)
    (hport : WordPort fun n => (inp n).port)
    (hhost : ∀ n, (inp n).flagMaskWe = true → (inp n).flagMaskAddr < 8)
    (hok : ∀ n, FlagsStepOk (readRequests (.reset buffer maskFlags) inp n)
      (trace RxController.step (.reset buffer maskFlags) inp n) (inp n)) :
    FlagsTrack (.reset buffer maskFlags) inp := by
  have hinv : ∀ n, FlagsInv inp (newData (.reset buffer maskFlags) inp n)
      (readRequests (.reset buffer maskFlags) inp n) n
      (trace RxController.step (.reset buffer maskFlags) inp n) := by
    intro n
    exact trace_invariant (fun n c => FlagsInv inp (newData (.reset buffer maskFlags) inp n)
      (readRequests (.reset buffer maskFlags) inp n) n c) (FlagsInv.reset buffer hclear)
      (fun n h => h.step hmode hport hhost (hok n)) n
  constructor
  · intro n hsettled l hl
    obtain ⟨hs, hf, hrd⟩ := hsettled
    have hlatched := (hinv n).latched
    rw [hrd, Option.isSome_eq_false_iff, Option.isNone_iff_eq_none] at hlatched
    rw [(hinv n).data l hl, storeDue_of_ne (by simp [hs]), readDue_of_ne (by simp [hs]), hlatched,
      RxController.flagLanded_of_idle hf]
    simp
  · intro n a ha hno
    rw [trace_succ, RxController.step_mask (hinv n).pending.control ha]
    exact if_neg fun hwrite => hno hwrite.1 hwrite.2.symm

end Run

/-! ## Two runs -/

def allEnabled (a : Nat) : Word := if a < 8 then BitVec.allOnes 32 else 0

def zeroEnabled (a : Nat) : Word := if a = 0 then 1 else 0

/-- One word of label 0 raises the flag of label 1, for which nothing was stored. -/
theorem word_flags_other_labels :
    (∀ g < 8, allEnabled (8 + g) = 0) ∧ MailboxMode 0x47#8 (wordAndRead 0x47#8 5 40) ∧
      (WordPort fun n => (wordAndRead 0x47#8 5 40 n).port) ∧
      ¬ FlagsTrack (.reset (fun _ => 0) allEnabled) (wordAndRead 0x47#8 5 40) := by
  refine ⟨by decide, wordAndRead_mailbox 5 40, wordAndRead_port 0x47#8 5 40, fun h => ?_⟩
  have hsettled : (trace RxController.step (.reset (fun _ => 0) allEnabled)
      (wordAndRead 0x47#8 5 40) 30).Settled := by
    unfold RxController.Settled
    decide
  have hflag := h.flags 30 hsettled 1 (by decide)
  revert hflag
  decide

theorem RxController.Quiet.flagsStepOk {s : RxController} {i : RxInput} (h : s.Quiet)
    (hr : i.buferRd = false) (r : ReadRequests) : FlagsStepOk r s i := by
  obtain ⟨hs, _, _, hw⟩ := h
  constructor <;> simp [hs, hr, hw]

/-- With label 0 alone enabled no other flag can be touched. -/
theorem only_label_zero_ok (n : Nat) :
    FlagsStepOk (readRequests (.reset (fun _ => 0) zeroEnabled) (wordAndRead 0x47#8 5 20) n)
      (trace RxController.step (.reset (fun _ => 0) zeroEnabled) (wordAndRead 0x47#8 5 20) n)
      (wordAndRead 0x47#8 5 20 n) := by
  by_cases hn : n < 30
  · have hall : ∀ k < 30,
        FlagsStepOk (readRequests (.reset (fun _ => 0) zeroEnabled) (wordAndRead 0x47#8 5 20) k)
          (trace RxController.step (.reset (fun _ => 0) zeroEnabled) (wordAndRead 0x47#8 5 20) k)
          (wordAndRead 0x47#8 5 20 k) := by decide
    exact hall n hn
  · have hquiet : (trace RxController.step (.reset (fun _ => 0) zeroEnabled)
        (wordAndRead 0x47#8 5 20) 30).Quiet := by
      unfold RxController.Quiet
      decide
    refine (quiet_after_last 0x47#8 hquiet (by decide) (by decide) n (by omega)).flagsStepOk ?_ _
    simp only [wordAndRead, beq_eq_false_iff_ne]
    omega

theorem flags_track_only_label_zero :
    FlagsTrack (.reset (fun _ => 0) zeroEnabled) (wordAndRead 0x47#8 5 20) :=
  flags_track (fun _ => 0) (by decide) (wordAndRead_mailbox 5 20)
    (wordAndRead_port 0x47#8 5 20) (fun _ h => absurd h Bool.false_ne_true) only_label_zero_ok

end Mfi.Arinc429
