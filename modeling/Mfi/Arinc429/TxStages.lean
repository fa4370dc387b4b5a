import Mfi.Arinc429.TxController
import Mfi.Arinc429.TxFrame

/-!
# The stages of a transmission

The controller and the serialiser together go round a cycle of stages: a word is
waited for, read from the FIFO, handed over, sent, and its completion noticed. The
registers of each stage are given by `InStage`, and `InStage.step` is one cycle.
-/

namespace Mfi.Arinc429

inductive TxStage where
  | boot
  | ready
  | armed
  | popping
  | loading (w : Word)
  | valid (w : Word)
  | sending (v : Word) (x : Nat)
  | completing (k : Nat)

namespace TxStage

/-- The word that was read from the FIFO and is not yet taken over. -/
def held : TxStage → List Word
  | loading w => [w]
  | valid w => [w]
  | _ => []

def Serialiser (D : Nat) : TxStage → Arinc429Tx → Prop
  | boot, s => s = .reset 0
  | sending v x, s => s.Sending D v x
  | completing k, s => s.Completing D k
  | _, s => s.Idle D

def ReadySeen : TxStage → Bool → Prop
  | ready, b => b = false
  | armed, b => b = true
  | popping, b => b = true
  | loading _, b => b = true
  | valid _, b => b = true
  | _, _ => True

def ReadSide : TxStage → DcFifo → Prop
  | popping, f => f.empty = false
  | loading w, f => f.q = w
  | valid w, f => f.q = w
  | _, _ => True

def isPopping : TxStage → Bool
  | popping => true
  | _ => false

def isLoading : TxStage → Bool
  | loading _ => true
  | _ => false

def isValid : TxStage → Bool
  | valid _ => true
  | _ => false

def isArmed : TxStage → Bool
  | armed => true
  | _ => false

def next (D : Nat) (c : TxController) (i : TxInput) : TxStage → TxStage
  | boot => ready
  | ready => armed
  | armed => if c.fifo.empty then armed else popping
  | popping => loading (c.fifo.visible.headD c.fifo.q)
  | loading w => valid w
  | valid w => sending (TxController.wordToTrancieve i.txconfig w) (c.tx.entryPosition D)
  | sending v x => if x + 1 < 36 * (4 * D) then sending v (x + 1) else completing 0
  | completing k => if k < 3 then completing (k + 1) else ready

end TxStage

structure InStage (D : Nat) (p : TxStage) (c : TxController) : Prop where
  tx : p.Serialiser D c.tx
  wrEn : c.wrEn = p.isPopping
  rdreq : c.rdreq = p.isPopping
  rdreqSig : p.isPopping = true → c.rdreqSig = false
  wrEnSig0 : c.wrEnSig0 = p.isLoading
  wrEnSig1 : c.wrEnSig1 = p.isValid
  fifoWrSig : c.fifoWrSig = p.isArmed
  readySeen : p.ReadySeen (c.trReadySig.getLsbD 0)
  readSide : p.ReadSide c.fifo

variable {D f : Nat} {p : TxStage} {c : TxController} {i : TxInput}

theorem InStage.reset : InStage D .boot TxController.reset := by
  refine ⟨rfl, rfl, rfl, ?_, rfl, rfl, rfl, trivial, trivial⟩
  intro h
  cases h

theorem InStage.sinkTxReady (h : InStage D p c) :
    c.tx.sinkTxReady = match p with
      | .boot => false
      | .sending _ _ => false
      | .completing _ => false
      | _ => true := by
  have htx := h.tx
  have hidle : c.tx.Idle D → c.tx.sinkTxReady = true := by
    intro hi
    have hpos := hi.running.cnt_lt
    have hne : D ≠ 0 := by omega
    simp [Arinc429Tx.sinkTxReady, hi.state, hi.running.devider, hne]
  cases p with
  | boot =>
      rw [show c.tx = .reset 0 from htx]
      rfl
  | ready => exact hidle htx
  | armed => exact hidle htx
  | popping => exact hidle htx
  | loading w => exact hidle htx
  | valid w => exact hidle htx
  | sending v x => simp [Arinc429Tx.sinkTxReady, Arinc429Tx.Sending.state htx]
  | completing k =>
      have hstate : c.tx.stateAvlTx ≠ .idle := by
        rw [Arinc429Tx.Completing.state htx]
        rcases k with _ | _ | _ | k <;> simp [Arinc429Tx.completing]
      simp [Arinc429Tx.sinkTxReady, hstate]

theorem InStage.not_newly_ready (h : InStage D p c) (hp : p ≠ .ready) :
    (c.tx.sinkTxReady && !c.trReadySig.getLsbD 0) = false := by
  rw [h.sinkTxReady]
  have hsig := h.readySeen
  cases p with
  | ready => exact absurd rfl hp
  | boot => rfl
  | sending v x => rfl
  | completing k => rfl
  | armed => rw [show c.trReadySig.getLsbD 0 = true from hsig]; rfl
  | popping => rw [show c.trReadySig.getLsbD 0 = true from hsig]; rfl
  | loading w => rw [show c.trReadySig.getLsbD 0 = true from hsig]; rfl
  | valid w => rw [show c.trReadySig.getLsbD 0 = true from hsig]; rfl

theorem step_trReadySig : (c.step f i).trReadySig.getLsbD 0 = c.tx.sinkTxReady := by
  simp only [TxController.step]
  rw [BitVec.getLsbD_append]
  simp

theorem step_fifoWrSig : (c.step f i).fifoWrSig =
    if c.pops then false
    else if c.tx.sinkTxReady && !c.trReadySig.getLsbD 0 then true
    else if c.trReadySig = 0#8 then false
    else c.fifoWrSig := rfl

theorem InStage.pops (h : InStage D p c) : c.pops = (p.isArmed && !c.fifo.empty) := by
  unfold TxController.pops
  rw [h.fifoWrSig, Bool.and_comm]

theorem InStage.enter (h : InStage D p c) (harmed : p.isArmed = false)
    (hseen : (c.tx.sinkTxReady && !c.trReadySig.getLsbD 0) = false) {q : TxStage}
    (hpop : q.isPopping = false) (harm : q.isArmed = false) (hload : q.isLoading = p.isPopping)
    (hvalid : q.isValid = p.isLoading) (htx : q.Serialiser D (c.step f i).tx)
    (hready : q.ReadySeen c.tx.sinkTxReady) (hread : q.ReadSide (c.step f i).fifo) :
    InStage D q (c.step f i) := by
  have hpops : c.pops = false := by
    rw [h.pops, harmed]
    rfl
  refine ⟨htx, ?_, ?_, ?_, ?_, ?_, ?_, ?_, hread⟩
  · rw [hpop]
    exact hpops
  · rw [hpop]
    exact hpops
  · intro hq
    rw [hpop] at hq
    cases hq
  · rw [hload]
    exact h.wrEn
  · rw [hvalid]
    exact h.wrEnSig0
  · have hwr := h.fifoWrSig
    rw [harmed] at hwr
    rw [step_fifoWrSig, hpops, hseen, hwr, harm]
    simp
  · rw [step_trReadySig]
    exact hready

theorem step_q_kept (h : c.rdreq = false) : (c.step f i).fifo.q = c.fifo.q := by
  apply DcFifo.step_q_of_not_takes
  simp [DcFifo.takes, h]

theorem InStage.ready_step (h : InStage D .ready c) (hi : txDevider f (c.port i).speed = D) :
    InStage D .armed (c.step f i) := by
  have hpops : c.pops = false := by rw [h.pops]; rfl
  have hseen : c.trReadySig.getLsbD 0 = false := h.readySeen
  have hvalid : (c.port i).sinkTxValid = false := h.wrEnSig1
  refine ⟨Arinc429Tx.Idle.wait h.tx hi hvalid, hpops, hpops, ?_, h.wrEn, h.wrEnSig0, ?_, ?_,
    trivial⟩
  · intro hq
    cases hq
  · rw [step_fifoWrSig, hpops, hseen, h.sinkTxReady]
    rfl
  · rw [step_trReadySig, h.sinkTxReady]
    rfl

theorem InStage.armed_step (h : InStage D .armed c) (hi : txDevider f (c.port i).speed = D) :
    InStage D (if c.fifo.empty then .armed else .popping) (c.step f i) := by
  have hseen : c.trReadySig.getLsbD 0 = true := h.readySeen
  have hvalid : (c.port i).sinkTxValid = false := h.wrEnSig1
  have hrdreq : c.rdreq = false := h.rdreq
  have hpops : c.pops = !c.fifo.empty := by
    rw [h.pops]
    simp [TxStage.isArmed]
  have hnonzero : c.trReadySig ≠ 0#8 := by
    intro hzero
    rw [hzero] at hseen
    cases hseen
  have htx := Arinc429Tx.Idle.wait h.tx hi hvalid
  cases hempty : c.fifo.empty with
  | true =>
      rw [hempty] at hpops
      refine ⟨htx, hpops, hpops, ?_, h.wrEn, h.wrEnSig0, ?_, ?_, trivial⟩
      · intro hq
        cases hq
      · have hwr : c.fifoWrSig = true := h.fifoWrSig
        rw [step_fifoWrSig, hpops, hseen, hwr, if_neg hnonzero]
        simp [TxStage.isArmed]
      · rw [step_trReadySig, h.sinkTxReady]
        rfl
  | false =>
      rw [hempty] at hpops
      refine ⟨htx, hpops, hpops, fun _ => hrdreq, h.wrEn, h.wrEnSig0, ?_, ?_, ?_⟩
      · rw [step_fifoWrSig, hpops]
        rfl
      · rw [step_trReadySig, h.sinkTxReady]
        rfl
      · have htakes : c.fifo.takes (c.rdreq && !c.rdreqSig) = false := by
          simp [DcFifo.takes, hrdreq]
        simp only [DcFifo.empty, List.isEmpty_eq_false_iff] at hempty
        simp [TxStage.ReadSide, TxController.step, DcFifo.empty, DcFifo.step, htakes, hempty]

theorem InStage.step (hD : 0 < D) (hfits : D ≤ 65536) (h : InStage D p c)
    (hi : txDevider f (c.port i).speed = D) :
    InStage D (p.next D c i) (c.step f i) := by
  have hready := h.sinkTxReady
  have hseen := h.not_newly_ready
  cases p with
  | boot =>
      refine h.enter rfl (hseen (by simp)) rfl rfl rfl rfl ?_ hready trivial
      have hboot : c.tx.step f (c.port i) = .reset D := by
        rw [show c.tx = .reset 0 from h.tx]
        simp [Arinc429Tx.step, Arinc429Tx.reset, hi]
      change (c.tx.step f (c.port i)).Idle D
      rw [hboot]
      exact .reset hD hfits
  | ready => exact h.ready_step hi
  | armed => exact h.armed_step hi
  | popping =>
      refine h.enter rfl (hseen (by simp)) rfl rfl rfl rfl
        (Arinc429Tx.Idle.wait h.tx hi h.wrEnSig1) hready ?_
      have htakes : c.fifo.takes (c.rdreq && !c.rdreqSig) = true := by
        rw [h.rdreq, h.rdreqSig rfl, DcFifo.takes, show c.fifo.empty = false from h.readSide]
        rfl
      change (c.fifo.step i.buferData i.buferWr (c.rdreq && !c.rdreqSig) i.fifoDelay).q = _
      simp only [DcFifo.step, htakes, if_true]
  | loading w =>
      refine h.enter rfl (hseen (by simp)) rfl rfl rfl rfl
        (Arinc429Tx.Idle.wait h.tx hi h.wrEnSig1) hready ?_
      exact (step_q_kept h.rdreq).trans h.readSide
  | valid w =>
      refine h.enter rfl (hseen (by simp)) rfl rfl rfl rfl ?_ trivial trivial
      have hsend := Arinc429Tx.Idle.send h.tx hi h.wrEnSig1
      have hq : c.fifo.q = w := h.readSide
      rw [← hq]
      exact hsend
  | sending v x =>
      have hnext := Arinc429Tx.Sending.next h.tx hi
      simp only [TxStage.next]
      split
      · refine h.enter rfl (hseen (by simp)) rfl rfl rfl rfl ?_ trivial trivial
        rcases hnext with ⟨_, hs⟩ | ⟨hx, _⟩
        · exact hs
        · omega
      · refine h.enter rfl (hseen (by simp)) rfl rfl rfl rfl ?_ trivial trivial
        rcases hnext with ⟨hx, _⟩ | ⟨_, hcompl⟩
        · omega
        · exact hcompl
  | completing k =>
      simp only [TxStage.next]
      split
      · rename_i hk
        exact h.enter rfl (hseen (by simp)) rfl rfl rfl rfl
          (Arinc429Tx.Completing.next h.tx hi hk) trivial trivial
      · rename_i hk
        have hlast := Arinc429Tx.Completing.last h.tx
        have hk3 : k = 3 := by omega
        subst hk3
        exact h.enter rfl (hseen (by simp)) rfl rfl rfl rfl
          (Arinc429Tx.Completing.idle h.tx hi) hready trivial

end Mfi.Arinc429
