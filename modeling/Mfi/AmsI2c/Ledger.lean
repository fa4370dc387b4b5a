import Mathlib.Data.List.Forall2
import Mfi.AmsI2c.Progress

/-!
# The account of a run

Beside the registers goes an account of what the ports have shown: the commands taken up,
the symbols on the bus and the bytes returned. In every cycle the account is settled up to
the command in progress, and the transaction of that command is as far as its phase says.
-/

namespace Mfi.AmsI2c

open Core

/-! ## The account -/

def Port.response (p : Port) : Option (BitVec 8) :=
  if p.amsReaddatavalid then some p.amsReaddata else none

structure Account where
  pending : Option (Bool × Bool)
  commands : List Command
  symbols : List Symbol
  responses : List (BitVec 8)

namespace Account

def init : Account := ⟨none, [], [], []⟩

/-- What the cycle from `s` to `s'` adds. -/
def step (a : Account) (s s' : BridgeRegs) (i : BridgeInput) : Account where
  pending := nextPending a.pending s s' i.sdaReleased
  commands := a.commands ++ (s.port.takes s.i2cBusyLatch i).toList
  symbols := a.symbols ++ (busSymbol a.pending s s').toList
  responses := a.responses ++ s'.port.response.toList

end Account

def account (i2cClockTime : BitVec 32) (i2cWait : Bool) (inp : Nat → BridgeInput) : Nat → Account
  | 0 => .init
  | n + 1 =>
      (account i2cClockTime i2cWait inp n).step (bridgeRun i2cClockTime i2cWait inp n)
        (bridgeRun i2cClockTime i2cWait inp (n + 1)) (inp n)

/-! ## Settled commands -/

structure Outcome where
  symbols : List Symbol
  response : Option (BitVec 8)

/-- The command gave one transaction. A read is answered, with the byte of the slave if bit 8
of the address is clear, and with zeros in its place after a refusal. -/
structure Served (c : Command) (t : Outcome) : Prop where
  transaction : ∃ r, Transaction c t.symbols r ∧
    (c.isRead = true → c.address.getLsbD 8 = false → t.response = some (r.getD 0))
  answered : t.response.isSome = c.isRead

/-- The symbols and the responses are those of the commands, in order. -/
def Settled (cs : List Command) (symbols : List Symbol) (responses : List (BitVec 8)) : Prop :=
  ∃ log, List.Forall₂ Served cs log ∧ symbols = (log.map Outcome.symbols).flatten ∧
    responses = log.filterMap Outcome.response

theorem settled_nil : Settled [] [] [] := ⟨[], .nil, rfl, rfl⟩

theorem Settled.snoc {cs : List Command} {symbols : List Symbol} {responses : List (BitVec 8)}
    {c : Command} {t : Outcome} (h : Settled cs symbols responses) (ht : Served c t) :
    Settled (cs ++ [c]) (symbols ++ t.symbols) (responses ++ t.response.toList) := by
  obtain ⟨log, hserved, hsymbols, hresponses⟩ := h
  refine ⟨log ++ [t], List.rel_append hserved (.cons ht .nil), ?_, ?_⟩
  · rw [hsymbols, List.map_append, List.flatten_append]
    simp
  · rw [hresponses, List.filterMap_append]
    cases hr : t.response with
    | none => simp [hr]
    | some b => simp [hr]

/-! ## Responses -/

namespace Port

variable {p : Port} {i : BridgeInput} {dev reg : Bool} {byte : BitVec 8} {c : Command}

def Clear (p : Port) : Prop :=
  p.amsState = .read ∨ p.amsState = .reset → p.amsReaddatavalid = false

theorem Clear.step (h : p.Clear) (i2cBusyLatch : Bool) :
    (p.step i i2cBusyLatch dev reg byte).Clear ∧
    (p.amsState ≠ .read ∨ i2cBusyLatch = true →
      (p.step i i2cBusyLatch dev reg byte).response = none) := by
  unfold Clear response at *
  cases hs : p.amsState with
  | idle =>
      unfold Port.step
      rw [hs]
      cases i2cBusyLatch <;> cases i.amsWrite <;> cases i.amsRead <;> simp
  | wait =>
      unfold Port.step
      rw [hs]
      cases i2cBusyLatch <;> simp
  | write =>
      unfold Port.step
      rw [hs]
      simp
  | read =>
      unfold Port.step
      rw [hs]
      have hlow := h (.inl hs)
      cases i2cBusyLatch <;> simp [hlow]
  | reset =>
      unfold Port.step
      rw [hs]
      have hlow := h (.inr hs)
      simp [hlow]

theorem Serves.response_done (h : p.Serves c) (hclear : p.Clear) :
    ((p.step i false dev reg byte).response.isSome = c.isRead) ∧
    (c.isRead = true → c.address.getLsbD 8 = false →
      (p.step i false dev reg byte).response = some byte) := by
  cases hc : c.isRead with
  | true =>
      have hs : p.amsState = .read := by
        rw [h.state, hc]
        rfl
      unfold response
      rw [(step_returns hs rfl).1, (step_returns hs rfl).2, if_pos rfl, h.address]
      refine ⟨rfl, fun _ hbit => ?_⟩
      rw [hbit, if_neg Bool.false_ne_true]
  | false =>
      have hs : p.amsState ≠ .read := by
        rw [h.state, hc]
        decide
      rw [(hclear.step false).2 (.inl hs)]
      exact ⟨rfl, nofun⟩

end Port

/-! ## The phases of a command -/

namespace BridgeRegs

variable {i2cClockTime : BitVec 32} {s : BridgeRegs} {i : BridgeInput} {c : Command}

inductive Moving (s : BridgeRegs) (c : Command) : Prop where
  | begun (h : s.Begun c)
  | opening (h : s.Opening c)
  | running (h : s.Running c)

theorem Moving.step (h : s.Moving c) :
    (s.step i2cClockTime i).Moving c ∨ (s.step i2cClockTime i).Closing c := by
  cases h with
  | begun h =>
      rcases h.step (i := i) with hnext | hnext
      · exact .inl (.begun hnext)
      · exact .inl (.opening hnext)
  | opening h =>
      rcases h.step (i := i) with hnext | hnext
      · exact .inl (.opening hnext)
      · exact .inl (.running hnext)
  | running h =>
      rcases h.step (i := i) with hnext | hnext
      · exact .inl (.running hnext)
      · exact .inr hnext

theorem Moving.port (h : s.Moving c) : s.port.Requests c ∨ s.port.Serves c := by
  cases h with
  | begun h => exact .inl h.port
  | opening h =>
      rcases h.port with hreq | ⟨hserves, _⟩
      · exact .inl hreq
      · exact .inr hserves
  | running h => exact .inr h.port

/-- While the transaction is on the bus, the port neither takes up a command nor returns. -/
theorem Moving.silent (h : s.Moving c) :
    s.port.takes s.i2cBusyLatch i = none ∧ (s.port.amsState ≠ .read ∨ s.i2cBusyLatch = true) := by
  cases h with
  | begun h => exact ⟨h.port.takes_none _, .inl (by rw [h.port.state]; decide)⟩
  | opening h =>
      rcases h.port with hreq | ⟨hserves, hlatch⟩
      · exact ⟨hreq.takes_none _, .inl (by rw [hreq.state]; decide)⟩
      · exact ⟨hserves.takes_none _, .inr hlatch⟩
  | running h => exact ⟨h.port.takes_none _, .inr h.busy.2⟩

/-- A cycle adds the symbols `new` of whole periods: none, or those of the period that ends. -/
inductive Adds (i2cClockTime : BitVec 32) (s s' : BridgeRegs) (new : List Symbol) : Prop where
  | inside (hf : s.falls i2cClockTime = false) (hmaster : s'.master = s.master)
      (hnew : new = []) : Adds i2cClockTime s s' new
  | ending (hf : s.falls i2cClockTime = true) (u : Bool)
      (hmaster : s'.master = s.master.step s'.port.i2cAddress s'.port.i2cWritedata
        s.samples.i2cWriteLatch s.samples.i2cReadLatch (s.master.levelLow && u) false)
      (hnew : new = s.master.periodSymbols u) : Adds i2cClockTime s s' new

theorem adds_step (i2cClockTime : BitVec 32) {pending : Option (Bool × Bool)} {e : List Symbol}
    (h : Wave s pending e) (hreleased : i.sclReleased = true) :
    ∃ e' new, e ++ (busSymbol pending s (s.step i2cClockTime i)).toList = new ++ e' ∧
      Wave (s.step i2cClockTime i)
        (nextPending pending s (s.step i2cClockTime i) i.sdaReleased) e' ∧
      Adds i2cClockTime s (s.step i2cClockTime i) new := by
  cases hf : s.falls i2cClockTime with
  | false =>
      exact ⟨_, [], rfl, wave_inside h hreleased hf, .inside hf (master_quiet hf) rfl⟩
  | true =>
      obtain ⟨u, hmaster, hsymbols, hwave⟩ := wave_end (i := i) h hf
      exact ⟨[], _, by rw [hsymbols, List.append_nil], hwave, .ending hf u hmaster rfl⟩

theorem Adds.waits {s' : BridgeRegs} {new : List Symbol} (h : Adds i2cClockTime s s' new)
    (hw : s.master.i2cState = .idle ∨ s.master.i2cState = .reset) : new = [] := by
  cases h with
  | inside hf hmaster hnew => exact hnew
  | ending hf u hmaster hnew =>
      rw [hnew]
      unfold Master.periodSymbols Master.condition Master.pulls
      rcases hw with hs | hs <;> rw [hs] <;> rfl

inductive Phase (s : BridgeRegs) : Option Command → List Symbol → Prop where
  | rest (h : s.Rest) : Phase s none []
  | asked {c : Command} (h : s.Asked c) : Phase s (some c) []
  | moving {c : Command} {l : List Symbol} (h : s.Moving c) (hl : Progress c s.master l) :
      Phase s (some c) l
  | closing {c : Command} {l : List Symbol} {r : Option (BitVec 8)} (h : s.Closing c)
      (hl : Transaction c l r) (hs : s.master.i2cState = .idle)
      (hbyte : s.master.i2cReaddata = r.getD 0) : Phase s (some c) l

theorem not_waits_of_progress {m : Master} {l : List Symbol} (h : Progress c m l) : ¬ m.Waits := by
  intro hw
  cases h with
  | starting h => rcases hw.state with hs' | hs' <;> exact absurd (h.state.symm.trans hs') nofun
  | sending h vs ds hm hs =>
      rcases hw.state with hs' | hs' <;> exact absurd (hs.symm.trans hs') nofun
  | sent h vs ds hm hs => rcases hw.state with hs' | hs' <;> exact absurd (hs.symm.trans hs') nofun
  | restarting h hr vs hvs hs =>
      rcases hw.state with hs' | hs' <;> exact absurd (hs.symm.trans hs') nofun
  | stopping h hs => rcases hw.state with hs' | hs' <;> exact absurd (hs.symm.trans hs') nofun
  | finished h hs hbusy => exact Bool.false_ne_true (hw.busy.symm.trans hbusy)

theorem Moving.quiet (h : s.Moving c) (hs : s.master.i2cState = .idle) : s.samples.Quiet := by
  cases h with
  | begun h => exact absurd (h.master.state.symm.trans hs) nofun
  | opening h => exact absurd (h.master.state.symm.trans hs) nofun
  | running h =>
      rcases h.latch with hquiet | ⟨hsecond, _⟩
      · exact hquiet
      · exact absurd (hsecond.1.symm.trans hs) nofun

theorem Moving.not_idle (h : s.Moving c) (hs : s.master.i2cState = .idle)
    (hbusy : s.master.i2cBusy = false) : False := by
  cases h with
  | begun h => exact absurd (h.master.state.symm.trans hs) nofun
  | opening h => exact absurd (h.master.state.symm.trans hs) nofun
  | running h => exact Bool.false_ne_true (hbusy.symm.trans h.master.busy)

theorem Moving.address (h : s.Moving c ∨ s.Closing c) :
    s.port.i2cAddress = c.address ∧ s.port.i2cWritedata = c.data := by
  rcases h with h | h
  · rcases h.port with hp | hp
    · exact ⟨hp.address, hp.data⟩
    · exact ⟨hp.address, hp.data⟩
  · exact ⟨h.port.address, h.port.data⟩

theorem Moving.progress {l new : List Symbol} (h : s.Moving c) (hl : Progress c s.master l)
    (hadds : Adds i2cClockTime s (s.step i2cClockTime i) new) :
    ((s.step i2cClockTime i).Moving c ∧
      Progress c (s.step i2cClockTime i).master (l ++ new)) ∨
    ∃ r, (s.step i2cClockTime i).Closing c ∧ Transaction c (l ++ new) r ∧
      (s.step i2cClockTime i).master.i2cState = .idle ∧
      (s.step i2cClockTime i).master.i2cReaddata = r.getD 0 := by
  have hnext : (s.step i2cClockTime i).Moving c ∨ (s.step i2cClockTime i).Closing c := h.step
  have hstays : Progress c (s.step i2cClockTime i).master (l ++ new) →
      (s.step i2cClockTime i).Moving c := by
    intro hprogress
    rcases hnext with hmoving | hclosing
    · exact hmoving
    · exact absurd hclosing.master (not_waits_of_progress hprogress)
  by_cases hidle : s.falls i2cClockTime = true ∧ s.master.i2cState = .idle
  · obtain ⟨hf, hs⟩ := hidle
    have hquiet := h.quiet hs
    have hnil := hadds.waits (.inl hs)
    have hmaster : (s.step i2cClockTime i).master = _ := step_master
    rw [hf, if_pos rfl, hquiet.writeLatch, hquiet.readLatch, Master.step_idle_quiet hs] at hmaster
    rw [hnil, List.append_nil, hmaster]
    right
    have hclosing : (s.step i2cClockTime i).Closing c := by
      rcases hnext with hmoving | hclosing
      · exact (hmoving.not_idle (by rw [hmaster]; exact hs) (by rw [hmaster])).elim
      · exact hclosing
    cases hl with
    | finished hl hs' hbusy hbyte => exact ⟨_, hclosing, hl, hs, hbyte⟩
    | starting hm => exact absurd (hm.state.symm.trans hs) nofun
    | sending hb vs ds hm hs' => exact absurd (hs'.symm.trans hs) nofun
    | sent hb vs ds hm hs' => exact absurd (hs'.symm.trans hs) nofun
    | restarting hb hr vs hvs hs' => exact absurd (hs'.symm.trans hs) nofun
    | stopping hb hs' => exact absurd (hs'.symm.trans hs) nofun
  · left
    have hprogress : Progress c (s.step i2cClockTime i).master (l ++ new) := by
      cases hadds with
      | inside hf hmaster hnew =>
          rw [hmaster, hnew, List.append_nil]
          exact hl
      | ending hf u hmaster hnew =>
          obtain ⟨haddress, hdata⟩ := Moving.address hnext
          rw [hmaster, hnew, haddress, hdata]
          exact hl.step (fun hs => hidle ⟨hf, hs⟩) u
    exact ⟨hstays hprogress, hprogress⟩

/-- One cycle of a phase: it goes on, takes up a command, or ends one. -/
inductive Next (s s' : BridgeRegs) (i : BridgeInput) (l new : List Symbol) :
    Option Command → Prop where
  | goes {o : Option Command} (hphase : Phase s' o (l ++ new))
      (htakes : s.port.takes s.i2cBusyLatch i = none) (hresponse : s'.port.response = none) :
      Next s s' i l new o
  | takes {c : Command} (hphase : Phase s' (some c) (l ++ new))
      (htakes : s.port.takes s.i2cBusyLatch i = some c) (hresponse : s'.port.response = none) :
      Next s s' i l new none
  | ends {c : Command} (hphase : Phase s' none [])
      (htakes : s.port.takes s.i2cBusyLatch i = none)
      (hserved : Served c ⟨l ++ new, s'.port.response⟩) : Next s s' i l new (some c)

theorem Phase.step {o : Option Command} {l new : List Symbol} (h : Phase s o l)
    (hclear : s.port.Clear) (hadds : Adds i2cClockTime s (s.step i2cClockTime i) new) :
    Next s (s.step i2cClockTime i) i l new o := by
  have hresponse : s.port.amsState ≠ .read ∨ s.i2cBusyLatch = true →
      (s.step i2cClockTime i).port.response = none := by
    rw [step_port]
    exact (hclear.step _).2
  cases h with
  | rest h =>
      have hnone := hresponse (.inl (by rcases h.port.state with hs | hs <;> rw [hs] <;> decide))
      have hnil := hadds.waits h.master.state
      cases ht : s.port.takes s.i2cBusyLatch i with
      | none =>
          refine .goes ?_ ht hnone
          rw [hnil]
          exact .rest (h.step_none ht)
      | some c =>
          refine .takes ?_ ht hnone
          rw [hnil]
          exact .asked (h.step_take ht)
  | asked h =>
      have hnone := hresponse (.inl (by rw [h.port.state]; decide))
      have hnil := hadds.waits h.master.state
      refine .goes ?_ (h.port.takes_none _) hnone
      rw [hnil]
      rcases h.step (i := i) with hnext | hnext
      · exact .asked hnext
      · exact .moving (.begun hnext) (.starting hnext.master)
  | moving h hl =>
      obtain ⟨htakes, hread⟩ := h.silent
      refine .goes ?_ htakes (hresponse hread)
      rcases h.progress hl hadds with ⟨hnext, hprogress⟩ | ⟨r, hnext, htrans, hs, hbyte⟩
      · exact .moving hnext hprogress
      · exact .closing hnext htrans hs hbyte
  | closing h hl hs hbyte =>
      have hnil := hadds.waits (.inl hs)
      cases hlatch : s.i2cBusyLatch with
      | true =>
          refine .goes ?_ (h.port.takes_none _) (hresponse (.inr hlatch))
          have hmaster : (s.step i2cClockTime i).master.i2cState = .idle ∧
              (s.step i2cClockTime i).master.i2cReaddata = s.master.i2cReaddata := by
            rw [step_master]
            cases s.falls i2cClockTime with
            | false => exact ⟨hs, rfl⟩
            | true =>
                rw [if_pos rfl, h.samples.writeLatch, h.samples.readLatch,
                  Master.step_idle_quiet hs]
                exact ⟨hs, rfl⟩
          rw [hnil, List.append_nil]
          exact .closing (h.step_busy hlatch) hl hmaster.1 (hmaster.2.trans hbyte)
      | false =>
          refine .ends (.rest (h.step_done hlatch)) (h.port.takes_none _) ?_
          rw [hnil, List.append_nil, step_port, hlatch, hbyte]
          obtain ⟨hanswered, hreturned⟩ := h.port.response_done hclear
          exact ⟨⟨_, hl, hreturned⟩, hanswered⟩

end BridgeRegs

/-! ## The run -/

def Balanced (s : BridgeRegs) (a : Account) : Prop :=
  ∃ o l e cs symbols, s.Phase o l ∧ Wave s a.pending e ∧ s.port.Clear ∧
    a.commands = cs ++ o.toList ∧ a.symbols = symbols ++ l ++ e ∧ Settled cs symbols a.responses

theorem Balanced.step {s : BridgeRegs} {a : Account} (h : Balanced s a) (i2cClockTime : BitVec 32)
    {i : BridgeInput} (hreleased : i.sclReleased = true) :
    Balanced (s.step i2cClockTime i) (a.step s (s.step i2cClockTime i) i) := by
  obtain ⟨o, l, e, cs, symbols, hphase, hwave, hclear, hcommands, hsymbols, hsettled⟩ := h
  obtain ⟨e', new, hnew, hwave', hadds⟩ := BridgeRegs.adds_step i2cClockTime hwave hreleased
  have hclear' : (s.step i2cClockTime i).port.Clear := by
    rw [BridgeRegs.step_port]
    exact (hclear.step _).1
  have hsymbols' : (a.step s (s.step i2cClockTime i) i).symbols = symbols ++ (l ++ new) ++ e' := by
    simp only [Account.step]
    rw [hsymbols, List.append_assoc, hnew]
    simp only [List.append_assoc]
  cases hphase.step (i := i) hclear hadds with
  | goes hnext htakes hresponse =>
      refine ⟨o, l ++ new, e', cs, symbols, hnext, hwave', hclear', ?_, hsymbols', ?_⟩
      · simp only [Account.step]
        rw [htakes, Option.toList_none, List.append_nil, hcommands]
      · simp only [Account.step]
        rw [hresponse, Option.toList_none, List.append_nil]
        exact hsettled
  | takes hnext htakes hresponse =>
      refine ⟨some _, l ++ new, e', cs, symbols, hnext, hwave', hclear', ?_, hsymbols', ?_⟩
      · simp only [Account.step]
        rw [htakes, hcommands, Option.toList_none, List.append_nil]
      · simp only [Account.step]
        rw [hresponse, Option.toList_none, List.append_nil]
        exact hsettled
  | ends hnext htakes hserved =>
      refine ⟨none, [], e', _, symbols ++ (l ++ new), hnext, hwave', hclear', ?_, ?_,
        hsettled.snoc hserved⟩
      · simp only [Account.step]
        rw [htakes, hcommands, Option.toList_none, Option.toList_some]
      · rw [hsymbols', List.append_nil]

theorem balanced_init (i2cWait : Bool) : Balanced (.init i2cWait) .init := by
  have hzero : (BridgeRegs.init i2cWait).count = 0 := rfl
  refine ⟨none, [], [], [], [], .rest (BridgeRegs.rest_init i2cWait), ?_, fun _ => rfl, rfl, rfl,
    settled_nil⟩
  refine ⟨fun _ => ⟨rfl, fun _ => rfl⟩, ?_, ?_, ?_, fun _ => rfl, ?_, rfl⟩
  · omega
  · omega
  · omega
  · omega

theorem balanced_run (i2cClockTime : BitVec 32) (i2cWait : Bool) {inp : Nat → BridgeInput}
    (hreleased : ∀ n, (inp n).sclReleased = true) (n : Nat) :
    Balanced (bridgeRun i2cClockTime i2cWait inp n) (account i2cClockTime i2cWait inp n) := by
  induction n with
  | zero => exact balanced_init i2cWait
  | succ n ih => exact ih.step i2cClockTime (hreleased n)

end Mfi.AmsI2c
