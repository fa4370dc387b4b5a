import Mathlib.Logic.Function.Basic

/-!
# The dual-port RAM template

`true_dual_port_ram_single_clock` of `arinc_rx_controller.sv`, shared by the
receive buffers of both ARINC blocks and by the mask/flag memory. Each port reads
the old cell while the other port writes it. The port widths are those of the
wires connected to it, so addresses are natural numbers already reduced there.
-/

namespace Mfi

abbrev Word := BitVec 32

structure DualPortRam where
  ram : Nat → Word
  qA : Word
  qB : Word

namespace DualPortRam

/-- One clock edge. Port B is the later always block: it wins a clash of writes. -/
def clock (r : DualPortRam) (weA : Bool) (addrA : Nat) (dataA : Word)
    (weB : Bool) (addrB : Nat) (dataB : Word) : DualPortRam where
  ram :=
    let portA := if weA then Function.update r.ram addrA dataA else r.ram
    if weB then Function.update portA addrB dataB else portA
  qA := if weA then dataA else r.ram addrA
  qB := if weB then dataB else r.ram addrB

def init (contents : Nat → Word) : DualPortRam := ⟨contents, 0, 0⟩

@[simp] theorem clock_qA (r : DualPortRam) (addrA : Nat) (dataA : Word) (weB : Bool)
    (addrB : Nat) (dataB : Word) :
    (r.clock false addrA dataA weB addrB dataB).qA = r.ram addrA := rfl

@[simp] theorem clock_qB (r : DualPortRam) (weA : Bool) (addrA : Nat) (dataA : Word)
    (addrB : Nat) (dataB : Word) :
    (r.clock weA addrA dataA false addrB dataB).qB = r.ram addrB := rfl

@[simp] theorem clock_ram_idle (r : DualPortRam) (addrA : Nat) (dataA : Word)
    (addrB : Nat) (dataB : Word) :
    (r.clock false addrA dataA false addrB dataB).ram = r.ram := rfl

@[simp] theorem clock_ram_writeB (r : DualPortRam) (addrA : Nat) (dataA : Word)
    (addrB : Nat) (dataB : Word) :
    (r.clock false addrA dataA true addrB dataB).ram = Function.update r.ram addrB dataB := rfl

theorem clock_ram_of_ne (r : DualPortRam) (weA : Bool) (addrA : Nat) (dataA : Word)
    (weB : Bool) {addrB : Nat} (dataB : Word) {a : Nat} (h : weB = true → a ≠ addrB) :
    (r.clock weA addrA dataA weB addrB dataB).ram a =
      if weA = true ∧ a = addrA then dataA else r.ram a := by
  cases weA <;> cases weB <;> simp_all [clock, Function.update_apply]

theorem clock_ram_self (r : DualPortRam) (weA : Bool) (addrA : Nat) (dataA : Word)
    (addrB : Nat) (dataB : Word) :
    (r.clock weA addrA dataA true addrB dataB).ram addrB = dataB := by
  simp [clock]

end DualPortRam

end Mfi
