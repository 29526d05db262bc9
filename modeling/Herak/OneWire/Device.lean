import Mathlib.Data.Fintype.Basic
import Mathlib.Data.UInt
import Mathlib.Logic.Function.Basic
import Herak.Support.CInt

/-!
# One-wire lines

`one_wire_sensors.cpp`: the lines are read in turn, and each has a table of the
sensors on it.  An entry of the table with the address 0 is empty.  The library
of the one-wire protocol is not part of the repository; `Rom` is its type of
the addresses.
-/

namespace Herak.OneWire

/-- `ONEWIRE_SENORS_MAX` -/
abbrev onewireSenorsMax : ℕ := 5

/-- Number of an entry in the table of a line. -/
abbrev SlotIdx := Fin onewireSenorsMax

/-- `one_wire_sensor`; `force` is that of its MQTT component. -/
structure OneWireSensor (Rom : Type*) where
  romAddr : Rom
  address : UInt64
  force : Bool

/-- `one_wire_line` -/
structure OneWireLine (Rom : Type*) where
  pin : ℤ
  countOnLine : ℕ
  savedMapping : SlotIdx → UInt64
  sensors : SlotIdx → OneWireSensor Rom

namespace OneWireLine

variable {Rom : Type*}

def setSensor (line : OneWireLine Rom) (j : SlotIdx) (s : OneWireSensor Rom) :
    OneWireLine Rom :=
  { line with sensors := Function.update line.sensors j s }

@[simp] theorem setSensor_self (line : OneWireLine Rom) (j : SlotIdx)
    (s : OneWireSensor Rom) : (line.setSensor j s).sensors j = s :=
  Function.update_self _ _ _

theorem setSensor_of_ne (line : OneWireLine Rom) {j k : SlotIdx} (h : k ≠ j)
    (s : OneWireSensor Rom) : (line.setSensor j s).sensors k = line.sensors k :=
  Function.update_of_ne h _ _

@[simp] theorem setSensor_savedMapping (line : OneWireLine Rom) (j : SlotIdx)
    (s : OneWireSensor Rom) :
    (line.setSensor j s).savedMapping = line.savedMapping := rfl

end OneWireLine

end Herak.OneWire
