import Tis80.MemoryMap

/-!
# Interrupts

An interrupt has an identifier, and an identifier below 128 has a slot of two bytes in the vector
table, where the address of its handler stands. Programs may dispatch any identifier; the machine
itself dispatches four.
-/

namespace Tis80

inductive Interrupt
  | accOverflow
  | stackOverflow
  | ioError
  | keyboard
deriving DecidableEq, Repr

namespace Interrupt

def all : List Interrupt := [.accOverflow, .stackOverflow, .ioError, .keyboard]

def id : Interrupt → Byte
  | .accOverflow => 1
  | .stackOverflow => 2
  | .ioError => 3
  | .keyboard => 4

def name : Interrupt → String
  | .accOverflow => "acc_overflow"
  | .stackOverflow => "stack_overflow"
  | .ioError => "io_error"
  | .keyboard => "keyboard"

end Interrupt

/-- The vector table slot of an interrupt identifier, if both of its bytes lie in the table. -/
def vectorSlot? (id : Byte) : Option Address :=
  let slot := MemoryMap.vectorTable.start + 2 * id.toNat
  if slot + 1 < MemoryMap.vectorTable.stop then some (UInt16.ofNat slot) else none

end Tis80
