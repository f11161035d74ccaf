import Tis80.Drive.Source
import Tis80.Memory
import Tis80.Registers.Text

/-!
# The machine

Registers, memory, and a drive to load ROMs from. Small updates that the other modules are written
with.
-/

namespace Tis80

structure Machine (σ : Type) where
  registers : Registers := {}
  memory : Memory := Memory.blank
  drive : σ
  /-- Set while the frame of a call is pushed; flags raised meanwhile dispatch nothing. -/
  savingFrame : Bool := false

namespace Machine

variable {σ : Type}

def write (m : Machine σ) (a : Address) (v : Byte) : Machine σ :=
  { m with memory := m.memory.write a v }

def setAcc (m : Machine σ) (v : Byte) : Machine σ :=
  { m with registers := { m.registers with acc := v } }

def setRegister (m : Machine σ) (r : Register) (v : Byte) : Machine σ :=
  { m with registers := m.registers.set r v }

def setPointer (m : Machine σ) (sp : Address) : Machine σ :=
  { m with registers := { m.registers with sp := sp } }

def setMode (m : Machine σ) (mode : Mode) : Machine σ :=
  { m with registers := { m.registers with mode := mode } }

def setFlags (m : Machine σ) (flags : Flags) : Machine σ :=
  { m with registers := { m.registers with flags := flags } }

def setSaving (m : Machine σ) (saving : Bool) : Machine σ := { m with savingFrame := saving }

/-- Moves the program counter on by `n`. -/
def advance (m : Machine σ) (n : Nat) : Machine σ :=
  { m with registers := { m.registers with pc := m.registers.pc + n } }

def jump (m : Machine σ) (target : Address) : Machine σ :=
  { m with registers := { m.registers with pc := target.toNat } }

def isHalted (m : Machine σ) : Bool := m.registers.mode.halted

/-- The registers, between braces; the memory is only mentioned. -/
def describe (m : Machine σ) : String :=
  "Computer \x7b registers: " ++ m.registers.describe ++ ", memory: [...] \x7d"

end Machine

/-- What a description says of a memory. -/
def Memory.describe (m : Memory) : String :=
  "Memory \x7b " ++ toString m.cells.size ++ " bytes \x7d"

end Tis80
