import Tis80.Word

/-!
# The memory map

    0000..0100   vector table          two bytes per interrupt
    0100..0104   parameter block       shared with loaded programs
    0104..0200   stack                 grows upward
    0200..       kernel
    F000..F400   video memory          40 columns, 25 rows
    F400..F410   keyboard buffer
-/

namespace Tis80

/-- The cells from `start` up to, and not including, `stop`. -/
structure Region where
  start : Nat
  stop : Nat
deriving DecidableEq, Repr

abbrev memorySize : Nat := 65536

abbrev registerCount : Nat := 16

namespace MemoryMap

def vectorTable : Region := ⟨0x0000, 0x0100⟩

def parameterBlock : Region := ⟨0x0100, 0x0104⟩

def stackBase : Address := 0x0104

def kernelOrigin : Address := 0x0200

def videoMemory : Region := ⟨0xF000, 0xF400⟩

def keyboardBuffer : Region := ⟨0xF400, 0xF410⟩

def screenColumns : Nat := 40

def screenRows : Nat := 25

/-- The ROM a machine boots from unless told otherwise. -/
def kernelImage : String := "kernal.rom"

end MemoryMap

theorem Address.toNat_lt_memorySize (a : Address) : a.toNat < memorySize := a.toNat_lt

end Tis80
