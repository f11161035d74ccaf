import Tis80.Registers.Flags

/-!
# Registers

Sixteen general registers, an accumulator, the program counter, the stack pointer, flags and mode.
An instruction names a general register by a byte, and every byte is allowed: past the sixteenth,
reads give zero and writes are ignored.
-/

namespace Tis80

/-- A general register as an instruction names it. -/
structure Register where
  index : Byte
deriving DecidableEq, Repr

structure Registers where
  general : Vector Byte registerCount := Vector.replicate registerCount 0
  acc : Byte := 0
  /-- An index into memory. It is wider than an address, so that running off the end of memory is
  seen and does not wrap around. -/
  pc : Nat := MemoryMap.kernelOrigin.toNat
  /-- The next free cell of the stack. -/
  sp : Address := MemoryMap.stackBase
  flags : Flags := {}
  mode : Mode := {}
deriving DecidableEq

namespace Registers

def get (rs : Registers) (r : Register) : Byte :=
  if h : r.index.toNat < registerCount then rs.general[r.index.toNat] else 0

def set (rs : Registers) (r : Register) (v : Byte) : Registers :=
  { rs with general := rs.general.setIfInBounds r.index.toNat v }

/-! ## Lemmas -/

theorem get_set_self (rs : Registers) {r : Register} (v : Byte) (h : r.index.toNat < registerCount) :
    (rs.set r v).get r = v := by
  simp [get, set, h]

theorem get_set_of_ne (rs : Registers) {r s : Register} (v : Byte) (h : r ≠ s) :
    (rs.set r v).get s = rs.get s := by
  have hne : r.index.toNat ≠ s.index.toNat := fun e =>
    h (congrArg Register.mk (UInt8.toNat_inj.mp e))
  by_cases hs : s.index.toNat < registerCount
  · simp [get, set, hs, hne]
  · simp [get, hs]

end Registers

end Tis80
