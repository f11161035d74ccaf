import Tis80.Drive.Shelf
import Tis80.Machine.Step
import Tis80.Snapshot

/-!
# The front panel

What a graphical front end sees of a machine that runs ROMs from a shelf.
-/

namespace Tis80

structure Panel where
  machine : Machine Shelf

namespace Panel

/-- A panel over a machine that has booted from the shelf. -/
def boot (shelf : Shelf) : Except LoadFault Panel :=
  (Machine.boot shelf MemoryMap.kernelImage).map Panel.mk

/-- One step; tells whether the machine has halted. -/
def step (p : Panel) : Except Stop Bool × Panel :=
  match p.machine.step with
  | (.ok (), m) => (.ok false, ⟨m⟩)
  | (.error .ended, m) => (.ok true, ⟨m⟩)
  | (.error stop, m) => (.error stop, ⟨m⟩)

/-- The program counter as a 32-bit number, the greatest one if it does not fit. -/
def programCounter (p : Panel) : Nat := min p.machine.registers.pc 0xFFFFFFFF

/-- The bytes of a region that lies in memory. -/
def memoryView? (p : Panel) (region : Region) : Option (List Byte) :=
  if region.start ≤ region.stop ∧ region.stop ≤ memorySize then some (p.machine.memory.slice region)
  else none

def screen (p : Panel) : List String := p.machine.snapshot.screenRows

def keyDown (p : Panel) (key : Byte) : Panel := ⟨p.machine.keyDown key⟩

end Panel

end Tis80
