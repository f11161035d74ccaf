import Tis80.Machine.Stack
import Tis80.Rom.Reading
import Tis80.Text.Quoted

/-!
# Loading ROMs

A load opens a ROM, performs the writes its image asks for, and closes the drive. No register
changes. A ROM with a defect leaves the writes that stand before the defect.
-/

namespace Tis80

inductive LoadFault
  | unreadable (name : String) (cause : IoFault)
  | malformed (defect : Rom.Defect)
deriving DecidableEq, Repr

namespace LoadFault

def message : LoadFault → String
  | .unreadable name cause => "could not read ROM " ++ quoted name ++ ": " ++ cause.message
  | .malformed defect => "bad ROM format: " ++ defect.message

/-- The code a report carries. -/
def code : LoadFault → String
  | .unreadable _ _ => "tis80::rom::read"
  | .malformed _ => "tis80::rom::format"

/-- What to try, if there is something. -/
def help? : LoadFault → Option String
  | .unreadable _ _ => some "ROM names are resolved relative to the drive root"
  | .malformed _ => none

end LoadFault

namespace Machine

variable {σ : Type} [ByteSource σ]

def load (m : Machine σ) (name : String) : Except LoadFault Rom.Report × Machine σ :=
  match ByteSource.openRom m.drive name with
  | (.error cause, drive) => (.error (.unreadable name cause), { m with drive })
  | (.ok (), opened) =>
    let drained := ByteSource.drain opened
    let reading := Rom.read drained.1
    (reading.result.mapError .malformed,
      { m with
        memory := m.memory.writeAll reading.writes
        drive := ByteSource.close drained.2 })

/-- A machine that has loaded `kernel` and is about to run it. -/
def boot (drive : σ) (kernel : String) : Except LoadFault (Machine σ) :=
  match load { drive := drive } kernel with
  | (.error fault, _) => .error fault
  | (.ok _, m) => .ok (m.jump MemoryMap.kernelOrigin)

end Machine

end Tis80
