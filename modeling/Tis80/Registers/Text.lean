import Tis80.Registers.Basic

/-!
# How registers are shown

One line for people, with every register in hexadecimal and every flag and mode as `0` or `1`, and
a structured description with decimal values and named bits.
-/

namespace Tis80

def Register.render (r : Register) : String := "r" ++ toString r.index.toNat

/-- The names of the bits that are set, lowest first. -/
def describeBits (name : String) (bits : List (Bool × String)) : String :=
  let set := bits.filterMap fun b => if b.1 then some b.2 else none
  let body := if set.isEmpty then "0x0" else " | ".intercalate set
  name ++ "(" ++ body ++ ")"

def Flags.describe (fs : Flags) : String :=
  describeBits "Flags" [(fs.accOverflow, "ACC_OVERFLOW"), (fs.stackOverflow, "STACK_OVERFLOW"),
    (fs.ioError, "IO_ERROR")]

def Mode.describe (m : Mode) : String :=
  describeBits "Mode" [(m.halted, "HALTED"), (m.shielded, "PROTECTED"),
    (m.interruptible, "INTERRUPT_ENABLE")]

namespace Registers

/-- The line of registers: each cell is a name and a value. -/
def render (rs : Registers) : String :=
  let mark (b : Bool) : String := if b then "1" else "0"
  let general := rs.general.toList.mapIdx fun i v => ("r" ++ toString i, v.hex)
  let cells :=
    [("acc", rs.acc.hex), ("pc", hex 4 rs.pc), ("sp", hex 4 rs.sp.toNat)] ++ general ++
    [("ovf", mark rs.flags.accOverflow), ("sovf", mark rs.flags.stackOverflow),
      ("io", mark rs.flags.ioError), ("pmd", mark rs.mode.shielded),
      ("ein", mark rs.mode.interruptible), ("hlt", mark rs.mode.halted)]
  " | ".intercalate (cells.map fun c => c.1 ++ " = " ++ c.2)

/-- All fields in decimal, between braces. -/
def describe (rs : Registers) : String :=
  let general := "[" ++ ", ".intercalate (rs.general.toList.map fun v => toString v.toNat) ++ "]"
  let fields :=
    [("general", general), ("acc", toString rs.acc.toNat), ("pc", toString rs.pc),
      ("sp", toString rs.sp.toNat), ("flags", rs.flags.describe), ("mode", rs.mode.describe)]
  "Registers \x7b " ++ ", ".intercalate (fields.map fun f => f.1 ++ ": " ++ f.2) ++ " \x7d"

end Registers

end Tis80
