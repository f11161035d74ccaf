import Tis80.Interrupt

/-!
# Status flags and execution mode

Flags are sticky: raised by the machine, lowered only by an instruction. Flags and mode each pack
into the low three bits of a byte, and unpacking ignores the other bits:

    ofByte f.toByte = f                                       (Flags.ofByte_toByte, Mode.ofByte_toByte)
-/

namespace Tis80

inductive Flag
  | accOverflow
  | stackOverflow
  | ioError
deriving DecidableEq, Repr

namespace Flag

/-- The flag an instruction names by `code`; other codes name none. -/
def ofCode? (code : Byte) : Option Flag :=
  if code = 0 then some .accOverflow
  else if code = 1 then some .stackOverflow
  else if code = 2 then some .ioError
  else none

/-- The interrupt dispatched when the flag is raised. -/
def interrupt : Flag → Interrupt
  | .accOverflow => .accOverflow
  | .stackOverflow => .stackOverflow
  | .ioError => .ioError

end Flag

structure Flags where
  accOverflow : Bool := false
  stackOverflow : Bool := false
  ioError : Bool := false
deriving DecidableEq, Repr

namespace Flags

def has (fs : Flags) : Flag → Bool
  | .accOverflow => fs.accOverflow
  | .stackOverflow => fs.stackOverflow
  | .ioError => fs.ioError

def assign (fs : Flags) (raised : Bool) : Flag → Flags
  | .accOverflow => { fs with accOverflow := raised }
  | .stackOverflow => { fs with stackOverflow := raised }
  | .ioError => { fs with ioError := raised }

def raise (fs : Flags) (f : Flag) : Flags := fs.assign true f

def lower (fs : Flags) (f : Flag) : Flags := fs.assign false f

end Flags

/-- Three bits, the first one lowest. -/
def packBits (b₀ b₁ b₂ : Bool) : Byte :=
  (if b₀ then 1 else 0) + (if b₁ then 2 else 0) + (if b₂ then 4 else 0)

def Flags.toByte (fs : Flags) : Byte := packBits fs.accOverflow fs.stackOverflow fs.ioError

def Flags.ofByte (b : Byte) : Flags := ⟨b &&& 1 ≠ 0, b &&& 2 ≠ 0, b &&& 4 ≠ 0⟩

structure Mode where
  halted : Bool := false
  /-- Set by an instruction; nothing depends on it. -/
  shielded : Bool := false
  interruptible : Bool := false
deriving DecidableEq, Repr

def Mode.toByte (m : Mode) : Byte := packBits m.halted m.shielded m.interruptible

def Mode.ofByte (b : Byte) : Mode := ⟨b &&& 1 ≠ 0, b &&& 2 ≠ 0, b &&& 4 ≠ 0⟩

/-! ## Lemmas -/

theorem Flags.ofByte_toByte (fs : Flags) : ofByte fs.toByte = fs := by
  obtain ⟨a, b, c⟩ := fs
  revert a b c
  decide

theorem Mode.ofByte_toByte (m : Mode) : ofByte m.toByte = m := by
  obtain ⟨a, b, c⟩ := m
  revert a b c
  decide

@[simp]
theorem Flags.has_assign_self (fs : Flags) (v : Bool) (f : Flag) : (fs.assign v f).has f = v := by
  cases f <;> rfl

theorem Flags.has_assign_of_ne (fs : Flags) (v : Bool) {f g : Flag} (h : f ≠ g) :
    (fs.assign v f).has g = fs.has g := by
  cases f <;> cases g <;> first | rfl | exact absurd rfl h

end Tis80
