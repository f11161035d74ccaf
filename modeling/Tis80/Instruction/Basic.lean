import Tis80.Instruction.Opcode
import Tis80.Memory
import Tis80.Registers.Text

/-!
# Instructions

An instruction is an opcode with its operands, each a register (one byte), a value (one byte) or a
location (two bytes). Decoding inverts encoding:

    decode? (the bytes of i.encode ++ rest) = some i          (decode?_encode)

A listing has the mnemonic in a column of four characters, a blank, and the operands between commas; a
mnemonic without operands stands alone.
-/

namespace Tis80

inductive Instruction
  | add (r : Register)
  | addi (v : Byte)
  | sub (r : Register)
  | subi (v : Byte)
  | sil
  | sir
  | and (r : Register)
  | or (r : Register)
  | not
  | xor (r : Register)
  | jmp (target : Address)
  | jeq (target : Address)
  | jne (target : Address)
  | jgt (target : Address)
  | jlt (target : Address)
  | jfg (code : Byte) (target : Address)
  | ldr (source : Address) (r : Register)
  | str (r : Register) (target : Address)
  | mov (source target : Register)
  | movi (v : Byte) (r : Register)
  | tar (r : Register)
  | tra (r : Register)
  | inr (pointer : Address) (r : Register)
  | inw (r : Register) (pointer : Address)
  | dsk (name : Address)
  | movm (value pointer : Address)
  | int (id : Byte)
  | hlt
  | cll (target : Address)
  | crn
  | pmd
  | ein
  | din
  | cfg (code : Byte)
  | psa
  | poa
  | psr (r : Register)
  | por (r : Register)
deriving DecidableEq

inductive Operand
  | register (r : Register)
  | value (v : Byte)
  | location (a : Address)
deriving DecidableEq, Repr

def Operand.bytes : Operand → List Byte
  | .register r => [r.index]
  | .value v => [v]
  | .location a => [a.high, a.low]

namespace Instruction

def opcode : Instruction → Opcode
  | .add _ => .add
  | .addi _ => .addi
  | .sub _ => .sub
  | .subi _ => .subi
  | .sil => .sil
  | .sir => .sir
  | .and _ => .and
  | .or _ => .or
  | .not => .not
  | .xor _ => .xor
  | .jmp _ => .jmp
  | .jeq _ => .jeq
  | .jne _ => .jne
  | .jgt _ => .jgt
  | .jlt _ => .jlt
  | .jfg _ _ => .jfg
  | .ldr _ _ => .ldr
  | .str _ _ => .str
  | .mov _ _ => .mov
  | .movi _ _ => .movi
  | .tar _ => .tar
  | .tra _ => .tra
  | .inr _ _ => .inr
  | .inw _ _ => .inw
  | .dsk _ => .dsk
  | .movm _ _ => .movm
  | .int _ => .int
  | .hlt => .hlt
  | .cll _ => .cll
  | .crn => .crn
  | .pmd => .pmd
  | .ein => .ein
  | .din => .din
  | .cfg _ => .cfg
  | .psa => .psa
  | .poa => .poa
  | .psr _ => .psr
  | .por _ => .por

def operands : Instruction → List Operand
  | .add r | .sub r | .and r | .or r | .xor r => [.register r]
  | .addi v | .subi v => [.value v]
  | .jmp a | .jeq a | .jne a | .jgt a | .jlt a => [.location a]
  | .jfg c a => [.value c, .location a]
  | .ldr a r => [.location a, .register r]
  | .str r a => [.register r, .location a]
  | .mov s t => [.register s, .register t]
  | .movi v r => [.value v, .register r]
  | .tar r | .tra r => [.register r]
  | .inr p r => [.location p, .register r]
  | .inw r p => [.register r, .location p]
  | .dsk a => [.location a]
  | .movm v p => [.location v, .location p]
  | .int i => [.value i]
  | .cll a => [.location a]
  | .cfg c => [.value c]
  | .psr r | .por r => [.register r]
  | .sil | .sir | .not | .hlt | .crn | .pmd | .ein | .din | .psa | .poa => []

def encode (i : Instruction) : List Byte :=
  i.opcode.toByte :: i.operands.flatMap Operand.bytes

/-- The number of bytes the instruction takes. -/
def size (i : Instruction) : Nat := i.encode.length

end Instruction

/-- The instruction with this opcode whose operand bytes are `b 0`, `b 1`, … -/
def Opcode.instruction (op : Opcode) (b : Nat → Byte) : Instruction :=
  let reg (i : Nat) : Register := ⟨b i⟩
  let loc (i : Nat) : Address := Address.ofBytes (b i) (b (i + 1))
  match op with
  | .add => .add (reg 0)
  | .addi => .addi (b 0)
  | .sub => .sub (reg 0)
  | .subi => .subi (b 0)
  | .sil => .sil
  | .sir => .sir
  | .and => .and (reg 0)
  | .or => .or (reg 0)
  | .not => .not
  | .xor => .xor (reg 0)
  | .jmp => .jmp (loc 0)
  | .jeq => .jeq (loc 0)
  | .jne => .jne (loc 0)
  | .jgt => .jgt (loc 0)
  | .jlt => .jlt (loc 0)
  | .jfg => .jfg (b 0) (loc 1)
  | .ldr => .ldr (loc 0) (reg 2)
  | .str => .str (reg 0) (loc 1)
  | .mov => .mov (reg 0) (reg 1)
  | .movi => .movi (b 0) (reg 1)
  | .tar => .tar (reg 0)
  | .tra => .tra (reg 0)
  | .inr => .inr (loc 0) (reg 2)
  | .inw => .inw (reg 0) (loc 1)
  | .dsk => .dsk (loc 0)
  | .movm => .movm (loc 0) (loc 2)
  | .int => .int (b 0)
  | .hlt => .hlt
  | .cll => .cll (loc 0)
  | .crn => .crn
  | .pmd => .pmd
  | .ein => .ein
  | .din => .din
  | .cfg => .cfg (b 0)
  | .psa => .psa
  | .poa => .poa
  | .psr => .psr (reg 0)
  | .por => .por (reg 0)

/-- Reads an instruction off the bytes `b 0`, `b 1`, …; fails only on an unknown opcode. -/
def Instruction.decode? (b : Nat → Byte) : Option Instruction :=
  (Opcode.ofByte? (b 0)).map fun op => op.instruction fun i => b (i + 1)

/-- The instruction that starts at `pc`. Operand bytes past the end of memory are zero. -/
def Memory.instructionAt (m : Memory) (pc : Nat) : Option Instruction :=
  Instruction.decode? fun i => m.fetch (pc + i)

/-! ## Listings -/

def Operand.render : Operand → String
  | .register r => r.render
  | .value v => toString v.toNat
  | .location a => a.render

/-- The mnemonic, filled up with blanks to four characters. -/
def Opcode.column (op : Opcode) : String :=
  String.ofList (op.mnemonic.toList.rightpad 4 ' ')

def Instruction.render (i : Instruction) : String :=
  match i.operands with
  | [] => i.opcode.mnemonic
  | operands => i.opcode.column ++ " " ++ ", ".intercalate (operands.map Operand.render)

/-! ## Lemmas -/

namespace Instruction

/-- An opcode and the operand bytes of an instruction give the instruction back. -/
theorem instruction_operands (i : Instruction) (rest : List Byte) :
    i.opcode.instruction (fun k => (i.operands.flatMap Operand.bytes ++ rest).getD k 0) = i := by
  cases i <;> simp only [opcode, operands, Operand.bytes, Opcode.instruction, List.flatMap_cons,
    List.flatMap_nil, List.cons_append, List.nil_append, List.getD_cons_zero, List.getD_cons_succ,
    Address.ofBytes_high_low]

theorem decode?_encode (i : Instruction) (rest : List Byte) :
    decode? (fun k => (i.encode ++ rest).getD k 0) = some i := by
  show (Opcode.ofByte? i.opcode.toByte).map _ = some i
  rw [Opcode.ofByte?_toByte]
  exact congrArg some (instruction_operands i rest)

theorem opcode_instruction (op : Opcode) (b : Nat → Byte) : (op.instruction b).opcode = op := by
  cases op <;> rfl

end Instruction

end Tis80
