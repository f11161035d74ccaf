import Tis80.Word

/-!
# Opcodes

The first byte of an instruction. Main statement:

    ofByte? b = some op  ↔  op.toByte = b                     (ofByte?_eq_some_iff)
-/

namespace Tis80

inductive Opcode
  | add | addi | sub | subi | sil | sir | and | or | not | xor
  | jmp | jeq | jne | jgt | jlt | jfg
  | ldr | str | mov | movi | tar | tra | inr | inw | dsk | movm
  | int | hlt | cll | crn | pmd | ein | din | cfg
  | psa | poa | psr | por
deriving DecidableEq, Repr

namespace Opcode

def all : List Opcode :=
  [.add, .addi, .sub, .subi, .sil, .sir, .and, .or, .not, .xor,
    .jmp, .jeq, .jne, .jgt, .jlt, .jfg,
    .ldr, .str, .mov, .movi, .tar, .tra, .inr, .inw, .dsk, .movm,
    .int, .hlt, .cll, .crn, .pmd, .ein, .din, .cfg,
    .psa, .poa, .psr, .por]

def toByte : Opcode → Byte
  | .add => 0x00
  | .addi => 0x01
  | .sub => 0x02
  | .subi => 0x03
  | .sil => 0x04
  | .sir => 0x05
  | .and => 0x06
  | .or => 0x07
  | .not => 0x08
  | .xor => 0x09
  | .jmp => 0x20
  | .jeq => 0x21
  | .jne => 0x22
  | .jgt => 0x23
  | .jlt => 0x24
  | .jfg => 0x25
  | .ldr => 0x30
  | .str => 0x31
  | .mov => 0x32
  | .movi => 0x33
  | .tar => 0x34
  | .tra => 0x35
  | .inr => 0x36
  | .inw => 0x37
  | .dsk => 0x38
  | .movm => 0x39
  | .int => 0x40
  | .hlt => 0x41
  | .cll => 0x42
  | .crn => 0x43
  | .pmd => 0x44
  | .ein => 0x45
  | .din => 0x46
  | .cfg => 0x47
  | .psa => 0x50
  | .poa => 0x51
  | .psr => 0x52
  | .por => 0x53

/-- The opcode a byte stands for, if it stands for one. -/
def ofByte? (b : Byte) : Option Opcode := all.find? fun op => op.toByte == b

def mnemonic : Opcode → String
  | .add => "add"
  | .addi => "addi"
  | .sub => "sub"
  | .subi => "subi"
  | .sil => "sil"
  | .sir => "sir"
  | .and => "and"
  | .or => "or"
  | .not => "not"
  | .xor => "xor"
  | .jmp => "jmp"
  | .jeq => "jeq"
  | .jne => "jne"
  | .jgt => "jgt"
  | .jlt => "jlt"
  | .jfg => "jfg"
  | .ldr => "ldr"
  | .str => "str"
  | .mov => "mov"
  | .movi => "movi"
  | .tar => "tar"
  | .tra => "tra"
  | .inr => "inr"
  | .inw => "inw"
  | .dsk => "dsk"
  | .movm => "movm"
  | .int => "int"
  | .hlt => "hlt"
  | .cll => "cll"
  | .crn => "crn"
  | .pmd => "pmd"
  | .ein => "ein"
  | .din => "din"
  | .cfg => "cfg"
  | .psa => "psa"
  | .poa => "poa"
  | .psr => "psr"
  | .por => "por"

/-! ## Lemmas -/

theorem ofByte?_toByte (op : Opcode) : ofByte? op.toByte = some op := by
  cases op <;> rfl

theorem ofByte?_eq_some_iff {b : Byte} {op : Opcode} : ofByte? b = some op ↔ op.toByte = b := by
  constructor
  · intro h
    simpa using List.find?_some h
  · rintro rfl
    exact ofByte?_toByte op

end Opcode

end Tis80
