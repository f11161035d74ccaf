import Tis80.Memory

/-!
# ROMs

A ROM is a code section, with or without a data section in front of it. Its image is

    rom     :=  header 01 code  |  header 00 entry* end header 01 code
    header  :=  FF FE FE FF
    entry   :=  address 02 byte  |  address 01 byte* 00
    end     :=  address 00
    code    :=  address byte*

with addresses high byte first and no NUL among the bytes of a text entry.
-/

namespace Tis80

namespace Rom

/-- An entry of a data section: one byte, or the bytes of a text without its NUL. -/
inductive Entry
  | number (a : Address) (value : Byte)
  | text (a : Address) (bytes : List Byte)
deriving DecidableEq, Repr

def header : List Byte := [0xFF, 0xFE, 0xFE, 0xFF]

def dataSection : Byte := 0x00

def codeSection : Byte := 0x01

def endEntry : Byte := 0x00

def textEntry : Byte := 0x01

def numberEntry : Byte := 0x02

end Rom

structure Rom where
  /-- The entries of the data section, if there is one. -/
  data : Option (List Rom.Entry) := none
  start : Address
  code : List Byte
deriving DecidableEq, Repr

/-- Both bytes of an address, high byte first. -/
def Address.bytes (a : Address) : List Byte := [a.high, a.low]

namespace Rom

def Entry.image : Entry → List Byte
  | .number a v => a.bytes ++ [numberEntry, v]
  | .text a bytes => a.bytes ++ [textEntry] ++ bytes ++ [0x00]

/-- The writes an entry asks for. The NUL that ends a text is not written. -/
def Entry.writes : Entry → List (Address × Byte)
  | .number a v => [(a, v)]
  | .text a bytes => consecutive a bytes

def codeImage (rom : Rom) : List Byte :=
  header ++ [codeSection] ++ rom.start.bytes ++ rom.code

/-- The image of a ROM. The entry that ends a data section has an address too, which means nothing. -/
def image (rom : Rom) (endAddress : Address := 0) : List Byte :=
  match rom.data with
  | none => rom.codeImage
  | some entries =>
    header ++ [dataSection] ++ entries.flatMap Entry.image ++ endAddress.bytes ++ [endEntry] ++
      rom.codeImage

/-- The writes of the data section, then those of the code section. -/
def writes (rom : Rom) : List (Address × Byte) :=
  (rom.data.getD []).flatMap Entry.writes ++ consecutive rom.start rom.code

end Rom

end Tis80
