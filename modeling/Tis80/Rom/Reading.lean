import Tis80.Rom.Basic

/-!
# Reading a ROM image

Reading is lenient at the end of an image: a byte that is missing counts as zero. So every image
asks for some writes, in order, and either turns out well formed or has a first defect. The writes
that stand before a defect are asked for all the same.
-/

namespace Tis80.Rom

inductive Defect
  | header (offset : Nat) (expected found : Byte)
  | sectionKind (kind : Byte)
deriving DecidableEq, Repr

def Defect.message : Defect → String
  | .header offset expected found =>
    "expected header byte 0x" ++ expected.hex ++ " at offset " ++ toString offset ++ ", found 0x" ++
      found.hex
  | .sectionKind kind => "unknown section kind 0x" ++ kind.hex

/-- What a well-formed image put into memory. -/
structure Report where
  bytesWritten : Nat
  codeBytes : Nat
  codeStart : Address
deriving DecidableEq, Repr

structure Reading where
  writes : List (Address × Byte)
  result : Except Defect Report

/-- A place in an image: the bytes from there on, and how many were asked for before. -/
structure Cursor where
  rest : List Byte
  offset : Nat := 0

/-! ## Algorithm -/

namespace Cursor

def byteAt (c : Cursor) (i : Nat) : Byte := c.rest.getD i 0

def addressAt (c : Cursor) (i : Nat) : Address := Address.ofBytes (c.byteAt i) (c.byteAt (i + 1))

def skip (c : Cursor) (n : Nat) : Cursor := ⟨c.rest.drop n, c.offset + n⟩

/-- Goes past the given bytes, or fails at the first one that differs. -/
def expect (c : Cursor) : List Byte → Except Defect Cursor
  | [] => .ok c
  | b :: bs => if c.byteAt 0 = b then (c.skip 1).expect bs else .error (.header c.offset b (c.byteAt 0))

/-- Goes past the NUL that ends a text, if the image does not end first. -/
def skipNul (c : Cursor) : Cursor := if c.rest.isEmpty then c else c.skip 1

/-- The entry at the cursor and the place after it; an unknown kind of entry is none. -/
def entry (c : Cursor) : Option Entry × Cursor :=
  let a := c.addressAt 0
  if c.byteAt 2 = numberEntry then (some (.number a (c.byteAt 3)), c.skip 4)
  else if c.byteAt 2 = textEntry then
    let bytes := (c.rest.drop 3).takeWhile (· ≠ 0)
    (some (.text a bytes), ((c.skip 3).skip bytes.length).skipNul)
  else (none, c.skip 3)

theorem length_skip (c : Cursor) (n : Nat) : (c.skip n).rest.length = c.rest.length - n := by
  simp [skip]

theorem length_skipNul_le (c : Cursor) : c.skipNul.rest.length ≤ c.rest.length := by
  unfold skipNul
  split
  · exact Nat.le_refl _
  · rw [length_skip]
    omega

theorem length_entry_lt (c : Cursor) (h : c.rest ≠ []) :
    c.entry.2.rest.length < c.rest.length := by
  have hpos := List.length_pos_iff.mpr h
  unfold entry
  dsimp only
  split
  · rw [length_skip]
    omega
  · split
    · refine Nat.lt_of_le_of_lt (length_skipNul_le _) ?_
      rw [length_skip, length_skip]
      omega
    · rw [length_skip]
      omega

/-- The entries up to the end of the data section or of the image, behind those in `done`, which is
in reverse order. -/
def entriesOnto (done : List Entry) (c : Cursor) : List Entry × Cursor :=
  if h : c.rest = [] then (done.reverse, c)
  else
    have := c.length_entry_lt h
    match c.entry.1 with
    | none => (done.reverse, c.entry.2)
    | some e => entriesOnto (e :: done) c.entry.2
termination_by c.rest.length

def entries (c : Cursor) : List Entry × Cursor := c.entriesOnto []

end Cursor

/-- A code section at the cursor, behind writes that stand already. -/
def readCode (writes : List (Address × Byte)) (c : Cursor) : Reading :=
  let start := c.addressAt 0
  let code := (c.skip 2).rest
  ⟨writes ++ consecutive start code, .ok ⟨writes.length + code.length, code.length, start⟩⟩

/-- A data section at the cursor and the code section that has to follow it. -/
def readData (c : Cursor) : Reading :=
  let writes := c.entries.1.flatMap Entry.writes
  match c.entries.2.expect header with
  | .error e => ⟨writes, .error e⟩
  | .ok c =>
    if c.byteAt 0 = codeSection then readCode writes (c.skip 1)
    else ⟨writes, .error (.sectionKind (c.byteAt 0))⟩

def read (image : List Byte) : Reading :=
  match Cursor.expect ⟨image, 0⟩ header with
  | .error e => ⟨[], .error e⟩
  | .ok c =>
    if c.byteAt 0 = dataSection then readData (c.skip 1)
    else if c.byteAt 0 = codeSection then readCode [] (c.skip 1)
    else ⟨[], .error (.sectionKind (c.byteAt 0))⟩

end Tis80.Rom
