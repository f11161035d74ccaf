import Tis80.Drive.FileTree

/-!
# A folder of ROM files

ROMs are files below a directory. What counts is the length of a file at the moment it is opened; its
bytes are taken in chunks, each when the one before is used up. So a file that is overwritten while
it is open still gives the rest of its chunk, then what stands in the file now, and the first byte
that is missing ends it. A directory can be opened, but its first read fails. Where a path leads
nowhere, or the length cannot be had, the folder goes on with the file that was open before.
-/

namespace Tis80

structure OpenFile where
  location : Location
  /-- The part of the current chunk that was not read yet. -/
  chunk : List Byte := []
  /-- How many bytes of the file were taken. -/
  taken : Nat := 0
  /-- How many bytes are left of the length at opening. -/
  remaining : Nat

structure Folder where
  tree : FileTree
  /-- The directory that relative paths start from. -/
  here : Location := []
  /-- The path of the directory that holds the ROMs. -/
  root : String
  file : Option OpenFile := none
  /-- Why the system does not tell the length of a file that it has opened, if it does not. -/
  lengthFault? : Location → Option IoFault := fun _ => none

namespace Folder

def chunkSize : Nat := 8192

/-- The length of a directory: it matters only that there is something to try and read. -/
def directoryLength : Nat := 4096

def lengthAt (d : Folder) (l : Location) : Nat :=
  if d.tree.isDirectory l then directoryLength else (d.tree.bytesAt l).length

/-- What the system answers when it is asked for the length of an open file. -/
def askLength (d : Folder) (l : Location) : Except IoFault Nat :=
  match d.lengthFault? l with
  | some fault => .error fault
  | none => .ok (d.lengthAt l)

/-- Finds the file, asks for its length, and only then lets go of the file that is open. -/
def openFile (d : Folder) (name : String) : Except IoFault Unit × Folder :=
  match d.tree.resolve d.here (Path.join d.root name) with
  | .error fault => (.error fault, d)
  | .ok l =>
    match d.askLength l with
    | .error fault => (.error fault, d)
    | .ok length => (.ok (), { d with file := some { location := l, remaining := length } })

def left (d : Folder) : Nat :=
  match d.file with
  | none => 0
  | some f => f.remaining

/-- Takes another chunk if the last one is used up. -/
def fill (d : Folder) (f : OpenFile) : OpenFile :=
  if f.chunk.isEmpty then
    let chunk := ((d.tree.bytesAt f.location).drop f.taken).take chunkSize
    { f with chunk := chunk, taken := f.taken + chunk.length }
  else f

def read (d : Folder) : Byte × Folder :=
  match d.file with
  | none => (0, d)
  | some f =>
    if f.remaining = 0 then (0, d)
    else
      let f := d.fill f
      match f.chunk with
      | [] => (0, { d with file := some { f with remaining := 0 } })
      | b :: rest => (b, { d with file := some { f with chunk := rest, remaining := f.remaining - 1 } })

def close (d : Folder) : Folder := { d with file := none }

/-- Writes a file in place, open or not. -/
def store (d : Folder) (name : String) (bytes : List Byte) : Folder :=
  { d with tree := d.tree.writeFile (Path.location d.here (Path.join d.root name)) bytes }

theorem remaining_fill (d : Folder) (f : OpenFile) : (d.fill f).remaining = f.remaining := by
  unfold fill
  split <;> rfl

theorem left_read_lt (d : Folder) (h : (d.left == 0) = false) : d.read.2.left < d.left := by
  obtain ⟨tree, here, root, file, lengthFault?⟩ := d
  cases file with
  | none => simp [left] at h
  | some f =>
    have hr : f.remaining ≠ 0 := by simpa [left] using h
    simp only [read, hr, if_false]
    split
    · simp only [left]
      omega
    · simp only [left, remaining_fill]
      omega

theorem read_of_left_eq_zero (d : Folder) (h : d.left = 0) : d.read = (0, d) := by
  unfold read
  unfold left at h
  split
  · rfl
  · next f hfile =>
    rw [hfile] at h
    exact if_pos h

instance : ByteSource Folder where
  openRom := openFile
  atEnd d := d.left == 0
  read := read
  close := close
  left := left
  left_read := left_read_lt
  read_of_atEnd d h := by
    rw [read_of_left_eq_zero d (beq_iff_eq.mp h)]
    exact ⟨rfl, h⟩

end Folder

end Tis80
