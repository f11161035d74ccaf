import Tis80.Drive.Source

/-!
# A shelf of images

ROM images kept in memory under their names. Opening one copies it, so replacing an image does not
disturb the copy being read.
-/

namespace Tis80

structure Shelf where
  images : List (String × List Byte) := []
  unread : List Byte := []

namespace Shelf

/-- Adds an image, in place of one of the same name. -/
def insert (s : Shelf) (name : String) (bytes : List Byte) : Shelf :=
  { s with images := (name, bytes) :: s.images.filter fun i => i.1 ≠ name }

def ofImages (images : List (String × List Byte)) : Shelf :=
  images.foldl (fun s i => s.insert i.1 i.2) {}

def openImage (s : Shelf) (name : String) : Except IoFault Unit × Shelf :=
  match s.images.lookup name with
  | none => (.error .imageNotFound, s)
  | some bytes => (.ok (), { s with unread := bytes })

def read (s : Shelf) : Byte × Shelf :=
  match s.unread with
  | [] => (0, s)
  | b :: rest => (b, { s with unread := rest })

def close (s : Shelf) : Shelf := { s with unread := [] }

theorem length_read_lt (s : Shelf) (h : s.unread.isEmpty = false) :
    s.read.2.unread.length < s.unread.length := by
  obtain ⟨images, unread⟩ := s
  cases unread with
  | nil => simp at h
  | cons b rest => simp [read]

theorem read_of_isEmpty (s : Shelf) (h : s.unread.isEmpty = true) : s.read = (0, s) := by
  rw [read, List.isEmpty_iff.mp h]

instance : ByteSource Shelf where
  openRom := openImage
  atEnd s := s.unread.isEmpty
  read := read
  close := close
  left s := s.unread.length
  left_read := length_read_lt
  read_of_atEnd s h := by
    rw [read_of_isEmpty s h]
    exact ⟨rfl, h⟩

/-! ## Lemmas -/

theorem drain_eq (images : List (String × List Byte)) (unread : List Byte) :
    ByteSource.drain (⟨images, unread⟩ : Shelf) = (unread, ⟨images, []⟩) := by
  induction unread with
  | nil => exact ByteSource.drain_of_atEnd rfl
  | cons b rest ih =>
    rw [ByteSource.drain_of_not_atEnd rfl]
    show (b :: (ByteSource.drain (⟨images, rest⟩ : Shelf)).1, _) = _
    rw [show (ByteSource.read (⟨images, b :: rest⟩ : Shelf)).2 = ⟨images, rest⟩ from rfl, ih]

end Shelf

end Tis80
