import Tis80.MemoryMap

/-!
# Memory

65536 cells of one byte. Every address names a cell, so reading and writing never fail:

    (m.write a v).read a = v                                  (read_write_self)
    a ≠ b  →  (m.write a v).read b = m.read b                 (read_write_of_ne)
    (∀ a, m.read a = n.read a)  →  m = n                      (ext_read)
-/

namespace Tis80

structure Memory where
  cells : Vector Byte memorySize
deriving DecidableEq

namespace Memory

def blank : Memory := ⟨Vector.replicate memorySize 0⟩

def read (m : Memory) (a : Address) : Byte :=
  have := a.toNat_lt_memorySize
  m.cells[a.toNat]

def write (m : Memory) (a : Address) (v : Byte) : Memory :=
  ⟨m.cells.set a.toNat v a.toNat_lt_memorySize⟩

/-- The byte at an index that need not be an address: past the end of memory it is zero. -/
def fetch (m : Memory) (i : Nat) : Byte :=
  if h : i < memorySize then m.cells[i] else 0

/-- The address held, high byte first, at `a` and the cell after it. -/
def readAddress (m : Memory) (a : Address) : Address :=
  Address.ofBytes (m.read a) (m.read (a + 1))

def writeAddress (m : Memory) (a value : Address) : Memory :=
  (m.write a value.high).write (a + 1) value.low

/-- The bytes of a region, as far as it lies in memory. -/
def slice (m : Memory) (region : Region) : List Byte :=
  (m.cells.toArray.extract region.start region.stop).toList

/-- The bytes from `a` up to the first NUL, or up to the end of memory. -/
def stringAt (m : Memory) (a : Address) : List Byte :=
  (m.slice ⟨a.toNat, memorySize⟩).takeWhile (· ≠ 0)

/-- Performs the writes in order. -/
def writeAll (m : Memory) (writes : List (Address × Byte)) : Memory :=
  writes.foldl (fun m w => m.write w.1 w.2) m

end Memory

/-- The writes that put `bytes` into the cells from `a` on, wrapping around after the last cell. -/
def consecutive (a : Address) (bytes : List Byte) : List (Address × Byte) :=
  bytes.mapIdx fun i b => (a + UInt16.ofNat i, b)

namespace Memory

/-! ## Lemmas -/

@[simp]
theorem read_blank (a : Address) : blank.read a = 0 := by
  simp [blank, read]

@[simp]
theorem read_write_self (m : Memory) (a : Address) (v : Byte) : (m.write a v).read a = v := by
  simp [read, write]

theorem read_write_of_ne (m : Memory) {a b : Address} (v : Byte) (h : a ≠ b) :
    (m.write a v).read b = m.read b := by
  have hne : a.toNat ≠ b.toNat := fun e => h (UInt16.toNat_inj.mp e)
  simp [read, write, hne]

theorem read_write (m : Memory) (a b : Address) (v : Byte) :
    (m.write a v).read b = if a = b then v else m.read b := by
  split
  · next h => rw [h, read_write_self]
  · next h => exact read_write_of_ne m v h

theorem writeAll_append (m : Memory) (ws vs : List (Address × Byte)) :
    m.writeAll (ws ++ vs) = (m.writeAll ws).writeAll vs := by
  simp [writeAll]

theorem fetch_toNat (m : Memory) (a : Address) : m.fetch a.toNat = m.read a := by
  simp [fetch, read, a.toNat_lt_memorySize]

theorem fetch_of_le (m : Memory) {i : Nat} (h : memorySize ≤ i) : m.fetch i = 0 := by
  simp [fetch, Nat.not_lt.mpr h]

theorem ext_read {m n : Memory} (h : ∀ a, m.read a = n.read a) : m = n := by
  obtain ⟨m⟩ := m
  obtain ⟨n⟩ := n
  congr 1
  refine Vector.ext fun i hi => ?_
  have := h (UInt16.ofNat i)
  simpa [read, Nat.mod_eq_of_lt hi] using this

end Memory

end Tis80
