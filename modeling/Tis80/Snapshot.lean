import Tis80.Machine.Basic
import Tis80.Text.Lossy

/-!
# Snapshots

The registers and the memory at one moment, and what front ends show of them: the screen, the
parameter block, and dumps of regions. A dump has sixteen bytes in a row, behind the address of the
first.
-/

namespace Tis80

structure Snapshot where
  registers : Registers
  memory : Memory
deriving DecidableEq

def Machine.snapshot {σ : Type} (m : Machine σ) : Snapshot := ⟨m.registers, m.memory⟩

/-- Consecutive pieces of `n` elements, the last one shorter if need be. -/
def chunks {α : Type} (n : Nat) (l : List α) : List (List α) :=
  if _h : l = [] ∨ n = 0 then []
  else l.take n :: chunks n (l.drop n)
termination_by l.length
decreasing_by
  have := List.length_pos_iff.mpr (not_or.mp _h).1
  simp only [List.length_drop]
  omega

theorem chunks_nil {α : Type} (n : Nat) : chunks n ([] : List α) = [] := by
  rw [chunks]
  simp

theorem chunks_of_ne_nil {α : Type} {n : Nat} {l : List α} (hl : l ≠ []) (hn : n ≠ 0) :
    chunks n l = l.take n :: chunks n (l.drop n) := by
  rw [chunks]
  simp [hl, hn]

/-- A row of a dump. -/
def dumpRow (address : Nat) (bytes : List Byte) : String :=
  "$" ++ hex 4 address ++ ":" ++ String.join (bytes.map fun b => " " ++ b.hex)

namespace Snapshot

/-- The video memory up to the first NUL. Its last cell is never shown. -/
def screenBytes (s : Snapshot) : List Byte :=
  (s.memory.slice { MemoryMap.videoMemory with stop := MemoryMap.videoMemory.stop - 1 }).takeWhile
    (· ≠ 0)

def screen (s : Snapshot) : String := lossyText s.screenBytes

def screenRows (s : Snapshot) : List String :=
  ((chunks MemoryMap.screenColumns s.screenBytes).take MemoryMap.screenRows).map lossyText

def parameters (s : Snapshot) : List Byte := s.memory.slice MemoryMap.parameterBlock

/-- The part of a region that lies in memory. -/
def clamp (region : Region) : Region :=
  let stop := min region.stop memorySize
  ⟨min region.start stop, stop⟩

def dumpRows (s : Snapshot) (region : Region) : List String :=
  let shown := clamp region
  (chunks 16 (s.memory.slice shown)).mapIdx fun i row => dumpRow (shown.start + 16 * i) row

def hexdump (s : Snapshot) (region : Region) : String := "\n".intercalate (s.dumpRows region)

end Snapshot

end Tis80
