import Tis80.Word

/-!
# Sources of bytes

A drive hands out the bytes of one open ROM at a time. Opening one can fail, and what the source is
then is up to the source. Reading never fails: at the end of the ROM it gives zero and the source
stays at its end. Since `left` falls with every read, draining a source ends.
-/

namespace Tis80

/-- Why a ROM could not be opened. -/
inductive IoFault
  | imageNotFound
  | fileNotFound
  | notADirectory
  | nameTooLong
  | nulInName
  | inputOutput
deriving DecidableEq, Repr

def IoFault.message : IoFault → String
  | .imageNotFound => "ROM not found"
  | .fileNotFound => "No such file or directory (os error 2)"
  | .notADirectory => "Not a directory (os error 20)"
  | .nameTooLong => "File name too long (os error 36)"
  | .nulInName => "file name contained an unexpected NUL byte"
  | .inputOutput => "Input/output error (os error 5)"

class ByteSource (σ : Type) where
  /-- Opens a ROM by name, at its first byte, or says why not. -/
  openRom : σ → String → Except IoFault Unit × σ
  atEnd : σ → Bool
  /-- The next byte, or zero at the end. -/
  read : σ → Byte × σ
  close : σ → σ
  /-- At most this many reads before the end. -/
  left : σ → Nat
  left_read : ∀ s, atEnd s = false → left (read s).2 < left s
  read_of_atEnd : ∀ s, atEnd s = true → (read s).1 = 0 ∧ atEnd (read s).2 = true

namespace ByteSource

variable {σ : Type} [ByteSource σ]

/-- The bytes up to the end of the open ROM, behind those in `done`, which is in reverse order. -/
def drainOnto (done : List Byte) (s : σ) : List Byte × σ :=
  if h : atEnd s then (done.reverse, s)
  else
    have := left_read s (by simpa using h)
    let next := read s
    drainOnto (next.1 :: done) next.2
termination_by left s

/-- Reads to the end of the open ROM. -/
def drain (s : σ) : List Byte × σ := drainOnto [] s

/-! ## Lemmas -/

theorem drainOnto_eq (done : List Byte) (s : σ) :
    drainOnto done s = (done.reverse ++ (drain s).1, (drain s).2) := by
  unfold drain
  by_cases h : atEnd s
  · rw [drainOnto.eq_1 done, drainOnto.eq_1 []]
    simp [h]
  · have := left_read s (by simpa using h)
    rw [drainOnto.eq_1 done, drainOnto.eq_1 []]
    simp only [h, Bool.false_eq_true, dite_false]
    rw [drainOnto_eq (_ :: done), drainOnto_eq [_]]
    simp
termination_by left s

theorem drain_of_atEnd {s : σ} (h : atEnd s = true) : drain s = ([], s) := by
  rw [drain, drainOnto]
  simp [h]

theorem drain_of_not_atEnd {s : σ} (h : atEnd s = false) :
    drain s = ((read s).1 :: (drain (read s).2).1, (drain (read s).2).2) := by
  rw [drain, drainOnto]
  simp [h, drainOnto_eq [(read s).1]]

end ByteSource

end Tis80
