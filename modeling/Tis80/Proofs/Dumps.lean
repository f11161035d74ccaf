import Mathlib.Algebra.Group.Nat.Defs
import Tis80.Proofs.Memory
import Tis80.Region.Parser
import Tis80.Snapshot

/-!
# Dumps can be read back

A dump is rows of cells, and a cell is a blank and two digits. Read row by row, the cells give back the
bytes that were dumped, in order:

    lines (s.hexdump region) = rowsShown s (clamp region)                             (lines_hexdump)
    readRows (rowsShown s shown) = some (s.memory.slice shown)                   (readRows_rowsShown)

So the text of a dump is as good as the part of memory it shows.
-/

namespace Tis80

/-! ## Text -/

def hexDigit (d : Nat) : Char := "0123456789abcdef".toList.getD d '0'

/-- The last `width` digits of a number in base sixteen. -/
def hexDigits : Nat → Nat → List Char
  | 0, _ => []
  | width + 1, n => hexDigits width (n / 16) ++ [hexDigit (n % 16)]

namespace Dump

/-- A row as it looks: an address of four digits, and the cells behind it. -/
def row (address : Nat) (bytes : List Byte) : List Char :=
  '$' :: hexDigits 4 address ++ ':' :: bytes.flatMap fun b => ' ' :: hexDigits 2 b.toNat

/-- The lines of a text. An empty text has none; a newline at the end has an empty line behind it. -/
def lines (text : String) : List (List Char) :=
  if text.toList = [] then [] else text.toList.splitOn '\n'

def readCells : List Char → Option (List Byte)
  | [] => some []
  | ' ' :: high :: low :: cells =>
    match Region.digit? 16 high, Region.digit? 16 low, readCells cells with
    | some h, some l, some bytes => some (UInt8.ofNat (16 * h + l) :: bytes)
    | _, _, _ => none
  | _ => none

def readRow : List Char → Option (List Byte)
  | '$' :: _ :: _ :: _ :: _ :: ':' :: cells => readCells cells
  | _ => none

/-- The bytes that the rows show, one row after the other. -/
def readRows : List (List Char) → Option (List Byte)
  | [] => some []
  | row :: rows =>
    match readRow row, readRows rows with
    | some bytes, some more => some (bytes ++ more)
    | _, _ => none

end Dump

/-! ## Hexadecimal digits -/

theorem digitChar_eq : ∀ d < 16, Nat.digitChar d = hexDigit d := by decide

theorem digit?_hexDigit : ∀ d < 16, Region.digit? 16 (hexDigit d) = some d := by decide

theorem hexDigit_ne_newline : ∀ d < 16, hexDigit d ≠ '\n' := by decide

theorem leftpad_append_singleton (width : Nat) (c d : Char) (cs : List Char) :
    (cs ++ [d]).leftpad (width + 1) c = cs.leftpad width c ++ [d] := by
  simp only [List.leftpad, List.length_append, List.length_singleton, Nat.add_sub_add_right,
    List.append_assoc]

/-- A number that has no more digits than asked for gets exactly as many. -/
theorem leftpad_toDigits {width n : Nat} (h : n < 16 ^ (width + 1)) :
    (Nat.toDigits 16 n).leftpad (width + 1) '0' = hexDigits (width + 1) n := by
  induction width generalizing n with
  | zero =>
    have hn : n < 16 := by omega
    rw [Nat.toDigits_of_lt_base hn, digitChar_eq n hn, hexDigits, hexDigits, Nat.mod_eq_of_lt hn]
    rfl
  | succ width ih =>
    have hquotient : n / 16 < 16 ^ (width + 1) := by
      rw [Nat.div_lt_iff_lt_mul (by decide)]
      exact h
    have hlast := digitChar_eq (n % 16) (Nat.mod_lt n (by decide))
    rw [hexDigits, ← ih hquotient]
    by_cases hn : n < 16
    · rw [Nat.toDigits_of_lt_base hn, Nat.div_eq_of_lt hn, ← hlast, Nat.mod_eq_of_lt hn]
      simp [List.leftpad, List.replicate_succ']
    · rw [Nat.toDigits_of_base_le (by decide) (Nat.not_lt.mp hn), leftpad_append_singleton, hlast]

theorem toList_hex {width n : Nat} (h : n < 16 ^ (width + 1)) :
    (hex (width + 1) n).toList = hexDigits (width + 1) n := by
  rw [hex, String.toList_ofList, leftpad_toDigits h]

theorem hexDigits_byte (b : Byte) :
    hexDigits 2 b.toNat = [hexDigit (b.toNat / 16), hexDigit (b.toNat % 16)] := by
  have hb := b.toNat_lt
  have hhigh : b.toNat / 16 % 16 = b.toNat / 16 := by omega
  simp [hexDigits, hhigh]

theorem newline_notMem_hexDigits (width n : Nat) : '\n' ∉ hexDigits width n := by
  induction width generalizing n with
  | zero => simp [hexDigits]
  | succ width ih =>
    have hlast := hexDigit_ne_newline (n % 16) (Nat.mod_lt n (by decide))
    simp only [hexDigits, List.mem_append, List.mem_singleton, not_or]
    exact ⟨ih _, Ne.symm hlast⟩

/-! ## Pieces -/

/-- How many pieces there are, with the last one counted though it may be short. -/
theorem pieces_succ {n length : Nat} (hn : 0 < n) (hlength : 0 < length) :
    (length + (n - 1)) / n = (length - n + (n - 1)) / n + 1 := by
  by_cases hshort : length < n
  · have hone : length + (n - 1) = length - 1 + n := by omega
    rw [hone, Nat.add_div_right _ hn, Nat.div_eq_of_lt (by omega), Nat.div_eq_of_lt (by omega)]
  · have hmore : length + (n - 1) = length - n + (n - 1) + n := by omega
    rw [hmore, Nat.add_div_right _ hn]

theorem chunks_eq {α : Type} {n : Nat} (hn : 0 < n) (l : List α) :
    chunks n l =
      (List.range ((l.length + (n - 1)) / n)).map fun i => (l.drop (n * i)).take n := by
  by_cases hl : l = []
  · subst hl
    rw [chunks_nil, List.length_nil, Nat.zero_add, Nat.div_eq_of_lt (by omega)]
    rfl
  · have hpos := List.length_pos_iff.mpr hl
    have hrest := chunks_eq hn (l.drop n)
    rw [List.length_drop] at hrest
    rw [chunks_of_ne_nil hl (by omega), hrest, pieces_succ hn hpos, List.range_succ_eq_map,
      List.map_cons, List.map_map]
    congr 1
    apply List.map_congr_left
    intro i _
    simp only [Function.comp_apply, List.drop_drop, Nat.mul_succ, Nat.add_comm]
termination_by l.length
decreasing_by
  rw [List.length_drop]
  omega

theorem flatten_chunks {α : Type} {n : Nat} (hn : 0 < n) (l : List α) : (chunks n l).flatten = l := by
  by_cases hl : l = []
  · rw [hl, chunks_nil]
    rfl
  · have hpos := List.length_pos_iff.mpr hl
    rw [chunks_of_ne_nil hl (by omega), List.flatten_cons, flatten_chunks hn (l.drop n),
      List.take_append_drop]
termination_by l.length
decreasing_by
  rw [List.length_drop]
  omega

theorem Memory.slice_drop_take (m : Memory) (start stop k n : Nat) :
    ((m.slice ⟨start, stop⟩).drop k).take n = m.slice ⟨start + k, min (start + k + n) stop⟩ := by
  simp only [slice, Array.toList_extract, List.extract_eq_take_drop, List.drop_take, List.drop_drop,
    List.take_take]
  congr 1
  omega

/-- A slice has all its cells. -/
theorem Memory.slice_eq_iff {m n : Memory} {start stop : Nat} (hfit : stop ≤ memorySize) :
    m.slice ⟨start, stop⟩ = n.slice ⟨start, stop⟩ ↔
      ∀ a : Address, start ≤ a.toNat → a.toNat < stop → m.read a = n.read a := by
  refine ⟨fun h a hstart hstop => ?_, slice_congr hfit⟩
  have hm : a.toNat - start < (m.slice ⟨start, stop⟩).length := by
    rw [length_slice m hfit]
    omega
  have hn : a.toNat - start < (n.slice ⟨start, stop⟩).length := h ▸ hm
  have ha : start + (a.toNat - start) = a.toNat := by omega
  rw [← fetch_toNat, ← fetch_toNat, ← ha, ← getElem_slice m hfit hm,
    ← getElem_slice n hfit hn, List.getElem_of_eq h]

namespace Dump

/-- The rows of a region that lies in memory. -/
def rowsShown (s : Snapshot) (shown : Region) : List (List Char) :=
  (List.range ((shown.stop - shown.start + 15) / 16)).map fun i =>
    row (shown.start + 16 * i)
      (s.memory.slice ⟨shown.start + 16 * i, min (shown.start + 16 * i + 16) shown.stop⟩)

/-! ## Rows -/

theorem toList_dumpRow {address : Nat} (h : address < memorySize) (bytes : List Byte) :
    (dumpRow address bytes).toList = row address bytes := by
  have haddress : (hex 4 address).toList = hexDigits 4 address := toList_hex h
  have hcell : ∀ b : Byte, (" " ++ b.hex).toList = ' ' :: hexDigits 2 b.toNat := by
    intro b
    have hb : (hex 2 b.toNat).toList = hexDigits 2 b.toNat := toList_hex b.toNat_lt
    rw [String.toList_append, Byte.hex, hb]
    rfl
  simp only [dumpRow, row, String.toList_append, String.toList_join, haddress, List.flatMap_map, hcell]
  rfl

theorem newline_notMem_row (address : Nat) (bytes : List Byte) : '\n' ∉ row address bytes := by
  have haddress := newline_notMem_hexDigits 4 address
  have hcells : ∀ b : Byte, '\n' ∉ hexDigits 2 b.toNat := fun b => newline_notMem_hexDigits 2 _
  simp [row, haddress, hcells]

theorem readCells_append (b : Byte) (cells : List Char) :
    readCells (' ' :: hexDigits 2 b.toNat ++ cells) = (readCells cells).map (b :: ·) := by
  have hb := b.toNat_lt
  have hhigh := digit?_hexDigit (b.toNat / 16) (by omega)
  have hlow := digit?_hexDigit (b.toNat % 16) (by omega)
  have hbyte : UInt8.ofNat (16 * (b.toNat / 16) + b.toNat % 16) = b := by
    rw [Nat.div_add_mod, UInt8.ofNat_toNat]
  rw [hexDigits_byte]
  simp only [List.cons_append, List.nil_append, readCells, hhigh, hlow]
  cases readCells cells with
  | none => rfl
  | some bytes => simp only [hbyte, Option.map_some]

theorem readRow_row (address : Nat) (bytes : List Byte) : readRow (row address bytes) = some bytes := by
  have hcells : readCells (bytes.flatMap fun b => ' ' :: hexDigits 2 b.toNat) = some bytes := by
    induction bytes with
    | nil => rfl
    | cons b bytes ih => rw [List.flatMap_cons, readCells_append, ih, Option.map_some]
  rw [← hcells]
  rfl

theorem readRows_map {α : Type} (is : List α) (address : α → Nat) (bytes : α → List Byte) :
    readRows (is.map fun i => row (address i) (bytes i)) = some (is.flatMap bytes) := by
  induction is with
  | nil => rfl
  | cons i is ih =>
    rw [List.map_cons, readRows, readRow_row, ih]
    rfl

theorem chunks_slice (m : Memory) {start stop : Nat} (hfit : stop ≤ memorySize) :
    chunks 16 (m.slice ⟨start, stop⟩) = (List.range ((stop - start + 15) / 16)).map fun i =>
      m.slice ⟨start + 16 * i, min (start + 16 * i + 16) stop⟩ := by
  rw [chunks_eq (by decide), Memory.length_slice m hfit]
  simp only [Memory.slice_drop_take]

theorem readRows_rowsShown (s : Snapshot) {shown : Region} (hfit : shown.stop ≤ memorySize) :
    readRows (rowsShown s shown) = some (s.memory.slice shown) := by
  rw [rowsShown, readRows_map, List.flatMap_def, ← chunks_slice s.memory hfit,
    flatten_chunks (by decide)]

/-- The rows of a dump are those of the part of the region that lies in memory. -/
theorem toList_dumpRows (s : Snapshot) (region : Region) :
    (s.dumpRows region).map String.toList = rowsShown s (Snapshot.clamp region) := by
  have hfit : (Snapshot.clamp region).stop ≤ memorySize := Nat.min_le_right _ _
  rw [Snapshot.dumpRows, rowsShown, chunks_slice s.memory hfit]
  apply List.ext_getElem
  · simp
  · intro i hi _
    simp only [List.length_map, List.length_mapIdx, List.length_range] at hi
    have haddress : (Snapshot.clamp region).start + 16 * i < memorySize := by omega
    simp [toList_dumpRow haddress]

theorem toList_hexdump (s : Snapshot) (region : Region) :
    (s.hexdump region).toList = ['\n'].intercalate (rowsShown s (Snapshot.clamp region)) := by
  rw [Snapshot.hexdump, String.toList_intercalate, toList_dumpRows]
  rfl

theorem newline_notMem_rowsShown (s : Snapshot) (shown : Region) :
    ∀ r ∈ rowsShown s shown, '\n' ∉ r := by
  intro r hr
  obtain ⟨i, -, rfl⟩ := List.mem_map.mp hr
  exact newline_notMem_row _ _

theorem lines_hexdump (s : Snapshot) (region : Region) :
    lines (s.hexdump region) = rowsShown s (Snapshot.clamp region) := by
  rw [lines, toList_hexdump]
  cases hrows : rowsShown s (Snapshot.clamp region) with
  | nil => rfl
  | cons r rows =>
    have hfree := newline_notMem_rowsShown s (Snapshot.clamp region)
    rw [hrows] at hfree
    -- the first row has a character, so the text is not empty
    have hr : r ≠ [] := by
      have hmem : r ∈ rowsShown s (Snapshot.clamp region) := by rw [hrows]; exact List.mem_cons_self
      obtain ⟨i, -, rfl⟩ := List.mem_map.mp hmem
      exact List.cons_ne_nil _ _
    have htext : ['\n'].intercalate (r :: rows) ≠ [] := by
      cases rows with
      | nil => simpa using hr
      | cons r' rows => simp [List.intercalate_cons_cons]
    rw [if_neg htext, List.splitOn_intercalate '\n' hfree (List.cons_ne_nil _ _)]

end Dump

namespace Snapshot

open Dump

/-! ## Top theorem -/

/-- The lines of a dump are its rows: sixteen cells in each but the last, which has the rest. The cells
read back are the bytes of the region, as far as it lies in memory, so two dumps of a region differ
exactly if the bytes there do. -/
theorem hexdump_lossless (s : Snapshot) (region : Region) :
    let stop := min region.stop memorySize
    let start := min region.start stop
    let count := (stop - start + 15) / 16
    let bytes (i : Nat) := s.memory.slice ⟨start + 16 * i, min (start + 16 * i + 16) stop⟩
    lines (s.hexdump region) = (List.range count).map (fun i =>
      '$' :: hexDigits 4 (start + 16 * i) ++
        ':' :: (bytes i).flatMap fun b => ' ' :: hexDigits 2 b.toNat) ∧
    (∀ i, i < count → (bytes i).length = if i + 1 < count then 16 else stop - start - 16 * i) ∧
    readRows (lines (s.hexdump region)) = some (s.memory.slice ⟨start, stop⟩) ∧
    ∀ t : Snapshot, s.hexdump region = t.hexdump region ↔
      ∀ a : Address, start ≤ a.toNat → a.toNat < stop → s.memory.read a = t.memory.read a := by
  intro stop start count bytes
  have hfit : stop ≤ memorySize := Nat.min_le_right _ _
  have hread : ∀ s : Snapshot,
      readRows (lines (s.hexdump region)) = some (s.memory.slice ⟨start, stop⟩) := by
    intro s
    rw [lines_hexdump]
    exact readRows_rowsShown s hfit
  refine ⟨lines_hexdump s region, ?_, hread s, ?_⟩
  · intro i hi
    have hlength : (bytes i).length = min (start + 16 * i + 16) stop - (start + 16 * i) :=
      Memory.length_slice s.memory (by omega)
    rw [hlength]
    split <;> omega
  · intro t
    rw [← Memory.slice_eq_iff hfit]
    constructor
    · intro hdumps
      have hs := hread s
      rw [hdumps, hread t] at hs
      exact (Option.some.inj hs).symm
    · intro hslices
      have hshown : s.memory.slice (clamp region) = t.memory.slice (clamp region) := hslices
      simp only [hexdump, dumpRows, hshown]

end Snapshot

end Tis80
