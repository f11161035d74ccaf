import Tis80.Command.Response
import Tis80.Proofs.Dumps
import Tis80.Proofs.Loading
import Tis80.Proofs.RomGrammar

/-!
# The dump of a ROM's code

Without a region to dump, a ROM is dumped from where its code starts, for as many cells as the code has
bytes. The region is cut off at the end of memory, and a load is not: code that runs over the end goes
on in the first cells. What the report shows then is the part of the code in front of the end.

    readReport text = some (code.take (memorySize - start))                  (if code fits in memory)
    readReport text = some code  ↔  start + code.length ≤ memorySize         (dump_shows_code_iff)
-/

namespace Tis80

/-- What a report shows that has one heading: its lines but the heading, each with a newline behind it. -/
def Dump.readReport (text : String) : Option (List Byte) :=
  readRows (text.toList.splitOn '\n').tail.dropLast

namespace Rom

/-- The bytes of the code section. -/
def Layout.code (l : Layout) : List Byte := l.tail.drop 2

/-! ## Code in memory -/

theorem writes_read_bytes (l : Layout) :
    (read l.bytes).writes = l.entries.flatMap Entry.writes ++ consecutive l.start l.code := by
  obtain ⟨data, tail⟩ := l
  cases data with
  | none =>
    rw [Layout.bytes_code, read_code]
    rfl
  | some d =>
    rw [Layout.bytes_data, read_data d.nulFree d.endKind_ne]
    rfl

end Rom

theorem consecutive_append (a : Address) (bytes more : List Byte) :
    consecutive a (bytes ++ more) =
      consecutive a bytes ++ consecutive (a + UInt16.ofNat bytes.length) more := by
  rw [consecutive, consecutive, consecutive, List.mapIdx_append]
  congr 1
  apply List.mapIdx_eq_mapIdx_iff.mpr
  intro i hi
  rw [UInt16.ofNat_add, UInt16.add_assoc, UInt16.add_comm (UInt16.ofNat i)]

namespace Memory

/-- Bytes that run over the end of memory, and do not come round to where they started, leave there
what stands in front of the end. -/
theorem slice_writeAll_overhang (m : Memory) (a : Address) {bytes : List Byte}
    (hlength : bytes.length ≤ memorySize) :
    (m.writeAll (consecutive a bytes)).slice
      ⟨a.toNat, min (a.toNat + bytes.length) memorySize⟩ = bytes.take (memorySize - a.toNat) := by
  have hsize : memorySize = 65536 := rfl
  have ha := a.toNat_lt_memorySize
  obtain ⟨front, overhang, hbytes, hfront⟩ : ∃ front overhang, bytes = front ++ overhang ∧
      front = bytes.take (memorySize - a.toNat) :=
    ⟨_, _, (List.take_append_drop (memorySize - a.toNat) bytes).symm, rfl⟩
  have hfrontLength : front.length = min (memorySize - a.toNat) bytes.length := by
    rw [hfront, List.length_take]
  have hoverhang : front.length + overhang.length = bytes.length := by
    rw [hbytes, List.length_append]
  have hstop : min (a.toNat + bytes.length) memorySize = a.toNat + front.length := by omega
  have hfit : a.toNat + front.length ≤ memorySize := by omega
  have hwrites : consecutive a bytes =
      consecutive a front ++ consecutive (a + UInt16.ofNat front.length) overhang := by
    rw [hbytes, consecutive_append]
  rw [← hfront, hstop, hwrites, writeAll_append]
  -- the bytes behind the end fall on cells below the start
  have hbelow : ∀ c : Address, a.toNat ≤ c.toNat → c.toNat < a.toNat + front.length →
      ((m.writeAll (consecutive a front)).writeAll
        (consecutive (a + UInt16.ofNat front.length) overhang)).read c =
      (m.writeAll (consecutive a front)).read c := by
    intro c hc _
    apply read_writeAll_of_notMem
    intro hmem
    obtain ⟨i, hi, hci⟩ := exists_of_mem_consecutive hmem
    have hnat := congrArg UInt16.toNat hci
    rw [UInt16.toNat_add, UInt16.toNat_add, UInt16.toNat_ofNat', UInt16.toNat_ofNat'] at hnat
    omega
  rw [slice_congr hfit hbelow]
  exact slice_writeAll_consecutive m hfit

end Memory

/-! ## The report -/

namespace Dump

theorem newline_notMem_toDigits (n : Nat) : '\n' ∉ Nat.toDigits 16 n := by
  induction n using Nat.strongRecOn with
  | ind n ih =>
    by_cases hn : n < 16
    · rw [Nat.toDigits_of_lt_base hn, digitChar_eq n hn]
      simpa using Ne.symm (hexDigit_ne_newline n hn)
    · have hmod := Nat.mod_lt n (y := 16) (by decide)
      rw [Nat.toDigits_of_base_le (by decide) (Nat.not_lt.mp hn), digitChar_eq _ hmod]
      simpa using ⟨ih (n / 16) (by omega), Ne.symm (hexDigit_ne_newline _ hmod)⟩

theorem newline_notMem_hex (width n : Nat) : '\n' ∉ (hex width n).toList := by
  have hdigits := newline_notMem_toDigits n
  simp [hex, List.leftpad, hdigits]

theorem newline_notMem_heading (region : Region) (colors : Bool) :
    '\n' ∉ (Response.heading
      ("Memory 0x" ++ hex 4 region.start ++ "..0x" ++ hex 4 region.stop) colors).toList := by
  have hstart := newline_notMem_hex 4 region.start
  have hstop := newline_notMem_hex 4 region.stop
  cases colors <;> simp [Response.heading, hstart, hstop]

/-- Lines with a newline behind each are what newlines separate, with nothing behind the last. -/
theorem flatMap_newline (rows : List (List Char)) :
    rows.flatMap (· ++ ['\n']) = ['\n'].intercalate (rows ++ [[]]) := by
  induction rows with
  | nil => rfl
  | cons r rows ih =>
    obtain ⟨next, more, hnext⟩ : ∃ next more, rows ++ [[]] = next :: more :=
      List.exists_cons_of_ne_nil (by simp)
    rw [List.flatMap_cons, ih, List.cons_append, hnext, List.intercalate_cons_cons]

theorem splitOn_dumpText (s : Snapshot) (colors : Bool) (region : Region) :
    ∃ heading, (Response.dumpText s colors region).toList.splitOn '\n' =
      heading :: (rowsShown s (Snapshot.clamp region) ++ [[]]) := by
  obtain ⟨heading, hheading⟩ : ∃ heading, heading = (Response.heading
    ("Memory 0x" ++ hex 4 region.start ++ "..0x" ++ hex 4 region.stop) colors).toList := ⟨_, rfl⟩
  refine ⟨heading, ?_⟩
  have hrows : (String.join ((s.dumpRows region).map (· ++ "\n"))).toList =
      ['\n'].intercalate (rowsShown s (Snapshot.clamp region) ++ [[]]) := by
    rw [← flatMap_newline, ← toList_dumpRows, String.toList_join, List.flatMap_map, List.flatMap_map]
    simp only [String.toList_append]
    rfl
  have htext : (Response.dumpText s colors region).toList =
      ['\n'].intercalate (heading :: (rowsShown s (Snapshot.clamp region) ++ [[]])) := by
    obtain ⟨next, more, hnext⟩ : ∃ next more, rowsShown s (Snapshot.clamp region) ++ [[]] = next :: more :=
      List.exists_cons_of_ne_nil (by simp)
    rw [hnext, List.intercalate_cons_cons, ← hnext, ← hrows, hheading]
    simp only [Response.dumpText, String.toList_append]
    rfl
  rw [htext]
  apply List.splitOn_intercalate
  · intro r hr
    simp only [List.mem_cons, List.mem_append, List.not_mem_nil, or_false] at hr
    rcases hr with rfl | hr | rfl
    · rw [hheading]
      exact newline_notMem_heading region colors
    · exact newline_notMem_rowsShown s _ r hr
    · exact List.not_mem_nil
  · exact List.cons_ne_nil _ _

theorem readReport_dumpText (s : Snapshot) (colors : Bool) (region : Region) :
    readReport (Response.dumpText s colors region) =
      some (s.memory.slice (Snapshot.clamp region)) := by
  obtain ⟨heading, hlines⟩ := splitOn_dumpText s colors region
  rw [readReport, hlines, List.tail_cons, List.dropLast_concat]
  exact readRows_rowsShown s (Nat.min_le_right _ _)

end Dump

open ImageDrive

theorem respond_of_dump {args : List String} {f : Format} {rom : String} {o : DumpOptions}
    (w : Workplace) (h : Invocation.read args = .ok ⟨f, .dump rom o⟩) (terminal : Bool) (fuel : Nat) :
    respond args w terminal fuel =
      some (Response.dump (w.folder o.romDir) rom o (f.colors terminal)) := by
  rw [respond, h]
  rfl

/-- What loads has a layout. -/
theorem exists_layout_of_load {σ : Type} [ByteSource σ] [ImageDrive σ] {m : Machine σ} {rom : String}
    {loaded : Rom.Report} (h : (m.load rom).1 = .ok loaded) :
    ∃ l : Rom.Layout, image m.drive rom = .ok l.bytes := by
  cases himage : image m.drive rom with
  | error cause =>
    rw [Machine.load_of_image_error himage] at h
    cases h
  | ok bytes =>
    rw [Machine.result_load_of_image_ok himage] at h
    cases hread : (Rom.read bytes).result with
    | error defect =>
      rw [hread] at h
      cases h
    | ok report =>
      obtain ⟨l, rfl⟩ := Rom.exists_layout_of_read hread
      exact ⟨l, rfl⟩

/-- The code is written last, so no entry takes a cell from it. -/
theorem slice_load_of_layout {σ : Type} [ByteSource σ] [ImageDrive σ] {m : Machine σ} {rom : String}
    {l : Rom.Layout} (himage : image m.drive rom = .ok l.bytes) (hlength : l.code.length ≤ memorySize) :
    (m.load rom).2.memory.slice
      ⟨l.start.toNat, min (l.start.toNat + l.code.length) memorySize⟩ =
      l.code.take (memorySize - l.start.toNat) := by
  rw [Machine.memory_load, Machine.loadWrites_of_image_ok himage, Rom.writes_read_bytes,
    Memory.writeAll_append, Memory.slice_writeAll_overhang _ _ hlength]

/-- A ROM that is dumped without a region shows the cells from its start up to the end of its code or of
memory. -/
theorem dump_of_layout {m : Machine Folder} {rom : String} {o : DumpOptions} {l : Rom.Layout}
    (hfresh : m = { drive := m.drive }) (hregions : o.regions = [])
    (himage : image m.drive rom = .ok l.bytes) (colors : Bool) :
    ∃ text, Response.dump m.drive rom o colors = .report text ∧
      Dump.readReport text = some ((m.load rom).2.memory.slice
        ⟨l.start.toNat, min (l.start.toNat + l.code.length) memorySize⟩) := by
  have hresult : (m.load rom).1 = .ok l.report := by
    rw [Machine.result_load_of_image_ok himage, Rom.result_read_bytes]
    rfl
  have hclamp : Snapshot.clamp (Response.codeRegion l.report) =
      ⟨l.start.toNat, min (l.start.toNat + l.code.length) memorySize⟩ := by
    have hstart := l.start.toNat_lt_memorySize
    have hlength : l.code.length = l.report.codeBytes := by
      rw [Rom.Layout.code, List.length_drop]
      rfl
    have hmin : min l.start.toNat (min (l.start.toNat + l.code.length) memorySize) =
        l.start.toNat := by omega
    rw [hlength] at hmin ⊢
    exact congrArg (fun start => Region.mk start _) hmin
  refine ⟨Response.dumpText (m.load rom).2.snapshot colors (Response.codeRegion l.report), ?_, ?_⟩
  · unfold Response.dump
    rw [← hfresh]
    split
    · next he =>
      rw [he] at hresult
      cases hresult
    · next loaded n he =>
      rw [he] at hresult
      cases hresult
      rw [hregions, he]
      rfl
  · rw [Dump.readReport_dumpText, hclamp]
    rfl

/-! ## Top theorem -/

/-- A ROM that loads and is dumped without a region. The report shows what the load left in the cells
from the start of the code on, up to the end of the code or of memory; for code that is no longer than
memory these are the bytes in front of the end. So the code is shown whole if and only if it does not
run over the end of memory. -/
theorem dump_shows_code_iff {args : List String} {f : Format} {rom : String} {o : DumpOptions}
    {w : Workplace} {loaded : Rom.Report} (terminal : Bool) (fuel : Nat)
    (hargs : Invocation.read args = .ok ⟨f, .dump rom o⟩) (hregions : o.regions = [])
    (hload : (Machine.load { drive := w.folder o.romDir } rom).1 = .ok loaded) :
    ∃ (l : Rom.Layout) (text : String), image (w.folder o.romDir) rom = .ok l.bytes ∧
      respond args w terminal fuel = some (.report text) ∧
      Dump.readReport text =
        some ((Machine.load { drive := w.folder o.romDir } rom).2.memory.slice
          ⟨l.start.toNat, min (l.start.toNat + l.code.length) memorySize⟩) ∧
      (l.code.length ≤ memorySize →
        Dump.readReport text = some (l.code.take (memorySize - l.start.toNat))) ∧
      (Dump.readReport text = some l.code ↔ l.start.toNat + l.code.length ≤ memorySize) := by
  obtain ⟨l, himage⟩ := exists_layout_of_load hload
  obtain ⟨text, hdump, hshown⟩ := dump_of_layout (m := { drive := w.folder o.romDir }) rfl hregions
    himage (f.colors terminal)
  have hfront : l.code.length ≤ memorySize →
      Dump.readReport text = some (l.code.take (memorySize - l.start.toNat)) := by
    intro hlength
    rw [hshown, slice_load_of_layout himage hlength]
  refine ⟨l, text, himage, ?_, hshown, hfront, ?_, ?_⟩
  · rw [respond_of_dump w hargs]
    exact congrArg some hdump
  · -- otherwise fewer cells are shown than the code has bytes
    intro hcode
    rw [hshown] at hcode
    have hlength := congrArg List.length (Option.some.inj hcode)
    rw [Memory.length_slice _ (Nat.min_le_right _ _)] at hlength
    have hstart := l.start.toNat_lt_memorySize
    omega
  · intro hfit
    rw [hfront (by omega), List.take_of_length_le (by omega)]

/-- A directory with a ROM that has two bytes of code, from the given cell of the last page on. -/
def lastPage (low : Byte) : Workplace where
  tree := FileTree.writeFile {} ["a.rom"] [0xFF, 0xFE, 0xFE, 0xFF, 0x01, 0xFF, low, 0x41, 0x42]
  here := []

theorem read_dump_rom :
    Invocation.read ["dump", "a.rom"] = .ok ⟨{}, .dump "a.rom" { rom := some "a.rom" }⟩ := rfl

/-- Code that ends with memory is shown whole. -/
theorem dump_shows_of_lastPage :
    ∃ text, respond ["dump", "a.rom"] (lastPage 0xFE) false 0 = some (.report text) ∧
      Dump.readReport text = some [0x41, 0x42] := by
  have himage : image ((lastPage 0xFE).folder none) "a.rom" =
      .ok (Rom.Layout.bytes ⟨none, [0xFF, 0xFE, 0x41, 0x42]⟩) := rfl
  have hload : (Machine.load { drive := (lastPage 0xFE).folder none } "a.rom").1 =
      .ok ⟨2, 2, 0xFFFE⟩ := by
    rw [Machine.result_load_of_image_ok himage]
    rfl
  obtain ⟨l, text, hl, hrespond, -, -, hwhole⟩ :=
    dump_shows_code_iff false 0 read_dump_rom rfl hload
  replace hl : Except.ok _ = Except.ok _ := himage.symm.trans hl
  obtain rfl := Rom.Layout.bytes_injective (Except.ok.inj hl)
  exact ⟨text, hrespond, hwhole.mpr (by decide)⟩

/-- Of code that starts in the last cell only the byte there is shown, though the other one was loaded
into the first cell. -/
theorem exists_code_not_shown :
    ∃ (l : Rom.Layout) (text : String), image ((lastPage 0xFF).folder none) "a.rom" = .ok l.bytes ∧
      (Machine.load { drive := (lastPage 0xFF).folder none } "a.rom").1 = .ok ⟨2, 2, 0xFFFF⟩ ∧
      respond ["dump", "a.rom"] (lastPage 0xFF) false 0 = some (.report text) ∧
      l.code = [0x41, 0x42] ∧ Dump.readReport text = some [0x41] := by
  have himage : image ((lastPage 0xFF).folder none) "a.rom" =
      .ok (Rom.Layout.bytes ⟨none, [0xFF, 0xFF, 0x41, 0x42]⟩) := rfl
  obtain ⟨text, hdump, hshown⟩ := dump_of_layout (m := { drive := (lastPage 0xFF).folder none })
    (o := { rom := "a.rom" }) rfl rfl himage false
  refine ⟨_, text, himage, ?_, ?_, rfl, ?_⟩
  · rw [Machine.result_load_of_image_ok himage]
    rfl
  · rw [respond_of_dump _ read_dump_rom]
    exact congrArg some hdump
  · rw [hshown, slice_load_of_layout himage (by decide)]
    rfl

end Tis80
