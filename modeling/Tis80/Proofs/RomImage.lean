import Tis80.Drive.Shelf
import Tis80.Proofs.Execution

/-!
# Reading back the image of a ROM

Reading an image gives back what it was made from, section by section: a header is gone past, an entry
is read off the front of whatever follows it, and so are all entries up to the one that ends them.

    Cursor.entry ⟨e.image ++ rest, k⟩ = (some e, ⟨rest, k + e.image.length⟩)          (entry_image)
    Rom.read (rom.image a) = ⟨rom.writes, .ok rom.report⟩                             (read_image)

A text that holds a NUL would end early, so texts are free of it. Nothing else is asked: entries may
overlap, and run past the end of memory to its start.
-/

namespace Tis80

namespace Rom

def Entry.NulFree : Entry → Prop
  | .number _ _ => True
  | .text _ bytes => 0 ∉ bytes

def NulFree (rom : Rom) : Prop := ∀ e ∈ rom.data.getD [], e.NulFree

/-- The bytes an entry puts into memory. -/
def Entry.payload : Entry → List Byte
  | .number _ v => [v]
  | .text _ bytes => bytes

/-- All bytes a ROM puts into memory: numbers, texts and code. -/
def payload (rom : Rom) : List Byte := (rom.data.getD []).flatMap Entry.payload ++ rom.code

/-- What a load of the ROM reports. -/
def report (rom : Rom) : Report := ⟨rom.payload.length, rom.code.length, rom.start⟩

/-! ## Lemmas -/

theorem Entry.length_writes (e : Entry) : e.writes.length = e.payload.length := by
  cases e with
  | number a v => rfl
  | text a bytes => exact length_consecutive a bytes

theorem length_flatMap_writes (es : List Entry) :
    (es.flatMap Entry.writes).length = (es.flatMap Entry.payload).length := by
  induction es with
  | nil => rfl
  | cons e es ih =>
    rw [List.flatMap_cons, List.flatMap_cons, List.length_append, List.length_append, ih,
      Entry.length_writes]

namespace Cursor

theorem byteAt_cons (b : Byte) (rest : List Byte) (k : Nat) : byteAt ⟨b :: rest, k⟩ 0 = b := rfl

theorem skip_cons (b : Byte) (rest : List Byte) (k : Nat) :
    skip ⟨b :: rest, k⟩ 1 = ⟨rest, k + 1⟩ := rfl

theorem expect_append (bs rest : List Byte) (k : Nat) :
    expect ⟨bs ++ rest, k⟩ bs = .ok ⟨rest, k + bs.length⟩ := by
  induction bs generalizing k with
  | nil => rfl
  | cons b bs ih =>
    rw [List.cons_append, expect, byteAt_cons, if_pos rfl, skip_cons, ih, List.length_cons,
      Nat.add_right_comm, Nat.add_assoc]

theorem takeWhile_append_of_notMem {bytes : List Byte} (h : 0 ∉ bytes) (more : List Byte) :
    (bytes ++ more).takeWhile (· ≠ 0) = bytes ++ more.takeWhile (· ≠ 0) := by
  apply List.takeWhile_append_of_pos
  intro b hb
  simp only [decide_eq_true_eq]
  rintro rfl
  exact h hb

/-- A text ends at its NUL, not earlier and not later. -/
theorem takeWhile_append_nul {bytes : List Byte} (h : 0 ∉ bytes) (rest : List Byte) :
    (bytes ++ 0 :: rest).takeWhile (· ≠ 0) = bytes := by
  rw [takeWhile_append_of_notMem h]
  simp

theorem entry_image {e : Entry} (h : e.NulFree) (rest : List Byte) (k : Nat) :
    entry ⟨e.image ++ rest, k⟩ = (some e, ⟨rest, k + e.image.length⟩) := by
  cases e with
  | number a v =>
    have hshape : (Entry.number a v).image ++ rest = a.high :: a.low :: numberEntry :: v :: rest := rfl
    have haddress : addressAt ⟨a.high :: a.low :: numberEntry :: v :: rest, k⟩ 0 = a :=
      Address.ofBytes_high_low a
    rw [hshape, entry, haddress]
    rfl
  | text a bytes =>
    have hshape : (Entry.text a bytes).image ++ rest =
        a.high :: a.low :: textEntry :: (bytes ++ 0 :: rest) := by
      simp [Entry.image, Address.bytes]
    have hlength : (Entry.text a bytes).image.length = 3 + bytes.length + 1 := by
      simp [Entry.image, Address.bytes]
      omega
    rw [hshape, hlength]
    obtain ⟨c, hc⟩ : ∃ c : Cursor, c = ⟨a.high :: a.low :: textEntry :: (bytes ++ 0 :: rest), k⟩ :=
      ⟨_, rfl⟩
    have haddress : c.addressAt 0 = a := hc ▸ Address.ofBytes_high_low a
    have hkind : c.byteAt 2 = textEntry := hc ▸ rfl
    have htext : (c.rest.drop 3).takeWhile (· ≠ 0) = bytes := hc ▸ takeWhile_append_nul h rest
    have hend : (c.skip 3).skip bytes.length = ⟨0 :: rest, k + (3 + bytes.length)⟩ := by
      simp [hc, skip, Nat.add_assoc]
    rw [← hc, entry, haddress, hkind, if_neg (by decide), if_pos rfl, htext]
    show (some (Entry.text a bytes), ((c.skip 3).skip bytes.length).skipNul) = _
    rw [hend]
    rfl

/-- What is neither a number nor a text ends the data section. -/
theorem entry_end {kind : Byte} (h : kind ≠ numberEntry ∧ kind ≠ textEntry) (a : Address)
    (rest : List Byte) (k : Nat) :
    entry ⟨a.bytes ++ [kind] ++ rest, k⟩ = (none, ⟨rest, k + 3⟩) := by
  have hkind : byteAt ⟨a.bytes ++ [kind] ++ rest, k⟩ 2 = kind := rfl
  rw [entry, hkind, if_neg h.1, if_neg h.2]
  rfl

theorem entries_of_nil {c : Cursor} (h : c.rest = []) : c.entries = ([], c) := by
  rw [entries, entriesOnto, dif_pos h, List.reverse_nil]

theorem entriesOnto_of_none {c c' : Cursor} (hne : c.rest ≠ []) (h : c.entry = (none, c'))
    (done : List Entry) : entriesOnto done c = (done.reverse, c') := by
  rw [entriesOnto, dif_neg hne]
  simp only [h]

theorem entriesOnto_of_some {c c' : Cursor} {e : Entry} (hne : c.rest ≠ [])
    (h : c.entry = (some e, c')) (done : List Entry) :
    entriesOnto done c = entriesOnto (e :: done) c' := by
  rw [entriesOnto, dif_neg hne]
  simp only [h]

/-- Entries that are all there are read one after the other. -/
theorem entriesOnto_append {es : List Entry} (h : ∀ e ∈ es, e.NulFree) (done : List Entry)
    (rest : List Byte) (k : Nat) :
    ∃ k', entriesOnto done ⟨es.flatMap Entry.image ++ rest, k⟩ =
      entriesOnto (es.reverse ++ done) ⟨rest, k'⟩ := by
  induction es generalizing done k with
  | nil => exact ⟨k, rfl⟩
  | cons e es ih =>
    obtain ⟨he, hes⟩ := List.forall_mem_cons.mp h
    obtain ⟨k', hrest⟩ := ih hes (e :: done) (k + e.image.length)
    refine ⟨k', ?_⟩
    have hne : e.image ++ (es.flatMap Entry.image ++ rest) ≠ [] := by
      cases e <;> exact List.cons_ne_nil _ _
    have hentry := entry_image he (es.flatMap Entry.image ++ rest) k
    rw [List.flatMap_cons, List.append_assoc, entriesOnto_of_some hne hentry, hrest,
      List.reverse_cons, List.append_assoc, List.singleton_append]

theorem entriesOnto_images {es : List Entry} (h : ∀ e ∈ es, e.NulFree) {kind : Byte}
    (hkind : kind ≠ numberEntry ∧ kind ≠ textEntry) (done : List Entry) (a : Address)
    (rest : List Byte) (k : Nat) :
    ∃ k', entriesOnto done ⟨es.flatMap Entry.image ++ (a.bytes ++ [kind] ++ rest), k⟩ =
      (done.reverse ++ es, ⟨rest, k'⟩) := by
  obtain ⟨k', hes⟩ := entriesOnto_append h done (a.bytes ++ [kind] ++ rest) k
  refine ⟨k' + 3, ?_⟩
  rw [hes, entriesOnto_of_none (List.cons_ne_nil _ _) (entry_end hkind a rest k'),
    List.reverse_append, List.reverse_reverse]

end Cursor

theorem readCode_image (rom : Rom) (writes : List (Address × Byte)) (k : Nat) :
    readCode writes ⟨rom.start.bytes ++ rom.code, k⟩ =
      ⟨writes ++ consecutive rom.start rom.code,
        .ok ⟨writes.length + rom.code.length, rom.code.length, rom.start⟩⟩ := by
  have hstart : Cursor.addressAt ⟨rom.start.bytes ++ rom.code, k⟩ 0 = rom.start :=
    Address.ofBytes_high_low rom.start
  rw [readCode, hstart]
  rfl

theorem codeImage_eq (rom : Rom) :
    rom.codeImage = header ++ codeSection :: (rom.start.bytes ++ rom.code) := by
  simp only [codeImage, List.append_assoc, List.cons_append, List.nil_append]

theorem read_code (tail : List Byte) :
    read (header ++ codeSection :: tail) = readCode [] ⟨tail, 0⟩ := by
  have hkind : codeSection ≠ dataSection := by decide
  simp only [read, Cursor.expect_append, Cursor.byteAt_cons, Cursor.skip_cons, hkind, if_false,
    if_true]
  rfl

theorem read_of_data (tail : List Byte) :
    read (header ++ dataSection :: tail) = readData ⟨tail, 5⟩ := by
  simp only [read, Cursor.expect_append]
  rfl

theorem readData_of_code {c d : Cursor} {es : List Entry} {tail : List Byte}
    (h : c.entries = (es, d)) (hd : d.rest = header ++ codeSection :: tail) :
    readData c = readCode (es.flatMap Entry.writes) ⟨tail, 0⟩ := by
  obtain ⟨bytes, k⟩ := d
  obtain rfl : bytes = header ++ codeSection :: tail := hd
  simp only [readData, h, Cursor.expect_append]
  rfl

/-- A data section is read to its end, and the code section behind it to the end of the image. -/
theorem read_data {es : List Entry} (h : ∀ e ∈ es, e.NulFree) {kind : Byte}
    (hkind : kind ≠ numberEntry ∧ kind ≠ textEntry) (a : Address) (tail : List Byte) :
    read (header ++ dataSection ::
        (es.flatMap Entry.image ++ (a.bytes ++ [kind] ++ (header ++ codeSection :: tail)))) =
      readCode (es.flatMap Entry.writes) ⟨tail, 0⟩ := by
  obtain ⟨k, hentries⟩ := Cursor.entriesOnto_images h hkind [] a (header ++ codeSection :: tail) 5
  rw [read_of_data, readData_of_code hentries rfl]
  rfl

theorem read_image {rom : Rom} (h : rom.NulFree) (a : Address) :
    read (rom.image a) = ⟨rom.writes, .ok rom.report⟩ := by
  obtain ⟨data, start, code⟩ := rom
  cases data with
  | none =>
    have himage : image ⟨none, start, code⟩ a = header ++ codeSection :: (start.bytes ++ code) :=
      codeImage_eq _
    rw [himage, read_code, readCode_image ⟨none, start, code⟩]
    simp [writes, report, payload]
  | some es =>
    have himage : image ⟨some es, start, code⟩ a = header ++ dataSection ::
        (es.flatMap Entry.image ++ (a.bytes ++ [endEntry] ++
          (header ++ codeSection :: (start.bytes ++ code)))) := by
      simp only [image, codeImage_eq, List.append_assoc, List.cons_append, List.nil_append]
    have hfree : ∀ e ∈ es, e.NulFree := h
    rw [himage, read_data hfree (by decide), readCode_image ⟨some es, start, code⟩]
    simp only [writes, report, payload, Option.getD_some, List.length_append,
      length_flatMap_writes]

end Rom

namespace Machine

variable {σ : Type} [ByteSource σ]

theorem loadWrites_of_image {m : Machine σ} {rom : Rom} {a : Address} {name : String} {opened : σ}
    (h : rom.NulFree) (hopen : ByteSource.openRom m.drive name = (.ok (), opened))
    (himage : (ByteSource.drain opened).1 = rom.image a) : m.loadWrites name = rom.writes := by
  rw [loadWrites, hopen]
  simp only [himage, Rom.read_image h]

theorem result_load_of_image {m : Machine σ} {rom : Rom} {a : Address} {name : String} {opened : σ}
    (h : rom.NulFree) (hopen : ByteSource.openRom m.drive name = (.ok (), opened))
    (himage : (ByteSource.drain opened).1 = rom.image a) : (m.load name).1 = .ok rom.report := by
  simp only [load, hopen, himage, Rom.read_image h]
  rfl

/-- Every ROM can be loaded by a fresh machine. -/
theorem exists_loaded {rom : Rom} (h : rom.NulFree) :
    ∃ m : Machine Shelf, Reachable m ∧ m.registers = {} ∧
      ∀ c, m.memory.read c = (rom.writes.reverse.lookup c).getD 0 := by
  obtain ⟨drive, hdrive⟩ : ∃ drive : Shelf, drive = { images := [("rom", rom.image)] } := ⟨_, rfl⟩
  have hopen : ByteSource.openRom drive "rom" = (.ok (), { drive with unread := rom.image }) := by
    rw [hdrive]
    rfl
  have hwrites : loadWrites { drive := drive } "rom" = rom.writes :=
    loadWrites_of_image h hopen (by rw [Shelf.drain_eq])
  refine ⟨(load { drive := drive } "rom").2, .event (.load "rom") (.fresh drive),
    registers_load _ _, ?_⟩
  intro c
  rw [memory_load, hwrites, Memory.read_writeAll, Memory.read_blank]

/-- If the code of a ROM enables interrupts first, a machine gets behind that. -/
theorem exists_enabled {rom : Rom} (h : rom.NulFree)
    (hcode : (rom.writes.reverse.lookup MemoryMap.kernelOrigin).getD 0 = Opcode.ein.toByte) :
    ∃ m : Machine Shelf, Reachable m ∧
      m.registers = { pc := 0x0201, mode := { interruptible := true } } ∧
      ∀ c, m.memory.read c = (rom.writes.reverse.lookup c).getD 0 := by
  obtain ⟨m, hm, hregisters, hread⟩ := exists_loaded h
  have hein : m.nextInstruction? = some .ein :=
    nextInstruction?_of_fresh .ein hregisters ((hread MemoryMap.kernelOrigin).trans hcode)
  refine ⟨m.step.2, .event .step hm, ?_, ?_⟩
  · rw [step_snd hein]
    simp only [execute, setMode, advance, hregisters]
    rfl
  · intro c
    rw [step_snd hein]
    exact hread c

/-! ## Top theorem -/

/-- Loading the image of a ROM succeeds, whatever was in memory: the entries and then the code are
written in order, the last write to a cell wins, and the report counts the bytes. -/
theorem load_image {m : Machine σ} {rom : Rom} {a : Address} {name : String} {opened : σ}
    (h : rom.NulFree) (hopen : ByteSource.openRom m.drive name = (.ok (), opened))
    (himage : (ByteSource.drain opened).1 = rom.image a) :
    (m.load name).1 = .ok {
      bytesWritten := rom.payload.length
      codeBytes := rom.code.length
      codeStart := rom.start } ∧
    (m.load name).2.memory = m.memory.writeAll rom.writes ∧
    (∀ c, (m.load name).2.memory.read c = (rom.writes.reverse.lookup c).getD (m.memory.read c)) ∧
    (m.load name).2.registers = m.registers := by
  have hmemory : (m.load name).2.memory = m.memory.writeAll rom.writes := by
    rw [memory_load, loadWrites_of_image h hopen himage]
  refine ⟨result_load_of_image h hopen himage, hmemory, ?_, registers_load m name⟩
  intro c
  rw [hmemory, Memory.read_writeAll]

/-- A text that runs over the end of memory, and code over part of it. -/
def wrapping : Rom where
  data := some [.text 0xFFFF [0x41, 0x42], .number 0x0001 7]
  start := 0x0000
  code := [0x50, 0x51]

theorem load_image_of_wrapping :
    ((({ drive := { images := [("w", wrapping.image 9)] } } : Machine Shelf).load "w").1 =
      .ok ⟨5, 2, 0x0000⟩) ∧
    (({ drive := { images := [("w", wrapping.image 9)] } } : Machine Shelf).load "w").2.memory.read
      0xFFFF = 0x41 ∧
    (({ drive := { images := [("w", wrapping.image 9)] } } : Machine Shelf).load "w").2.memory.read
      0x0000 = 0x50 := by
  have hfree : wrapping.NulFree := by
    simp [Rom.NulFree, wrapping, Rom.Entry.NulFree]
  have hopen : ByteSource.openRom ({ images := [("w", wrapping.image 9)] } : Shelf) "w" =
      (.ok (), ⟨[("w", wrapping.image 9)], wrapping.image 9⟩) := rfl
  obtain ⟨hresult, -, hread, -⟩ := @load_image Shelf _
    { drive := { images := [("w", wrapping.image 9)] } } wrapping 9 "w" _ hfree hopen
    (by rw [Shelf.drain_eq])
  refine ⟨hresult, ?_, ?_⟩
  · rw [hread]
    rfl
  · rw [hread]
    rfl

end Machine

end Tis80
