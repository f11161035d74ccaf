import Tis80.Proofs.Interference
import Tis80.Proofs.RomTruncation

/-!
# Where the first defect is

The offset in a defect counts the bytes that were asked for, and a byte that is missing is asked for
like any other. So the count runs on where the image has ended. It is still a place in the image,
since nothing is left there either:

    c.rest = image.drop c.offset                                                     (Cursor.At)

A data section asks for at most two bytes too many, those of an entry that the image ends in, and the
header behind it fails at its first byte then. An image with a defect therefore has all that stands in
front of the defect, and the defect says what is found in its place:

    (read image).result = .error defect  →  ∃ place, FirstDefect image place defect  (firstDefect_of_read)
-/

namespace Tis80

namespace Rom

/-- The places where a header is due: the front of the image, and what is behind its data section. If
the image ends in the data section, that is its end, or up to two bytes past it. -/
inductive HeaderDue (image : List Byte) : Nat → Prop
  | front : HeaderDue image 0
  | behind (d : DataPart) (rest : List Byte)
      (himage : image = header ++ dataSection :: (d.bytes ++ rest)) :
      HeaderDue image (5 + d.bytes.length)
  | pastEnd {k : Nat} (hheader : header <+: image) (hkind : image.getD 4 0 = dataSection)
      (hends : ∀ (d : DataPart) (rest : List Byte),
        image = header ++ dataSection :: (d.bytes ++ rest) → rest = [])
      (hpast : image.length ≤ k) (hle : k ≤ image.length + 2) : HeaderDue image k

/-- The header that is due at a place is not there or has the wrong kind behind it. All that stands in
front of the byte the defect names is as it should be. -/
inductive FirstDefect (image : List Byte) (place : Nat) : Defect → Prop
  | header {j : Nat} {expected : Byte} (hdue : HeaderDue image place)
      (hexpected : Rom.header[j]? = some expected)
      (hbefore : Rom.header.take j <+: image.drop place)
      (hfound : image.getD (place + j) 0 ≠ expected) :
      FirstDefect image place (.header (place + j) expected (image.getD (place + j) 0))
  | sectionKind (hdue : HeaderDue image place) (hbefore : Rom.header <+: image.drop place)
      (hcode : image.getD (place + 4) 0 ≠ codeSection)
      (hdata : place = 0 → image.getD (place + 4) 0 ≠ dataSection) :
      FirstDefect image place (.sectionKind (image.getD (place + 4) 0))

theorem HeaderDue.le {image : List Byte} {k : Nat} (h : HeaderDue image k) :
    k ≤ image.length + 2 := by
  cases h with
  | front => exact Nat.zero_le _
  | behind d rest himage =>
    have hlength := congrArg List.length himage
    simp only [header, List.length_append, List.length_cons, List.length_nil] at hlength
    omega
  | pastEnd _ _ _ _ hle => exact hle

/-- Past the end of the image the defect is in the first byte of a header. -/
theorem FirstDefect.offset_le {image : List Byte} {place offset : Nat} {expected found : Byte}
    (h : FirstDefect image place (.header offset expected found)) : offset ≤ image.length + 2 := by
  cases h with
  | header hdue hexpected hbefore _ =>
    have hplace := hdue.le
    have hj := (List.getElem?_eq_some_iff.mp hexpected).1
    have hlength := hbefore.length_le
    rw [List.length_take, List.length_drop] at hlength
    omega

namespace Cursor

/-- The cursor stands in the image at its offset, or past the end of both. -/
def At (c : Cursor) (image : List Byte) : Prop := c.rest = image.drop c.offset

variable {c : Cursor} {image : List Byte}

theorem At.byteAt_eq (h : c.At image) (i : Nat) : c.byteAt i = image.getD (c.offset + i) 0 := by
  rw [byteAt, h, List.getD_eq_getElem?_getD, List.getD_eq_getElem?_getD, List.getElem?_drop]

theorem At.skip (h : c.At image) (n : Nat) : (c.skip n).At image := by
  show c.rest.drop n = image.drop (c.offset + n)
  rw [h, List.drop_drop]

theorem At.length_rest (h : c.At image) : c.rest.length = image.length - c.offset := by
  rw [h, List.length_drop]

/-! ## Headers -/

theorem eq_skip_of_expect {bs : List Byte} {d : Cursor} (h : c.expect bs = .ok d) :
    d = c.skip bs.length := by
  induction bs generalizing c with
  | nil =>
    cases h
    rfl
  | cons b bs ih =>
    rw [expect] at h
    split at h
    · rw [ih h, skip, skip, skip, List.drop_drop, List.length_cons, Nat.add_comm bs.length,
        Nat.add_assoc]
    · cases h

/-- Bytes that are expected and hold no zero fail at the first one that differs, and those in front of
it are all there. -/
theorem At.expect_error {bs : List Byte} (hbs : 0 ∉ bs) {defect : Defect} (hat : c.At image)
    (h : c.expect bs = .error defect) :
    ∃ (j : Nat) (expected : Byte), bs[j]? = some expected ∧ bs.take j <+: image.drop c.offset ∧
      image.getD (c.offset + j) 0 ≠ expected ∧
      defect = .header (c.offset + j) expected (image.getD (c.offset + j) 0) := by
  induction bs generalizing c with
  | nil => cases h
  | cons b bs ih =>
    rw [List.mem_cons, not_or] at hbs
    rw [expect] at h
    split at h
    · next hb =>
      obtain ⟨j, expected, hj, hbefore, hne, hdefect⟩ := ih hbs.2 (hat.skip 1) h
      have hoffset : (c.skip 1).offset + j = c.offset + (j + 1) := by
        show c.offset + 1 + j = _
        omega
      rw [hoffset] at hne hdefect
      refine ⟨j + 1, expected, hj, ?_, hne, hdefect⟩
      rw [← hat, rest_of_byteAt hb (Ne.symm hbs.1), List.take_succ_cons, hat.skip 1]
      exact (List.prefix_cons_inj b).mpr hbefore
    · next hb =>
      cases h
      rw [hat.byteAt_eq] at hb ⊢
      exact ⟨0, b, rfl, List.nil_prefix, hb, rfl⟩

theorem At.firstDefect_header {defect : Defect} (hat : c.At image)
    (hdue : HeaderDue image c.offset) (h : c.expect header = .error defect) :
    FirstDefect image c.offset defect := by
  obtain ⟨j, expected, hexpected, hbefore, hne, rfl⟩ := hat.expect_error zero_notMem_header h
  exact .header hdue hexpected hbefore hne

/-- Behind a header stands the kind of a section. -/
theorem At.of_expect_header {d : Cursor} (hat : c.At image) (h : c.expect header = .ok d) :
    header <+: image.drop c.offset ∧ d.byteAt 0 = image.getD (c.offset + 4) 0 := by
  refine ⟨?_, ?_⟩
  · rw [← hat, rest_of_expect zero_notMem_header h]
    exact List.prefix_append _ _
  · rw [eq_skip_of_expect h, (hat.skip _).byteAt_eq]
    rfl

/-! ## Entries -/

theorem At.skipNul (h : c.At image) : c.skipNul.At image := by
  unfold Cursor.skipNul
  split
  · exact h
  · exact h.skip 1

theorem At.entry (h : c.At image) : c.entry.2.At image := by
  unfold Cursor.entry
  dsimp only
  split
  · exact h.skip 4
  · split
    · exact ((h.skip 3).skip _).skipNul
    · exact h.skip 3

/-- An entry has at least its kind, unless there is less left than that. -/
theorem offset_entry_le (hne : c.rest ≠ []) : c.entry.2.offset ≤ c.offset + c.rest.length + 2 := by
  obtain ⟨bytes, k⟩ := c
  have hpos := List.length_pos_iff.mpr hne
  cases front bytes with
  | entry h rest =>
    rw [entry_image h, List.length_append]
    dsimp only
    omega
  | last a h rest =>
    rw [entry_end h, List.length_append]
    simp only [Address.bytes, List.length_append, List.length_cons, List.length_nil]
    omega
  | noKind h =>
    rw [entry_noKind h]
    dsimp only at hpos ⊢
    omega
  | noValue a =>
    rw [entry_noValue]
    show k + 4 ≤ k + 3 + 2
    omega
  | noNul a h =>
    rw [entry_noNul h, List.length_append]
    simp only [Address.bytes, List.length_append, List.length_cons, List.length_nil]
    omega

theorem At.entriesOnto (done : List Entry) (h : c.At image) (hle : c.offset ≤ image.length + 2) :
    (entriesOnto done c).2.At image ∧ (entriesOnto done c).2.offset ≤ image.length + 2 := by
  -- an entry that starts in the image ends at most two bytes past it
  have hentry : ∀ c : Cursor, c.rest ≠ [] → c.At image → c.entry.2.offset ≤ image.length + 2 := by
    intro c hne h
    have hpos := List.length_pos_iff.mpr hne
    have hend := offset_entry_le hne
    have hlength := h.length_rest
    omega
  fun_induction Cursor.entriesOnto done c with
  | case1 done c hnil => exact ⟨h, hle⟩
  | case2 done c hne _ _ => exact ⟨h.entry, hentry c hne h⟩
  | case3 done c hne _ e _ ih => exact ih h.entry (hentry c hne h)

end Cursor

/-! ## Sections -/

theorem eq_append_of_dataSection {image : List Byte} (hheader : header <+: image)
    (hkind : image.getD 4 0 = dataSection) (hne : image.drop 5 ≠ []) :
    image = header ++ dataSection :: image.drop 5 := by
  obtain ⟨behind, rfl⟩ := hheader
  cases behind with
  | nil => exact absurd rfl hne
  | cons kind tail =>
    obtain rfl : kind = dataSection := hkind
    rfl

/-- A data section ends where the next header is due. -/
theorem headerDue_entries {image : List Byte} (hheader : header <+: image)
    (hkind : image.getD 4 0 = dataSection) {c : Cursor}
    (hc : (Cursor.entries ⟨image.drop 5, 5⟩).2 = c) :
    c.At image ∧ HeaderDue image c.offset ∧ 4 ≤ c.offset := by
  have hfour : 4 ≤ image.length := hheader.length_le
  have hstart : Cursor.At ⟨image.drop 5, 5⟩ image := rfl
  obtain ⟨hat, hle⟩ := hstart.entriesOnto [] (by show 5 ≤ _; omega)
  rw [← Cursor.entries, hc] at hat hle
  have hleft := hat.length_rest
  refine ⟨hat, ?_⟩
  by_cases hnil : c.rest = []
  · -- nothing is left, so the offset is past the end
    rw [hnil, List.length_nil] at hleft
    have hpast : image.length ≤ c.offset := by omega
    refine ⟨.pastEnd hheader hkind ?_ hpast hle, by omega⟩
    rintro d rest rfl
    obtain ⟨k, hentries⟩ := d.entries_bytes rest 5
    replace hc : (Cursor.entries ⟨d.bytes ++ rest, 5⟩).2 = c := hc
    rw [hentries] at hc
    rw [← hnil, ← hc]
  · -- something is left, so the data section is all there
    obtain ⟨d, hd⟩ : ∃ d : DataPart, image.drop 5 = d.bytes ++ c.rest := by
      rw [← hc] at hnil ⊢
      exact Cursor.rest_of_entriesOnto hnil
    have himage : image = header ++ dataSection :: (d.bytes ++ c.rest) := by
      rw [← hd]
      apply eq_append_of_dataSection hheader hkind
      rw [hd]
      exact List.append_ne_nil_of_right_ne_nil _ hnil
    have hoffset : c.offset = 5 + d.bytes.length := by
      have hpos := List.length_pos_iff.mpr hnil
      have hlength := congrArg List.length hd
      rw [List.length_drop, List.length_append] at hlength
      omega
    rw [hoffset]
    exact ⟨.behind d c.rest himage, by omega⟩

theorem firstDefect_of_readData {image : List Byte} {defect : Defect} (hheader : header <+: image)
    (hkind : image.getD 4 0 = dataSection)
    (h : (readData ⟨image.drop 5, 5⟩).result = .error defect) :
    ∃ place, FirstDefect image place defect ∧ place ≠ 0 := by
  obtain ⟨c, hc⟩ : ∃ c, (Cursor.entries ⟨image.drop 5, 5⟩).2 = c := ⟨_, rfl⟩
  obtain ⟨hat, hdue, hfour⟩ := headerDue_entries hheader hkind hc
  refine ⟨c.offset, ?_, by omega⟩
  cases hexpect : c.expect header with
  | error e =>
    simp only [readData, hc, hexpect] at h
    cases h
    exact hat.firstDefect_header hdue hexpect
  | ok d =>
    obtain ⟨hbefore, hbyte⟩ := hat.of_expect_header hexpect
    simp only [readData, hc, hexpect, hbyte] at h
    split at h
    · cases h
    · next hcode =>
      cases h
      exact .sectionKind hdue hbefore hcode (by omega)

theorem firstDefect_of_read {image : List Byte} {defect : Defect}
    (h : (read image).result = .error defect) :
    ∃ place, FirstDefect image place defect ∧ (place = 0 → (read image).writes = []) := by
  have hat : Cursor.At ⟨image, 0⟩ image := rfl
  cases hexpect : Cursor.expect ⟨image, 0⟩ header with
  | error e =>
    simp only [read, hexpect] at h ⊢
    cases h
    exact ⟨0, hat.firstDefect_header .front hexpect, fun _ => trivial⟩
  | ok d =>
    obtain ⟨hbefore, hbyte⟩ := hat.of_expect_header hexpect
    have hskip : d.skip 1 = ⟨image.drop 5, 5⟩ := by
      rw [Cursor.eq_skip_of_expect hexpect, Cursor.skip, Cursor.skip, List.drop_drop]
      rfl
    simp only [read, hexpect, hbyte, hskip] at h ⊢
    split at h
    · next hdata =>
      obtain ⟨place, hdefect, hplace⟩ := firstDefect_of_readData hbefore hdata h
      exact ⟨place, hdefect, fun hzero => absurd hzero hplace⟩
    · next hdata =>
      split at h
      · cases h
      · next hcode =>
        cases h
        refine ⟨0, .sectionKind .front hbefore hcode fun _ => hdata, fun _ => ?_⟩
        rw [if_neg hdata, if_neg hcode]

end Rom

namespace Machine

open ByteSource ImageDrive

variable {σ : Type} [ByteSource σ] [ImageDrive σ] [RomStore σ]

/-! ## Top theorem -/

/-- A load that fails changes no register. Either the ROM cannot be opened, and nothing changes at
all, or its image has a defect and that is the one reported. Nothing is written if the defect is in
the header at the front or in the kind behind it, and the drive is closed. -/
theorem load_error_names_firstDefect {m : Machine σ} {name : String} {fault : LoadFault}
    (h : (m.load name).1 = .error fault) :
    (m.load name).2.registers = m.registers ∧
    ((∃ cause, openRom m.drive name = (.error cause, m.drive) ∧ fault = .unreadable name cause ∧
        (m.load name).2 = m) ∨
      ∃ opened bytes place defect, openRom m.drive name = (.ok (), opened) ∧
        image m.drive name = .ok bytes ∧ fault = .malformed defect ∧
        Rom.FirstDefect bytes place defect ∧
        (∀ offset expected found, defect = .header offset expected found →
          offset ≤ bytes.length + 2) ∧
        (place = 0 → (m.load name).2.memory = m.memory) ∧
        (m.load name).2.drive = close (drain opened).2 ∧ atEnd (m.load name).2.drive = true) := by
  refine ⟨registers_load m name, ?_⟩
  cases himage : image m.drive name with
  | error cause =>
    left
    have hload := load_of_image_error himage
    rw [hload] at h ⊢
    cases h
    exact ⟨cause, openRom_of_image_error himage, rfl, rfl⟩
  | ok bytes =>
    right
    obtain ⟨opened, hopen, -, -⟩ := openRom_of_image_ok himage
    have hdrive : (m.load name).2.drive = close (drain opened).2 := by
      simp only [load, hopen]
    rw [result_load_of_image_ok himage] at h
    cases hread : (Rom.read bytes).result with
    | ok report =>
      rw [hread] at h
      cases h
    | error defect =>
      rw [hread] at h
      cases h
      obtain ⟨place, hdefect, hwrites⟩ := Rom.firstDefect_of_read hread
      refine ⟨opened, bytes, place, defect, hopen, rfl, rfl, hdefect, ?_, ?_, hdrive, ?_⟩
      · rintro offset expected found rfl
        exact hdefect.offset_le
      · intro hplace
        rw [memory_load, loadWrites_of_image_ok himage, hwrites hplace, Memory.writeAll_nil]
      · rw [hdrive, ← RomStore.left_eq_zero_iff, RomStore.left_close]

/-- A number, and the first byte of an entry behind it. -/
def stub : List Byte := Rom.header ++ Rom.dataSection :: [0x03, 0x00, Rom.numberEntry, 7, 0x03]

/-- The address and the kind of the entry are asked for, so the header is missed two bytes past the
end. The number stays in memory. -/
theorem load_error_names_of_stub :
    let m : Machine Shelf := { drive := { images := [("s", stub)] } }
    (m.load "s").1 = .error (.malformed (.header 12 0xFF 0)) ∧ stub.length = 10 ∧
      (∃ place, place ≠ 0 ∧ Rom.FirstDefect stub place (.header 12 0xFF 0)) ∧
      (m.load "s").2.memory.read 0x0300 = 7 ∧ atEnd (m.load "s").2.drive = true := by
  intro m
  have himage : image m.drive "s" = .ok stub := rfl
  have hnumber : Rom.Cursor.entry ⟨[0x03, 0x00, Rom.numberEntry, 7, 0x03], 5⟩ =
      (some (.number 0x0300 7), ⟨[0x03], 9⟩) := rfl
  have hentries : Rom.Cursor.entries ⟨[0x03, 0x00, Rom.numberEntry, 7, 0x03], 5⟩ =
      ([.number 0x0300 7], ⟨[], 12⟩) := by
    rw [Rom.Cursor.entries_of_some (List.cons_ne_nil _ _) hnumber,
      Rom.Cursor.entries_of_none (List.cons_ne_nil _ _) (Rom.Cursor.entry_noKind (by decide) 9)]
  have hread : Rom.read stub = ⟨[(0x0300, 7)], .error (.header 12 0xFF 0)⟩ := by
    rw [stub, Rom.read_of_data, Rom.readData, hentries]
    rfl
  have hload : (m.load "s").1 = .error (.malformed (.header 12 0xFF 0)) := by
    rw [result_load_of_image_ok himage, hread]
    rfl
  have hmemory : (m.load "s").2.memory.read 0x0300 = 7 := by
    rw [memory_load, loadWrites_of_image_ok himage, hread, Memory.read_writeAll]
    rfl
  refine ⟨hload, rfl, ?_⟩
  rcases load_error_names_firstDefect hload with ⟨-, ⟨cause, -, hfault, -⟩ | ⟨opened, bytes, place,
    defect, hopen, hbytes, hfault, hdefect, -, hblank, -, hend⟩⟩
  · cases hfault
  · cases hfault
    cases himage.symm.trans hbytes
    refine ⟨⟨place, ?_, hdefect⟩, hmemory, hend⟩
    intro hplace
    have hzero : m.memory.read 0x0300 = 0 := Memory.read_blank _
    rw [hblank hplace, hzero] at hmemory
    exact absurd hmemory (by decide)

end Machine

end Tis80
