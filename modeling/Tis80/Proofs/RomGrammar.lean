import Tis80.Proofs.RomImage

/-!
# The images that load

A byte that is missing counts as zero, and zero is a kind of section, a kind of entry and the end of
a text. Even so an image that is cut short loads only if the cut lies behind the kind of its code
section: anywhere else the header that has to follow is missing, and a header holds no zero. What
loads is therefore laid out like this, and in one way only:

    image  :=  header 01 tail  |  header 00 entry* address kind header 01 tail

    (read image).result = .ok r  →  ∃ l : Layout, image = l.bytes            (exists_layout_of_read)
    (read l.bytes).result = .ok l.report                                     (result_read_bytes)
    l.bytes = l'.bytes  →  l = l'                                            (Layout.bytes_injective)
-/

namespace Tis80

namespace Rom

/-- A data section: its entries, and the address and kind of what ends them. -/
@[ext]
structure DataPart where
  entries : List Entry
  endAddress : Address
  endKind : Byte
  nulFree : ∀ e ∈ entries, e.NulFree
  endKind_ne : endKind ≠ numberEntry ∧ endKind ≠ textEntry

/-- How the bytes of an image fall into sections. -/
@[ext]
structure Layout where
  data : Option DataPart
  /-- What stands behind the kind of the code section: an address and code, as far as there is any. -/
  tail : List Byte

def DataPart.bytes (d : DataPart) : List Byte :=
  d.entries.flatMap Entry.image ++ d.endAddress.bytes ++ [d.endKind]

namespace Layout

def bytes (l : Layout) : List Byte :=
  match l.data with
  | none => header ++ [codeSection] ++ l.tail
  | some d => header ++ [dataSection] ++ d.bytes ++ header ++ [codeSection] ++ l.tail

/-- The address at the front of the tail; missing bytes are zero. -/
def start (l : Layout) : Address := Address.ofBytes (l.tail.getD 0 0) (l.tail.getD 1 0)

def entries (l : Layout) : List Entry := l.data.elim [] DataPart.entries

def report (l : Layout) : Report where
  bytesWritten := (l.entries.flatMap Entry.payload).length + (l.tail.length - 2)
  codeBytes := l.tail.length - 2
  codeStart := l.start

end Layout

/-! ## Layouts are read -/

theorem Layout.bytes_code (tail : List Byte) :
    bytes ⟨none, tail⟩ = header ++ codeSection :: tail := by
  simp only [bytes, List.append_assoc, List.singleton_append]

theorem Layout.bytes_data (d : DataPart) (tail : List Byte) :
    bytes ⟨some d, tail⟩ = header ++ dataSection :: (d.entries.flatMap Entry.image ++
      (d.endAddress.bytes ++ [d.endKind] ++ (header ++ codeSection :: tail))) := by
  simp only [bytes, DataPart.bytes, List.append_assoc, List.cons_append, List.nil_append]

theorem result_readCode (es : List Entry) (tail : List Byte) :
    (readCode (es.flatMap Entry.writes) ⟨tail, 0⟩).result = .ok {
      bytesWritten := (es.flatMap Entry.payload).length + (tail.length - 2)
      codeBytes := tail.length - 2
      codeStart := Address.ofBytes (tail.getD 0 0) (tail.getD 1 0) } := by
  simp only [readCode, Cursor.length_skip, length_flatMap_writes]
  rfl

theorem result_read_bytes (l : Layout) : (read l.bytes).result = .ok l.report := by
  obtain ⟨data, tail⟩ := l
  cases data with
  | none =>
    rw [Layout.bytes_code, read_code]
    exact result_readCode [] tail
  | some d =>
    rw [Layout.bytes_data, read_data d.nulFree d.endKind_ne]
    exact result_readCode d.entries tail

theorem DataPart.entries_bytes (d : DataPart) (rest : List Byte) (k : Nat) :
    ∃ k', Cursor.entries ⟨d.bytes ++ rest, k⟩ = (d.entries, ⟨rest, k'⟩) := by
  obtain ⟨k', hk⟩ := Cursor.entriesOnto_images d.nulFree d.endKind_ne [] d.endAddress rest k
  refine ⟨k', ?_⟩
  rw [bytes, List.append_assoc, List.append_assoc, ← List.append_assoc _ _ rest]
  exact hk

/-- Reading finds the parts of a data section, so they are determined by its bytes. -/
theorem DataPart.eq_of_append_eq {d d' : DataPart} {rest rest' : List Byte}
    (h : d.bytes ++ rest = d'.bytes ++ rest') : d = d' ∧ rest = rest' := by
  -- the bytes are the same, so reading them gives the same entries and the same rest
  obtain ⟨k, hd⟩ := d.entries_bytes rest 0
  obtain ⟨k', hd'⟩ := d'.entries_bytes rest' 0
  rw [h, hd'] at hd
  simp only [Prod.mk.injEq, Cursor.mk.injEq] at hd
  obtain ⟨hentries, rfl, -⟩ := hd
  have hbytes := List.append_cancel_right h
  rw [DataPart.bytes, DataPart.bytes, hentries, List.append_assoc, List.append_assoc] at hbytes
  have hend := List.append_cancel_left hbytes
  simp only [Address.bytes, List.cons_append, List.nil_append, List.cons.injEq, and_true] at hend
  obtain ⟨hhigh, hlow, hkind⟩ := hend
  have haddress : d.endAddress = d'.endAddress := by
    rw [← Address.ofBytes_high_low d.endAddress, hhigh, hlow, Address.ofBytes_high_low]
  exact ⟨DataPart.ext hentries.symm haddress hkind, rfl⟩

theorem Layout.bytes_injective {l l' : Layout} (h : l.bytes = l'.bytes) : l = l' := by
  obtain ⟨data, tail⟩ := l
  obtain ⟨data', tail'⟩ := l'
  cases data with
  | none =>
    cases data' with
    | none =>
      rw [bytes_code, bytes_code] at h
      simpa using h
    | some d' =>
      rw [bytes_code, bytes_data] at h
      simp [codeSection, dataSection] at h
  | some d =>
    cases data' with
    | none =>
      rw [bytes_code, bytes_data] at h
      simp [codeSection, dataSection] at h
    | some d' =>
      simp only [bytes, List.append_assoc, List.append_cancel_left_eq] at h
      obtain ⟨rfl, htail⟩ := DataPart.eq_of_append_eq h
      simpa using htail

/-! ## What is read is a layout -/

/-- Where the entries go on: with one that is all there, with what ends them, or with as much of an
entry as stands in front of the end of the image. -/
inductive Front : List Byte → Prop
  | entry {e : Entry} (h : e.NulFree) (rest : List Byte) : Front (e.image ++ rest)
  | last (a : Address) {kind : Byte} (h : kind ≠ numberEntry ∧ kind ≠ textEntry)
      (rest : List Byte) : Front (a.bytes ++ [kind] ++ rest)
  | noKind {bytes : List Byte} (h : bytes.length < 3) : Front bytes
  | noValue (a : Address) : Front (a.bytes ++ [numberEntry])
  | noNul (a : Address) {text : List Byte} (h : 0 ∉ text) : Front (a.bytes ++ [textEntry] ++ text)

theorem front (bytes : List Byte) : Front bytes := by
  match bytes with
  | [] | [_] | [_, _] => exact .noKind (by simp)
  | high :: low :: kind :: rest =>
    obtain ⟨a, rfl, rfl⟩ : ∃ a : Address, a.high = high ∧ a.low = low :=
      ⟨Address.ofBytes high low, Address.high_ofBytes high low, Address.low_ofBytes high low⟩
    by_cases hnumber : kind = numberEntry
    · subst hnumber
      cases rest with
      | nil => exact .noValue a
      | cons v rest => exact Front.entry (e := .number a v) trivial rest
    · by_cases htext : kind = textEntry
      · subst htext
        by_cases hnul : 0 ∈ rest
        · obtain ⟨text, behind, rfl, hfree⟩ := List.eq_append_cons_of_mem hnul
          have hfront := Front.entry (e := .text a text) hfree behind
          simpa [Entry.image, Address.bytes] using hfront
        · exact .noNul a hnul
      · exact .last a ⟨hnumber, htext⟩ rest

namespace Cursor

/-- A byte that is not zero is not a missing one. -/
theorem rest_of_byteAt {c : Cursor} {b : Byte} (hb : c.byteAt 0 = b) (h : b ≠ 0) :
    c.rest = b :: (c.skip 1).rest := by
  obtain ⟨rest, k⟩ := c
  cases rest with
  | nil => exact absurd hb.symm h
  | cons x rest =>
    obtain rfl : x = b := hb
    rfl

theorem rest_of_expect {bs : List Byte} (hbs : 0 ∉ bs) {c c' : Cursor}
    (h : c.expect bs = .ok c') : c.rest = bs ++ c'.rest := by
  induction bs generalizing c with
  | nil =>
    cases h
    rfl
  | cons b bs ih =>
    rw [List.mem_cons, not_or] at hbs
    rw [expect] at h
    split at h
    · next hb =>
      rw [rest_of_byteAt hb (Ne.symm hbs.1), ih hbs.2 h, List.cons_append]
    · cases h

theorem entry_cons (high low kind : Byte) (rest : List Byte) (k : Nat) :
    entry ⟨high :: low :: kind :: rest, k⟩ =
      if kind = numberEntry then
        (some (.number (Address.ofBytes high low) (rest.getD 0 0)), ⟨rest.drop 1, k + 4⟩)
      else if kind = textEntry then
        (some (.text (Address.ofBytes high low) (rest.takeWhile (· ≠ 0))),
          (skip ⟨rest, k + 3⟩ (rest.takeWhile (· ≠ 0)).length).skipNul)
      else (none, ⟨rest, k + 3⟩) := rfl

theorem entry_noKind {bytes : List Byte} (h : bytes.length < 3) (k : Nat) :
    entry ⟨bytes, k⟩ = (none, ⟨[], k + 3⟩) := by
  match bytes with
  | [] | [_] | [_, _] => rfl
  | _ :: _ :: _ :: _ =>
    simp only [List.length_cons] at h
    omega

theorem entry_noValue (a : Address) (k : Nat) :
    entry ⟨a.bytes ++ [numberEntry], k⟩ = (some (.number a 0), ⟨[], k + 4⟩) := by
  have hentry := entry_cons a.high a.low numberEntry [] k
  rw [if_pos rfl, Address.ofBytes_high_low] at hentry
  exact hentry

theorem entry_text (a : Address) (bytes : List Byte) (k : Nat) :
    entry ⟨a.bytes ++ [textEntry] ++ bytes, k⟩ =
      (some (.text a (bytes.takeWhile (· ≠ 0))),
        (skip ⟨bytes, k + 3⟩ (bytes.takeWhile (· ≠ 0)).length).skipNul) := by
  have hentry := entry_cons a.high a.low textEntry bytes k
  rw [if_neg (by decide), if_pos rfl, Address.ofBytes_high_low] at hentry
  exact hentry

theorem entry_noNul {text : List Byte} (h : 0 ∉ text) (a : Address) (k : Nat) :
    entry ⟨a.bytes ++ [textEntry] ++ text, k⟩ =
      (some (.text a text), ⟨[], k + 3 + text.length⟩) := by
  have hall : text.takeWhile (· ≠ 0) = text := by
    have happend := takeWhile_append_of_notMem h []
    rwa [List.takeWhile_nil, List.append_nil] at happend
  rw [entry_text, hall]
  simp [skip, skipNul]

/-- An entry that others stand behind is all there. -/
theorem rest_of_entry {c c' : Cursor} {e : Entry} (h : c.entry = (some e, c'))
    (hne : c'.rest ≠ []) : e.NulFree ∧ c.rest = e.image ++ c'.rest := by
  obtain ⟨bytes, k⟩ := c
  cases front bytes with
  | entry hfree rest =>
    rw [entry_image hfree] at h
    cases h
    exact ⟨hfree, rfl⟩
  | last a hkind rest =>
    rw [entry_end hkind] at h
    cases h
  | noKind hshort =>
    rw [entry_noKind hshort] at h
    cases h
  | noValue a =>
    rw [entry_noValue] at h
    cases h
    exact absurd rfl hne
  | noNul a hfree =>
    rw [entry_noNul hfree] at h
    cases h
    exact absurd rfl hne

/-- What ends a data section is all there if others stand behind it. -/
theorem rest_of_entry_none {c c' : Cursor} (h : c.entry = (none, c')) (hne : c'.rest ≠ []) :
    ∃ (a : Address) (kind : Byte), (kind ≠ numberEntry ∧ kind ≠ textEntry) ∧
      c.rest = a.bytes ++ [kind] ++ c'.rest := by
  obtain ⟨bytes, k⟩ := c
  cases front bytes with
  | entry hfree rest =>
    rw [entry_image hfree] at h
    cases h
  | last a hkind rest =>
    rw [entry_end hkind] at h
    cases h
    exact ⟨a, _, hkind, rfl⟩
  | noKind hshort =>
    rw [entry_noKind hshort] at h
    cases h
    exact absurd rfl hne
  | noValue a =>
    rw [entry_noValue] at h
    cases h
  | noNul a hfree =>
    rw [entry_noNul hfree] at h
    cases h

theorem rest_of_entriesOnto {done : List Entry} {c : Cursor}
    (hne : (entriesOnto done c).2.rest ≠ []) :
    ∃ d : DataPart, c.rest = d.bytes ++ (entriesOnto done c).2.rest := by
  fun_induction entriesOnto done c with
  | case1 done c hnil => exact absurd hnil hne
  | case2 done c _ _ hentry =>
    obtain ⟨a, kind, hkind, hrest⟩ := rest_of_entry_none (Prod.ext hentry rfl) hne
    exact ⟨⟨[], a, kind, by simp, hkind⟩, hrest⟩
  | case3 done c _ _ e hentry ih =>
    -- the end of the section stands behind this entry, so the entry was not cut off
    obtain ⟨d, hd⟩ := ih hne
    have hbehind : c.entry.2.rest ≠ [] := by
      rw [hd]
      simp [DataPart.bytes]
    obtain ⟨hfree, hrest⟩ := rest_of_entry (Prod.ext hentry rfl) hbehind
    refine ⟨⟨e :: d.entries, d.endAddress, d.endKind, ?_, d.endKind_ne⟩, ?_⟩
    · exact List.forall_mem_cons.mpr ⟨hfree, d.nulFree⟩
    · rw [hrest, hd]
      simp only [DataPart.bytes, List.flatMap_cons, List.append_assoc]

end Cursor

theorem zero_notMem_header : 0 ∉ header := by decide

/-- A data section has a code section behind it, or there is a defect and the entries are all that is
written. -/
theorem readData_cases (c : Cursor) :
    (∃ defect, readData c = ⟨c.entries.1.flatMap Entry.writes, .error defect⟩) ∨
    ∃ tail, c.entries.2.rest = header ++ codeSection :: tail := by
  cases hheader : c.entries.2.expect header with
  | error defect =>
    left
    exact ⟨defect, by simp only [readData, hheader]⟩
  | ok d =>
    by_cases hkind : d.byteAt 0 = codeSection
    · right
      refine ⟨(d.skip 1).rest, ?_⟩
      rw [Cursor.rest_of_expect zero_notMem_header hheader,
        Cursor.rest_of_byteAt hkind (by decide)]
    · left
      exact ⟨.sectionKind (d.byteAt 0), by simp only [readData, hheader, hkind, if_false]⟩

theorem read_cases (image : List Byte) :
    (∃ defect, read image = ⟨[], .error defect⟩) ∨
    (∃ tail, image = header ++ dataSection :: tail) ∨
    ∃ tail, image = header ++ codeSection :: tail := by
  cases hheader : Cursor.expect ⟨image, 0⟩ header with
  | error defect =>
    left
    exact ⟨defect, by simp only [read, hheader]⟩
  | ok c =>
    have himage : image = header ++ c.rest := Cursor.rest_of_expect zero_notMem_header hheader
    obtain ⟨bytes, k⟩ := c
    subst himage
    cases bytes with
    | nil =>
      -- the missing kind counts as that of a data section, but no header stands behind it
      left
      have hread : read (header ++ []) = readData ⟨[], 5⟩ := by
        simp only [read, Cursor.expect_append]
        rfl
      have hnone := Cursor.entries_of_nil (c := ⟨[], 5⟩) rfl
      rcases readData_cases ⟨[], 5⟩ with ⟨defect, hdata⟩ | ⟨tail, htail⟩
      · rw [hnone] at hdata
        exact ⟨defect, hread.trans hdata⟩
      · rw [hnone] at htail
        cases htail
    | cons kind bytes =>
      by_cases hdata : kind = dataSection
      · exact .inr (.inl ⟨bytes, by rw [hdata]⟩)
      · by_cases hcode : kind = codeSection
        · exact .inr (.inr ⟨bytes, by rw [hcode]⟩)
        · left
          have hkind : Cursor.byteAt ⟨kind :: bytes, k⟩ 0 = kind := rfl
          exact ⟨.sectionKind kind, by simp only [read, hheader, hkind, hdata, hcode, if_false]⟩

/-- Behind the data section there is a header, so nothing is missing in front of it. -/
theorem rest_of_readData {c : Cursor} {r : Report} (h : (readData c).result = .ok r) :
    ∃ (d : DataPart) (tail : List Byte), c.rest = d.bytes ++ (header ++ codeSection :: tail) := by
  rcases readData_cases c with ⟨defect, hdata⟩ | ⟨tail, htail⟩
  · rw [hdata] at h
    cases h
  · have hne : (Cursor.entriesOnto [] c).2.rest ≠ [] := by
      rw [← Cursor.entries, htail]
      exact List.cons_ne_nil _ _
    obtain ⟨d, hd⟩ := Cursor.rest_of_entriesOnto hne
    rw [← Cursor.entries, htail] at hd
    exact ⟨d, tail, hd⟩

theorem exists_layout_of_read {image : List Byte} {r : Report}
    (h : (read image).result = .ok r) : ∃ l : Layout, image = l.bytes := by
  rcases read_cases image with ⟨defect, hread⟩ | ⟨tail, rfl⟩ | ⟨tail, rfl⟩
  · rw [hread] at h
    cases h
  · rw [read_of_data] at h
    obtain ⟨d, code, hd⟩ := rest_of_readData h
    refine ⟨⟨some d, code⟩, ?_⟩
    replace hd : tail = d.bytes ++ (header ++ codeSection :: code) := hd
    rw [hd, Layout.bytes_data, DataPart.bytes, List.append_assoc, List.append_assoc,
      List.append_assoc]
  · exact ⟨⟨none, tail⟩, (Layout.bytes_code tail).symm⟩

end Rom

namespace Machine

variable {σ : Type} [ByteSource σ]

theorem result_load {m : Machine σ} {name : String} {opened : σ}
    (hopen : ByteSource.openRom m.drive name = (.ok (), opened)) :
    (m.load name).1 = (Rom.read (ByteSource.drain opened).1).result.mapError .malformed := by
  simp only [load, hopen]

/-! ## Top theorem -/

/-- A ROM that can be opened loads if and only if its image has a layout. There is only one then, and
the report gives the address at the front of its tail, zeros for what is missing, and the number of
bytes behind that address. -/
theorem load_ok_iff_layout {m : Machine σ} {name : String} {opened : σ} {image : List Byte}
    (hopen : ByteSource.openRom m.drive name = (.ok (), opened))
    (himage : (ByteSource.drain opened).1 = image) :
    ((∃ report, (m.load name).1 = .ok report) ↔ ∃ l : Rom.Layout, image = l.bytes) ∧
    (∀ l l' : Rom.Layout, image = l.bytes → image = l'.bytes → l = l') ∧
    (∀ l : Rom.Layout, image = l.bytes → (m.load name).1 = .ok {
      bytesWritten := (l.entries.flatMap Rom.Entry.payload).length + (l.tail.length - 2)
      codeBytes := l.tail.length - 2
      codeStart := Address.ofBytes (l.tail.getD 0 0) (l.tail.getD 1 0) }) := by
  have hload := result_load hopen
  rw [himage] at hload
  have hreport : ∀ l : Rom.Layout, image = l.bytes → (m.load name).1 = .ok l.report := by
    rintro l rfl
    rw [hload, Rom.result_read_bytes]
    rfl
  refine ⟨⟨?_, ?_⟩, ?_, hreport⟩
  · rintro ⟨report, hok⟩
    rw [hload] at hok
    cases hresult : (Rom.read image).result with
    | error defect =>
      rw [hresult] at hok
      cases hok
    | ok r => exact Rom.exists_layout_of_read hresult
  · rintro ⟨l, hl⟩
    exact ⟨l.report, hreport l hl⟩
  · intro l l' hl hl'
    exact Rom.Layout.bytes_injective (hl.symm.trans hl')

/-- An unusual kind ends the data section, and the image ends inside the address of the code. -/
def cutShort : Rom.Layout where
  data := some {
    entries := [.text 0x0300 [0x48, 0x49], .number 0x0002 7]
    endAddress := 0
    endKind := 9
    nulFree := by simp [Rom.Entry.NulFree]
    endKind_ne := by decide }
  tail := [0x02]

theorem load_ok_of_cutShort :
    (({ drive := { images := [("c", cutShort.bytes)] } } : Machine Shelf).load "c").1 =
      .ok ⟨3, 0, 0x0200⟩ := by
  have hopen : ByteSource.openRom ({ images := [("c", cutShort.bytes)] } : Shelf) "c" =
      (.ok (), ⟨[("c", cutShort.bytes)], cutShort.bytes⟩) := rfl
  obtain ⟨-, -, hreport⟩ := @load_ok_iff_layout Shelf _
    { drive := { images := [("c", cutShort.bytes)] } } "c" _ cutShort.bytes hopen
    (by rw [Shelf.drain_eq])
  exact hreport cutShort rfl

end Machine

end Tis80
