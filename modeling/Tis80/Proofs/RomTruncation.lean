import Tis80.Proofs.Loading
import Tis80.Proofs.RomGrammar

/-!
# Images that are cut short

Reading the first bytes of an image does what reading all of it does first. The code and a text stop
where the image ends, a header that is cut is no header, and an address or a kind that is missing ends
the entries. The value of a number is the exception. It is written without a look at whether it is
there, so an image that is cut at the bar

    header 00 entry* address 02 | value ...

puts a zero where the whole image puts the value. No other cut shows:

    (read image).writes <+: (read (image ++ more)).writes,
      unless image is a CutNumber and more starts with a byte other than zero     (writes_read_append)
-/

namespace Tis80

namespace Rom

/-- An image that ends behind the kind of a number: the entries in front of it and its address. -/
structure CutNumber where
  entries : List Entry
  address : Address
  nulFree : ∀ e ∈ entries, e.NulFree

/-- The bytes behind the kind of the data section. -/
def CutNumber.tail (n : CutNumber) : List Byte :=
  n.entries.flatMap Entry.image ++ (n.address.bytes ++ [numberEntry])

def CutNumber.bytes (n : CutNumber) : List Byte := header ++ dataSection :: n.tail

theorem CutNumber.getLast?_bytes (n : CutNumber) : n.bytes.getLast? = some numberEntry := by
  have hshape : n.bytes =
      header ++ dataSection :: (n.entries.flatMap Entry.image ++ n.address.bytes) ++ [numberEntry] := by
    simp [bytes, tail]
  rw [hshape, List.getLast?_concat]

namespace Cursor

/-- The same place in an image that goes on with `more`. -/
def extend (c : Cursor) (more : List Byte) : Cursor := ⟨c.rest ++ more, c.offset⟩

theorem extend_nil (c : Cursor) : c.extend [] = c := by
  rw [extend, List.append_nil]

/-! ## One entry -/

theorem entry_number (a : Address) (v : Byte) (rest : List Byte) (k : Nat) :
    entry ⟨a.bytes ++ [numberEntry] ++ v :: rest, k⟩ = (some (.number a v), ⟨rest, k + 4⟩) :=
  entry_image (e := .number a v) trivial rest k

/-- With more behind it an entry is read as before, or it was cut off. In that case nothing is left,
and either what was there is what the whole entry starts with, or it is a number without its value. -/
theorem entry_extend (c : Cursor) (more : List Byte) :
    (c.extend more).entry = (c.entry.1, c.entry.2.extend more) ∨
    (c.entry.2.rest = [] ∧
      c.entry.1.elim [] Entry.writes <+: (c.extend more).entry.1.elim [] Entry.writes) ∨
    ∃ (a : Address) (v : Byte) (rest : List Byte),
      v ≠ 0 ∧ c.rest = a.bytes ++ [numberEntry] ∧ more = v :: rest := by
  obtain ⟨bytes, k⟩ := c
  cases front bytes with
  | entry h rest =>
    left
    rw [extend, List.append_assoc, entry_image h, entry_image h]
    rfl
  | last a h rest =>
    left
    rw [extend, List.append_assoc, entry_end h, entry_end h]
    rfl
  | noKind h =>
    right; left
    rw [entry_noKind h]
    exact ⟨rfl, List.nil_prefix⟩
  | noValue a =>
    cases more with
    | nil =>
      left
      rw [extend_nil, extend_nil]
    | cons v rest =>
      by_cases hv : v = 0
      · -- the zero that is missing is the one that follows
        subst hv
        right; left
        rw [entry_noValue, extend, entry_number]
        exact ⟨rfl, List.prefix_rfl⟩
      · exact .inr (.inr ⟨a, v, rest, hv, rfl, rfl⟩)
  | noNul a h =>
    right; left
    rw [entry_noNul h, extend, List.append_assoc, entry_text, takeWhile_append_of_notMem h]
    exact ⟨rfl, consecutive_prefix_append a _ _⟩

/-! ## All entries -/

theorem entriesOnto_eq (done : List Entry) (c : Cursor) :
    entriesOnto done c = (done.reverse ++ c.entries.1, c.entries.2) := by
  by_cases hnil : c.rest = []
  · rw [entries, entriesOnto, entriesOnto, dif_pos hnil, dif_pos hnil]
    simp
  · have hlt := c.length_entry_lt hnil
    cases hentry : c.entry.1 with
    | none =>
      have hnone : c.entry = (none, c.entry.2) := Prod.ext hentry rfl
      rw [entries, entriesOnto_of_none hnil hnone, entriesOnto_of_none hnil hnone]
      simp
    | some e =>
      have hsome : c.entry = (some e, c.entry.2) := Prod.ext hentry rfl
      rw [entries, entriesOnto_of_some hnil hsome, entriesOnto_of_some hnil hsome,
        entriesOnto_eq (e :: done), entriesOnto_eq [e]]
      simp
termination_by c.rest.length

theorem entries_of_none {c d : Cursor} (hne : c.rest ≠ []) (h : c.entry = (none, d)) :
    c.entries = ([], d) := by
  rw [entries, entriesOnto_of_none hne h, List.reverse_nil]

theorem entries_of_some {c d : Cursor} {e : Entry} (hne : c.rest ≠ [])
    (h : c.entry = (some e, d)) : c.entries = (e :: d.entries.1, d.entries.2) := by
  rw [entries, entriesOnto_of_some hne h, entriesOnto_eq, List.reverse_singleton,
    List.singleton_append]

theorem writes_entry_prefix_entries {c : Cursor} (hne : c.rest ≠ []) :
    c.entry.1.elim [] Entry.writes <+: c.entries.1.flatMap Entry.writes := by
  cases hentry : c.entry.1 with
  | none => exact List.nil_prefix
  | some e =>
    rw [entries_of_some hne (Prod.ext hentry rfl), List.flatMap_cons]
    exact List.prefix_append _ _

theorem writes_entries_of_last {c : Cursor} (hne : c.rest ≠ []) (hend : c.entry.2.rest = []) :
    c.entries.1.flatMap Entry.writes = c.entry.1.elim [] Entry.writes ∧ c.entries.2.rest = [] := by
  cases hentry : c.entry.1 with
  | none =>
    rw [entries_of_none hne (Prod.ext hentry rfl)]
    exact ⟨rfl, hend⟩
  | some e =>
    rw [entries_of_some hne (Prod.ext hentry rfl), entries_of_nil hend]
    exact ⟨List.flatMap_singleton _ _, hend⟩

theorem entries_extend (c : Cursor) (more : List Byte) :
    (c.extend more).entries = (c.entries.1, c.entries.2.extend more) ∨
    (c.entries.2.rest = [] ∧
      c.entries.1.flatMap Entry.writes <+: (c.extend more).entries.1.flatMap Entry.writes) ∨
    ∃ (n : CutNumber) (v : Byte) (rest : List Byte),
      v ≠ 0 ∧ c.rest = n.tail ∧ more = v :: rest := by
  by_cases hnil : c.rest = []
  · rw [entries_of_nil hnil]
    exact .inr (.inl ⟨hnil, List.nil_prefix⟩)
  have hlt := c.length_entry_lt hnil
  have hne : (c.extend more).rest ≠ [] := List.append_ne_nil_of_left_ne_nil hnil more
  rcases entry_extend c more with hsame | ⟨hend, hwrites⟩ | ⟨a, v, rest, hv, hrest, hmore⟩
  · cases hentry : c.entry.1 with
    | none =>
      left
      rw [hentry] at hsame
      rw [entries_of_none hne hsame, entries_of_none hnil (Prod.ext hentry rfl)]
    | some e =>
      rw [hentry] at hsame
      rw [entries_of_some hne hsame, entries_of_some hnil (Prod.ext hentry rfl)]
      rcases entries_extend c.entry.2 more with hlater | ⟨hend, hwrites⟩ | ⟨n, v, rest, hv, hrest, hmore⟩
      · left
        rw [hlater]
      · right; left
        refine ⟨hend, ?_⟩
        rw [List.flatMap_cons, List.flatMap_cons]
        exact (List.prefix_append_right_inj _).mpr hwrites
      · -- the number stands behind this entry, so the entry was all there
        right; right
        have hbehind : c.entry.2.rest ≠ [] := by
          rw [hrest]
          simp [CutNumber.tail]
        obtain ⟨hfree, hbytes⟩ := rest_of_entry (Prod.ext hentry rfl) hbehind
        refine ⟨⟨e :: n.entries, n.address, List.forall_mem_cons.mpr ⟨hfree, n.nulFree⟩⟩, v, rest,
          hv, ?_, hmore⟩
        rw [hbytes, hrest, CutNumber.tail, CutNumber.tail, List.flatMap_cons, List.append_assoc]
  · right; left
    obtain ⟨hlast, hdone⟩ := writes_entries_of_last hnil hend
    rw [hlast]
    exact ⟨hdone, hwrites.trans (writes_entry_prefix_entries hne)⟩
  · exact .inr (.inr ⟨⟨[], a, by simp⟩, v, rest, hv, hrest, hmore⟩)
termination_by c.rest.length

end Cursor

/-! ## Sections -/

theorem writes_readCode_extend (writes : List (Address × Byte)) (c : Cursor) (more : List Byte) :
    (readCode writes c).writes <+: (readCode writes (c.extend more)).writes := by
  obtain ⟨bytes, k⟩ := c
  match bytes with
  | [] | [_] =>
    show writes ++ [] <+: _
    rw [List.append_nil]
    exact List.prefix_append _ _
  | high :: low :: code =>
    exact (List.prefix_append_right_inj _).mpr (consecutive_prefix_append _ code more)

theorem writes_entries_prefix_readData (c : Cursor) :
    c.entries.1.flatMap Entry.writes <+: (readData c).writes := by
  unfold readData
  dsimp only
  split
  · exact List.prefix_rfl
  · split
    · exact List.prefix_append _ _
    · exact List.prefix_rfl

theorem writes_readData_extend (c : Cursor) (more : List Byte) :
    (readData c).writes <+: (readData (c.extend more)).writes ∨
    ∃ (n : CutNumber) (v : Byte) (rest : List Byte),
      v ≠ 0 ∧ c.rest = n.tail ∧ more = v :: rest := by
  have hstart := writes_entries_prefix_readData (c.extend more)
  rcases Cursor.entries_extend c more with hsame | ⟨hend, hwrites⟩ | hcut
  · left
    rcases readData_cases c with ⟨defect, hdata⟩ | ⟨code, hcode⟩
    · rw [hsame] at hstart
      rw [hdata]
      exact hstart
    · have hcode' : (c.entries.2.extend more).rest = header ++ codeSection :: (code ++ more) := by
        rw [Cursor.extend, hcode, List.append_assoc, List.cons_append]
      rw [readData_of_code rfl hcode, readData_of_code hsame hcode']
      exact writes_readCode_extend _ ⟨code, 0⟩ more
  · left
    rcases readData_cases c with ⟨defect, hdata⟩ | ⟨code, hcode⟩
    · rw [hdata]
      exact hwrites.trans hstart
    · rw [hend] at hcode
      cases hcode
  · exact .inr hcut

theorem writes_read_append (image more : List Byte) :
    (read image).writes <+: (read (image ++ more)).writes ∨
    ∃ (n : CutNumber) (v : Byte) (rest : List Byte),
      v ≠ 0 ∧ image = n.bytes ∧ more = v :: rest := by
  rcases read_cases image with ⟨defect, hread⟩ | ⟨tail, rfl⟩ | ⟨code, rfl⟩
  · rw [hread]
    exact .inl List.nil_prefix
  · rw [List.append_assoc, List.cons_append, read_of_data, read_of_data]
    rcases writes_readData_extend ⟨tail, 5⟩ more with hwrites | ⟨n, v, rest, hv, htail, hmore⟩
    · exact .inl hwrites
    · exact .inr ⟨n, v, rest, hv, congrArg (header ++ dataSection :: ·) htail, hmore⟩
  · rw [List.append_assoc, List.cons_append, read_code, read_code]
    exact .inl (writes_readCode_extend [] ⟨code, 0⟩ more)

/-! ## A number without its value -/

theorem CutNumber.entries_tail (n : CutNumber) (more : List Byte) (k : Nat) :
    ∃ k', Cursor.entries ⟨n.tail ++ more, k⟩ =
      (n.entries ++ (Cursor.entries ⟨n.address.bytes ++ [numberEntry] ++ more, k'⟩).1,
        (Cursor.entries ⟨n.address.bytes ++ [numberEntry] ++ more, k'⟩).2) := by
  obtain ⟨k', hes⟩ := Cursor.entriesOnto_append n.nulFree []
    (n.address.bytes ++ [numberEntry] ++ more) k
  refine ⟨k', ?_⟩
  rw [tail, List.append_assoc, Cursor.entries, hes, Cursor.entriesOnto_eq, List.append_nil,
    List.reverse_reverse]

theorem CutNumber.writes_read (n : CutNumber) :
    (read n.bytes).writes = n.entries.flatMap Entry.writes ++ [(n.address, 0)] := by
  obtain ⟨k, htail⟩ := n.entries_tail [] 5
  have hnumber := Cursor.entry_noValue n.address k
  have hentries := Cursor.entries_of_some (List.cons_ne_nil _ _) hnumber
  rw [Cursor.entries_of_nil (c := ⟨[], k + 4⟩) rfl] at hentries
  rw [List.append_nil, List.append_nil, hentries] at htail
  rw [bytes, read_of_data]
  rcases readData_cases ⟨n.tail, 5⟩ with ⟨defect, hdata⟩ | ⟨code, hcode⟩
  · rw [hdata, htail, List.flatMap_append, List.flatMap_singleton]
    rfl
  · rw [htail] at hcode
    cases hcode

theorem CutNumber.writes_prefix_read (n : CutNumber) (v : Byte) (rest : List Byte) :
    n.entries.flatMap Entry.writes ++ [(n.address, v)] <+: (read (n.bytes ++ v :: rest)).writes := by
  obtain ⟨k, htail⟩ := n.entries_tail (v :: rest) 5
  have hnumber := Cursor.entry_number n.address v rest k
  have hentries := Cursor.entries_of_some (List.cons_ne_nil _ _) hnumber
  have hstart := writes_entries_prefix_readData ⟨n.tail ++ v :: rest, 5⟩
  rw [htail, hentries, List.flatMap_append, List.flatMap_cons] at hstart
  rw [bytes, List.append_assoc, List.cons_append, read_of_data]
  refine List.IsPrefix.trans ?_ hstart
  exact (List.prefix_append_right_inj _).mpr (List.prefix_append _ _)

/-! ## What is written is in the image -/

theorem Entry.mem_image_of_mem_writes {e : Entry} {x : Address} {v : Byte}
    (h : (x, v) ∈ e.writes) : v ∈ e.image := by
  cases e with
  | number a w =>
    cases List.mem_singleton.mp h
    simp [image]
  | text a bytes =>
    have hv := mem_of_mem_consecutive h
    simp [image, hv]

/-- A zero may stand for a value that is missing. -/
theorem Cursor.mem_of_mem_entry (c : Cursor) :
    (∀ x v, (x, v) ∈ c.entry.1.elim [] Entry.writes → v = 0 ∨ v ∈ c.rest) ∧
      c.entry.2.rest <:+ c.rest := by
  obtain ⟨bytes, k⟩ := c
  cases front bytes with
  | entry h rest =>
    rw [entry_image h]
    refine ⟨fun x v hv => .inr ?_, List.suffix_append _ _⟩
    exact List.mem_append_left _ (Entry.mem_image_of_mem_writes hv)
  | last a h rest =>
    rw [entry_end h]
    exact ⟨fun x v hv => absurd hv List.not_mem_nil, List.suffix_append _ _⟩
  | noKind h =>
    rw [entry_noKind h]
    exact ⟨fun x v hv => absurd hv List.not_mem_nil, List.nil_suffix⟩
  | noValue a =>
    rw [entry_noValue]
    refine ⟨fun x v hv => .inl ?_, List.nil_suffix⟩
    cases List.mem_singleton.mp hv
    rfl
  | noNul a h =>
    rw [entry_noNul h]
    refine ⟨fun x v hv => .inr ?_, List.nil_suffix⟩
    exact List.mem_append_right _ (mem_of_mem_consecutive hv)

theorem Cursor.mem_of_mem_entries (c : Cursor) :
    (∀ x v, (x, v) ∈ c.entries.1.flatMap Entry.writes → v = 0 ∨ v ∈ c.rest) ∧
      c.entries.2.rest <:+ c.rest := by
  by_cases hnil : c.rest = []
  · rw [entries_of_nil hnil]
    exact ⟨fun x v hv => absurd hv List.not_mem_nil, List.suffix_rfl⟩
  have hlt := c.length_entry_lt hnil
  obtain ⟨hvalues, hbehind⟩ := c.mem_of_mem_entry
  cases hentry : c.entry.1 with
  | none =>
    rw [entries_of_none hnil (Prod.ext hentry rfl)]
    exact ⟨fun x v hv => absurd hv List.not_mem_nil, hbehind⟩
  | some e =>
    obtain ⟨hlater, hend⟩ := c.entry.2.mem_of_mem_entries
    rw [hentry] at hvalues
    rw [entries_of_some hnil (Prod.ext hentry rfl)]
    refine ⟨?_, hend.trans hbehind⟩
    intro x v hv
    rw [List.flatMap_cons, List.mem_append] at hv
    rcases hv with hv | hv
    · exact hvalues x v hv
    · exact (hlater x v hv).imp_right fun hmem => hbehind.subset hmem
termination_by c.rest.length

theorem mem_of_mem_readCode {x : Address} {v : Byte} {writes : List (Address × Byte)}
    {code : List Byte} {k : Nat} (h : (x, v) ∈ (readCode writes ⟨code, k⟩).writes) :
    (x, v) ∈ writes ∨ v ∈ code := by
  rcases List.mem_append.mp h with h | h
  · exact .inl h
  · exact .inr (List.mem_of_mem_drop (mem_of_mem_consecutive h))

/-- No byte is written that is not in the image: the zero for a missing value is there as well, as the
kind of the data section. -/
theorem mem_of_mem_writes_read {image : List Byte} {x : Address} {v : Byte}
    (h : (x, v) ∈ (read image).writes) : v ∈ image := by
  rcases read_cases image with ⟨defect, hread⟩ | ⟨tail, rfl⟩ | ⟨code, rfl⟩
  · rw [hread] at h
    exact absurd h List.not_mem_nil
  · obtain ⟨hvalues, hend⟩ := Cursor.mem_of_mem_entries ⟨tail, 5⟩
    have hzero : v = 0 ∨ v ∈ tail := by
      rw [read_of_data] at h
      rcases readData_cases ⟨tail, 5⟩ with ⟨defect, hdata⟩ | ⟨code, hcode⟩
      · rw [hdata] at h
        exact hvalues x v h
      · rw [readData_of_code rfl hcode] at h
        rcases mem_of_mem_readCode h with hv | hv
        · exact hvalues x v hv
        · right
          apply hend.subset
          rw [hcode]
          exact List.mem_append_right _ (List.mem_cons_of_mem _ hv)
    apply List.mem_append_right
    rcases hzero with rfl | hv
    · exact List.mem_cons_self
    · exact List.mem_cons_of_mem _ hv
  · rw [read_code] at h
    rcases mem_of_mem_readCode h with hv | hv
    · exact absurd hv List.not_mem_nil
    · exact List.mem_append_right _ (List.mem_cons_of_mem _ hv)

end Rom

namespace Machine

open ImageDrive

variable {σ : Type} [ByteSource σ] [ImageDrive σ]

/-! ## Top theorem -/

/-- What an image writes that is cut short is what the whole image writes first, unless the cut takes
a value other than zero off a number. Then every cell is as it was or holds a byte of the image that
the whole image puts there. A number without its value writes a zero in its place. -/
theorem loadWrites_prefix_iff {m n : Machine σ} {name name' : String} {cut more : List Byte}
    (hcut : image m.drive name = .ok cut) (hwhole : image n.drive name' = .ok (cut ++ more)) :
    (m.loadWrites name <+: n.loadWrites name' ↔
      ∀ (c : Rom.CutNumber) (v : Byte) (rest : List Byte),
        cut = c.bytes → more = v :: rest → v = 0) ∧
    (m.loadWrites name <+: n.loadWrites name' → ∀ a,
      (m.load name).2.memory.read a = m.memory.read a ∨
      ((m.load name).2.memory.read a ∈ cut ∧
        (a, (m.load name).2.memory.read a) ∈ n.loadWrites name')) ∧
    (∀ (c : Rom.CutNumber) (v : Byte) (rest : List Byte), cut = c.bytes → more = v :: rest →
      m.loadWrites name = c.entries.flatMap Rom.Entry.writes ++ [(c.address, 0)] ∧
      c.entries.flatMap Rom.Entry.writes ++ [(c.address, v)] <+: n.loadWrites name' ∧
      (m.load name).2.memory.read c.address = 0) := by
  have hmemory := memory_load m name
  rw [loadWrites_of_image_ok hcut] at hmemory
  rw [loadWrites_of_image_ok hcut, loadWrites_of_image_ok hwhole]
  refine ⟨⟨?_, ?_⟩, ?_, ?_⟩
  · rintro hstart c v rest rfl rfl
    -- both start with the same entries, and have one write behind them
    have hvalue := c.writes_prefix_read v rest
    rw [c.writes_read] at hstart
    have hsame := List.IsPrefix.eq_of_length
      (List.prefix_of_prefix_length_le hstart hvalue (by simp)) (by simp)
    simpa using (List.append_cancel_left hsame).symm
  · intro hzero
    rcases Rom.writes_read_append cut more with hstart | ⟨c, v, rest, hv, hc, hmore⟩
    · exact hstart
    · exact absurd (hzero c v rest hc hmore) hv
  · intro hstart a
    rw [hmemory]
    rcases Memory.read_writeAll_eq_or_mem m.memory (Rom.read cut).writes a with hsame | hmem
    · exact .inl hsame
    · exact .inr ⟨Rom.mem_of_mem_writes_read hmem, hstart.subset hmem⟩
  · rintro c v rest rfl rfl
    refine ⟨c.writes_read, c.writes_prefix_read v rest, ?_⟩
    rw [hmemory, c.writes_read, Memory.writeAll_append, Memory.writeAll_cons, Memory.writeAll_nil,
      Memory.read_write_self]

/-- A text, a number and a byte of code. -/
def greeting : Rom where
  data := some [.text 0x0300 [0x48, 0x49], .number 0x0302 7]
  start := 0x0200
  code := [0x41]

/-- The greeting, cut inside its text and behind the kind of its number. -/
def cutGreetings : Shelf where
  images := [("whole", greeting.image), ("in text", greeting.image.take 9),
    ("in number", greeting.image.take 14)]

/-- The cut behind the kind of the number, entry by entry. -/
def cutGreeting : Rom.CutNumber where
  entries := [.text 0x0300 [0x48, 0x49]]
  address := 0x0302
  nulFree := by simp [Rom.Entry.NulFree]

theorem loadWrites_prefix_of_cutGreetings :
    let m : Machine Shelf := { drive := cutGreetings }
    m.loadWrites "in text" <+: m.loadWrites "whole" ∧
      m.loadWrites "in number" = [(0x0300, 0x48), (0x0301, 0x49), (0x0302, 0)] ∧
      (m.load "in number").2.memory.read 0x0302 = 0 := by
  intro m
  obtain ⟨hiff, -⟩ := @loadWrites_prefix_iff Shelf _ _ m m "in text" "whole" (greeting.image.take 9)
    (greeting.image.drop 9) rfl rfl
  obtain ⟨-, -, hnumber⟩ := @loadWrites_prefix_iff Shelf _ _ m m "in number" "whole" cutGreeting.bytes
    (greeting.image.drop 14) rfl rfl
  obtain ⟨hwrites, -, hread⟩ := hnumber cutGreeting 7 (greeting.image.drop 15) rfl rfl
  refine ⟨hiff.mpr ?_, hwrites, hread⟩
  -- the cut inside the text does not end with the kind of a number
  intro c v rest hc
  have hlast := c.getLast?_bytes
  rw [← hc] at hlast
  exact absurd hlast (by decide)

/-- Loading the greeting and then its cut takes the value of the number away. -/
theorem not_loadWrites_prefix_of_cutNumber :
    let m : Machine Shelf := { drive := cutGreetings }
    (greeting.image.take 14 <+: greeting.image) ∧ (m.load "whole").1 = .ok ⟨4, 1, 0x0200⟩ ∧
      ¬ m.loadWrites "in number" <+: m.loadWrites "whole" ∧
      (m.load "whole").2.memory.read 0x0302 = 7 ∧
      ((m.load "whole").2.load "in number").2.memory.read 0x0302 = 0 := by
  intro m
  have hfree : greeting.NulFree := by
    simp [Rom.NulFree, greeting, Rom.Entry.NulFree]
  have hwhole : image m.drive "whole" = .ok greeting.image := rfl
  have hcut : image m.drive "in number" = .ok cutGreeting.bytes := rfl
  have hcut' := (congrFun (image_load m "whole") "in number").trans hcut
  have hread := Rom.read_image hfree 0
  have hwrites : m.loadWrites "whole" = greeting.writes := by
    rw [loadWrites_of_image_ok hwhole, hread]
  have hzero : ∀ n : Machine Shelf, image n.drive "in number" = .ok cutGreeting.bytes →
      n.loadWrites "in number" = [(0x0300, 0x48), (0x0301, 0x49), (0x0302, 0)] := by
    intro n hn
    rw [loadWrites_of_image_ok hn, cutGreeting.writes_read]
    rfl
  refine ⟨List.take_prefix _ _, ?_, ?_, ?_, ?_⟩
  · rw [result_load_of_image_ok hwhole, hread]
    rfl
  · rw [hwrites, hzero m hcut]
    decide
  · rw [memory_load, hwrites, Memory.read_writeAll]
    rfl
  · rw [memory_load, hzero _ hcut', Memory.read_writeAll]
    rfl

end Machine

end Tis80
