import Mathlib.Data.PFun
import Tis80.Proofs.RomTruncation

/-!
# Loading a ROM byte by byte

A loader never has the whole image. It asks its source for one byte after the other, writes as it goes,
and its loops go on for as long as the source is not at its end. Each loop is given by one round of it
and iterated with `PFun.fix`: a loop that never stopped would have no value. Each of them has one, from
wherever it starts, and the loader does what reading the drained image does:

    t.parse = some (...)      with the outcome and the writes of `Rom.readAt`     (Tracks.parse)
    m.loadStream name = some (m.load name)                                        (loadStream_eq)

The invariant is that the source has still to give what stands at a cursor in the image, and that
memory holds the writes so far (`Tracks`).
-/

namespace Tis80

open ByteSource

namespace Rom

/-- Reads the image that stands at a cursor. -/
def readAt (c : Cursor) : Reading :=
  match c.expect header with
  | .error e => ⟨[], .error e⟩
  | .ok c =>
    if c.byteAt 0 = dataSection then readData (c.skip 1)
    else if c.byteAt 0 = codeSection then readCode [] (c.skip 1)
    else ⟨[], .error (.sectionKind (c.byteAt 0))⟩

namespace Cursor

theorem skip_skip (c : Cursor) (m n : Nat) : (c.skip m).skip n = c.skip (m + n) := by
  simp only [skip, List.drop_drop, Nat.add_assoc]

theorem byteAt_skip (c : Cursor) (n i : Nat) : (c.skip n).byteAt i = c.byteAt (n + i) := by
  simp only [byteAt, skip, List.getD_eq_getElem?_getD, List.getElem?_drop]

end Cursor

end Rom

/-- A ROM on its way into memory: its source and how many bytes were asked for, the memory and how many
bytes were written. -/
structure RomStream (σ : Type) where
  source : σ
  offset : Nat := 0
  memory : Memory
  written : Nat := 0

namespace RomStream

variable {σ : Type} [ByteSource σ]

def atEnd (t : RomStream σ) : Bool := ByteSource.atEnd t.source

def byte (t : RomStream σ) : Byte × RomStream σ :=
  ((read t.source).1, { t with source := (read t.source).2, offset := t.offset + 1 })

def address (t : RomStream σ) : Address × RomStream σ :=
  (Address.ofBytes t.byte.1 t.byte.2.byte.1, t.byte.2.byte.2)

def expect (t : RomStream σ) : List Byte → Except Rom.Defect Unit × RomStream σ
  | [] => (.ok (), t)
  | b :: bs =>
    if t.byte.1 = b then t.byte.2.expect bs else (.error (.header t.offset b t.byte.1), t.byte.2)

def write (t : RomStream σ) (a : Address) (b : Byte) : RomStream σ :=
  { t with memory := t.memory.write a b, written := t.written + 1 }

/-! ## Loops -/

/-- One round of the loop that writes what is left. -/
def codeRound : RomStream σ × Address → RomStream σ ⊕ RomStream σ × Address
  | (t, a) => if t.atEnd then .inl t else .inr (t.byte.2.write a t.byte.1, a + 1)

/-- Writes what is left, from `a` on. -/
def code (t : RomStream σ) (a : Address) : Part (RomStream σ) :=
  PFun.fix (fun s => Part.some (codeRound s)) (t, a)

/-- One round of the loop that writes a text: it stops past the NUL, or where nothing is left. -/
def textRound : RomStream σ × Address → RomStream σ ⊕ RomStream σ × Address
  | (t, a) =>
    if t.atEnd then .inl t
    else if t.byte.1 = 0 then .inl t.byte.2
    else .inr (t.byte.2.write a t.byte.1, a + 1)

/-- Writes what stands in front of the next NUL, from `a` on, and goes past the NUL. -/
def text (t : RomStream σ) (a : Address) : Part (RomStream σ) :=
  PFun.fix (fun s => Part.some (textRound s)) (t, a)

/-- One round of the loop over the entries of a data section. A text entry is a loop of its own. -/
def entriesRound (t : RomStream σ) : Part (RomStream σ ⊕ RomStream σ) :=
  if t.atEnd then Part.some (.inl t)
  else
    let a := t.address
    let kind := a.2.byte
    if kind.1 = Rom.numberEntry then Part.some (.inr (kind.2.byte.2.write a.1 kind.2.byte.1))
    else if kind.1 = Rom.textEntry then (kind.2.text a.1).map .inr
    else Part.some (.inl kind.2)

/-- Writes the entries of a data section. -/
def entries (t : RomStream σ) : Part (RomStream σ) := PFun.fix entriesRound t

theorem fix_of_stop {α β : Type} {round : α →. β ⊕ α} {a : α} {b : β}
    (h : round a = Part.some (.inl b)) : round.fix a = Part.some b :=
  Part.eq_some_iff.mpr (PFun.fix_stop (Part.eq_some_iff.mp h))

theorem fix_of_round {α β : Type} {round : α →. β ⊕ α} {a a' : α}
    (h : round a = Part.some (.inr a')) : round.fix a = round.fix a' :=
  PFun.fix_fwd_eq (Part.eq_some_iff.mp h)

/-! ## The loader -/

/-- What a loader is told of a code section: its address and its length. -/
abbrev Outcome := Except Rom.Defect (Address × Nat)

def parseCode (t : RomStream σ) : Part (Outcome × RomStream σ) := do
  let start := t.address
  let done ← start.2.code start.1
  return (.ok (start.1, done.written - start.2.written), done)

/-- The code section that has to follow a data section. -/
def parseSecond (t : RomStream σ) : Part (Outcome × RomStream σ) :=
  match t.expect Rom.header with
  | (.error defect, t) => Part.some (.error defect, t)
  | (.ok (), t) =>
    if t.byte.1 = Rom.codeSection then t.byte.2.parseCode
    else Part.some (.error (.sectionKind t.byte.1), t.byte.2)

def parse (t : RomStream σ) : Part (Outcome × RomStream σ) :=
  match t.expect Rom.header with
  | (.error defect, t) => Part.some (.error defect, t)
  | (.ok (), t) =>
    if t.byte.1 = Rom.dataSection then do
      let t ← t.byte.2.entries
      t.parseSecond
    else if t.byte.1 = Rom.codeSection then t.byte.2.parseCode
    else Part.some (.error (.sectionKind t.byte.1), t.byte.2)

/-! ## What is still to come -/

/-- The stream has come from `t₀` to a cursor in the image, has written `ws`, and has done nothing to
its source but read from it. -/
structure Tracks (t₀ : RomStream σ) (ws : List (Address × Byte)) (t : RomStream σ)
    (c : Rom.Cursor) : Prop where
  bytes : (drain t.source).1 = c.rest
  offset : t.offset = c.offset
  memory : t.memory = t₀.memory.writeAll ws
  written : t.written = t₀.written + ws.length
  kept : ∀ P : σ → Prop, (∀ s, P s → P (read s).2) → P t₀.source → P t.source

/-- The cursor at which a stream stands. -/
def cursor (t : RomStream σ) : Rom.Cursor := ⟨(drain t.source).1, t.offset⟩

theorem tracks_self (t : RomStream σ) : Tracks t [] t t.cursor :=
  ⟨rfl, rfl, rfl, rfl, fun _ _ h => h⟩

namespace Tracks

variable {t₀ t : RomStream σ} {ws : List (Address × Byte)} {c : Rom.Cursor}

theorem atEnd_iff (h : Tracks t₀ ws t c) : t.atEnd = true ↔ c.rest = [] := by
  show ByteSource.atEnd t.source = true ↔ _
  rw [← h.bytes]
  cases hend : ByteSource.atEnd t.source with
  | true => simp [drain_of_atEnd hend]
  | false => simp [drain_of_not_atEnd hend]

/-- Past the end the source gives zeros, as missing bytes of an image count. -/
theorem byte (h : Tracks t₀ ws t c) :
    t.byte.1 = c.byteAt 0 ∧ Tracks t₀ ws t.byte.2 (c.skip 1) := by
  have hbytes := h.bytes
  have hnext : (read t.source).1 = c.byteAt 0 ∧ (drain (read t.source).2).1 = c.rest.drop 1 := by
    cases hend : ByteSource.atEnd t.source with
    | true =>
      obtain ⟨hzero, hstays⟩ := read_of_atEnd t.source hend
      rw [drain_of_atEnd hend] at hbytes
      rw [Rom.Cursor.byteAt, ← hbytes, drain_of_atEnd hstays]
      exact ⟨hzero, rfl⟩
    | false =>
      rw [drain_of_not_atEnd hend] at hbytes
      rw [Rom.Cursor.byteAt, ← hbytes]
      exact ⟨rfl, rfl⟩
  exact ⟨hnext.1, hnext.2, congrArg (· + 1) h.offset, h.memory, h.written,
    fun P hread h₀ => hread _ (h.kept P hread h₀)⟩

theorem address (h : Tracks t₀ ws t c) :
    t.address.1 = c.addressAt 0 ∧ Tracks t₀ ws t.address.2 (c.skip 2) := by
  obtain ⟨hhigh, hnext⟩ := h.byte
  obtain ⟨hlow, hlast⟩ := hnext.byte
  rw [Rom.Cursor.skip_skip] at hlast
  refine ⟨?_, hlast⟩
  rw [Rom.Cursor.addressAt, ← hhigh, ← Rom.Cursor.byteAt_skip c 1 0, ← hlow]
  rfl

theorem write (h : Tracks t₀ ws t c) (a : Address) (b : Byte) :
    Tracks t₀ (ws ++ [(a, b)]) (t.write a b) c := by
  refine ⟨h.bytes, h.offset, ?_, ?_, h.kept⟩
  · show t.memory.write a b = _
    rw [h.memory, Memory.writeAll_append]
    rfl
  · show t.written + 1 = _
    rw [h.written, List.length_append, Nat.add_assoc]
    rfl

/-! ## What the loops do -/

theorem code (h : Tracks t₀ ws t c) (a : Address) :
    ∃ t', t.code a = Part.some t' ∧
      Tracks t₀ (ws ++ consecutive a c.rest) t' (c.skip c.rest.length) := by
  -- the induction is on what is left of the image; the source itself may be of any kind
  obtain ⟨rest, k⟩ := c
  induction rest generalizing t ws a k with
  | nil =>
    have hround : codeRound (t, a) = .inl t := if_pos (h.atEnd_iff.mpr rfl)
    refine ⟨t, fix_of_stop (congrArg Part.some hround), ?_⟩
    rw [consecutive_nil, List.append_nil]
    exact h
  | cons b rest ih =>
    have hmore : ¬ t.atEnd = true := mt h.atEnd_iff.mp (List.cons_ne_nil b rest)
    obtain ⟨hbyte, hnext⟩ := h.byte
    have hround : codeRound (t, a) = .inr (t.byte.2.write a b, a + 1) := by
      rw [codeRound, if_neg hmore, hbyte]
      rfl
    obtain ⟨t', hcode, htracks⟩ := ih (a + 1) (k + 1) (hnext.write a b)
    refine ⟨t', (fix_of_round (congrArg Part.some hround)).trans hcode, ?_⟩
    rw [List.append_assoc, List.singleton_append, ← consecutive_cons] at htracks
    rw [List.length_cons, Nat.add_comm, ← Rom.Cursor.skip_skip]
    exact htracks

theorem text (h : Tracks t₀ ws t c) (a : Address) :
    ∃ t', t.text a = Part.some t' ∧
      Tracks t₀ (ws ++ consecutive a (c.rest.takeWhile (· ≠ 0))) t'
        ((c.skip (c.rest.takeWhile (· ≠ 0)).length).skipNul) := by
  obtain ⟨rest, k⟩ := c
  induction rest generalizing t ws a k with
  | nil =>
    have hround : textRound (t, a) = .inl t := if_pos (h.atEnd_iff.mpr rfl)
    refine ⟨t, fix_of_stop (congrArg Part.some hround), ?_⟩
    rw [List.takeWhile_nil, consecutive_nil, List.append_nil]
    exact h
  | cons b rest ih =>
    have hmore : ¬ t.atEnd = true := mt h.atEnd_iff.mp (List.cons_ne_nil b rest)
    obtain ⟨hbyte, hnext⟩ := h.byte
    have hround : textRound (t, a) =
        if b = 0 then .inl t.byte.2 else .inr (t.byte.2.write a b, a + 1) := by
      rw [textRound, if_neg hmore, hbyte]
      rfl
    by_cases hb : b = 0
    · subst hb
      refine ⟨t.byte.2, fix_of_stop (congrArg Part.some hround), ?_⟩
      rw [List.takeWhile_cons_of_neg (by simp), consecutive_nil, List.append_nil]
      exact hnext
    · rw [if_neg hb] at hround
      obtain ⟨t', htext, htracks⟩ := ih (a + 1) (k + 1) (hnext.write a b)
      refine ⟨t', (fix_of_round (congrArg Part.some hround)).trans htext, ?_⟩
      rw [List.append_assoc, List.singleton_append, ← consecutive_cons] at htracks
      rw [List.takeWhile_cons_of_pos (by simpa using hb), List.length_cons, Nat.add_comm,
        ← Rom.Cursor.skip_skip]
      exact htracks

/-- A round of the loop over entries does what the entry says, and goes on unless there is none. -/
theorem entriesRound (h : Tracks t₀ ws t c) (hne : c.rest ≠ []) :
    match c.entry with
    | (none, d) => ∃ t', t.entriesRound = Part.some (.inl t') ∧ Tracks t₀ ws t' d
    | (some e, d) => ∃ t', t.entriesRound = Part.some (.inr t') ∧ Tracks t₀ (ws ++ e.writes) t' d := by
  obtain ⟨haddress, hthird⟩ := h.address
  obtain ⟨hkind, hfourth⟩ := hthird.byte
  rw [Rom.Cursor.byteAt_skip] at hkind
  rw [Rom.Cursor.skip_skip] at hfourth
  rw [RomStream.entriesRound, if_neg (mt h.atEnd_iff.mp hne), Rom.Cursor.entry]
  dsimp only
  rw [hkind]
  by_cases hnumber : c.byteAt 2 = Rom.numberEntry
  · obtain ⟨hvalue, hrest⟩ := hfourth.byte
    rw [Rom.Cursor.byteAt_skip] at hvalue
    rw [Rom.Cursor.skip_skip] at hrest
    rw [if_pos hnumber, if_pos hnumber]
    refine ⟨_, rfl, ?_⟩
    rw [haddress, hvalue]
    exact hrest.write _ _
  · rw [if_neg hnumber, if_neg hnumber]
    by_cases htext : c.byteAt 2 = Rom.textEntry
    · obtain ⟨t', hdone, htracks⟩ := hfourth.text t.address.1
      rw [if_pos htext, if_pos htext, hdone, Part.map_some]
      rw [haddress] at htracks
      exact ⟨t', rfl, htracks⟩
    · rw [if_neg htext, if_neg htext]
      exact ⟨_, rfl, hfourth⟩

theorem entries {t : RomStream σ} {ws : List (Address × Byte)} {c : Rom.Cursor}
    (h : Tracks t₀ ws t c) :
    ∃ t', t.entries = Part.some t' ∧
      Tracks t₀ (ws ++ c.entries.1.flatMap Rom.Entry.writes) t' c.entries.2 := by
  by_cases hnil : c.rest = []
  · refine ⟨t, fix_of_stop (if_pos (h.atEnd_iff.mpr hnil)), ?_⟩
    rw [Rom.Cursor.entries_of_nil hnil, List.flatMap_nil, List.append_nil]
    exact h
  · have hround := h.entriesRound hnil
    split at hround
    · next d hentry =>
      obtain ⟨t', hstops, htracks⟩ := hround
      rw [Rom.Cursor.entries_of_none hnil hentry, List.flatMap_nil, List.append_nil]
      exact ⟨t', fix_of_stop hstops, htracks⟩
    · next e d hentry =>
      obtain ⟨t', hgoes, htracks⟩ := hround
      -- a round takes an entry away, and with it at least the first byte
      have hlt : d.rest.length < c.rest.length := by
        have hshorter := c.length_entry_lt hnil
        rwa [hentry] at hshorter
      have hnext : t.entries = t'.entries := fix_of_round hgoes
      rw [hnext, Rom.Cursor.entries_of_some hnil hentry, List.flatMap_cons, ← List.append_assoc]
      exact htracks.entries
termination_by c.rest.length

/-! ## What the loader does -/

/-- The stream and the cursor find the same bytes in front, or miss the same one. -/
theorem expect (h : Tracks t₀ ws t c) (bs : List Byte) :
    (∃ t' d, t.expect bs = (.ok (), t') ∧ c.expect bs = .ok d ∧ Tracks t₀ ws t' d) ∨
      ∃ defect t' d, t.expect bs = (.error defect, t') ∧ c.expect bs = .error defect ∧
        Tracks t₀ ws t' d := by
  induction bs generalizing t c with
  | nil => exact .inl ⟨t, c, rfl, rfl, h⟩
  | cons b bs ih =>
    obtain ⟨hbyte, hnext⟩ := h.byte
    rw [RomStream.expect, Rom.Cursor.expect, hbyte, h.offset]
    by_cases hb : c.byteAt 0 = b
    · rw [if_pos hb, if_pos hb]
      exact ih hnext
    · rw [if_neg hb, if_neg hb]
      exact .inr ⟨_, t.byte.2, c.skip 1, rfl, rfl, hnext⟩

end Tracks

/-- The loader comes to an end, with the outcome and the writes of the reading. -/
def Performs (t₀ : RomStream σ) (loading : Part (Outcome × RomStream σ)) (r : Rom.Reading) : Prop :=
  ∃ t' d, loading = Part.some (r.result.map fun report => (report.codeStart, report.codeBytes), t') ∧
    Tracks t₀ r.writes t' d ∧ ∀ report, r.result = .ok report → report.bytesWritten = r.writes.length

namespace Tracks

variable {t₀ t : RomStream σ} {ws : List (Address × Byte)} {c : Rom.Cursor}

theorem fails (h : Tracks t₀ ws t c) (defect : Rom.Defect) :
    Performs t₀ (Part.some (.error defect, t)) ⟨ws, .error defect⟩ :=
  ⟨t, c, rfl, h, nofun⟩

theorem parseCode (h : Tracks t₀ ws t c) : Performs t₀ t.parseCode (Rom.readCode ws c) := by
  obtain ⟨hstart, hcode⟩ := h.address
  obtain ⟨t', hdone, htracks⟩ := hcode.code t.address.1
  have hlength : t'.written - t.address.2.written = (c.skip 2).rest.length := by
    rw [htracks.written, hcode.written, List.length_append, length_consecutive]
    omega
  refine ⟨t', _, ?_, hstart ▸ htracks, ?_⟩
  · rw [RomStream.parseCode, hdone, Part.bind_eq_bind, Part.bind_some, hlength, hstart]
    rfl
  · rintro _ ⟨⟩
    rw [Rom.readCode, List.length_append, length_consecutive]

theorem parseSecond (h : Tracks t₀ (c.entries.1.flatMap Rom.Entry.writes) t c.entries.2) :
    Performs t₀ t.parseSecond (Rom.readData c) := by
  rw [RomStream.parseSecond, Rom.readData]
  rcases h.expect Rom.header with
    ⟨t', d, hgoes, hexpect, htracks⟩ | ⟨defect, t', d, hstops, hexpect, htracks⟩
  · obtain ⟨hkind, hnext⟩ := htracks.byte
    rw [hgoes, hexpect]
    dsimp only
    rw [hkind]
    split
    · exact hnext.parseCode
    · exact hnext.fails _
  · rw [hstops, hexpect]
    exact htracks.fails defect

theorem parse (h : Tracks t₀ [] t c) : Performs t₀ t.parse (Rom.readAt c) := by
  rw [RomStream.parse, Rom.readAt]
  rcases h.expect Rom.header with
    ⟨t', d, hgoes, hexpect, htracks⟩ | ⟨defect, t', d, hstops, hexpect, htracks⟩
  · obtain ⟨hkind, hnext⟩ := htracks.byte
    rw [hgoes, hexpect]
    dsimp only
    rw [hkind]
    split
    · obtain ⟨u, hentries, hsecond⟩ := hnext.entries
      rw [hentries, Part.bind_eq_bind, Part.bind_some]
      exact hsecond.parseSecond
    · split
      · exact hnext.parseCode
      · exact hnext.fails _
  · rw [hstops, hexpect]
    exact htracks.fails defect

end Tracks

/-- Every loop of the loader comes to an end, from any state of any source, and so does the loader. -/
theorem loops_end (t : RomStream σ) (a : Address) :
    (t.code a).Dom ∧ (t.text a).Dom ∧ t.entries.Dom ∧ t.parse.Dom := by
  have h := tracks_self t
  obtain ⟨_, hcode, -⟩ := h.code a
  obtain ⟨_, htext, -⟩ := h.text a
  obtain ⟨_, hentries, -⟩ := h.entries
  obtain ⟨_, _, hparse, -⟩ := h.parse
  rw [hcode, htext, hentries, hparse]
  exact ⟨trivial, trivial, trivial, trivial⟩

end RomStream

namespace Machine

variable {σ : Type} [ByteSource σ]

/-- Opens a ROM, loads it byte by byte, and closes the drive. -/
def loadStream (m : Machine σ) (name : String) :
    Part (Except LoadFault Rom.Report × Machine σ) :=
  match openRom m.drive name with
  | (.error cause, drive) => Part.some (.error (.unreadable name cause), { m with drive })
  | (.ok (), opened) => do
    let (outcome, t) ← RomStream.parse { source := opened, memory := m.memory }
    let result := outcome.map fun code => ⟨t.written, code.2, code.1⟩
    return (result.mapError .malformed, { m with memory := t.memory, drive := close t.source })

theorem close_drain (hclose : ∀ s : σ, close (read s).2 = close s) (s : σ) :
    close (drain s).2 = close s := by
  cases hend : atEnd s with
  | true => rw [drain_of_atEnd hend]
  | false =>
    have := left_read s hend
    rw [drain_of_not_atEnd hend, close_drain hclose (read s).2, hclose]
termination_by left s

/-- On a drive that forgets what it had open when it is closed, a load byte by byte is a load. -/
theorem loadStream_eq (hclose : ∀ s : σ, close (read s).2 = close s) (m : Machine σ) (name : String) :
    m.loadStream name = Part.some (m.load name) := by
  unfold loadStream load
  rcases openRom m.drive name with ⟨cause | _, opened⟩
  · rfl
  · obtain ⟨t, d, hparse, htracks, hreport⟩ :=
      (RomStream.tracks_self { source := opened, memory := m.memory }).parse
    have hclosed : close t.source = close (drain opened).2 := by
      rw [close_drain hclose]
      exact htracks.kept (fun s => close s = close opened) (fun s hs => (hclose s).trans hs) rfl
    have hread : Rom.readAt (RomStream.cursor { source := opened, memory := m.memory }) =
        Rom.read (drain opened).1 := rfl
    have hmemory := htracks.memory
    have hwritten := htracks.written
    rw [hread] at hparse hmemory hwritten hreport
    dsimp only
    rw [hparse, ← hclosed]
    simp only [Part.pure_eq_some, Part.bind_eq_bind, Part.bind_some, hmemory]
    cases hresult : (Rom.read (drain opened).1).result with
    | error defect => rfl
    | ok report =>
      rw [Nat.zero_add, ← hreport report hresult] at hwritten
      rw [hwritten]
      rfl

end Machine

end Tis80
