import Tis80.Proofs.CodeDumps
import Tis80.Proofs.DiskLoads

/-!
# Names that a kernel brings along

A text of a data section is written without the NUL that ends it. In blank memory the NUL is there
already: the text can be read back if what is written later spares its cells, and if nothing at all is
written to the cell behind them. A text may also end with memory, where it needs no NUL.

    Holds a bytes → Spares … ws → (m.writeAll ws).Holds a bytes                    (Holds.writeAll)
    (blank.writeAll (ws ++ consecutive a bytes ++ vs)).NulEnded a bytes          (nulEnded_writeAll)

A program that asks for a disk by such a text asks the drive for that name, and for nothing else.
-/

namespace Tis80

/-- None of the writes goes to a cell from `start` up to `stop`. -/
def Spares (start stop : Nat) (ws : List (Address × Byte)) : Prop :=
  ∀ w ∈ ws, w.1.toNat < start ∨ stop ≤ w.1.toNat

instance (start stop : Nat) (ws : List (Address × Byte)) : Decidable (Spares start stop ws) :=
  List.decidableBAll (fun w : Address × Byte => w.1.toNat < start ∨ stop ≤ w.1.toNat) ws

/-- The writes that an image with this layout asks for: those of the entries, then those of the code. -/
def Rom.Layout.writes (l : Rom.Layout) : List (Address × Byte) :=
  l.entries.flatMap Rom.Entry.writes ++ consecutive l.start l.code

namespace Memory

/-! ## Texts in memory -/

theorem fetch_blank (i : Nat) : blank.fetch i = 0 := by
  simp [blank, fetch]

theorem fetch_writeAll_of_spares (m : Memory) {start stop i : Nat} {ws : List (Address × Byte)}
    (h : Spares start stop ws) (hstart : start ≤ i) (hstop : i < stop) :
    (m.writeAll ws).fetch i = m.fetch i := by
  by_cases hi : i < memorySize
  · have hsize : memorySize = 65536 := rfl
    obtain ⟨c, rfl⟩ : ∃ c : Address, c.toNat = i :=
      ⟨UInt16.ofNat i, by rw [UInt16.toNat_ofNat']; omega⟩
    have hnone : c ∉ ws.map Prod.fst := by
      intro hmem
      obtain ⟨w, hw, rfl⟩ := List.mem_map.mp hmem
      have := h w hw
      omega
    rw [fetch_toNat, fetch_toNat, read_writeAll_of_notMem m hnone]
  · rw [fetch_of_le _ (Nat.not_lt.mp hi), fetch_of_le _ (Nat.not_lt.mp hi)]

theorem Holds.writeAll {m : Memory} {a : Nat} {bytes : List Byte} {ws : List (Address × Byte)}
    (h : m.Holds a bytes) (hws : Spares a (a + bytes.length) ws) :
    (m.writeAll ws).Holds a bytes := by
  refine ⟨h.1, fun k hk => ?_⟩
  rw [fetch_writeAll_of_spares m hws (by omega) (by omega), h.2 k hk]

/-- A text that is written into blank memory ends there, though its NUL is not written. -/
theorem nulEnded_writeAll {a : Address} {bytes : List Byte} {ws vs : List (Address × Byte)}
    (hfree : 0 ∉ bytes) (hfit : a.toNat + bytes.length ≤ memorySize)
    (hlater : Spares a.toNat (a.toNat + bytes.length) vs)
    (hend : Spares (a.toNat + bytes.length) (a.toNat + bytes.length + 1)
      (ws ++ consecutive a bytes ++ vs)) :
    (blank.writeAll (ws ++ consecutive a bytes ++ vs)).NulEnded a.toNat bytes := by
  refine ⟨?_, hfree, .inr ?_⟩
  · rw [writeAll_append, writeAll_append]
    exact (holds_writeAll_consecutive _ hfit).writeAll hlater
  · rw [fetch_writeAll_of_spares _ hend (Nat.le_refl _) (Nat.lt_succ_self _), fetch_blank]

end Memory

theorem Rom.Layout.nulFree_entries (l : Rom.Layout) : ∀ e ∈ l.entries, e.NulFree := by
  obtain ⟨data, tail⟩ := l
  cases data with
  | none => exact fun _ he => absurd he List.not_mem_nil
  | some d => exact d.nulFree

/-- A layout gives the text back that stands among its entries. -/
theorem Rom.Layout.nulEnded_writes {l : Rom.Layout} {front behind : List Rom.Entry} {a : Address}
    {bytes : List Byte} (hentries : l.entries = front ++ .text a bytes :: behind)
    (hfit : a.toNat + bytes.length ≤ memorySize)
    (hlater : Spares a.toNat (a.toNat + bytes.length)
      (behind.flatMap Rom.Entry.writes ++ consecutive l.start l.code))
    (hend : Spares (a.toNat + bytes.length) (a.toNat + bytes.length + 1) l.writes) :
    (Memory.blank.writeAll l.writes).NulEnded a.toNat bytes := by
  have hwrites : l.writes = front.flatMap Rom.Entry.writes ++ consecutive a bytes ++
      (behind.flatMap Rom.Entry.writes ++ consecutive l.start l.code) := by
    rw [writes, hentries, List.flatMap_append, List.flatMap_cons, List.append_assoc,
      List.append_assoc, List.append_assoc]
    rfl
  have hfree : 0 ∉ bytes := by
    have hmem : Rom.Entry.text a bytes ∈ l.entries := by
      rw [hentries]
      exact List.mem_append_right _ List.mem_cons_self
    exact l.nulFree_entries _ hmem
  rw [hwrites] at hend ⊢
  exact Memory.nulEnded_writeAll hfree hfit hlater hend

namespace Machine

open ByteSource

variable {σ : Type} [ByteSource σ]

/-! ## Asking for a disk -/

/-- Behind an instruction that opens `disk` and reads it to its end, before anybody is told. -/
def readingDisk (m : Machine σ) (disk : σ) : Machine σ :=
  { m.advance 3 with
    memory := m.memory.writeAll (Rom.read (drain disk).1).writes
    drive := close (drain disk).2 }

theorem step_dsk_of_refused {m : Machine σ} {a : Address} {cause : IoFault} {rest : σ}
    (hnext : m.nextInstruction? = some (.dsk a))
    (hopen : openRom m.drive (lossyText (m.memory.stringAt a)) = (.error cause, rest)) :
    m.step.2 = ({ m.advance 3 with drive := rest } : Machine σ).raise .ioError := by
  have hopen' : openRom (m.advance 3).drive (lossyText ((m.advance 3).memory.stringAt a)) =
      (.error cause, rest) := hopen
  rw [step_snd hnext]
  show (m.advance 3).loadNamed a = _
  simp only [loadNamed, load, hopen']

theorem step_dsk_of_opened {m : Machine σ} {a : Address} {disk : σ}
    (hnext : m.nextInstruction? = some (.dsk a))
    (hopen : openRom m.drive (lossyText (m.memory.stringAt a)) = (.ok (), disk)) :
    m.step.2 = match (Rom.read (drain disk).1).result with
      | .ok _ => m.readingDisk disk
      | .error _ => (m.readingDisk disk).raise .ioError := by
  have hopen' : openRom (m.advance 3).drive (lossyText ((m.advance 3).memory.stringAt a)) =
      (.ok (), disk) := hopen
  rw [step_snd hnext]
  show (m.advance 3).loadNamed a = _
  simp only [loadNamed, load, hopen']
  cases (Rom.read (drain disk).1).result <;> rfl

/-! ## Top theorem -/

/-- A text of a kernel names a disk. The kernel may have any layout that loads, so its entries may
overlap, and they and the code may run over the end of memory; but what comes later spares the cells of
the text, and nothing is written to the cell behind it. Then the kernel boots, and the text is what is
read at its address. While these cells are what they were, a step that executes `dsk` there opens the
name that the text spells, and what the step does depends on the answer to that alone: it goes on with
what the disk holds, or raises the flag. -/
theorem boot_text_names_disk {drive opened : σ} {kernel : String} {l : Rom.Layout}
    {front behind : List Rom.Entry} {a : Address} {s : List Byte}
    (hopen : openRom drive kernel = (.ok (), opened)) (himage : (drain opened).1 = l.bytes)
    (hentries : l.entries = front ++ .text a s :: behind)
    (hfit : a.toNat + s.length ≤ memorySize)
    (hlater : Spares a.toNat (a.toNat + s.length)
      (behind.flatMap Rom.Entry.writes ++ consecutive l.start l.code))
    (hend : Spares (a.toNat + s.length) (a.toNat + s.length + 1) l.writes) :
    ∃ m : Machine σ, boot drive kernel = .ok m ∧ m.memory.stringAt a = s ∧
      ∀ n : Machine σ, n.nextInstruction? = some (.dsk a) →
        (∀ c : Address, a.toNat ≤ c.toNat → c.toNat ≤ a.toNat + s.length →
          n.memory.read c = m.memory.read c) →
        n.step.1 = .ok () ∧
        (∀ name, n.StepOpens name ↔ name = lossyText s) ∧
        (∀ cause rest, openRom n.drive (lossyText s) = (.error cause, rest) →
          n.step.2 = ({ n.advance 3 with drive := rest } : Machine σ).raise .ioError) ∧
        (∀ disk, openRom n.drive (lossyText s) = (.ok (), disk) →
          n.step.2 = match (Rom.read (drain disk).1).result with
            | .ok _ => n.readingDisk disk
            | .error _ => (n.readingDisk disk).raise .ioError) := by
  have hread : (Rom.read (drain opened).1).result = .ok l.report := by
    rw [himage, Rom.result_read_bytes]
  obtain ⟨m, hboot, -, hmemory, -⟩ := boot_of_openRom hopen hread
  rw [himage, Rom.writes_read_bytes] at hmemory
  have hstring : m.memory.stringAt a = s := by
    rw [hmemory]
    exact (Rom.Layout.nulEnded_writes hentries hfit hlater hend).eq_stringAt.symm
  refine ⟨m, hboot, hstring, fun n hnext hcells => ?_⟩
  have hname : n.memory.stringAt a = s := by
    rw [← hstring]
    apply (Memory.stringAt_congr _).symm
    intro c hstart hstop
    rw [hstring] at hstop
    exact (hcells c hstart hstop).symm
  refine ⟨step_dsk_completes hnext, ?_, ?_, ?_⟩
  · intro name
    rw [stepOpens_iff_of_dsk hnext, hname]
  · intro cause rest hrefused
    rw [← hname] at hrefused
    exact step_dsk_of_refused hnext hrefused
  · intro disk hdisk
    rw [← hname] at hdisk
    exact step_dsk_of_opened hnext hdisk

/-- A kernel that asks for a disk. An entry before the name is written over by it, and one after it
runs over the end of memory. -/
def naming : Rom.Layout where
  data := some {
    entries := [.text 0x02FE [0x41, 0x42, 0x43], .text 0x0300 [0x64, 0xE9], .text 0xFFFF [0x41, 0x42]]
    endAddress := 0
    endKind := Rom.endEntry
    nulFree := by simp [Rom.Entry.NulFree]
    endKind_ne := by decide }
  tail := [0x02, 0x00, Opcode.dsk.toByte, 0x03, 0x00]

/-- The kernel, and a disk with one byte of code for 0400. The second byte of the name is no text. -/
def namedDisk : Shelf where
  images := [("k", naming.bytes), ("d\uFFFD", [0xFF, 0xFE, 0xFE, 0xFF, 0x01, 0x04, 0x00, 0x41])]

theorem boot_text_of_naming :
    ∃ m : Machine Shelf, boot namedDisk "k" = .ok m ∧ m.memory.stringAt 0x0300 = [0x64, 0xE9] ∧
      m.nextInstruction? = some (.dsk 0x0300) ∧ (∀ name, m.StepOpens name ↔ name = "d\uFFFD") ∧
      m.step.2.memory.read 0x0400 = 0x41 := by
  obtain ⟨opened, hopened⟩ : ∃ opened, opened = { namedDisk with unread := naming.bytes } := ⟨_, rfl⟩
  have hopen : openRom namedDisk "k" = (.ok (), opened) := by
    rw [hopened]
    rfl
  have hdrain : drain opened = (naming.bytes, namedDisk) := by
    rw [hopened, Shelf.drain_eq]
    rfl
  have himage : (drain opened).1 = naming.bytes := by rw [hdrain]
  have hentries : naming.entries = [.text 0x02FE [0x41, 0x42, 0x43]] ++
      .text 0x0300 [0x64, 0xE9] :: [.text 0xFFFF [0x41, 0x42]] := rfl
  obtain ⟨m, hboot, hstring, hsteps⟩ :=
    boot_text_names_disk hopen himage hentries (by decide) (by decide) (by decide)
  have hloads : (Rom.read (drain opened).1).result = .ok naming.report := by
    rw [himage, Rom.result_read_bytes]
  obtain ⟨m', hboot', hregisters, hmemory, hdrive⟩ := boot_of_openRom hopen hloads
  obtain rfl : m' = m := Except.ok.inj (hboot'.symm.trans hboot)
  have hnext : m'.nextInstruction? = some (.dsk 0x0300) := by
    apply nextInstruction?_of_holds
    · rw [isHalted, hregisters]
    · rw [hregisters, hmemory, himage, Rom.writes_read_bytes, Memory.writeAll_append]
      exact Memory.holds_writeAll_consecutive _ (by decide)
  have hname : lossyText [0x64, 0xE9] = "d\uFFFD" := by
    have hcut : Lossy.character 0xE9 [] = (Lossy.replacement, []) := rfl
    rw [lossyText, Lossy.chars_cons_of_ascii (by decide), Lossy.chars_cons, hcut, Lossy.chars_nil]
    rfl
  obtain ⟨-, hopens, -, hloaded⟩ := hsteps m' hnext fun _ _ _ => rfl
  rw [hname] at hopens hloaded
  obtain ⟨disk, hdisk⟩ : ∃ disk : Shelf, disk = { namedDisk with
    unread := [0xFF, 0xFE, 0xFE, 0xFF, 0x01, 0x04, 0x00, 0x41] } := ⟨_, rfl⟩
  have hfound : openRom m'.drive "d\uFFFD" = (.ok (), disk) := by
    rw [hdrive, hdrain, hdisk]
    rfl
  have hreading : Rom.read (drain disk).1 = ⟨[(0x0400, 0x41)], .ok ⟨1, 1, 0x0400⟩⟩ := by
    rw [hdisk, Shelf.drain_eq]
    rfl
  refine ⟨m', hboot, hstring, hnext, hopens, ?_⟩
  rw [hloaded disk hfound, hreading]
  show (m'.memory.writeAll (Rom.read (drain disk).1).writes).read 0x0400 = 0x41
  rw [hreading, Memory.read_writeAll]
  rfl

end Machine

end Tis80
