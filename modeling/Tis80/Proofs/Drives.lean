import Tis80.Proofs.FlatNames
import Tis80.Proofs.Lockstep
import Tis80.Proofs.RomImage

/-!
# A shelf and a folder make the same machine

A shelf keeps the unread bytes of a copy. A folder keeps a chunk, a place in a file and a countdown. As
long as nobody writes to the folder, what it has still to give is what the shelf has (`Mirrors`), and
each request keeps it so:

    Mirrors root s d → the replies are the same, and `Mirrors` holds again           (Mirrors.happen)

A machine knows its drive only by these requests. So machines over the two drives go through the same
states, if the names they open are flat and the paths of these names are within the limit of the file
system. A shelf knows no such limit, and beyond it the drives part.
-/

namespace Tis80

open ByteSource

def IoFault.isNotFound : IoFault → Bool
  | .imageNotFound | .fileNotFound => true
  | .notADirectory | .nameTooLong | .nulInName | .inputOutput => false

/-- Both drives say that there is no such ROM, each in its own words. -/
def BothNotFound (c c' : IoFault) : Prop := c.isNotFound = true ∧ c'.isNotFound = true

inductive SameReply : Reply → Reply → Prop
  | opened : SameReply .opened .opened
  | refused {c c' : IoFault} : BothNotFound c c' → SameReply (.refused c) (.refused c')
  | byte (b : Byte) : SameReply (.byte b) (.byte b)
  | atEnd (yes : Bool) : SameReply (.atEnd yes) (.atEnd yes)
  | done : SameReply .done .done

/-- A request that a reader makes of a drive, by a flat name within the limit if it opens one. -/
def DriveEvent.IsFlatRequest (root : String) : DriveEvent → Prop
  | .openRom name => FlatIn root name
  | .insert _ _ => False
  | .read | .atEnd | .close => True

/-- The folder is at `root`, holds the images of the shelf, and has the same bytes to come. -/
structure Mirrors (root : String) (s : Shelf) (d : Folder) : Prop where
  holds : Holds s d
  root_eq : d.root = root
  left : d.left = s.unread.length
  pending : ∀ f, d.file = some f → d.pending f = s.unread

namespace Mirrors

variable {root : String} {s : Shelf} {d : Folder} {name : String}

/-! ## One request -/

theorem openFile_of_present (h : Mirrors root s d) (hname : FlatIn root name) {bytes : List Byte}
    (hbytes : s.images.lookup name = some bytes) :
    ∃ p, d.openFile name = (.ok (), p) ∧ Mirrors root { s with unread := bytes } p := by
  obtain ⟨l, hfind, hfile⟩ := h.holds.find_of_present (h.root_eq ▸ hname) hbytes
  have hlength : d.lengthAt l = bytes.length := by
    simp [Folder.lengthAt, FileTree.isDirectory, FileTree.bytesAt, hfile]
  refine ⟨{ d with file := some { location := l, remaining := bytes.length } }, ?_,
    h.holds.setFile bytes _, h.root_eq, rfl, ?_⟩
  · rw [Folder.openFile_eq, hfind, ← hlength]
  · rintro _ ⟨⟩
    simp [Folder.pending, FileTree.bytesAt, hfile]

theorem openFile_of_absent (h : Mirrors root s d) (hname : FlatIn root name)
    (hnone : s.images.lookup name = none) : d.openFile name = (.error .fileNotFound, d) := by
  rw [Folder.openFile_eq, h.holds.find_of_absent (h.root_eq ▸ hname) hnone]

theorem atEnd (h : Mirrors root s d) : atEnd s = atEnd d := by
  show s.unread.isEmpty = (d.left == 0)
  rw [h.left]
  cases s.unread <;> rfl

theorem read (h : Mirrors root s d) : s.read.1 = d.read.1 ∧ Mirrors root s.read.2 d.read.2 := by
  have hleft := h.left
  cases hunread : s.unread with
  | nil =>
    rw [hunread] at hleft
    rw [Shelf.read_of_isEmpty s (by rw [hunread]; rfl), Folder.read_of_left_eq_zero d hleft]
    exact ⟨rfl, h⟩
  | cons b rest =>
    rw [hunread] at hleft
    cases hfile : d.file with
    | none => simp [Folder.left, hfile] at hleft
    | some f =>
      have hremaining : f.remaining = rest.length + 1 := by simpa [Folder.left, hfile] using hleft
      have hpending := h.pending f hfile
      rw [hunread] at hpending
      obtain ⟨f', hread, hrest, hremaining'⟩ :=
        Folder.read_of_pending hfile hpending (by omega)
      rw [Shelf.read, hunread, hread]
      refine ⟨rfl, h.holds.setFile rest _, h.root_eq, ?_, ?_⟩
      · show f'.remaining = rest.length
        omega
      · rintro _ ⟨⟩
        exact hrest

theorem close (h : Mirrors root s d) : Mirrors root s.close d.close :=
  ⟨h.holds.setFile [] none, h.root_eq, rfl, nofun⟩

theorem drain {s : Shelf} {d : Folder} (h : Mirrors root s d) :
    (drain s).1 = (drain d).1 ∧ Mirrors root (drain s).2 (drain d).2 := by
  cases hend : ByteSource.atEnd s with
  | true =>
    have hend' : ByteSource.atEnd d = true := h.atEnd ▸ hend
    rw [drain_of_atEnd hend, drain_of_atEnd hend']
    exact ⟨rfl, h⟩
  | false =>
    have hend' : ByteSource.atEnd d = false := h.atEnd ▸ hend
    have hlt := left_read s hend
    obtain ⟨hbyte, hnext⟩ := h.read
    obtain ⟨hbytes, hmirrors⟩ := hnext.drain
    rw [drain_of_not_atEnd hend, drain_of_not_atEnd hend']
    exact ⟨congrArg₂ List.cons hbyte hbytes, hmirrors⟩
termination_by ByteSource.left s

theorem opensAlike (h : Mirrors root s d) (hname : FlatIn root name) :
    OpensAlike (Mirrors root) BothNotFound s d name := by
  cases hs : s.images.lookup name with
  | none =>
    exact .refused (Shelf.openImage_of_absent hs) (h.openFile_of_absent hname hs) ⟨rfl, rfl⟩ h
  | some bytes =>
    obtain ⟨p, hopen, hmirrors⟩ := h.openFile_of_present hname hs
    exact .opened (Shelf.openImage_of_present hs) hopen hmirrors.drain.1 hmirrors.drain.2.close

/-! ## Any requests -/

theorem happen (h : Mirrors root s d) {e : DriveEvent} (he : e.IsFlatRequest root) :
    SameReply (happen s e).1 (happen d e).1 ∧ Mirrors root (happen s e).2 (happen d e).2 := by
  cases e with
  | openRom name =>
    cases hs : s.images.lookup name with
    | none =>
      have hopen : openRom d name = _ := h.openFile_of_absent he hs
      rw [Shelf.happen_openRom_of_absent hs, ByteSource.happen, hopen]
      exact ⟨.refused ⟨rfl, rfl⟩, h⟩
    | some bytes =>
      obtain ⟨p, hopened, hmirrors⟩ := h.openFile_of_present he hs
      have hopen : openRom d name = _ := hopened
      rw [Shelf.happen_openRom_of_present hs, ByteSource.happen, hopen]
      exact ⟨.opened, hmirrors⟩
  | read =>
    obtain ⟨hbyte, hmirrors⟩ := h.read
    refine ⟨?_, hmirrors⟩
    show SameReply (.byte s.read.1) (.byte d.read.1)
    rw [hbyte]
    exact .byte _
  | atEnd =>
    refine ⟨?_, h⟩
    show SameReply (.atEnd (ByteSource.atEnd s)) (.atEnd (ByteSource.atEnd d))
    rw [h.atEnd]
    exact .atEnd _
  | close => exact ⟨.done, h.close⟩
  | insert => exact he.elim

theorem replies (h : Mirrors root s d) {es : List DriveEvent} (hes : ∀ e ∈ es, e.IsFlatRequest root) :
    List.Forall₂ SameReply (replies s es) (replies d es) := by
  induction es generalizing s d with
  | nil => exact .nil
  | cons e es ih =>
    obtain ⟨he, hrest⟩ := List.forall_mem_cons.mp hes
    obtain ⟨hreply, hmirrors⟩ := h.happen he
    exact .cons hreply (ih hmirrors hrest)

end Mirrors

/-! ## Machines -/

/-- Machines may have different drives with the same images. -/
def driveOnly (root : String) : Tolerance Shelf Folder where
  cell _ := False
  shield := Eq
  drive := Mirrors root
  fault := BothNotFound
  name := FlatIn root
  kernelOrigin_le := @Tolerance.kernelOrigin_le_of_false
  shield_true := rfl
  opensAlike := Mirrors.opensAlike

namespace Machine

/-- The ROMs that the session loads, and those that its steps open, have flat names, and their paths
are within the limit. -/
def OpensFlat {σ : Type} [ByteSource σ] (root : String) (m : Machine σ) (ops : List Operation) : Prop :=
  ∀ x ∈ m.occasions ops, (∀ name, x.2 = .load name → FlatIn root name) ∧
    ∀ s name, x.1.StepsFrom x.2 s → s.StepOpens name → FlatIn root name

/-- The machines give the same answers and go through the same states. -/
def SameSession (m : Machine Shelf) (n : Machine Folder) (ops : List Operation) : Prop :=
  List.Forall₂ (fun x y => SameAnswer BothNotFound x.1 y.1 ∧
    x.2.registers = y.2.registers ∧ x.2.memory = y.2.memory) (m.trace ops) (n.trace ops)

/-- Either both kernels cannot be loaded, for the same reason, or both run and do the same. -/
inductive SameBoot (root : String) :
    Except LoadFault (Machine Shelf) → Except LoadFault (Machine Folder) → Prop
  | failed {e e' : LoadFault} : SameLoad BothNotFound (.error e) (.error e') →
      SameBoot root (.error e) (.error e')
  | booted {m : Machine Shelf} {n : Machine Folder} : m.registers = n.registers →
      m.memory = n.memory → (∀ ops, m.OpensFlat root ops → SameSession m n ops) →
      SameBoot root (.ok m) (.ok n)

variable {root : String} {m : Machine Shelf} {n : Machine Folder}

theorem OpensFlat.nil : m.OpensFlat root [] := fun _ hx => absurd hx List.not_mem_nil

theorem OpensFlat.load {name : String} {ops : List Operation} (hname : FlatIn root name)
    (hrest : (m.load name).2.OpensFlat root ops) : m.OpensFlat root (.load name :: ops) := by
  intro x hx
  rcases List.mem_cons.mp hx with rfl | hx
  · refine ⟨?_, fun _ _ hsteps => nomatch hsteps⟩
    rintro _ ⟨⟩
    exact hname
  · exact hrest x hx

theorem OpensFlat.step {ops : List Operation} (hopens : ∀ name, m.StepOpens name → FlatIn root name)
    (hrest : m.step.2.OpensFlat root ops) : m.OpensFlat root (.step :: ops) := by
  intro x hx
  rcases List.mem_cons.mp hx with rfl | hx
  · refine ⟨nofun, ?_⟩
    rintro _ name ⟨⟩ hname
    exact hopens name hname
  · exact hrest x hx

theorem registers_memory_of_alike (h : (driveOnly root).Alike m n) :
    m.registers = n.registers ∧ m.memory = n.memory :=
  ⟨h.registers h.shield, Memory.ext_read fun a => h.memory a not_false⟩

theorem alike_fresh {s : Shelf} {d : Folder} (h : Mirrors root s d) :
    (driveOnly root).Alike { drive := s } { drive := d } :=
  ⟨rfl, rfl, rfl, rfl, rfl, rfl, rfl, rfl, fun _ _ => rfl, h, rfl⟩

theorem sameSession_of_alike (h : (driveOnly root).Alike m n) {ops : List Operation}
    (hops : m.OpensFlat root ops) : SameSession m n ops := by
  have hallows : ∀ x ∈ m.occasions ops, (driveOnly root).Allows x.1 x.2 := by
    intro x hx
    obtain ⟨hload, hstep⟩ := hops x hx
    exact ⟨fun s hs => ⟨fun _ hcell => hcell.elim, fun _ hcell => hcell.elim,
      fun name hname => hstep s name hs hname⟩, hload⟩
  refine (h.trace hallows).imp ?_
  rintro x y ⟨hanswer, halike⟩
  exact ⟨hanswer, registers_memory_of_alike halike⟩

theorem sameBoot {s : Shelf} {d : Folder} {kernel : String} (h : Mirrors root s d)
    (hkernel : FlatIn root kernel) : SameBoot root (boot s kernel) (boot d kernel) := by
  obtain ⟨hresult, halike⟩ := (alike_fresh h).load hkernel
  unfold boot
  generalize load { drive := s } kernel = loaded at hresult halike ⊢
  generalize load { drive := d } kernel = loaded' at hresult halike ⊢
  obtain ⟨result, m⟩ := loaded
  obtain ⟨result', n⟩ := loaded'
  have hjump := halike.jump MemoryMap.kernelOrigin
  have hstate := registers_memory_of_alike hjump
  cases hresult with
  | same =>
    cases result with
    | error e => exact .failed (.same _)
    | ok report => exact .booted hstate.1 hstate.2 fun ops hops => sameSession_of_alike hjump hops
  | unreadable hfault => exact .failed (.unreadable hfault)

/-! ## Beyond the limit -/

section

variable {s : Shelf} {d : Folder} {name : String}

theorem not_sameReplies_of_long (h : Holds s d) (hname : Flat name)
    (hlong : Path.pathLimit < (Path.join d.root name).utf8ByteSize) :
    ¬ List.Forall₂ SameReply (replies s [.openRom name]) (replies d [.openRom name]) := by
  have hopen : openRom d name = _ := h.openFile_of_long hname hlong
  rintro (_ | ⟨hreply, -⟩)
  cases hs : s.images.lookup name with
  | none =>
    rw [Shelf.happen_openRom_of_absent hs, happen, hopen] at hreply
    cases hreply with
    | refused hfaults => cases hfaults.2
  | some bytes =>
    rw [Shelf.happen_openRom_of_present hs, happen, hopen] at hreply
    cases hreply

theorem sameLoad_of_loaded {r r' : Except LoadFault Rom.Report}
    (h : SameAnswer BothNotFound (.loaded r) (.loaded r')) : SameLoad BothNotFound r r' := by
  cases h with
  | same => exact .same r
  | loaded hload => exact hload

theorem not_sameSession_of_long (h : Holds s d) (hname : Flat name)
    (hlong : Path.pathLimit < (Path.join d.root name).utf8ByteSize) :
    ¬ SameSession { drive := s } { drive := d } [.load name] := by
  have hopen : openRom d name = _ := h.openFile_of_long hname hlong
  have hfails : (load { drive := d } name).1 = .error (.unreadable name .nameTooLong) := by
    simp only [load, hopen]
  rintro (_ | ⟨⟨hanswer, -⟩, -⟩)
  have hload : SameLoad _ (load { drive := s } name).1 (load { drive := d } name).1 :=
    sameLoad_of_loaded hanswer
  rw [hfails] at hload
  -- a shelf finds the ROM or says that there is none, and neither is what the folder says
  cases hs : s.images.lookup name with
  | none =>
    have habsent : openRom s name = _ := Shelf.openImage_of_absent hs
    simp only [load, habsent] at hload
    cases hload with
    | unreadable hfaults => cases hfaults.2
  | some bytes =>
    have hopened : openRom s name = _ := Shelf.openImage_of_present hs
    have hresult : (load { drive := s } name).1 = _ := result_load hopened
    rw [hresult] at hload
    cases hread : (Rom.read (ByteSource.drain { s with unread := bytes }).1).result with
    | error defect | ok report =>
      rw [hread] at hload
      cases hload

end

/-! ## Top theorem -/

/-- A folder and a shelf that hold the same images reply alike to all requests for flat names whose
paths are within the limit, and machines over them do the same, from blank memory or from a kernel. A
path over the limit cannot be opened in the folder, whether there is a file or not. -/
theorem drives_interchangeable {s : Shelf} {d : Folder} (hholds : Holds s d) (hs : s.unread = [])
    (hd : d.file = none) :
    (∀ es, (∀ e ∈ es, e.IsFlatRequest d.root) →
      List.Forall₂ SameReply (replies s es) (replies d es)) ∧
    (∀ ops, OpensFlat d.root { drive := s } ops → SameSession { drive := s } { drive := d } ops) ∧
    (∀ kernel, FlatIn d.root kernel → SameBoot d.root (boot s kernel) (boot d kernel)) ∧
    ∀ name, Flat name → Path.pathLimit < (Path.join d.root name).utf8ByteSize →
      openRom d name = (.error .nameTooLong, d) := by
  have hmirrors : Mirrors d.root s d := by
    refine ⟨hholds, rfl, ?_, ?_⟩
    · rw [Folder.left, hd, hs]
      rfl
    · intro f hf
      rw [hd] at hf
      cases hf
  exact ⟨fun es hes => hmirrors.replies hes,
    fun ops hops => sameSession_of_alike (alike_fresh hmirrors) hops,
    fun kernel hkernel => sameBoot hmirrors hkernel,
    fun name hname hlong => hholds.openFile_of_long hname hlong⟩

/-- A program that asks for another ROM, whose name is a letter in the last cell. -/
def asking : Rom where
  data := some [.number 0xFFFF 0x41]
  start := MemoryMap.kernelOrigin
  code := [Opcode.dsk.toByte, 0xFF, 0xFF]

theorem stepOpens_asking {m : Machine Shelf} (hregisters : m.registers = {})
    (hread : ∀ c, m.memory.read c = (asking.writes.reverse.lookup c).getD 0) (name : String) :
    m.StepOpens name ↔ name = "A" := by
  have hdsk : m.nextInstruction? = some (.dsk 0xFFFF) := by
    have hhigh : m.memory.fetch 0x0201 = 0xFF :=
      (Memory.fetch_toNat m.memory 0x0201).trans (hread 0x0201)
    have hlow : m.memory.fetch 0x0202 = 0xFF :=
      (Memory.fetch_toNat m.memory 0x0202).trans (hread 0x0202)
    rw [nextInstruction?_of_fresh .dsk hregisters (hread MemoryMap.kernelOrigin)]
    simp only [Opcode.instruction, Nat.reduceAdd, hhigh, hlow]
    rfl
  have hstring : m.memory.stringAt 0xFFFF = [0x41] := by
    have hslice : m.memory.slice ⟨0xFFFF, memorySize⟩ = [m.memory.read 0xFFFF] := by
      have hlast := Memory.slice_succ m.memory (a := 0xFFFF) (Nat.le_refl _)
      rw [Memory.slice_self, List.nil_append] at hlast
      exact hlast
    have hbyte : m.memory.read 0xFFFF = 0x41 := hread 0xFFFF
    show (m.memory.slice ⟨0xFFFF, memorySize⟩).takeWhile (· ≠ 0) = [0x41]
    rw [hslice, hbyte]
    rfl
  have htext : lossyText [0x41] = "A" := by
    rw [lossyText, Lossy.chars_cons_of_ascii (by decide), Lossy.chars_nil]
    rfl
  rw [stepOpens_iff_of_dsk hdsk, hstring, htext]

theorem opensFlat_asking {root : String} {s : Shelf} (hs : s.images.lookup "k" = some asking.image)
    (hroot : ∀ name ∈ ["k", "A", "n"], FlatIn root name) :
    OpensFlat root { drive := s } [.load "k", .step, .load "n"] := by
  have hfree : asking.NulFree := by
    simp [Rom.NulFree, asking, Rom.Entry.NulFree]
  have hwrites : loadWrites { drive := s } "k" = asking.writes :=
    loadWrites_of_image hfree (Shelf.openImage_of_present hs) (by rw [Shelf.drain_eq])
  have hread : ∀ c, (load { drive := s } "k").2.memory.read c =
      (asking.writes.reverse.lookup c).getD 0 := by
    intro c
    rw [memory_load, hwrites, Memory.read_writeAll, Memory.read_blank]
  have hletter : ∀ name, StepOpens (load { drive := s } "k").2 name → FlatIn root name := by
    intro name hopens
    rw [(stepOpens_asking (registers_load _ _) hread name).mp hopens]
    exact hroot "A" (by decide)
  exact .load (hroot "k" (by decide)) (.step hletter (.load (hroot "n" (by decide)) .nil))

/-- The program asks for a ROM that is no ROM, and then somebody asks for one that is not there. The
path of the folder is so long that just one letter can follow. -/
theorem drives_interchangeable_of_asking :
    let images := [("k", asking.image), ("A", [0x00])]
    let s := Shelf.ofImages images
    let d := images.foldl (fun d i => d.store i.1 i.2) ({ tree := {}, root := Path.dots 2047 } : Folder)
    Holds s d ∧
      List.Forall₂ SameReply (replies s [.openRom "A", .read, .openRom "n", .read, .atEnd])
        (replies d [.openRom "A", .read, .openRom "n", .read, .atEnd]) ∧
      SameSession { drive := s } { drive := d } [.load "k", .step, .load "n"] ∧
      SameBoot (Path.dots 2047) (boot s "k") (boot d "k") := by
  intro images s d
  have himages : ∀ i ∈ images, Flat i.1 := by decide
  have hholds : Holds s d := (holds_empty_dots 2047).storeAll himages
  have hletters : ∀ name ∈ ["k", "A", "n"], Flat name ∧ name.utf8ByteSize = 1 := by decide
  have hroot : ∀ name ∈ ["k", "A", "n"], FlatIn d.root name := by
    intro name hname
    obtain ⟨hflat, hsize⟩ := hletters name hname
    refine ⟨hflat, ?_⟩
    show (Path.join (Path.dots 2047) name).utf8ByteSize ≤ Path.pathLimit
    rw [Path.utf8ByteSize_join_dots 2047 hflat.noSlash, hsize]
    decide
  obtain ⟨hreplies, hsession, hboot, -⟩ := drives_interchangeable hholds rfl rfl
  refine ⟨hholds, hreplies _ ?_, hsession _ (opensFlat_asking rfl hroot), hboot _ (hroot "k" (by decide))⟩
  simp [DriveEvent.IsFlatRequest, hroot]

/-- One byte of code. -/
def tiny : Rom where
  start := MemoryMap.kernelOrigin
  code := [0x41]

/-- The limit is 4095 bytes, and these paths have 4096. The first ROM is on the shelf and in the folder,
under a flat name, and yet the folder does not open it; the second is in neither, and the folder does not
say that it is missing. -/
theorem not_interchangeable_of_longPath :
    let s := ({} : Shelf).insert "ab" tiny.image
    let d := ({ tree := {}, root := Path.dots 2047 } : Folder).store "ab" tiny.image
    Holds s d ∧ s.unread = [] ∧ d.file = none ∧ Flat "ab" ∧ Flat "cd" ∧
      ¬ List.Forall₂ SameReply (replies s [.openRom "ab"]) (replies d [.openRom "ab"]) ∧
      ¬ List.Forall₂ SameReply (replies s [.openRom "cd"]) (replies d [.openRom "cd"]) ∧
      ¬ SameSession { drive := s } { drive := d } [.load "ab"] := by
  intro s d
  have hab : Flat "ab" := by decide
  have hcd : Flat "cd" := by decide
  have hholds : Holds s d := (holds_empty_dots 2047).store hab tiny.image
  have hlong : ∀ name, Flat name → name.utf8ByteSize = 2 →
      Path.pathLimit < (Path.join d.root name).utf8ByteSize := by
    intro name hname hsize
    show Path.pathLimit < (Path.join (Path.dots 2047) name).utf8ByteSize
    rw [Path.utf8ByteSize_join_dots 2047 hname.noSlash, hsize]
    decide
  exact ⟨hholds, rfl, rfl, hab, hcd, not_sameReplies_of_long hholds hab (hlong "ab" hab rfl),
    not_sameReplies_of_long hholds hcd (hlong "cd" hcd rfl),
    not_sameSession_of_long hholds hab (hlong "ab" hab rfl)⟩

end Machine

end Tis80
