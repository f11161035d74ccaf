import Tis80.Drive.Folder
import Tis80.Drive.Shelf
import Tis80.Proofs.Execution

/-!
# Loading depends on the image alone

A drive holds images under names. Opening a name and reading to the end gives its image, whatever was
open before (`ImageDrive`), and nothing a machine does to its drive changes what the drive holds:

    image (m.afterAll es).drive = image m.drive                                   (image_afterAll)

So what a load reports and the writes it performs are read off the image. Memory takes no part in
that, and neither does what was loaded before.
-/

namespace Tis80

open ByteSource

/-- A drive that holds images under names, whatever is open at the moment. -/
class ImageDrive (σ : Type) [ByteSource σ] where
  /-- The image under a name, or why there is none. -/
  image : σ → String → Except IoFault (List Byte)
  openRom_of_image_error : ∀ {s name cause}, image s name = .error cause →
    openRom s name = (.error cause, s)
  openRom_of_image_ok : ∀ {s name bytes}, image s name = .ok bytes →
    ∃ opened, openRom s name = (.ok (), opened) ∧ (drain opened).1 = bytes ∧ image opened = image s
  image_read : ∀ s, image (read s).2 = image s
  image_close : ∀ s, image (close s) = image s

/-! ## A shelf -/

namespace Shelf

def image (s : Shelf) (name : String) : Except IoFault (List Byte) :=
  match s.images.lookup name with
  | none => .error .imageNotFound
  | some bytes => .ok bytes

theorem openImage_of_absent {s : Shelf} {name : String} (h : s.images.lookup name = none) :
    s.openImage name = (.error .imageNotFound, s) := by
  rw [openImage, h]

theorem openImage_of_present {s : Shelf} {name : String} {bytes : List Byte}
    (h : s.images.lookup name = some bytes) :
    s.openImage name = (.ok (), { s with unread := bytes }) := by
  rw [openImage, h]

theorem images_read (s : Shelf) : s.read.2.images = s.images := by
  unfold read
  split <;> rfl

instance : ImageDrive Shelf where
  image := image
  openRom_of_image_error {s name cause} h := by
    unfold image at h
    split at h
    · next hnone =>
      cases h
      exact openImage_of_absent hnone
    · cases h
  openRom_of_image_ok {s name bytes} h := by
    unfold image at h
    split at h
    · cases h
    · next hsome =>
      cases h
      exact ⟨_, openImage_of_present hsome, by rw [drain_eq], rfl⟩
  image_read s := by
    funext name
    show image s.read.2 name = image s name
    rw [image, image, images_read]
  image_close _ := rfl

end Shelf

/-! ## A folder -/

namespace Folder

/-- What reading finds at a location. From a directory that is one zero, for the read that fails. -/
def bytesShown (d : Folder) (l : Location) : List Byte :=
  if d.tree.isDirectory l then [0] else d.tree.bytesAt l

/-- Where the file of a name is, if it is found and its length can be had. -/
def find (d : Folder) (name : String) : Except IoFault Location :=
  (d.tree.resolve d.here (Path.join d.root name)).bind fun l => (d.askLength l).map fun _ => l

def image (d : Folder) (name : String) : Except IoFault (List Byte) :=
  (d.find name).map d.bytesShown

/-- An open that fails, for want of the file or of its length, leaves the folder as it was. -/
theorem openFile_eq (d : Folder) (name : String) :
    d.openFile name = match d.find name with
      | .error fault => (.error fault, d)
      | .ok l => (.ok (), { d with file := some { location := l, remaining := d.lengthAt l } }) := by
  unfold openFile find askLength
  cases d.tree.resolve d.here (Path.join d.root name) with
  | error fault => rfl
  | ok l =>
    simp only [Except.bind]
    cases d.lengthFault? l <;> rfl

theorem read_eq_setFile (d : Folder) : ∃ file, d.read.2 = { d with file := file } := by
  unfold read
  split
  · exact ⟨d.file, rfl⟩
  · split
    · exact ⟨d.file, rfl⟩
    · dsimp only
      split
      · exact ⟨_, rfl⟩
      · exact ⟨_, rfl⟩

/-- The bytes still to come, from the chunk and then from the file. -/
def pending (d : Folder) (f : OpenFile) : List Byte :=
  f.chunk ++ (d.tree.bytesAt f.location).drop f.taken

theorem pending_fill (d : Folder) (f : OpenFile) : d.pending (d.fill f) = d.pending f := by
  unfold fill
  split
  · next hempty =>
    have hnil : f.chunk = [] := List.isEmpty_iff.mp hempty
    simp only [pending, hnil, List.nil_append, ← List.drop_drop]
    exact List.prefix_iff_eq_append.mp (List.take_prefix _ _)
  · rfl

/-- A chunk is empty only at the end. -/
theorem chunk_fill_ne_nil {d : Folder} {f : OpenFile} (h : d.pending f ≠ []) :
    (d.fill f).chunk ≠ [] := by
  unfold fill
  split
  · next hempty =>
    have hnil : f.chunk = [] := List.isEmpty_iff.mp hempty
    rw [pending, hnil, List.nil_append] at h
    simpa [chunkSize] using h
  · next hne => simpa using hne

/-- A read takes the first of the bytes to come. -/
theorem read_of_pending {d : Folder} {f : OpenFile} {b : Byte} {rest : List Byte}
    (hfile : d.file = some f) (hpending : d.pending f = b :: rest) (hleft : f.remaining ≠ 0) :
    ∃ f', d.read = (b, { d with file := some f' }) ∧ d.pending f' = rest ∧
      f'.remaining = f.remaining - 1 := by
  have hne := chunk_fill_ne_nil (d := d) (f := f) (by rw [hpending]; exact List.cons_ne_nil b rest)
  have hfill := pending_fill d f
  have hremaining := remaining_fill d f
  obtain ⟨c, cs, hchunk⟩ := List.exists_cons_of_ne_nil hne
  rw [hpending, pending, hchunk, List.cons_append] at hfill
  obtain ⟨rfl, htail⟩ := List.cons.inj hfill
  refine ⟨{ d.fill f with chunk := cs, remaining := (d.fill f).remaining - 1 }, ?_, htail, ?_⟩
  · simp only [read, hfile, hleft, if_false, hchunk]
  · simp only [hremaining]

theorem drain_of_pending {d : Folder} {f : OpenFile} {bytes : List Byte} (hfile : d.file = some f)
    (hpending : d.pending f = bytes) (hleft : f.remaining = bytes.length) :
    (drain d).1 = bytes := by
  induction bytes generalizing d f with
  | nil =>
    have hend : atEnd d = true := by
      show (d.left == 0) = true
      simp [left, hfile, hleft]
    rw [drain_of_atEnd hend]
  | cons b rest ih =>
    have hmore : atEnd d = false := by
      show (d.left == 0) = false
      simp [left, hfile, hleft]
    obtain ⟨f', hread, hrest, hremaining⟩ := read_of_pending hfile hpending (by simp [hleft])
    have hread' : ByteSource.read d = (b, { d with file := some f' }) := hread
    rw [drain_of_not_atEnd hmore, hread']
    exact congrArg (b :: ·) (ih rfl hrest (by simp [hremaining, hleft]))

theorem bytesAt_of_isDirectory {t : FileTree} {l : Location} (h : t.isDirectory l = true) :
    t.bytesAt l = [] := by
  unfold FileTree.isDirectory at h
  unfold FileTree.bytesAt
  split at h
  · next hl => rw [hl]
  · cases h

/-- What was just opened is read as it stands in the tree. -/
theorem drain_opened (d : Folder) (l : Location) :
    (drain { d with file := some { location := l, remaining := d.lengthAt l } }).1 =
      d.bytesShown l := by
  by_cases hdir : d.tree.isDirectory l = true
  · -- the first read fails, and that is the end
    have hbytes := bytesAt_of_isDirectory hdir
    simp only [lengthAt, bytesShown, hdir, if_true]
    rw [drain_of_not_atEnd rfl, drain_of_atEnd]
    · simp [ByteSource.read, read, fill, hbytes, directoryLength]
    · simp [ByteSource.read, read, fill, hbytes, directoryLength, atEnd, left]
  · simp only [lengthAt, bytesShown, hdir]
    exact drain_of_pending rfl rfl rfl

instance : ImageDrive Folder where
  image := image
  openRom_of_image_error {d name cause} h := by
    show d.openFile name = _
    rw [openFile_eq]
    unfold image at h
    cases hfind : d.find name with
    | error fault =>
      rw [hfind] at h
      cases h
      rfl
    | ok l =>
      rw [hfind] at h
      cases h
  openRom_of_image_ok {d name bytes} h := by
    unfold image at h
    cases hfind : d.find name with
    | error fault =>
      rw [hfind] at h
      cases h
    | ok l =>
      rw [hfind] at h
      cases h
      refine ⟨{ d with file := some { location := l, remaining := d.lengthAt l } }, ?_,
        drain_opened d l, rfl⟩
      show d.openFile name = _
      rw [openFile_eq, hfind]
  image_read d := by
    obtain ⟨file, hread⟩ := read_eq_setFile d
    show image d.read.2 = image d
    rw [hread]
    rfl
  image_close _ := rfl

end Folder

namespace ImageDrive

variable {σ : Type} [ByteSource σ] [ImageDrive σ]

theorem image_drain (s : σ) : image (drain s).2 = image s := by
  cases hend : atEnd s with
  | true => rw [drain_of_atEnd hend]
  | false =>
    have := left_read s hend
    rw [drain_of_not_atEnd hend, image_drain (read s).2, image_read]
termination_by left s

end ImageDrive

namespace Machine

open ImageDrive

variable {σ : Type} [ByteSource σ] [ImageDrive σ]

/-- The event leaves the drive with the images that `s` holds. -/
def KeepsImages (s : σ) : Event σ → Prop
  | .swap drive => image drive = image s
  | _ => True

/-! ## A load, from its image -/

theorem result_load_of_image_ok {m : Machine σ} {name : String} {bytes : List Byte}
    (h : image m.drive name = .ok bytes) :
    (m.load name).1 = (Rom.read bytes).result.mapError .malformed := by
  obtain ⟨opened, hopen, rfl, -⟩ := openRom_of_image_ok h
  simp only [load, hopen]

theorem loadWrites_of_image_ok {m : Machine σ} {name : String} {bytes : List Byte}
    (h : image m.drive name = .ok bytes) : m.loadWrites name = (Rom.read bytes).writes := by
  obtain ⟨opened, hopen, rfl, -⟩ := openRom_of_image_ok h
  simp only [loadWrites, hopen]

theorem load_of_image_error {m : Machine σ} {name : String} {cause : IoFault}
    (h : image m.drive name = .error cause) :
    m.load name = (.error (.unreadable name cause), m) := by
  simp only [load, openRom_of_image_error h]

theorem loadWrites_of_image_error {m : Machine σ} {name : String} {cause : IoFault}
    (h : image m.drive name = .error cause) : m.loadWrites name = [] := by
  simp only [loadWrites, openRom_of_image_error h]

/-- Machines whose drives hold the same under a name load it with the same outcome. -/
theorem load_congr {m n : Machine σ} {name : String}
    (h : image m.drive name = image n.drive name) :
    (m.load name).1 = (n.load name).1 ∧ m.loadWrites name = n.loadWrites name := by
  cases hm : image m.drive name with
  | error cause =>
    have hn := h.symm.trans hm
    rw [load_of_image_error hm, load_of_image_error hn, loadWrites_of_image_error hm,
      loadWrites_of_image_error hn]
    exact ⟨rfl, rfl⟩
  | ok bytes =>
    have hn := h.symm.trans hm
    rw [result_load_of_image_ok hm, result_load_of_image_ok hn, loadWrites_of_image_ok hm,
      loadWrites_of_image_ok hn]
    exact ⟨rfl, rfl⟩

/-- A machine boots from an image that loads, with fresh registers and what the image writes. -/
theorem boot_of_image_ok {drive : σ} {kernel : String} {bytes : List Byte} {report : Rom.Report}
    (himage : image drive kernel = .ok bytes) (hread : (Rom.read bytes).result = .ok report) :
    ∃ m, boot drive kernel = .ok m ∧ m.registers = {} ∧
      m.memory = Memory.blank.writeAll (Rom.read bytes).writes := by
  obtain ⟨opened, hopen, rfl, -⟩ := openRom_of_image_ok himage
  obtain ⟨m, hboot, hregisters, hmemory, -⟩ := boot_of_openRom hopen hread
  exact ⟨m, hboot, hregisters, hmemory⟩

/-! ## What the drive holds stays -/

theorem image_load (m : Machine σ) (name : String) : image (m.load name).2.drive = image m.drive := by
  cases himage : image m.drive name with
  | error cause => rw [load_of_image_error himage]
  | ok bytes =>
    obtain ⟨opened, hopen, -, hkept⟩ := openRom_of_image_ok himage
    simp only [load, hopen, image_close, image_drain, hkept]

theorem drive_call {σ : Type} (m : Machine σ) (target : Address) :
    (m.call target).drive = m.drive := by
  rw [call_eq]

theorem drive_dispatch {σ : Type} (m : Machine σ) (id : Byte) : (m.dispatch id).drive = m.drive :=
  dispatch_of_call (P := fun n => n.drive = m.drive) id rfl (drive_call m)

theorem drive_push {σ : Type} (m : Machine σ) (v : Byte) : (m.push v).drive = m.drive :=
  push_of_call (P := fun n => n.drive = m.drive) v (fun _ => rfl) rfl (drive_call _)

theorem drive_ret {σ : Type} (m : Machine σ) : m.ret.drive = m.drive := by
  obtain ⟨sp, f, hret⟩ := exists_ret_eq m
  rw [hret]
  rfl

theorem image_execute (m : Machine σ) (i : Instruction) :
    image (m.execute i).drive = image m.drive := by
  let P : Machine σ → Prop := fun n => image n.drive = image m.drive
  cases i with
  | add r | addi v | sub r | subi v =>
    exact accumulate_of_call (P := P) _ (fun _ => rfl) rfl
      fun target => congrArg image (drive_call _ target)
  | jeq | jne | jgt | jfg => exact jumpIf_of_jump (P := P) _ rfl rfl
  | dsk name =>
    have hload := image_load m (lossyText (m.memory.stringAt name))
    exact loadNamed_of_call (P := P) name rfl hload hload
      fun target => (congrArg image (drive_call _ target)).trans hload
  | int id => exact congrArg image (drive_dispatch m id)
  | cll target => exact congrArg image (drive_call m target)
  | crn => exact congrArg image (drive_ret m)
  | cfg code =>
    rw [execute]
    split <;> rfl
  | psa => exact congrArg image (drive_push m _)
  | psr r => exact congrArg image (drive_push m _)
  | jmp | jlt | sil | sir | and | or | not | xor | ldr | str | mov | movi | tar | tra | inr | inw
  | movm | hlt | pmd | ein | din | poa | por => rfl

theorem image_after {m : Machine σ} {e : Event σ} (h : KeepsImages m.drive e) :
    image (m.after e).drive = image m.drive := by
  cases e with
  | step =>
    rcases step_cases m with ⟨i, -, he⟩ | ⟨-, he⟩ | ⟨-, -, he⟩
    · rw [after, he]
      exact image_execute _ i
    · rw [after, he]
    · rw [after, he]
      rfl
  | load name => exact image_load m name
  | dispatch id => exact congrArg image (drive_dispatch m id)
  | interrupt i => exact congrArg image (drive_dispatch m i.id)
  | keyDown key => exact congrArg image (drive_dispatch _ Interrupt.keyboard.id)
  | swap drive => exact h

theorem KeepsImages.congr {s s' : σ} {e : Event σ} (h : KeepsImages s e) (hs : image s' = image s) :
    KeepsImages s' e := by
  cases e with
  | swap drive => exact Eq.trans h hs.symm
  | step | load | dispatch | interrupt | keyDown => trivial

theorem image_afterAll {m : Machine σ} {es : List (Event σ)}
    (h : ∀ e ∈ es, KeepsImages m.drive e) : image (m.afterAll es).drive = image m.drive := by
  induction es generalizing m with
  | nil => rfl
  | cons e es ih =>
    obtain ⟨he, hes⟩ := List.forall_mem_cons.mp h
    have hafter := image_after he
    calc image ((m.after e).afterAll es).drive
        = image (m.after e).drive := ih fun x hx => (hes x hx).congr hafter
      _ = image m.drive := hafter

/-! ## Top theorem -/

/-- What a load reports and the writes it performs are the same wherever the image is: on another
machine, under another name, and after any history that leaves the drive with its images. Without an
image nothing changes, and registers never do. So a second load of a ROM changes no cell, also of one
that fails halfway, and ROMs that write to different cells may be loaded in either order. -/
theorem load_determined_by_image {m n : Machine σ} {es fs : List (Event σ)}
    (hes : ∀ e ∈ es, KeepsImages m.drive e) (hfs : ∀ e ∈ fs, KeepsImages n.drive e)
    (name name' : String) :
    (∀ bytes, image m.drive name = .ok bytes → image n.drive name' = .ok bytes →
      ((m.afterAll es).load name).1 = ((n.afterAll fs).load name').1 ∧
      (m.afterAll es).loadWrites name = (n.afterAll fs).loadWrites name') ∧
    (∀ cause, image m.drive name = .error cause →
      (m.afterAll es).load name = (.error (.unreadable name cause), m.afterAll es)) ∧
    (m.load name).2.memory = m.memory.writeAll (m.loadWrites name) ∧
    (m.load name).2.registers = m.registers ∧
    ((m.load name).2.load name).1 = (m.load name).1 ∧
    ((m.load name).2.load name).2.memory = (m.load name).2.memory ∧
    ((∀ a ∈ (m.loadWrites name).map Prod.fst, a ∉ (m.loadWrites name').map Prod.fst) →
      ((m.load name).2.load name').2.memory = ((m.load name').2.load name).2.memory) := by
  have hm := image_afterAll hes
  have hn := image_afterAll hfs
  -- a load leaves the images, so what it loads or another load is the same before and after
  have hagain : ∀ x y : String, ((m.load x).2.load y).1 = (m.load y).1 ∧
      (m.load x).2.loadWrites y = m.loadWrites y :=
    fun x y => load_congr (congrFun (image_load m x) y)
  refine ⟨?_, ?_, memory_load m name, registers_load m name, (hagain name name).1, ?_, ?_⟩
  · intro bytes hbytes hbytes'
    rw [← hm] at hbytes
    rw [← hn] at hbytes'
    rw [result_load_of_image_ok hbytes, result_load_of_image_ok hbytes',
      loadWrites_of_image_ok hbytes, loadWrites_of_image_ok hbytes']
    exact ⟨rfl, rfl⟩
  · intro cause hcause
    rw [← hm] at hcause
    exact load_of_image_error hcause
  · rw [memory_load, (hagain name name).2, memory_load, Memory.writeAll_writeAll_self]
  · intro hdisjoint
    rw [memory_load, (hagain name name').2, memory_load, memory_load _ name,
      (hagain name' name).2, memory_load]
    exact Memory.writeAll_comm _ hdisjoint

/-- A ROM that fails at once, and one that puts a byte at 0400. -/
def twoRoms : Shelf where
  images := [("bad", [0x00]), ("good", [0xFF, 0xFE, 0xFE, 0xFF, 0x01, 0x04, 0x00, 0x01])]

theorem load_determined_of_twoRoms :
    let used : Machine Shelf := afterAll { drive := twoRoms } [.load "bad", .load "none", .load "good"]
    let unused : Machine Shelf :=
      { drive := { twoRoms with unread := [0x41] }, memory := Memory.blank.write 0x0400 7 }
    (used.load "good").1 = (unused.load "good").1 ∧ (unused.load "good").1 = .ok ⟨1, 1, 0x0400⟩ ∧
      used.loadWrites "good" = unused.loadWrites "good" ∧
      unused.loadWrites "good" = [(0x0400, 0x01)] := by
  intro used unused
  have himage : image unused.drive "good" =
      .ok [0xFF, 0xFE, 0xFE, 0xFF, 0x01, 0x04, 0x00, 0x01] := rfl
  obtain ⟨hsame, -⟩ := @load_determined_by_image Shelf _ _ { drive := twoRoms } unused
    [.load "bad", .load "none", .load "good"] [] (by simp [KeepsImages]) (by simp) "good" "good"
  obtain ⟨hresult, hwrites⟩ := hsame _ himage himage
  refine ⟨hresult, ?_, hwrites, ?_⟩
  · rw [result_load_of_image_ok himage]
    rfl
  · rw [loadWrites_of_image_ok himage]
    rfl

end Machine

end Tis80
