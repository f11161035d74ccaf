import Tis80.Proofs.Streaming

/-!
# Drives that are written to while they are read

ROMs may be replaced at any time, also the one that is open. A shelf hands out a copy, so nothing is
noticed there. A folder reads on in the file as it stands then, and its bytes may change, end early or
go on; but it counts down from the length at opening, and a byte that is missing ends the ROM. So
`left` bounds what is still to come, whatever is written in between:

    .opened ∉ replies s es → left (afterEvents s es) ≤ left s - es.count .read       (left_afterEvents)

A loop that reads at least one byte in each round and stops at the end therefore stops. The loops of a
loader are such loops; a loader takes no part in the writing, so what it reads from is a `Disturbed`
drive, and on that too its loops come to an end.
-/

namespace Tis80

open ByteSource

/-- What happens to a drive: requests, and ROMs being replaced. -/
inductive DriveEvent
  | openRom (name : String)
  | read
  | atEnd
  | close
  | insert (name : String) (bytes : List Byte)
deriving DecidableEq

inductive Reply
  | opened
  | refused (fault : IoFault)
  | byte (b : Byte)
  | atEnd (yes : Bool)
  | done

/-- A drive whose ROMs can be replaced. -/
class RomStore (σ : Type) [ByteSource σ] where
  /-- Puts bytes under a name, in place of those that were there. -/
  insert : σ → String → List Byte → σ
  /-- How long the ROM under a name is now, or why there is none to open. -/
  romLength : σ → String → Except IoFault Nat
  openRom_of_error : ∀ {s name fault}, romLength s name = .error fault →
    openRom s name = (.error fault, s)
  openRom_of_ok : ∀ {s name length}, romLength s name = .ok length →
    ∃ opened, openRom s name = (.ok (), opened) ∧ left opened = length
  left_eq_zero_iff : ∀ s : σ, left s = 0 ↔ atEnd s = true
  left_insert : ∀ s name bytes, left (insert s name bytes) = left s
  left_close : ∀ s : σ, left (close s) = 0
  close_read : ∀ s : σ, close (read s).2 = close s

instance : RomStore Shelf where
  insert := Shelf.insert
  romLength s name := (s.image name).map List.length
  openRom_of_error {s name fault} h := by
    unfold Shelf.image at h
    cases himage : s.images.lookup name with
    | none =>
      rw [himage] at h
      cases h
      exact Shelf.openImage_of_absent himage
    | some bytes =>
      rw [himage] at h
      cases h
  openRom_of_ok {s name length} h := by
    unfold Shelf.image at h
    cases himage : s.images.lookup name with
    | none =>
      rw [himage] at h
      cases h
    | some bytes =>
      rw [himage] at h
      cases h
      exact ⟨_, Shelf.openImage_of_present himage, rfl⟩
  left_eq_zero_iff s := by
    show s.unread.length = 0 ↔ s.unread.isEmpty = true
    rw [List.length_eq_zero_iff, List.isEmpty_iff]
  left_insert _ _ _ := rfl
  left_close _ := rfl
  close_read s := by
    show s.read.2.close = s.close
    rw [Shelf.close, Shelf.close, Shelf.images_read]

instance : RomStore Folder where
  insert := Folder.store
  romLength d name := (d.find name).map d.lengthAt
  openRom_of_error {d name fault} h := by
    show d.openFile name = _
    rw [Folder.openFile_eq]
    cases hfind : d.find name with
    | error cause =>
      rw [hfind] at h
      cases h
      rfl
    | ok l =>
      rw [hfind] at h
      cases h
  openRom_of_ok {d name length} h := by
    cases hfind : d.find name with
    | error cause =>
      rw [hfind] at h
      cases h
    | ok l =>
      rw [hfind] at h
      cases h
      refine ⟨{ d with file := some { location := l, remaining := d.lengthAt l } }, ?_, rfl⟩
      show d.openFile name = _
      rw [Folder.openFile_eq, hfind]
  left_eq_zero_iff d := by
    show d.left = 0 ↔ (d.left == 0) = true
    rw [beq_iff_eq]
  left_insert _ _ _ := rfl
  left_close _ := rfl
  close_read d := by
    obtain ⟨file, hread⟩ := Folder.read_eq_setFile d
    show d.read.2.close = d.close
    rw [hread]
    rfl

/-- A drive to which ROMs are written while it is read: `writes k` just before the read that comes
after `k` others. -/
structure Disturbed (σ : Type) where
  drive : σ
  writes : Nat → List (String × List Byte)

namespace Disturbed

variable {σ : Type} [ByteSource σ] [RomStore σ]

/-- The drive with what is written before the next read. -/
def meanwhile (d : Disturbed σ) : σ :=
  (d.writes 0).foldl (fun s i => RomStore.insert s i.1 i.2) d.drive

theorem left_meanwhile (d : Disturbed σ) : left d.meanwhile = left d.drive := by
  unfold meanwhile
  generalize d.writes 0 = images
  generalize d.drive = s
  induction images generalizing s with
  | nil => rfl
  | cons i images ih => rw [List.foldl_cons, ih, RomStore.left_insert]

theorem atEnd_meanwhile (d : Disturbed σ) : atEnd d.meanwhile = atEnd d.drive := by
  rw [Bool.eq_iff_iff, ← RomStore.left_eq_zero_iff, ← RomStore.left_eq_zero_iff, left_meanwhile]

instance : ByteSource (Disturbed σ) where
  openRom d name := ((openRom d.drive name).1, { d with drive := (openRom d.drive name).2 })
  atEnd d := atEnd d.drive
  read d := ((read d.meanwhile).1, ⟨(read d.meanwhile).2, fun k => d.writes (k + 1)⟩)
  close d := { d with drive := close d.drive }
  left d := left d.drive
  left_read d h := by
    rw [← atEnd_meanwhile] at h
    have hlt := left_read d.meanwhile h
    rwa [left_meanwhile] at hlt
  read_of_atEnd d h := by
    rw [← atEnd_meanwhile] at h
    exact read_of_atEnd d.meanwhile h

end Disturbed

namespace ByteSource

variable {σ : Type} [ByteSource σ] [RomStore σ]

/-- The drive after an event, and what it replied. -/
def happen (s : σ) : DriveEvent → Reply × σ
  | .openRom name =>
    match openRom s name with
    | (.ok (), o) => (.opened, o)
    | (.error fault, o) => (.refused fault, o)
  | .read => (.byte (read s).1, (read s).2)
  | .atEnd => (.atEnd (atEnd s), s)
  | .close => (.done, close s)
  | .insert name bytes => (.done, RomStore.insert s name bytes)

def replies (s : σ) : List DriveEvent → List Reply
  | [] => []
  | e :: es => (happen s e).1 :: replies (happen s e).2 es

def afterEvents (s : σ) (es : List DriveEvent) : σ := es.foldl (fun s e => (happen s e).2) s

/-- What a reader can rely on, whatever is written to the drive meanwhile. -/
structure Contract (σ : Type) [ByteSource σ] [RomStore σ] : Prop where
  /-- Until another ROM is opened there are at most as many reads before the end as the ROM had bytes
  when it was opened. -/
  reads_le : ∀ {s o : σ} {name : String}, openRom s name = (.ok (), o) →
    ∃ length, RomStore.romLength s name = .ok length ∧ ∀ es, .opened ∉ replies o es →
      atEnd (afterEvents o es) = false → es.count .read < length
  /-- The end is final until another ROM is opened, and reads give zero there. -/
  atEnd_stays : ∀ {s : σ} {es : List DriveEvent}, atEnd s = true → .opened ∉ replies s es →
    atEnd (afterEvents s es) = true ∧ ∀ b, .byte b ∈ replies s es → b = 0
  /-- An open that fails makes no difference to any later reply. -/
  refused : ∀ {s : σ} {name : String} {fault : IoFault}, (openRom s name).1 = .error fault →
    ∀ es, replies s (.openRom name :: es) = .refused fault :: replies s es
  /-- A loop that reads in each round comes to the end, after as many rounds as bytes are left. -/
  loop_ends : ∀ (s : σ) (rounds : Nat → List DriveEvent), (∀ k, .read ∈ rounds k) →
    (∀ k name, .openRom name ∉ rounds k) →
    ∃ k, k ≤ left s ∧ atEnd (afterEvents s ((List.range k).flatMap rounds)) = true
  /-- So does reading all that is left. -/
  drain_ends : ∀ s : σ, atEnd (drain s).2 = true ∧ (drain s).1.length ≤ left s
  /-- So do the loops of a loader over code, over a text and over entries, and so does the loader,
  from any state of the drive and whatever is written to it in between. -/
  loader_ends : ∀ (t : RomStream (Disturbed σ)) (a : Address),
    (t.code a).Dom ∧ (t.text a).Dom ∧ t.entries.Dom ∧ t.parse.Dom
  /-- Where nothing is written in between, the loader does what a load does. -/
  loads : ∀ (m : Machine σ) (name : String), m.loadStream name = Part.some (m.load name)

/-! ## One event -/

theorem happen_openRom_of_error {s : σ} {name : String} {fault : IoFault}
    (h : RomStore.romLength s name = .error fault) :
    happen s (.openRom name) = (.refused fault, s) := by
  simp only [happen, RomStore.openRom_of_error h]

/-- An open is refused and changes nothing, or it opens. -/
theorem happen_openRom (s : σ) (name : String) :
    (∃ fault, happen s (.openRom name) = (.refused fault, s)) ∨
      (happen s (.openRom name)).1 = .opened := by
  cases hlength : RomStore.romLength s name with
  | error fault => exact .inl ⟨fault, happen_openRom_of_error hlength⟩
  | ok length =>
    obtain ⟨o, hopen, -⟩ := RomStore.openRom_of_ok hlength
    exact .inr (by simp only [happen, hopen])

/-- No event but an open adds to what is left, and a read takes something away. -/
theorem left_happen {s : σ} {e : DriveEvent} (h : (happen s e).1 ≠ .opened) :
    left (happen s e).2 ≤ left s - [e].count .read := by
  cases e with
  | openRom name =>
    rcases happen_openRom s name with ⟨fault, hrefused⟩ | hopened
    · rw [hrefused]
      exact Nat.le_refl _
    · exact absurd hopened h
  | read =>
    show left (read s).2 ≤ left s - 1
    cases hend : atEnd s with
    | true =>
      have hzero := (RomStore.left_eq_zero_iff _).mpr (read_of_atEnd s hend).2
      rw [hzero]
      exact Nat.zero_le _
    | false =>
      have hlt := left_read s hend
      omega
  | atEnd => exact Nat.le_refl _
  | close =>
    show left (close s) ≤ left s
    rw [RomStore.left_close]
    exact Nat.zero_le _
  | insert name bytes => exact Nat.le_of_eq (RomStore.left_insert s name bytes)

/-- At the end nothing is read but zero. -/
theorem eq_zero_of_happen {s : σ} {e : DriveEvent} {b : Byte} (hend : atEnd s = true)
    (h : (happen s e).1 = .byte b) : b = 0 := by
  cases e with
  | openRom name =>
    rcases happen_openRom s name with ⟨fault, hrefused⟩ | hopened
    · rw [hrefused] at h
      cases h
    · rw [hopened] at h
      cases h
  | read =>
    cases h
    exact (read_of_atEnd s hend).1
  | atEnd | close | insert => cases h

/-! ## Many events -/

theorem left_afterEvents {s : σ} {es : List DriveEvent} (h : .opened ∉ replies s es) :
    left (afterEvents s es) ≤ left s - es.count .read := by
  induction es generalizing s with
  | nil => exact Nat.le_refl _
  | cons e es ih =>
    rw [replies, List.mem_cons, not_or] at h
    have hfirst := left_happen (Ne.symm h.1)
    have hrest := ih h.2
    have hcount : (e :: es).count .read = [e].count .read + es.count .read := by
      rw [← List.count_append, List.singleton_append]
    show left (afterEvents (happen s e).2 es) ≤ _
    omega

theorem atEnd_afterEvents {s : σ} {es : List DriveEvent} (h : .opened ∉ replies s es)
    (hreads : left s ≤ es.count .read) : atEnd (afterEvents s es) = true := by
  have hleft := left_afterEvents h
  rw [← RomStore.left_eq_zero_iff]
  omega

theorem eq_zero_of_mem_replies {s : σ} {es : List DriveEvent} {b : Byte} (hend : atEnd s = true)
    (h : .opened ∉ replies s es) (hb : .byte b ∈ replies s es) : b = 0 := by
  induction es generalizing s with
  | nil => cases hb
  | cons e es ih =>
    rw [replies, List.mem_cons, not_or] at h
    rw [replies, List.mem_cons] at hb
    rcases hb with hfirst | hlater
    · exact eq_zero_of_happen hend hfirst.symm
    · refine ih ?_ h.2 hlater
      have hleft := left_happen (Ne.symm h.1)
      rw [← RomStore.left_eq_zero_iff] at hend ⊢
      omega

/-- Only an open can reply that it opened something. -/
theorem opened_notMem_replies {s : σ} {es : List DriveEvent} (h : ∀ name, .openRom name ∉ es) :
    .opened ∉ replies s es := by
  induction es generalizing s with
  | nil => exact List.not_mem_nil
  | cons e es ih =>
    rw [replies, List.mem_cons, not_or]
    refine ⟨?_, ih fun name hname => h name (List.mem_cons_of_mem e hname)⟩
    cases e with
    | openRom name => exact absurd List.mem_cons_self (h name)
    | read | atEnd | close | insert => nofun

theorem le_count_rounds {rounds : Nat → List DriveEvent} (h : ∀ k, .read ∈ rounds k) (n : Nat) :
    n ≤ ((List.range n).flatMap rounds).count .read := by
  induction n with
  | zero => exact Nat.zero_le _
  | succ n ih =>
    have hlast := List.count_pos_iff.mpr (h n)
    rw [List.range_succ, List.flatMap_append, List.count_append, List.flatMap_singleton]
    omega

omit [RomStore σ] in
theorem drain_bounded (s : σ) : atEnd (drain s).2 = true ∧ (drain s).1.length ≤ left s := by
  cases hend : atEnd s with
  | true =>
    rw [drain_of_atEnd hend]
    exact ⟨hend, Nat.zero_le _⟩
  | false =>
    have hlt := left_read s hend
    obtain ⟨hstop, hlength⟩ := drain_bounded (read s).2
    rw [drain_of_not_atEnd hend]
    exact ⟨hstop, Nat.le_trans (Nat.succ_le_succ hlength) hlt⟩
termination_by left s

theorem contract : Contract σ where
  reads_le := by
    intro s o name hopen
    cases hlength : RomStore.romLength s name with
    | error fault =>
      rw [RomStore.openRom_of_error hlength] at hopen
      cases hopen
    | ok length =>
      obtain ⟨o', hopen', hleft⟩ := RomStore.openRom_of_ok hlength
      cases hopen'.symm.trans hopen
      refine ⟨length, rfl, fun es hquiet hmore => ?_⟩
      apply Nat.lt_of_not_le
      intro hreads
      rw [atEnd_afterEvents hquiet (hleft ▸ hreads)] at hmore
      cases hmore
  atEnd_stays := by
    intro s es hend hquiet
    refine ⟨atEnd_afterEvents hquiet ?_, fun b hb => eq_zero_of_mem_replies hend hquiet hb⟩
    rw [(RomStore.left_eq_zero_iff s).mpr hend]
    exact Nat.zero_le _
  refused := by
    intro s name fault hopen es
    cases hlength : RomStore.romLength s name with
    | error cause =>
      rw [RomStore.openRom_of_error hlength] at hopen
      cases hopen
      rw [replies, happen_openRom_of_error hlength]
    | ok length =>
      obtain ⟨o, hopened, -⟩ := RomStore.openRom_of_ok hlength
      rw [hopened] at hopen
      cases hopen
  loop_ends := by
    intro s rounds hread hopen
    refine ⟨left s, Nat.le_refl _, atEnd_afterEvents (opened_notMem_replies ?_) (le_count_rounds hread _)⟩
    intro name hname
    obtain ⟨k, -, hk⟩ := List.mem_flatMap.mp hname
    exact hopen k name hk
  drain_ends := drain_bounded
  loader_ends := RomStream.loops_end
  loads := Machine.loadStream_eq RomStore.close_read

end ByteSource

/-! ## A shelf hands out copies -/

/-- An entry put in front, in place of those with its key. -/
theorem lookup_cons_filter {α β : Type} [DecidableEq α] [BEq α] [LawfulBEq α]
    (entries : List (α × β)) (a x : α) (b : β) :
    ((a, b) :: entries.filter fun e => e.1 ≠ a).lookup x =
      if x = a then some b else entries.lookup x := by
  by_cases hx : x = a
  · rw [hx, List.lookup_cons_self, if_pos rfl]
  · rw [if_neg hx, List.lookup_cons, beq_false_of_ne hx]
    show (entries.filter _).lookup x = entries.lookup x
    induction entries with
    | nil => rfl
    | cons e rest ih =>
      by_cases he : e.1 = a
      · rw [List.filter_cons_of_neg (by simpa using he), ih, List.lookup_cons,
          beq_false_of_ne (he ▸ hx)]
      · rw [List.filter_cons_of_pos (by simpa using he), List.lookup_cons, List.lookup_cons, ih]

namespace Shelf

theorem lookup_insert (s : Shelf) (name x : String) (bytes : List Byte) :
    (s.insert name bytes).images.lookup x =
      if x = name then some bytes else s.images.lookup x :=
  lookup_cons_filter s.images name x bytes

theorem happen_openRom_of_absent {s : Shelf} {name : String} (h : s.images.lookup name = none) :
    happen s (.openRom name) = (.refused .imageNotFound, s) := by
  have hopen : openRom s name = _ := openImage_of_absent h
  simp only [happen, hopen]

theorem happen_openRom_of_present {s : Shelf} {name : String} {bytes : List Byte}
    (h : s.images.lookup name = some bytes) :
    happen s (.openRom name) = (.opened, { s with unread := bytes }) := by
  have hopen : openRom s name = _ := openImage_of_present h
  simp only [happen, hopen]

/-- The bytes to come are the same, and the one shelf has an image wherever the other has. -/
structure Covers (s u : Shelf) : Prop where
  unread : s.unread = u.unread
  absent : ∀ x, s.images.lookup x = none → u.images.lookup x = none

theorem covers_insert (s : Shelf) (name : String) (bytes : List Byte) :
    (s.insert name bytes).Covers s := by
  refine ⟨rfl, fun x hx => ?_⟩
  rw [lookup_insert] at hx
  split at hx
  · cases hx
  · exact hx

namespace Covers

variable {s u : Shelf}

theorem insert (h : s.Covers u) (name : String) (bytes : List Byte) :
    (s.insert name bytes).Covers (u.insert name bytes) := by
  refine ⟨h.unread, fun x hx => ?_⟩
  rw [lookup_insert] at hx ⊢
  split at hx
  · cases hx
  · next hne =>
    rw [if_neg hne]
    exact h.absent x hx

theorem read (h : s.Covers u) : s.read.1 = u.read.1 ∧ s.read.2.Covers u.read.2 := by
  obtain ⟨images, unread⟩ := s
  obtain ⟨images', unread'⟩ := u
  obtain rfl : unread = unread' := h.unread
  cases unread with
  | nil => exact ⟨rfl, h⟩
  | cons b rest => exact ⟨rfl, rfl, h.absent⟩

/-- Unless the event opens a ROM, both reply the same and go on alike. -/
theorem happen (h : s.Covers u) {e : DriveEvent} (hquiet : (happen s e).1 ≠ .opened) :
    (happen s e).1 = (happen u e).1 ∧ (happen s e).2.Covers (happen u e).2 := by
  cases e with
  | openRom name =>
    cases hs : s.images.lookup name with
    | some bytes => exact absurd (by rw [happen_openRom_of_present hs]) hquiet
    | none =>
      rw [happen_openRom_of_absent hs, happen_openRom_of_absent (h.absent name hs)]
      exact ⟨rfl, h⟩
  | read => exact ⟨congrArg Reply.byte h.read.1, h.read.2⟩
  | atEnd => exact ⟨congrArg (fun bytes : List Byte => Reply.atEnd bytes.isEmpty) h.unread, h⟩
  | close => exact ⟨rfl, rfl, h.absent⟩
  | insert name bytes => exact ⟨rfl, h.insert name bytes⟩

theorem replies (h : s.Covers u) {es : List DriveEvent} (hquiet : .opened ∉ replies s es) :
    replies s es = replies u es := by
  induction es generalizing s u with
  | nil => rfl
  | cons e es ih =>
    rw [ByteSource.replies, List.mem_cons, not_or] at hquiet
    obtain ⟨hreply, hcovers⟩ := h.happen (Ne.symm hquiet.1)
    rw [ByteSource.replies, ByteSource.replies, hreply, ih hcovers hquiet.2]

end Covers

end Shelf

/-! ## Top theorem -/

/-- Shelves and folders keep the contract, and what is open on a shelf cannot be written to. -/
theorem drives_keep_contract :
    Contract Shelf ∧ Contract Folder ∧
    ∀ (s : Shelf) (name : String) (bytes : List Byte) (es : List DriveEvent),
      .opened ∉ replies (s.insert name bytes) es →
        replies (s.insert name bytes) es = replies s es :=
  ⟨contract, contract, fun s name bytes _ hquiet => (s.covers_insert name bytes).replies hquiet⟩

/-- A file of three bytes, and one whose length is not told. -/
def threeBytes : Folder where
  tree := ⟨[(["rom"], .file [1, 2, 3]), (["mute"], .file [8])]⟩
  root := "."
  lengthFault? l := if l = ["mute"] then some .inputOutput else none

/-- The file is cut down to a byte and grows to four while it is open. Then, or at any other time, the
other one cannot be opened, and that makes no difference. -/
theorem contract_of_threeBytes :
    ∃ o, openRom threeBytes "rom" = (.ok (), o) ∧
      replies o [.insert "rom" [9], .read, .atEnd, .insert "rom" [4, 5, 6, 7], .read, .read, .atEnd] =
        [.done, .byte 9, .atEnd false, .done, .byte 5, .byte 6, .atEnd true] ∧
      (∀ es, .opened ∉ replies o es → atEnd (afterEvents o es) = false → es.count .read < 3) ∧
      ∀ es, replies o (.openRom "mute" :: es) = .refused .inputOutput :: replies o es := by
  have hopen : openRom threeBytes "rom" =
      (.ok (), { threeBytes with file := some { location := ["rom"], remaining := 3 } }) := rfl
  obtain ⟨length, hlength, hreads⟩ := drives_keep_contract.2.1.reads_le hopen
  have hthree : RomStore.romLength threeBytes "rom" = .ok 3 := rfl
  cases hthree.symm.trans hlength
  exact ⟨_, hopen, rfl, hreads, drives_keep_contract.2.1.refused rfl⟩

end Tis80
