import Mathlib.Tactic.SplitIfs
import Tis80.Proofs.Dumps
import Tis80.Proofs.RomImage

/-!
# Rows of the screen

The screen is text made from bytes, and its rows are made from the same bytes, cut into pieces first. A
piece that ends inside a character does not show it: the bytes in front of the cut become one U+FFFD,
and each byte behind the cut becomes another. Elsewhere a cut changes nothing:

    chars (a ++ c) = chars a ++ chars c          if a character starts with c     (chars_append_cases)

So the rows show the text exactly if no character goes on in the next row.

    String.join s.screenRows = s.screen ↔ s.RowsWhole   if the text ends in time  (rows_show_screen_iff)
-/

namespace Tis80

namespace Lossy

/-- The bytes behind the first `k` characters. -/
def dropChars : Nat → List Byte → List Byte
  | 0, bytes => bytes
  | _ + 1, [] => []
  | k + 1, b :: rest => dropChars k (character b rest).2

/-- No character has bytes on both sides of `p`: one starts there, or the bytes end. -/
def Boundary (bytes : List Byte) (p : Nat) : Prop := ∃ k, dropChars k bytes = bytes.drop p

/-- A byte that goes on with a character and starts none. -/
def Continues (b : Byte) : Prop := 0x80 ≤ b ∧ b ≤ 0xBF

/-- What is read from all bytes and from those in front of a cut, with `c` behind it: the same character,
or one that goes on behind the cut, of which one U+FFFD is left. -/
def Compares (c : List Byte) (whole front : Char × List Byte) : Prop :=
  (∃ rest, front = (whole.1, rest) ∧ whole.2 = rest ++ c) ∨
  (∃ taken, c = taken ++ whole.2 ∧ whole.2.length < c.length ∧ (∀ b ∈ taken, Continues b) ∧
    front = (replacement, []))

/-! ## One character -/

theorem bounds_of_lead? {b : Byte} {l : Lead} (h : lead? b = some l) :
    0x80 ≤ l.least ∧ l.greatest ≤ 0xBF := by
  unfold lead? at h
  split_ifs at h <;> cases h
  all_goals constructor <;> dsimp only <;> decide

theorem lead?_of_continues {b : Byte} (h : Continues b) : lead? b = none := by
  obtain ⟨hlow, hhigh⟩ := h
  rw [UInt8.le_iff_toNat_le] at hlow hhigh
  have hascii : ¬ b < 0x80 := by
    rw [UInt8.lt_iff_toNat_lt]
    exact Nat.not_lt.mpr hlow
  have hlead : b < 0xC2 := by
    rw [UInt8.lt_iff_toNat_lt]
    exact Nat.lt_of_le_of_lt hhigh (by decide)
  rw [lead?, if_neg hascii, if_pos hlead]

/-- Bytes that go on with a character are all that is taken behind its first one. -/
theorem exists_follow_eq (n : Nat) (least greatest : Byte) (bits : Nat) (rest : List Byte)
    (hleast : 0x80 ≤ least) (hgreatest : greatest ≤ 0xBF) :
    ∃ taken, rest = taken ++ (follow n least greatest bits rest).2 ∧ ∀ b ∈ taken, Continues b := by
  induction rest generalizing n least greatest bits with
  | nil => cases n <;> exact ⟨[], rfl, by simp⟩
  | cons b rest ih =>
    cases n with
    | zero => exact ⟨[], rfl, by simp⟩
    | succ n =>
      rw [follow]
      split
      · next hb =>
        obtain ⟨taken, hrest, htaken⟩ := ih n 0x80 0xBF (bits * 64 + b.toNat % 64) (by decide) (by decide)
        refine ⟨b :: taken, congrArg (b :: ·) hrest, ?_⟩
        have hcontinues : Continues b := ⟨UInt8.le_trans hleast hb.1, UInt8.le_trans hb.2 hgreatest⟩
        simpa using ⟨hcontinues, htaken⟩
      · exact ⟨[], rfl, by simp⟩

theorem follow_append (n : Nat) (least greatest : Byte) (bits : Nat) (a c : List Byte)
    (hleast : 0x80 ≤ least) (hgreatest : greatest ≤ 0xBF) :
    Compares c (follow n least greatest bits (a ++ c)) (follow n least greatest bits a) := by
  induction a generalizing n least greatest bits with
  | nil =>
    cases n with
    | zero => exact .inl ⟨[], rfl, rfl⟩
    | succ n =>
      cases c with
      | nil => exact .inl ⟨[], rfl, rfl⟩
      | cons b c =>
        rw [List.nil_append]
        by_cases hb : least ≤ b ∧ b ≤ greatest
        · -- the first byte behind the cut is wanted here
          obtain ⟨taken, hc, htaken⟩ :=
            exists_follow_eq (n + 1) least greatest bits (b :: c) hleast hgreatest
          refine .inr ⟨taken, hc, ?_, htaken, rfl⟩
          rw [follow, if_pos hb, List.length_cons]
          exact Nat.lt_succ_of_le (length_follow_le _ _ _ _ _)
        · left
          rw [follow, follow, if_neg hb]
          exact ⟨[], rfl, rfl⟩
  | cons b a ih =>
    cases n with
    | zero => exact .inl ⟨b :: a, rfl, rfl⟩
    | succ n =>
      rw [List.cons_append, follow, follow]
      split
      · exact ih n _ _ _ (by decide) (by decide)
      · exact .inl ⟨b :: a, rfl, rfl⟩

theorem character_append (b : Byte) (a c : List Byte) :
    Compares c (character b (a ++ c)) (character b a) := by
  unfold character
  cases hlead : lead? b with
  | none => exact .inl ⟨a, rfl, rfl⟩
  | some l =>
    obtain ⟨hleast, hgreatest⟩ := bounds_of_lead? hlead
    exact follow_append l.following l.least l.greatest l.bits a c hleast hgreatest

theorem rest_append_of_le {b : Byte} {a c : List Byte}
    (h : c.length ≤ (character b (a ++ c)).2.length) :
    (character b (a ++ c)).2 = (character b a).2 ++ c := by
  obtain ⟨rest, hfront, hrest⟩ | ⟨taken, -, hlength, -⟩ := character_append b a c
  · rw [hrest, hfront]
  · omega

/-- Induction on the characters of some bytes. -/
theorem characters_induction {motive : List Byte → Prop} (nil : motive [])
    (cons : ∀ b rest, motive (character b rest).2 → motive (b :: rest)) :
    ∀ bytes, motive bytes
  | [] => nil
  | b :: rest =>
    have := length_character_le b rest
    cons b rest (characters_induction nil cons _)
termination_by bytes => bytes.length
decreasing_by simp only [List.length_cons]; omega

theorem length_chars_le (bytes : List Byte) : (chars bytes).length ≤ bytes.length := by
  induction bytes using characters_induction with
  | nil => exact Nat.le_of_eq (congrArg List.length chars_nil)
  | cons b rest ih =>
    rw [chars_cons, List.length_cons, List.length_cons]
    exact Nat.succ_le_succ (Nat.le_trans ih (length_character_le b rest))

/-- What goes on with a character that has no start is shown byte by byte. -/
theorem chars_append_of_continues {taken : List Byte} (h : ∀ b ∈ taken, Continues b)
    (rest : List Byte) :
    chars (taken ++ rest) = List.replicate taken.length replacement ++ chars rest := by
  induction taken with
  | nil => rfl
  | cons b taken ih =>
    have hlead := lead?_of_continues (h b List.mem_cons_self)
    rw [List.cons_append, chars_cons, character, hlead]
    show replacement :: chars (taken ++ rest) = _
    rw [ih fun x hx => h x (List.mem_cons_of_mem _ hx)]
    rfl

/-! ## Boundaries -/

theorem length_dropChars_le (k : Nat) (bytes : List Byte) :
    (dropChars k bytes).length ≤ bytes.length := by
  induction k generalizing bytes with
  | zero => exact Nat.le_refl _
  | succ k ih =>
    cases bytes with
    | nil => exact Nat.le_refl _
    | cons b rest =>
      calc (dropChars k (character b rest).2).length
        _ ≤ (character b rest).2.length := ih _
        _ ≤ rest.length := length_character_le b rest
        _ ≤ (b :: rest).length := Nat.le_succ _

theorem dropChars_nil (k : Nat) : dropChars k [] = [] := by
  cases k <;> rfl

theorem dropChars_add (j k : Nat) (bytes : List Byte) :
    dropChars (j + k) bytes = dropChars k (dropChars j bytes) := by
  induction j generalizing bytes with
  | zero => rw [Nat.zero_add, dropChars]
  | succ j ih =>
    rw [Nat.succ_add]
    cases bytes with
    | nil => rw [dropChars_nil, dropChars_nil, dropChars_nil]
    | cons b rest => exact ih _

theorem exists_dropChars_eq_nil (bytes : List Byte) : ∃ k, dropChars k bytes = [] := by
  induction bytes using characters_induction with
  | nil => exact ⟨0, rfl⟩
  | cons b rest ih =>
    obtain ⟨k, hk⟩ := ih
    exact ⟨k + 1, hk⟩

/-- Characters that end in front of a cut do not depend on what is behind it. -/
theorem dropChars_of_append {k : Nat} {a a' c : List Byte} (h : dropChars k (a ++ c) = a' ++ c) :
    dropChars k a = a' := by
  induction k generalizing a with
  | zero => exact List.append_cancel_right h
  | succ k ih =>
    have hle := length_dropChars_le (k + 1) (a ++ c)
    cases a with
    | nil =>
      rw [h, List.length_append, List.nil_append] at hle
      exact (List.length_eq_zero_iff.mp (by omega)).symm
    | cons b a =>
      rw [List.cons_append, dropChars] at h
      have hrest : c.length ≤ (character b (a ++ c)).2.length := by
        have := length_dropChars_le k (character b (a ++ c)).2
        rw [h, List.length_append] at this
        omega
      rw [rest_append_of_le hrest] at h
      exact ih h

theorem exists_dropChars_append {k : Nat} {a c : List Byte} (h : dropChars k (a ++ c) = c) (j : Nat) :
    ∃ i, dropChars i (a ++ c) = dropChars j a ++ c := by
  induction k generalizing a j with
  | zero =>
    have ha : a = [] := List.append_cancel_right (h.trans (List.nil_append c).symm)
    rw [ha, dropChars_nil]
    exact ⟨0, rfl⟩
  | succ k ih =>
    cases a with
    | nil =>
      rw [dropChars_nil]
      exact ⟨0, rfl⟩
    | cons b a =>
      cases j with
      | zero => exact ⟨0, rfl⟩
      | succ j =>
        rw [List.cons_append, dropChars] at h
        have hrest := length_dropChars_le k (character b (a ++ c)).2
        rw [h] at hrest
        have happend := rest_append_of_le hrest
        rw [happend] at h
        obtain ⟨i, hi⟩ := ih h j
        refine ⟨i + 1, ?_⟩
        rw [List.cons_append, dropChars, happend, hi]
        rfl

theorem boundary_append_length (a c : List Byte) :
    Boundary (a ++ c) a.length ↔ ∃ k, dropChars k (a ++ c) = c := by
  rw [Boundary, List.drop_left]

theorem boundary_of_length_le {bytes : List Byte} {p : Nat} (h : bytes.length ≤ p) :
    Boundary bytes p := by
  rw [Boundary, List.drop_eq_nil_of_le h]
  exact exists_dropChars_eq_nil bytes

theorem boundary_left {a c : List Byte} {p : Nat} (hp : p ≤ a.length) (h : Boundary (a ++ c) p) :
    Boundary a p := by
  obtain ⟨k, hk⟩ := h
  rw [List.drop_append_of_le_length hp] at hk
  exact ⟨k, dropChars_of_append hk⟩

theorem boundary_append_left {a c : List Byte} {p : Nat} (hcut : Boundary (a ++ c) a.length)
    (hp : p ≤ a.length) (h : Boundary a p) : Boundary (a ++ c) p := by
  obtain ⟨k, hk⟩ := (boundary_append_length a c).mp hcut
  obtain ⟨j, hj⟩ := h
  obtain ⟨i, hi⟩ := exists_dropChars_append hk j
  refine ⟨i, ?_⟩
  rw [hi, hj, List.drop_append_of_le_length hp]

theorem boundary_append_right {a c : List Byte} (hcut : Boundary (a ++ c) a.length) (p : Nat) :
    Boundary (a ++ c) (a.length + p) ↔ Boundary c p := by
  obtain ⟨k, hk⟩ := (boundary_append_length a c).mp hcut
  rw [Boundary, List.drop_length_add_append]
  constructor
  · rintro ⟨j, hj⟩
    by_cases hjk : k ≤ j
    · refine ⟨j - k, ?_⟩
      rw [← hj, ← hk, ← dropChars_add, hk, Nat.add_sub_cancel' hjk]
    · -- the cut comes after `p` then, so nothing lies between
      have hc : dropChars (k - j) (c.drop p) = c := by
        rw [← hj, ← dropChars_add, Nat.add_sub_cancel' (by omega), hk]
      have hle := length_dropChars_le (k - j) (c.drop p)
      rw [hc] at hle
      refine ⟨0, (List.IsSuffix.eq_of_length_le (List.drop_suffix p c) hle).symm⟩
  · rintro ⟨j, hj⟩
    exact ⟨k + j, by rw [dropChars_add, hk, hj]⟩

/-! ## Text in pieces -/

theorem boundary_append_cons (b : Byte) (a c : List Byte) :
    Boundary (b :: a ++ c) (b :: a).length ↔ ∃ k, dropChars k (character b (a ++ c)).2 = c := by
  rw [boundary_append_length]
  constructor
  · rintro ⟨k, hk⟩
    cases k with
    | zero =>
      have hlength := congrArg List.length hk
      rw [dropChars, List.length_append, List.length_cons] at hlength
      omega
    | succ k => exact ⟨k, hk⟩
  · rintro ⟨k, hk⟩
    exact ⟨k + 1, hk⟩

/-- Two pieces have the characters of the whole if the cut is a boundary. If not, there are more of
them, and the first piece ends with a U+FFFD. -/
theorem chars_append_cases (a c : List Byte) :
    (Boundary (a ++ c) a.length ∧ chars (a ++ c) = chars a ++ chars c) ∨
    (¬ Boundary (a ++ c) a.length ∧ (chars (a ++ c)).length < (chars a).length + (chars c).length ∧
      replacement ∈ chars a) := by
  induction a using characters_induction with
  | nil => exact .inl ⟨⟨0, rfl⟩, by rw [chars_nil]; rfl⟩
  | cons b a ih =>
    rw [boundary_append_cons, List.cons_append, chars_cons, chars_cons]
    obtain ⟨rest, hfront, hrest⟩ | ⟨taken, hc, hlength, htaken, hfront⟩ := character_append b a c
    · rw [hfront, boundary_append_length] at ih
      rw [hfront, hrest]
      dsimp only at ih ⊢
      obtain ⟨hcut, hchars⟩ | ⟨hcut, hlength, hmem⟩ := ih
      · exact .inl ⟨hcut, congrArg _ hchars⟩
      · refine .inr ⟨hcut, ?_, List.mem_cons_of_mem _ hmem⟩
        rw [List.length_cons, List.length_cons]
        omega
    · refine .inr ⟨?_, ?_, ?_⟩
      · rintro ⟨k, hk⟩
        have hle := length_dropChars_le k (character b (a ++ c)).2
        rw [hk] at hle
        omega
      · -- every byte taken behind the cut counts there
        have hchars : chars c =
            List.replicate taken.length replacement ++ chars (character b (a ++ c)).2 := by
          rw [← chars_append_of_continues htaken, ← hc]
        have htotal := congrArg List.length hc
        rw [List.length_append] at htotal
        rw [hfront, hchars, chars_nil, List.length_cons, List.length_append, List.length_replicate,
          List.length_singleton]
        omega
      · rw [hfront]
        exact List.mem_cons_self

/-- `text` is what pieces of `bytes` show one after another, and `whole` says that no character is cut:
it is the text of the bytes then, and else it is longer, with a U+FFFD in it. -/
def Shows (bytes : List Byte) (whole : Prop) (text : List Char) : Prop :=
  (whole ∧ text = chars bytes) ∨
  (¬ whole ∧ (chars bytes).length < text.length ∧ replacement ∈ text)

theorem Shows.eq_chars_iff {bytes : List Byte} {whole : Prop} {text : List Char}
    (h : Shows bytes whole text) : text = chars bytes ↔ whole := by
  obtain ⟨hwhole, htext⟩ | ⟨hwhole, hlonger, -⟩ := h
  · exact ⟨fun _ => hwhole, fun _ => htext⟩
  · refine ⟨fun htext => ?_, fun h => absurd h hwhole⟩
    rw [htext] at hlonger
    exact absurd hlonger (Nat.lt_irrefl _)

theorem Shows.append {a c : List Byte} {whole : Prop} {text : List Char} (h : Shows c whole text) :
    Shows (a ++ c) (Boundary (a ++ c) a.length ∧ whole) (chars a ++ text) := by
  obtain ⟨hcut, hchars⟩ | ⟨hcut, hlength, hmem⟩ := chars_append_cases a c
  · obtain ⟨hwhole, rfl⟩ | ⟨hwhole, hlonger, hreplaced⟩ := h
    · exact .inl ⟨⟨hcut, hwhole⟩, hchars.symm⟩
    · refine .inr ⟨fun h => hwhole h.2, ?_, List.mem_append_right _ hreplaced⟩
      rw [hchars, List.length_append, List.length_append]
      omega
  · have hle : (chars c).length ≤ text.length := by
      obtain ⟨-, rfl⟩ | ⟨-, hlonger, -⟩ := h
      · exact Nat.le_refl _
      · exact Nat.le_of_lt hlonger
    refine .inr ⟨fun h => hcut h.1, ?_, List.mem_append_left _ hmem⟩
    rw [List.length_append]
    omega

theorem boundary_of_dvd {n p : Nat} {bytes : List Byte} (hn : bytes.length ≤ n) (hp : n ∣ p) :
    Boundary bytes p := by
  by_cases hzero : p = 0
  · subst hzero
    exact ⟨0, rfl⟩
  · have hle := Nat.le_of_dvd (Nat.pos_of_ne_zero hzero) hp
    exact boundary_of_length_le (Nat.le_trans hn hle)

theorem forall_boundary_append (a c : List Byte) :
    (∀ p, a.length ∣ p → Boundary (a ++ c) p) ↔
      Boundary (a ++ c) a.length ∧ ∀ p, a.length ∣ p → Boundary c p := by
  constructor
  · intro h
    have hcut := h a.length (Nat.dvd_refl _)
    refine ⟨hcut, fun p hp => ?_⟩
    rw [← boundary_append_right hcut]
    exact h _ (Nat.dvd_add (Nat.dvd_refl _) hp)
  · rintro ⟨hcut, h⟩ p hp
    by_cases hzero : p = 0
    · subst hzero
      exact ⟨0, rfl⟩
    · have hle := Nat.le_of_dvd (Nat.pos_of_ne_zero hzero) hp
      have hrest := h (p - a.length) (Nat.dvd_sub hp (Nat.dvd_refl _))
      rwa [← boundary_append_right hcut, Nat.add_sub_cancel' hle] at hrest

/-- Pieces of one size show the text if each of them ends at a boundary. -/
theorem shows_chunks {n : Nat} (hn : n ≠ 0) (bytes : List Byte) :
    Shows bytes (∀ p, n ∣ p → Boundary bytes p) ((chunks n bytes).flatMap chars) := by
  by_cases hshort : bytes.length ≤ n
  · refine .inl ⟨fun p hp => boundary_of_dvd hshort hp, ?_⟩
    by_cases hbytes : bytes = []
    · rw [hbytes, chunks_nil, chars_nil]
      rfl
    · rw [chunks_of_ne_nil hbytes hn, List.take_of_length_le hshort,
        List.drop_eq_nil_of_le hshort, chunks_nil, List.flatMap_singleton]
  · have hbytes : bytes ≠ [] := by
      rintro rfl
      exact hshort (Nat.zero_le _)
    have hlength : (bytes.take n).length = n := List.length_take_of_le (by omega)
    have hrest := (shows_chunks hn (bytes.drop n)).append (a := bytes.take n)
    have hforall := forall_boundary_append (bytes.take n) (bytes.drop n)
    rw [List.take_append_drop, hlength] at hrest hforall
    rwa [chunks_of_ne_nil hbytes hn, List.flatMap_cons, hforall]
termination_by bytes.length
decreasing_by
  rw [List.length_drop]
  omega

end Lossy

theorem take_chunks {α : Type} {n : Nat} (hn : n ≠ 0) (k : Nat) (l : List α) :
    (chunks n l).take k = chunks n (l.take (n * k)) := by
  induction k generalizing l with
  | zero => rw [List.take_zero, Nat.mul_zero, List.take_zero, chunks_nil]
  | succ k ih =>
    by_cases hl : l = []
    · rw [hl, List.take_nil, chunks_nil, List.take_nil]
    · have hcut : n * (k + 1) = n + n * k := by rw [Nat.mul_succ, Nat.add_comm]
      have htake : l.take (n * (k + 1)) ≠ [] := by
        rw [ne_eq, List.take_eq_nil_iff, not_or]
        exact ⟨by omega, hl⟩
      rw [chunks_of_ne_nil hl hn, chunks_of_ne_nil htake hn, List.take_succ_cons, ih, List.take_take,
        List.drop_take, hcut, Nat.min_eq_left (Nat.le_add_right _ _), Nat.add_sub_cancel_left]

theorem length_le_of_mem_chunks {α : Type} {n : Nat} (hn : 0 < n) {l piece : List α}
    (h : piece ∈ chunks n l) : piece.length ≤ n := by
  rw [chunks_eq hn, List.mem_map] at h
  obtain ⟨i, -, rfl⟩ := h
  exact List.length_take_le _ _

namespace Snapshot

open Lossy

/-- No character on the screen goes on in the next row. -/
def RowsWhole (s : Snapshot) : Prop := ∀ p, p ≤ 1000 → 40 ∣ p → Boundary s.screenBytes p

/-- The bytes in the rows. -/
def rowBytes (s : Snapshot) : List Byte := s.screenBytes.take 1000

theorem toList_join_screenRows (s : Snapshot) :
    (String.join s.screenRows).toList = (chunks 40 s.rowBytes).flatMap chars := by
  rw [screenRows, show MemoryMap.screenColumns = 40 from rfl, show MemoryMap.screenRows = 25 from rfl,
    take_chunks (by decide), rowBytes, String.toList_join, List.flatMap_map]
  simp only [lossyText, String.toList_ofList]

theorem length_screenRows_le (s : Snapshot) : s.screenRows.length ≤ 25 := by
  rw [screenRows, List.length_map]
  exact List.length_take_le _ _

theorem length_le_of_mem_screenRows {s : Snapshot} {row : String} (h : row ∈ s.screenRows) :
    row.length ≤ 40 := by
  rw [screenRows, List.mem_map] at h
  obtain ⟨piece, hpiece, rfl⟩ := h
  rw [lossyText, String.length_ofList]
  exact Nat.le_trans (length_chars_le piece)
    (length_le_of_mem_chunks (by decide) (List.mem_of_mem_take hpiece))

theorem rowBytes_append (s : Snapshot) : s.rowBytes ++ s.screenBytes.drop 1000 = s.screenBytes :=
  List.take_append_drop _ _

/-- Characters are whole in the rows if the rows end with one, and each row does among the bytes that
the rows have. -/
theorem rowsWhole_iff (s : Snapshot) :
    s.RowsWhole ↔
      Boundary s.screenBytes s.rowBytes.length ∧ ∀ p, 40 ∣ p → Boundary s.rowBytes p := by
  have hlength : s.rowBytes.length = min 1000 s.screenBytes.length := List.length_take
  constructor
  · intro h
    refine ⟨?_, fun p hp => ?_⟩
    · by_cases hfull : s.rowBytes.length = 1000
      · rw [hfull]
        exact h 1000 (Nat.le_refl _) (by decide)
      · exact boundary_of_length_le (by omega)
    · by_cases hin : p ≤ s.rowBytes.length
      · have hp' := h p (by omega) hp
        rw [← rowBytes_append] at hp'
        exact boundary_left hin hp'
      · exact boundary_of_length_le (by omega)
  · rintro ⟨hcut, h⟩ p hle hp
    by_cases hin : p ≤ s.rowBytes.length
    · rw [← rowBytes_append] at hcut ⊢
      exact boundary_append_left hcut hin (h p hp)
    · exact boundary_of_length_le (by omega)

theorem screenRows_prefix_of_rowsWhole {s : Snapshot} (h : s.RowsWhole) :
    (String.join s.screenRows).toList <+: s.screen.toList := by
  obtain ⟨hcut, hrows⟩ := s.rowsWhole_iff.mp h
  rw [toList_join_screenRows, (shows_chunks (by decide) _).eq_chars_iff.mpr hrows, screen, lossyText,
    String.toList_ofList, ← rowBytes_append]
  rw [← rowBytes_append] at hcut
  obtain ⟨-, hchars⟩ | ⟨hno, -⟩ := chars_append_cases s.rowBytes (s.screenBytes.drop 1000)
  · rw [hchars]
    exact List.prefix_append _ _
  · exact absurd hcut hno

theorem rowsWhole_of_screenRows_prefix {s : Snapshot} (hmem : replacement ∉ s.screen.toList)
    (h : (String.join s.screenRows).toList <+: s.screen.toList) : s.RowsWhole := by
  replace hmem := fun hr => hmem (h.subset hr)
  rw [toList_join_screenRows] at hmem
  rw [rowsWhole_iff]
  obtain ⟨hrows, hchars⟩ | ⟨-, -, hreplaced⟩ := shows_chunks (n := 40) (by decide) s.rowBytes
  · refine ⟨?_, hrows⟩
    rw [hchars] at hmem
    rw [← rowBytes_append]
    obtain ⟨hcut, -⟩ | ⟨-, -, hreplaced⟩ := chars_append_cases s.rowBytes (s.screenBytes.drop 1000)
    · exact hcut
    · exact absurd hreplaced hmem
  · exact absurd hreplaced hmem

/-- A NUL among the first 1001 cells of the video memory. -/
def EndsInRows (s : Snapshot) : Prop :=
  ∃ a : Address, 0xF000 ≤ a.toNat ∧ a.toNat < 0xF000 + 1001 ∧ s.memory.read a = 0

theorem screenBytes_eq (s : Snapshot) :
    s.screenBytes = (s.memory.slice ⟨0xF000, 0xF3FF⟩).takeWhile (· ≠ 0) := rfl

theorem length_screenBytes_le {s : Snapshot} (h : s.EndsInRows) : s.screenBytes.length ≤ 1000 := by
  obtain ⟨a, hlow, hhigh, hnul⟩ := h
  have hfit : 0xF3FF ≤ memorySize := by decide
  have hlength : (s.memory.slice ⟨0xF000, 0xF3FF⟩).length = 0xF3FF - 0xF000 :=
    s.memory.length_slice hfit
  have hindex : a.toNat - 0xF000 < (s.memory.slice ⟨0xF000, 0xF3FF⟩).length := by omega
  have hcell : 0xF000 + (a.toNat - 0xF000) = a.toNat := by omega
  rw [screenBytes_eq]
  -- a screen that is longer has the NUL among its bytes
  apply Nat.le_of_not_lt
  intro hlong
  have hin := Nat.lt_of_le_of_lt (show a.toNat - 0xF000 ≤ 1000 by omega) hlong
  have hkept := List.all_eq_true.mp List.all_takeWhile _ (List.getElem_mem hin)
  rw [(List.takeWhile_prefix _).getElem hin, Memory.getElem_slice _ hfit hindex, hcell,
    Memory.fetch_toNat, hnul] at hkept
  exact absurd hkept (by decide)

/-! ## Top theorem -/

/-- There are at most 25 rows of at most 40 characters. They show how the text begins if no character
goes on in the next row, and for a text without U+FFFD only then. A text that ends in time is shown
whole exactly if no character goes on in the next row. -/
theorem rows_show_screen_iff (s : Snapshot) :
    s.screenRows.length ≤ 25 ∧ (∀ row ∈ s.screenRows, row.length ≤ 40) ∧
    (s.RowsWhole → (String.join s.screenRows).toList <+: s.screen.toList) ∧
    ('\uFFFD' ∉ s.screen.toList → (String.join s.screenRows).toList <+: s.screen.toList →
      s.RowsWhole) ∧
    (s.EndsInRows → (String.join s.screenRows = s.screen ↔ s.RowsWhole)) := by
  refine ⟨length_screenRows_le s, fun _ => length_le_of_mem_screenRows,
    screenRows_prefix_of_rowsWhole, rowsWhole_of_screenRows_prefix, fun h => ?_⟩
  have hall : s.rowBytes = s.screenBytes := List.take_of_length_le (length_screenBytes_le h)
  rw [rowsWhole_iff, hall, ← String.toList_inj, toList_join_screenRows, hall, screen, lossyText,
    String.toList_ofList, (shows_chunks (by decide) _).eq_chars_iff]
  exact ⟨fun h => ⟨boundary_of_length_le (Nat.le_refl _), h⟩, And.right⟩

/-- A text with its NUL at the start of the video memory is on the screen. -/
theorem screenBytes_of_slice {s : Snapshot} {bytes : List Byte} (hnul : 0 ∉ bytes)
    (hfit : bytes.length < 1023)
    (h : s.memory.slice ⟨0xF000, 0xF000 + (bytes ++ [0]).length⟩ = bytes ++ [0]) :
    s.screenBytes = bytes := by
  have hlength : (bytes ++ [0]).length = bytes.length + 1 := List.length_append
  have htake : (s.memory.slice ⟨0xF000, 0xF3FF⟩).take (bytes ++ [0]).length = bytes ++ [0] := by
    have hslice := s.memory.slice_drop_take 0xF000 0xF3FF 0 (bytes ++ [0]).length
    rwa [List.drop_zero, Nat.add_zero, Nat.min_eq_left (by omega), h] at hslice
  rw [screenBytes_eq, ← List.take_append_drop (bytes ++ [0]).length (s.memory.slice _), htake,
    List.append_assoc]
  exact Rom.Cursor.takeWhile_append_nul hnul _

/-- One line on the screen: its last character has two bytes, in the columns 40 and 41. -/
def straddling : Snapshot where
  registers := {}
  memory := Memory.blank.writeAll (consecutive 0xF000 (List.replicate 39 0x61 ++ [0xC3, 0xA9] ++ [0]))

theorem screenBytes_straddling : straddling.screenBytes = List.replicate 39 0x61 ++ [0xC3, 0xA9] := by
  apply screenBytes_of_slice
  · decide
  · decide
  · exact Memory.slice_writeAll_consecutive _ (by decide)

theorem chars_replicate_append (n : Nat) (rest : List Byte) :
    chars (List.replicate n 0x61 ++ rest) = List.replicate n 'a' ++ chars rest := by
  induction n with
  | zero => rfl
  | succ n ih =>
    rw [List.replicate_succ, List.cons_append, chars_cons_of_ascii (by decide), ih]
    rfl

theorem toList_screen_straddling :
    straddling.screen.toList = List.replicate 39 'a' ++ ['é'] := by
  rw [screen, screenBytes_straddling, lossyText, String.toList_ofList, chars_replicate_append,
    chars_cons]
  show _ ++ 'é' :: chars [] = _
  rw [chars_nil]

theorem screenRows_straddling :
    straddling.screenRows.map String.toList = [List.replicate 39 'a' ++ ['\uFFFD'], ['\uFFFD']] := by
  have hchunks : chunks 40 (List.replicate 39 0x61 ++ [0xC3, 0xA9]) =
      [List.replicate 39 0x61 ++ [(0xC3 : Byte)], [0xA9]] := by
    rw [chunks_of_ne_nil (by decide) (by decide), chunks_of_ne_nil (by decide) (by decide)]
    exact congrArg (_ :: _ :: ·) (chunks_nil 40)
  have hfirst : chars (List.replicate 39 0x61 ++ [0xC3]) = List.replicate 39 'a' ++ ['\uFFFD'] := by
    rw [chars_replicate_append, chars_cons]
    show _ ++ replacement :: chars [] = _
    rw [chars_nil]
    rfl
  have hsecond : chars [0xA9] = ['\uFFFD'] := by
    rw [chars_cons]
    show replacement :: chars [] = _
    rw [chars_nil]
    rfl
  rw [screenRows, screenBytes_straddling]
  show List.map _ (List.map _ (List.take 25 (chunks 40 _))) = _
  rw [hchunks]
  simp only [List.take, List.map, lossyText, String.toList_ofList, hfirst, hsecond]

/-- The character at the end of the first row is on the screen, and not in the rows. -/
theorem rows_not_prefix_of_straddling :
    straddling.EndsInRows ∧ straddling.screen.toList = List.replicate 39 'a' ++ ['é'] ∧
    straddling.screenRows.map String.toList = [List.replicate 39 'a' ++ ['\uFFFD'], ['\uFFFD']] ∧
    ¬ (String.join straddling.screenRows).toList <+: straddling.screen.toList := by
  refine ⟨⟨0xF029, by decide, by decide, ?_⟩, toList_screen_straddling, screenRows_straddling, ?_⟩
  · exact Memory.read_writeAll_consecutive _ 0xF000 _ (i := 41) (by decide) (by decide)
  · rw [String.toList_join, List.flatMap_def, screenRows_straddling, toList_screen_straddling]
    decide

end Snapshot

end Tis80
