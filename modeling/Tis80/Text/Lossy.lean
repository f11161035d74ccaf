import Tis80.Word

/-!
# Text from arbitrary bytes

Bytes are read as UTF-8. Where they are not well formed, each longest beginning of a character
becomes one U+FFFD, and a byte that begins no character becomes one by itself. Main statement:

    chars (b :: rest) = (character b rest).1 :: chars (character b rest).2      (chars_cons)
-/

namespace Tis80.Lossy

def replacement : Char := '\uFFFD'

/-- What the first byte of a character says: how many bytes follow, within which bounds the first
of them lies, and the high bits of the code point. -/
structure Lead where
  following : Nat
  least : Byte
  greatest : Byte
  bits : Nat

/-- The bounds rule out overlong forms, surrogates and code points past U+10FFFF. -/
def lead? (b : Byte) : Option Lead :=
  if b < 0x80 then some ⟨0, 0x80, 0xBF, b.toNat⟩
  else if b < 0xC2 then none
  else if b < 0xE0 then some ⟨1, 0x80, 0xBF, b.toNat % 32⟩
  else if b < 0xF0 then
    some ⟨2, if b = 0xE0 then 0xA0 else 0x80, if b = 0xED then 0x9F else 0xBF, b.toNat % 16⟩
  else if b < 0xF5 then
    some ⟨3, if b = 0xF0 then 0x90 else 0x80, if b = 0xF4 then 0x8F else 0xBF, b.toNat % 8⟩
  else none

/-- Takes the bytes that follow, and stops in front of one that does not fit. -/
def follow : Nat → Byte → Byte → Nat → List Byte → Char × List Byte
  | 0, _, _, bits, rest => (Char.ofNat bits, rest)
  | _ + 1, _, _, _, [] => (replacement, [])
  | n + 1, least, greatest, bits, b :: rest =>
    if least ≤ b ∧ b ≤ greatest then follow n 0x80 0xBF (bits * 64 + b.toNat % 64) rest
    else (replacement, b :: rest)

/-- The character that starts with `b`, and the bytes after it. -/
def character (b : Byte) (rest : List Byte) : Char × List Byte :=
  match lead? b with
  | none => (replacement, rest)
  | some l => follow l.following l.least l.greatest l.bits rest

theorem length_follow_le (n : Nat) (least greatest : Byte) (bits : Nat) (rest : List Byte) :
    (follow n least greatest bits rest).2.length ≤ rest.length := by
  induction rest generalizing n least greatest bits with
  | nil => cases n <;> simp [follow]
  | cons b rest ih =>
    cases n with
    | zero => simp [follow]
    | succ n =>
      simp only [follow]
      split
      · exact Nat.le_succ_of_le (ih _ _ _ _)
      · exact Nat.le_refl _

theorem length_character_le (b : Byte) (rest : List Byte) :
    (character b rest).2.length ≤ rest.length := by
  unfold character
  split
  · exact Nat.le_refl _
  · exact length_follow_le _ _ _ _ _

/-- The characters of `bytes` behind those in `done`, which is in reverse order. -/
def charsOnto (done : List Char) : List Byte → List Char
  | [] => done.reverse
  | b :: rest =>
    have := length_character_le b rest
    charsOnto ((character b rest).1 :: done) (character b rest).2
termination_by bytes => bytes.length
decreasing_by simp only [List.length_cons]; omega

def chars (bytes : List Byte) : List Char := charsOnto [] bytes

end Tis80.Lossy

namespace Tis80

def lossyText (bytes : List Byte) : String := String.ofList (Lossy.chars bytes)

end Tis80

namespace Tis80.Lossy

/-! ## Lemmas -/

theorem charsOnto_eq (done : List Char) (bytes : List Byte) :
    charsOnto done bytes = done.reverse ++ chars bytes := by
  unfold chars
  match bytes with
  | [] => simp [charsOnto]
  | b :: rest =>
    have := length_character_le b rest
    rw [charsOnto.eq_2 done, charsOnto.eq_2 [], charsOnto_eq (_ :: done), charsOnto_eq [_]]
    simp
termination_by bytes.length
decreasing_by all_goals simp only [List.length_cons]; omega

@[simp]
theorem chars_nil : chars [] = [] := by simp [chars, charsOnto]

theorem chars_cons (b : Byte) (rest : List Byte) :
    chars (b :: rest) = (character b rest).1 :: chars (character b rest).2 := by
  rw [chars, charsOnto, charsOnto_eq]
  rfl

theorem chars_cons_of_ascii {b : Byte} (h : b < 0x80) (rest : List Byte) :
    chars (b :: rest) = Char.ofNat b.toNat :: chars rest := by
  rw [chars_cons, character, lead?, if_pos h]
  rfl

end Tis80.Lossy
