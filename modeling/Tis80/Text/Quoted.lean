import Tis80.Text.GraphemeExtend
import Tis80.Text.Unprintable
import Tis80.Word

/-!
# Quoted names

A name stands between double quotes. Quote, backslash, newline, return, tab and NUL have short
escapes; any other character that cannot be shown on its own, because it is invisible or joins the
character before it, is written as its code point.
-/

namespace Tis80.Quoted

/-- The Unicode property Default_Ignorable_Code_Point: characters that show nothing where they are not
supported, as ranges of code points in increasing order. Most are format characters or marks; the
fillers of the Hangul blocks are letters. -/
def ignorableRanges : List (Nat × Nat) :=
  [(0x00AD, 0x00AD), (0x034F, 0x034F), (0x061C, 0x061C), (0x115F, 0x1160), (0x17B4, 0x17B5),
    (0x180B, 0x180F), (0x200B, 0x200F), (0x202A, 0x202E), (0x2060, 0x206F), (0x3164, 0x3164),
    (0xFE00, 0xFE0F), (0xFEFF, 0xFEFF), (0xFFA0, 0xFFA0), (0xFFF0, 0xFFF8), (0x1BCA0, 0x1BCA3),
    (0x1D173, 0x1D17A), (0xE0000, 0xE0FFF)]

def isDefaultIgnorable (c : Char) : Bool :=
  ignorableRanges.any fun r => r.1 ≤ c.toNat && c.toNat ≤ r.2

/-- The code point of `c` between braces. -/
def codePoint (c : Char) : String := "\\u\x7b" ++ hex 1 c.toNat ++ "\x7d"

/-- The halfwidth sound marks extend a grapheme, and yet each has a width and a shape of its own. -/
def isHalfwidthSoundMark (c : Char) : Bool := 0xFF9E ≤ c.toNat && c.toNat ≤ 0xFF9F

/-- Shown as it is, `c` could not be told from nothing or from a part of the character before it. -/
def isHidden (c : Char) : Bool :=
  isUnprintable c || isDefaultIgnorable c || (isGraphemeExtend c && !isHalfwidthSoundMark c)

def escape (c : Char) : String :=
  if c = '"' then "\\\""
  else if c = '\\' then "\\\\"
  else if c = '\n' then "\\n"
  else if c = '\r' then "\\r"
  else if c = '\t' then "\\t"
  else if c = '\x00' then "\\0"
  else if isHidden c then codePoint c
  else String.singleton c

end Tis80.Quoted

namespace Tis80

def quoted (name : String) : String :=
  "\"" ++ String.join (name.toList.map Quoted.escape) ++ "\""

end Tis80
