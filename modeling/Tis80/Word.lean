/-!
# Bytes and addresses

The machine's word is one byte and an address is two of them, high byte first:

    ofBytes a.high a.low = a                                  (Address.ofBytes_high_low)
    (ofBytes h l).high = h  and  (ofBytes h l).low = l        (Address.high_ofBytes, Address.low_ofBytes)

In hexadecimal text numbers have lower-case digits, and as many leading zeros as a least width asks
for.
-/

namespace Tis80

abbrev Byte := UInt8

/-- The address of one of the 65536 memory cells; arithmetic on it wraps around. -/
abbrev Address := UInt16

/-- `n` in base sixteen, with at least `width` digits. -/
def hex (width n : Nat) : String :=
  String.ofList ((Nat.toDigits 16 n).leftpad width '0')

namespace Byte

/-- The sum, if it fits in a byte. -/
def add? (a b : Byte) : Option Byte :=
  if a.toNat + b.toNat < 256 then some (a + b) else none

/-- The difference, if it is not negative. -/
def sub? (a b : Byte) : Option Byte :=
  if b ≤ a then some (a - b) else none

def hex (b : Byte) : String := Tis80.hex 2 b.toNat

end Byte

namespace Address

def high (a : Address) : Byte := UInt8.ofNat (a.toNat / 256)

def low (a : Address) : Byte := UInt8.ofNat (a.toNat % 256)

def ofBytes (high low : Byte) : Address := UInt16.ofNat (high.toNat * 256 + low.toNat)

/-- An address as the machine's listings show it. -/
def render (a : Address) : String := "$" ++ hex 4 a.toNat

/-! ## Lemmas -/

theorem toNat_ofBytes (h l : Byte) : (ofBytes h l).toNat = h.toNat * 256 + l.toNat := by
  have := h.toNat_lt
  have := l.toNat_lt
  simp only [ofBytes, UInt16.toNat_ofNat']
  omega

theorem toNat_high (a : Address) : a.high.toNat = a.toNat / 256 := by
  have := a.toNat_lt
  simp only [high, UInt8.toNat_ofNat']
  omega

theorem toNat_low (a : Address) : a.low.toNat = a.toNat % 256 := by
  simp only [low, UInt8.toNat_ofNat']
  omega

@[simp]
theorem ofBytes_high_low (a : Address) : ofBytes a.high a.low = a := by
  apply UInt16.toNat_inj.mp
  rw [toNat_ofBytes, toNat_high, toNat_low]
  omega

@[simp]
theorem high_ofBytes (h l : Byte) : (ofBytes h l).high = h := by
  apply UInt8.toNat_inj.mp
  have := l.toNat_lt
  rw [toNat_high, toNat_ofBytes]
  omega

@[simp]
theorem low_ofBytes (h l : Byte) : (ofBytes h l).low = l := by
  apply UInt8.toNat_inj.mp
  have := l.toNat_lt
  rw [toNat_low, toNat_ofBytes]
  omega

end Address

end Tis80
