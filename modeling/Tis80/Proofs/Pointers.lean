import Tis80.Drive.Shelf
import Tis80.Proofs.Execution

/-!
# Pointers

A pointer is an address kept in two cells, high byte first. The cell behind the last one is the first
one, so a pointer may lie across the end of memory. What is stored through a pointer is found through it
again, as long as the store has not hit the pointer itself:

    (m.writeAddress p v).readAddress p = v                                (readAddress_writeAddress)
    t ≠ p → t ≠ p + 1 → (m.write t b).readAddress p = m.readAddress p       (readAddress_write_of_ne)

There is one level: the byte a pointer leads to is taken as it is, also if it is the first byte of
another pointer.
-/

namespace Tis80

theorem Address.add_one_ne (a : Address) : a + 1 ≠ a := by
  intro h
  have hnat := congrArg UInt16.toNat h
  rw [UInt16.toNat_add, UInt16.toNat_one] at hnat
  omega

namespace Memory

/-! ## Two cells -/

theorem readAddress_writeAddress (m : Memory) (p v : Address) :
    (m.writeAddress p v).readAddress p = v := by
  have hhigh : (m.writeAddress p v).read p = v.high := by
    rw [writeAddress, read_write_of_ne _ _ p.add_one_ne, read_write_self]
  have hlow : (m.writeAddress p v).read (p + 1) = v.low := by
    rw [writeAddress, read_write_self]
  rw [readAddress, hhigh, hlow, Address.ofBytes_high_low]

theorem read_writeAddress_of_ne (m : Memory) {p c : Address} (v : Address) (hc : c ≠ p)
    (hnext : c ≠ p + 1) : (m.writeAddress p v).read c = m.read c := by
  rw [writeAddress, read_write_of_ne _ _ hnext.symm, read_write_of_ne _ _ hc.symm]

/-- A pointer depends on its own two cells. -/
theorem readAddress_congr {m n : Memory} {p : Address} (hhigh : m.read p = n.read p)
    (hlow : m.read (p + 1) = n.read (p + 1)) : m.readAddress p = n.readAddress p := by
  rw [readAddress, readAddress, hhigh, hlow]

theorem readAddress_write_of_ne (m : Memory) {p t : Address} (b : Byte) (ht : t ≠ p)
    (hnext : t ≠ p + 1) : (m.write t b).readAddress p = m.readAddress p :=
  readAddress_congr (read_write_of_ne m b ht) (read_write_of_ne m b hnext)

end Memory

theorem Registers.get_of_lt (rs : Registers) {r : Register} (h : r.index.toNat < registerCount) :
    rs.get r = rs.general[r.index.toNat] := by
  simp [get, h]

theorem Registers.get_of_le (rs : Registers) {r : Register} (h : registerCount ≤ r.index.toNat) :
    rs.get r = 0 := by
  simp [get, Nat.not_lt.mpr h]

namespace Machine

/-! ## Stores and loads -/

variable {σ : Type} [ByteSource σ]

theorem execute_inr_of_readAddress {m : Machine σ} {p t : Address} (q : Register)
    (h : m.memory.readAddress p = t) :
    m.execute (.inr p q) = { m with registers := m.registers.set q (m.memory.read t) } := by
  rw [execute, h]
  rfl

/-- The pointer still leads to the cell that was stored into. -/
theorem execute_inr_of_stored {m n : Machine σ} {p : Address} {r : Register} (q : Register)
    (hhigh : m.memory.readAddress p ≠ p) (hlow : m.memory.readAddress p ≠ p + 1)
    (hn : ∀ c, c = p ∨ c = p + 1 ∨ c = m.memory.readAddress p →
      n.memory.read c = (m.execute (.inw r p)).memory.read c) :
    n.execute (.inr p q) = { n with registers := n.registers.set q (m.registers.get r) } := by
  have hpointer : n.memory.readAddress p = m.memory.readAddress p := by
    rw [Memory.readAddress_congr (hn _ (.inl rfl)) (hn _ (.inr (.inl rfl)))]
    exact Memory.readAddress_write_of_ne m.memory _ hhigh hlow
  have hbyte : n.memory.read (m.memory.readAddress p) = m.registers.get r := by
    rw [hn _ (.inr (.inr rfl))]
    exact Memory.read_write_self m.memory _ _
  rw [execute_inr_of_readAddress q hpointer, hbyte]

/-! ## Steps -/

section Steps

variable {m : Machine σ} {p v : Address} {r : Register}

theorem step_of_movm (hnext : m.nextInstruction? = some (.movm v p)) :
    m.step = (.ok (), (m.execute (.movm v p)).advance 5) :=
  step_of_modeAfter_eq hnext rfl

theorem step_of_inw (hnext : m.nextInstruction? = some (.inw r p)) :
    m.step = (.ok (), (m.execute (.inw r p)).advance 4) :=
  step_of_modeAfter_eq hnext rfl

theorem step_of_inr (hnext : m.nextInstruction? = some (.inr p r)) :
    m.step = (.ok (), (m.execute (.inr p r)).advance 4) :=
  step_of_modeAfter_eq hnext rfl

end Steps

/-! ## Top theorem -/

/-- `movm` makes a pointer of the two cells it names and changes no other cell. `inw` changes at most the
cell that its pointer leads to, and puts a register there: one of the sixteen, or zero for any other. If
that cell is not one of the pointer, `inr` finds the byte again, puts it into its register and changes
nothing else; and it does so on any machine that has the same in these three cells, so the byte is never
taken for a part of another pointer. Steps that meet these instructions do the same, and move the program
counter on. -/
theorem pointers_one_level (m : Machine σ) (v p : Address) (r q : Register)
    (hq : q.index.toNat ≤ 15) :
    let target := m.memory.readAddress p
    let value := m.registers.get r
    let pointing := m.execute (.movm v p)
    let stored := m.execute (.inw r p)
    let found := stored.execute (.inr p q)
    (pointing.memory.readAddress p = v ∧
      (∀ c, c ≠ p → c ≠ p + 1 → pointing.memory.read c = m.memory.read c) ∧
      pointing.registers = m.registers) ∧
    ((∀ h : r.index.toNat < registerCount, value = m.registers.general[r.index.toNat]) ∧
      (15 < r.index.toNat → value = 0) ∧
      stored.memory.read target = value ∧
      (∀ c, c ≠ target → stored.memory.read c = m.memory.read c) ∧
      stored.registers = m.registers) ∧
    (target ≠ p → target ≠ p + 1 →
      found.registers.get q = value ∧
      (∀ s, s ≠ q → found.registers.get s = m.registers.get s) ∧
      found.registers = m.registers.set q value ∧
      found.memory = stored.memory ∧
      ∀ n : Machine σ,
        (∀ c, c = p ∨ c = p + 1 ∨ c = target → n.memory.read c = stored.memory.read c) →
        n.execute (.inr p q) = { n with registers := n.registers.set q value }) ∧
    (m.nextInstruction? = some (.movm v p) → m.step = (.ok (), pointing.advance 5)) ∧
    (m.nextInstruction? = some (.inw r p) → m.step = (.ok (), stored.advance 4) ∧
      ((stored.advance 4).nextInstruction? = some (.inr p q) →
        (stored.advance 4).step = (.ok (), found.advance 8))) := by
  intro target value pointing stored found
  have hlt : q.index.toNat < registerCount := Nat.lt_succ_of_le hq
  refine ⟨⟨Memory.readAddress_writeAddress _ p v, ?_, rfl⟩,
    ⟨fun h => Registers.get_of_lt _ h, fun h => Registers.get_of_le _ h,
      Memory.read_write_self _ _ _, ?_, rfl⟩, ?_, step_of_movm, fun hnext => ⟨step_of_inw hnext, ?_⟩⟩
  · intro c hc hnext
    exact Memory.read_writeAddress_of_ne _ v hc hnext
  · intro c hc
    exact Memory.read_write_of_ne _ _ hc.symm
  · intro hhigh hlow
    have hfound : found = { stored with registers := m.registers.set q value } :=
      execute_inr_of_stored q hhigh hlow fun _ _ => rfl
    rw [hfound]
    refine ⟨Registers.get_set_self _ _ hlt, ?_, rfl, rfl, ?_⟩
    · intro s hs
      exact Registers.get_set_of_ne _ _ hs.symm
    · intro n hcells
      exact execute_inr_of_stored q hhigh hlow hcells
  · intro hinr
    rw [step_of_inr hinr]
    rfl

/-- A machine with a five in a register, and at 0500 a byte that is not to be found. -/
def misleading : Machine Shelf where
  registers := Registers.set {} ⟨1⟩ 5
  memory := Memory.blank.write 0x0500 0x77
  drive := {}

/-- The pointer lies across the end of memory. What is stored through it makes the first half of another
pointer, which is not followed. -/
theorem pointers_one_level_of_misleading :
    let pointing := misleading.execute (.movm 0x0300 0xFFFF)
    let stored := pointing.execute (.inw ⟨1⟩ 0xFFFF)
    pointing.memory.readAddress 0xFFFF = 0x0300 ∧
    stored.memory.readAddress 0x0300 = 0x0500 ∧ stored.memory.read 0x0500 = 0x77 ∧
    (stored.execute (.inr 0xFFFF ⟨2⟩)).registers.get ⟨2⟩ = 5 := by
  intro pointing stored
  obtain ⟨⟨hpointer, hkept, hregisters⟩, -⟩ :=
    pointers_one_level misleading 0x0300 0xFFFF ⟨1⟩ ⟨2⟩ (by decide)
  obtain ⟨-, ⟨-, -, hbyte, hothers, -⟩, hfound, -⟩ :=
    pointers_one_level pointing 0x0300 0xFFFF ⟨1⟩ ⟨2⟩ (by decide)
  have htarget : pointing.memory.readAddress 0xFFFF = 0x0300 := hpointer
  rw [htarget] at hbyte hothers hfound
  have hfive : pointing.registers.get ⟨1⟩ = 5 := by rw [hregisters]; rfl
  have hnext : stored.memory.read 0x0301 = 0 := by
    rw [hothers _ (by decide), hkept _ (by decide) (by decide), misleading,
      Memory.read_write_of_ne _ _ (by decide), Memory.read_blank]
  refine ⟨htarget, ?_, ?_, ?_⟩
  · show Address.ofBytes (stored.memory.read 0x0300) (stored.memory.read 0x0301) = 0x0500
    rw [hbyte, hnext, hfive]
    rfl
  · rw [hothers _ (by decide), hkept _ (by decide) (by decide), misleading, Memory.read_write_self]
  · rw [(hfound (by decide) (by decide)).1, hfive]

end Machine

end Tis80
