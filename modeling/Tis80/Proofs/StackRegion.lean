import Tis80.Proofs.Bounds
import Tis80.Proofs.RomImage

/-!
# Stack traffic stays in the stack

Four instructions write to cells that they name. In a run without them only frames, pushed bytes and
keys are written, and the stack pointer never leaves the stack. So between two such writes everything
outside the stack stays as it is: vectors, parameters, programs and the screen.

    Outside a → m.Bounded → m.Clear a                                            (Outside.clear)
    a quiet run reads the same as before in every cell outside                   (read_afterAll)
-/

namespace Tis80

/-- Whether an instruction writes to cells that it names. -/
def Instruction.isStore : Instruction → Bool
  | .str _ _ | .inw _ _ | .movm _ _ | .dsk _ => true
  | _ => false

/-- A cell that no stack reaches. The last one below the kernel is never used. -/
def Outside (a : Address) : Prop :=
  a < MemoryMap.stackBase ∨ MemoryMap.kernelOrigin - 2 < a

/-- The stack pointer is above what lies below the stack, and no push reaches what lies behind it. -/
theorem Outside.clear {a : Address} (ha : Outside a) {σ : Type} {m : Machine σ}
    (hm : m.Bounded) : m.Clear a := by
  have hbase := hm.base_le
  rcases ha with hlow | hhigh
  · have hlow' : a.toNat < MemoryMap.stackBase.toNat := hlow
    left
    omega
  · have hhigh' : 510 < a.toNat := hhigh
    right
    rw [MemoryMap.toNat_kernelOrigin]
    omega

namespace Machine

variable {σ : Type} [ByteSource σ]

/-- The event is no load, and executes no store. -/
def Quiet (m : Machine σ) : Event σ → Prop
  | .step => ∀ i, m.nextInstruction? = some i → i.isStore = false
  | .load _ => False
  | _ => True

/-! ## Lemmas -/

theorem stores_of_not_isStore (m : Machine σ) {i : Instruction} (h : i.isStore = false) :
    m.stores i = [] := by
  cases i with
  | str | inw | movm | dsk => cases h
  | _ => rfl

theorem storedBy_of_quiet {m : Machine σ} {e : Event σ} (h : m.Quiet e) : m.storedBy e = [] := by
  cases e with
  | step =>
    unfold storedBy
    cases hnext : m.nextInstruction? with
    | none => rfl
    | some i => exact stores_of_not_isStore m (h i hnext)
  | load name => exact h.elim
  | _ => rfl

/-- A quiet event changes nothing outside, but for a key in its cell. -/
theorem read_after_of_quiet {m : Machine σ} {a : Address} {e : Event σ} (hm : m.Bounded)
    (he : m.Quiet e) (ha : Outside a)
    (hkey : a.toNat ≠ MemoryMap.keyboardBuffer.start ∨ ∀ key, e ≠ .keyDown key) :
    (m.after e).memory.read a = m.memory.read a := by
  apply read_after e (ha.clear hm) _ hkey
  rw [storedBy_of_quiet he]
  exact List.not_mem_nil

theorem read_afterAll {m : Machine σ} {a : Address} {es : List (Event σ)} (hm : m.Bounded)
    (hquiet : ∀ x ∈ m.moments es, x.1.Quiet x.2) (ha : Outside a)
    (hkey : a.toNat ≠ MemoryMap.keyboardBuffer.start ∨ ∀ key, .keyDown key ∉ es) :
    (m.afterAll es).memory.read a = m.memory.read a := by
  induction es generalizing m with
  | nil => rfl
  | cons e es ih =>
    obtain ⟨he, hes⟩ := List.forall_mem_cons.mp hquiet
    have hfirst : a.toNat ≠ MemoryMap.keyboardBuffer.start ∨ ∀ key, e ≠ .keyDown key := by
      refine hkey.imp_right fun h key hpress => h key ?_
      rw [hpress]
      exact List.mem_cons_self
    have hrest : a.toNat ≠ MemoryMap.keyboardBuffer.start ∨ ∀ key, .keyDown key ∉ es :=
      hkey.imp_right fun h key hmem => h key (List.mem_cons_of_mem _ hmem)
    calc ((m.after e).afterAll es).memory.read a
        = (m.after e).memory.read a := ih (hm.after e) hes hrest
      _ = m.memory.read a := read_after_of_quiet hm he ha hfirst

theorem slice_afterAll {m : Machine σ} {es : List (Event σ)} {start stop : Nat} (hm : m.Bounded)
    (hquiet : ∀ x ∈ m.moments es, x.1.Quiet x.2)
    (hstack : stop ≤ MemoryMap.stackBase.toNat ∨ MemoryMap.kernelOrigin.toNat - 2 < start)
    (hkey : stop ≤ MemoryMap.keyboardBuffer.start) :
    (m.afterAll es).memory.slice ⟨start, stop⟩ = m.memory.slice ⟨start, stop⟩ := by
  apply Memory.slice_congr (Nat.le_trans hkey (by decide))
  intro a hstart hstop
  refine read_afterAll hm hquiet ?_ (.inl (by omega))
  rcases hstack with hlow | hhigh
  · left
    show a.toNat < MemoryMap.stackBase.toNat
    omega
  · right
    rw [MemoryMap.toNat_kernelOrigin] at hhigh
    show 510 < a.toNat
    omega

/-! ## Top theorem -/

/-- Along a run of steps, interrupts and keys that executes no store, every cell outside the stack
but the one for keys keeps its value, and that one is as it was unless a key came. So the vector
table, the parameter block and all from the cell below the kernel up to the keys are untouched. -/
theorem Reachable.untouched_of_quiet {m : Machine σ} {es : List (Event σ)} (hm : Reachable m)
    (hquiet : ∀ x ∈ m.moments es, x.1.Quiet x.2) :
    (∀ a : Address, a < MemoryMap.stackBase ∨ MemoryMap.kernelOrigin - 2 < a → a ≠ 0xF400 →
      (m.afterAll es).memory.read a = m.memory.read a) ∧
    ((m.afterAll es).memory.read 0xF400 ≠ m.memory.read 0xF400 → ∃ key, .keyDown key ∈ es) ∧
    (m.afterAll es).memory.slice MemoryMap.vectorTable = m.memory.slice MemoryMap.vectorTable ∧
    (m.afterAll es).memory.slice MemoryMap.parameterBlock =
      m.memory.slice MemoryMap.parameterBlock ∧
    (m.afterAll es).memory.slice ⟨0x01FF, 0xF400⟩ = m.memory.slice ⟨0x01FF, 0xF400⟩ := by
  refine ⟨?_, ?_, ?_, ?_, ?_⟩
  · intro a ha hne
    refine read_afterAll hm.bounded hquiet ha (.inl ?_)
    intro hkey
    exact hne (UInt16.toNat_inj.mp hkey)
  · intro hchanged
    apply Classical.byContradiction
    intro hnone
    have hkeys : ∀ key, .keyDown key ∉ es := fun key hmem => hnone ⟨key, hmem⟩
    exact hchanged (read_afterAll hm.bounded hquiet (.inr (by decide)) (.inr hkeys))
  · exact slice_afterAll hm.bounded hquiet (.inl (by decide)) (by decide)
  · exact slice_afterAll hm.bounded hquiet (.inl (by decide)) (by decide)
  · exact slice_afterAll hm.bounded hquiet (.inr (by decide)) (by decide)

/-- A program that pushes a byte, with another one in the cell below the kernel. -/
def neighbouring : Rom where
  data := some [.number 0x01FF 9]
  start := MemoryMap.kernelOrigin
  code := [Opcode.psa.toByte]

theorem untouched_of_neighbouring :
    ∃ m : Machine Shelf, Reachable m ∧ (∀ x ∈ m.moments [.step, .keyDown 65], x.1.Quiet x.2) ∧
      (m.afterAll [.step, .keyDown 65]).memory.read 0x01FF = 9 := by
  obtain ⟨m, hm, hregisters, hread⟩ := exists_loaded (show neighbouring.NulFree by
    simp [Rom.NulFree, neighbouring, Rom.Entry.NulFree])
  have hpsa : m.nextInstruction? = some .psa :=
    nextInstruction?_of_fresh .psa hregisters (hread MemoryMap.kernelOrigin)
  have hquiet : ∀ x ∈ m.moments [.step, .keyDown 65], x.1.Quiet x.2 := by
    simp only [moments, List.forall_mem_cons]
    refine ⟨?_, trivial, fun x hx => absurd hx List.not_mem_nil⟩
    intro i hi
    rw [hpsa] at hi
    cases hi
    rfl
  refine ⟨m, hm, hquiet, ?_⟩
  rw [(hm.untouched_of_quiet hquiet).1 0x01FF (.inr (by decide)) (by decide), hread]
  rfl

end Machine

end Tis80
