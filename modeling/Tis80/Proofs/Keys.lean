import Tis80.Proofs.Lockstep

/-!
# Keys that nobody looks at

A key goes into one cell and raises an interrupt. With interrupts disabled only the cell changes, so a
program that does not read it cannot tell a run with keys from one without: the two machines differ in
that cell alone, before and after every step.

    keyOnly.Alike m n → m is not interruptible → keyOnly.Alike m (n.keyDown key)     (alike_keyDown)
-/

namespace Tis80

def Operation.isKey : Operation → Bool
  | .keyDown _ => true
  | _ => false

/-- Machines may differ in the cell for keys. -/
def keyOnly (σ : Type) [ByteSource σ] : Tolerance σ σ :=
  .sameDrive σ (· = 0xF400) Eq (by rintro a rfl; decide) rfl

namespace Machine

variable {σ : Type} [ByteSource σ]

/-- In a session of steps and keys: what each step reports, and the machine after it. -/
def stepOutcomes (m : Machine σ) (ops : List Operation) : List (Except Stop Unit × Machine σ) :=
  ((m.occasions ops).filter fun x => !x.2.isKey).map fun x => x.1.step

/-- The next step does not enable interrupts and does not read the cell for keys. -/
def IgnoresKeys (m : Machine σ) : Prop :=
  m.nextInstruction? ≠ some .ein ∧ ¬ m.StepReads 0xF400

/-! ## One key or one step -/

theorem interruptible_step {m : Machine σ} (hm : m.registers.mode.interruptible = false)
    (hnext : m.nextInstruction? ≠ some .ein) : m.step.2.registers.mode.interruptible = false := by
  rw [mode_step]
  cases hi : m.nextInstruction? with
  | none => exact hm
  | some i =>
    rw [hi] at hnext
    cases i with
    | ein => exact absurd rfl hnext
    | din => rfl
    | _ => exact hm

/-- A key is one more difference in its own cell. -/
theorem alike_keyDown {m n : Machine σ} (h : (keyOnly σ).Alike m n)
    (hm : m.registers.mode.interruptible = false) (key : Byte) :
    (keyOnly σ).Alike m (n.keyDown key) := by
  have hmasked : n.registers.mode.interruptible = false := h.interruptible.symm.trans hm
  have hkey : n.keyDown key = n.write 0xF400 key := by
    have hnone : ¬ (n.write 0xF400 key).HasHandler Interrupt.keyboard.id :=
      fun hhandler => Bool.false_ne_true (hmasked.symm.trans hhandler.1)
    exact dispatch_of_not_hasHandler hnone
  rw [hkey]
  refine { h with memory := ?_ }
  intro a ha
  show m.memory.read a = (n.memory.write 0xF400 key).read a
  rw [Memory.read_write_of_ne _ _ (Ne.symm ha)]
  exact h.memory a ha

/-- The cell for keys is far above the stack. -/
theorem discreet_keyOnly {m : Machine σ} (hm : m.Bounded) (hread : ¬ m.StepReads 0xF400) :
    (keyOnly σ).Discreet m where
  unread := by
    rintro a rfl
    exact hread
  above := by
    rintro a rfl
    exact Nat.lt_trans hm.sp_lt (by decide)
  names _ _ := trivial

/-! ## A session -/

theorem stepOutcomes_key (m : Machine σ) (key : Byte) (ops : List Operation) :
    m.stepOutcomes (.keyDown key :: ops) = (m.keyDown key).stepOutcomes ops := rfl

theorem stepOutcomes_step (m : Machine σ) (ops : List Operation) :
    m.stepOutcomes (.step :: ops) = m.step :: m.step.2.stepOutcomes ops := rfl

/-- The machine that gets no keys and the one that gets them are alike after every step. -/
theorem alike_stepOutcomes {m n : Machine σ} {k : Nat} {ops : List Operation}
    (h : (keyOnly σ).Alike m n) (hm : m.Bounded) (hmasked : m.registers.mode.interruptible = false)
    (hops : ops.filter (fun op => !op.isKey) = List.replicate k .step)
    (hignores : ∀ x ∈ m.occasions (List.replicate k .step), x.1.IgnoresKeys) :
    List.Forall₂ (fun x y => x.1 = y.1 ∧ (keyOnly σ).Alike x.2 y.2)
      (m.stepOutcomes (List.replicate k .step)) (n.stepOutcomes ops) := by
  induction ops generalizing m n k with
  | nil =>
    obtain rfl : k = 0 := by simpa using (congrArg List.length hops).symm
    exact .nil
  | cons op ops ih =>
    by_cases hkey : op.isKey = true
    · -- the machine without keys does not move
      rw [List.filter_cons_of_neg (by simp [hkey])] at hops
      cases op with
      | keyDown key =>
        rw [stepOutcomes_key]
        exact ih (alike_keyDown h hmasked key) hm hmasked hops hignores
      | step | runFor | load | dispatch => cases hkey
    · rw [List.filter_cons_of_pos (by simp [hkey])] at hops
      cases k with
      | zero => cases hops
      | succ k =>
        rw [List.replicate_succ] at hops hignores ⊢
        obtain ⟨rfl, hrest⟩ := List.cons.inj hops
        obtain ⟨hfirst, hlater⟩ := List.forall_mem_cons.mp hignores
        have hstep := h.step (discreet_keyOnly hm hfirst.2)
        rw [stepOutcomes_step, stepOutcomes_step]
        exact .cons hstep
          (ih hstep.2 hm.step (interruptible_step hmasked hfirst.1) hrest hlater)

/-! ## Top theorem -/

/-- A run of steps that never enables interrupts and never reads the cell for keys is the same with any
keys in between: each step reports the same, and leaves the same registers and the same memory but for
that cell. -/
theorem Reachable.keys_invisible {m : Machine σ} {k : Nat} {ops : List Operation} (hm : Reachable m)
    (hmasked : m.registers.mode.interruptible = false)
    (hops : ops.filter (fun op => !op.isKey) = List.replicate k .step)
    (hignores : ∀ x ∈ m.occasions (List.replicate k .step), x.1.IgnoresKeys) :
    List.Forall₂
      (fun x y => x.1 = y.1 ∧ x.2.registers = y.2.registers ∧
        ∀ a, a ≠ 0xF400 → x.2.memory.read a = y.2.memory.read a)
      (m.stepOutcomes (List.replicate k .step)) (m.stepOutcomes ops) := by
  have hself : (keyOnly σ).Alike m m :=
    ⟨rfl, rfl, rfl, rfl, rfl, rfl, rfl, rfl, fun _ _ => rfl, rfl, rfl⟩
  refine (alike_stepOutcomes hself hm.bounded hmasked hops hignores).imp ?_
  rintro x y ⟨hresult, hstate⟩
  exact ⟨hresult, hstate.registers hstate.shield, hstate.memory⟩

/-- A program that complements the accumulator and pushes it. -/
def busy : Rom where
  data := none
  start := MemoryMap.kernelOrigin
  code := [Opcode.not.toByte, Opcode.psa.toByte]

theorem keys_invisible_of_busy :
    ∃ m : Machine Shelf, Reachable m ∧ m.registers.mode.interruptible = false ∧
      List.Forall₂
        (fun x y => x.1 = y.1 ∧ x.2.registers = y.2.registers ∧
          ∀ a, a ≠ 0xF400 → x.2.memory.read a = y.2.memory.read a)
        (m.stepOutcomes (List.replicate 2 .step))
        (m.stepOutcomes [.keyDown 65, .step, .keyDown 66, .keyDown 67, .step]) := by
  obtain ⟨m, hm, hregisters, hread⟩ := exists_loaded (show busy.NulFree by
    simp [Rom.NulFree, busy])
  have hmasked : m.registers.mode.interruptible = false := by rw [hregisters]
  have hpc : m.registers.pc = 0x0200 := by
    rw [hregisters]
    rfl
  have hnot : m.nextInstruction? = some .not :=
    nextInstruction?_of_fresh .not hregisters (hread MemoryMap.kernelOrigin)
  have hnext : m.step.2.nextInstruction? = some .psa ∧ m.step.2.registers.pc = 0x0201 := by
    rw [step_snd hnot]
    have hpc' : ((m.advance (Instruction.size .not)).execute .not).registers.pc = 0x0201 :=
      congrArg (· + 1) hpc
    refine ⟨nextInstruction?_of_fetch .psa ?_ hpc' (by decide) ?_, hpc'⟩
    · show m.registers.mode.halted = false
      rw [hregisters]
    · exact (Memory.fetch_toNat m.memory 0x0201).trans (hread 0x0201)
  -- an instruction of one byte reads that byte only
  have hignores : ∀ (s : Machine Shelf) (i : Instruction), s.nextInstruction? = some i →
      i = .not ∨ i = .psa → s.registers.pc < 0xF400 → s.IgnoresKeys := by
    intro s i hi hshort hlow
    refine ⟨?_, ?_⟩
    · rw [hi]
      rcases hshort with rfl | rfl <;> simp
    · rintro ⟨-, ha | ⟨j, hj, hcell⟩⟩
      · exact absurd hlow (Nat.not_lt.mpr (Nat.le_of_eq ha))
      · rw [hi] at hj
        cases hj
        rcases hshort with rfl | rfl <;>
        · rcases hcell with ⟨-, hlt⟩ | hlooks
          · exact absurd hlt (Nat.not_lt.mpr hlow)
          · exact hlooks
  have hrun : ∀ x ∈ m.occasions (List.replicate 2 .step), x.1.IgnoresKeys := by
    rintro x (_ | ⟨_, _ | ⟨_, ⟨⟩⟩⟩)
    · exact hignores m _ hnot (.inl rfl) (by omega)
    · exact hignores m.step.2 _ hnext.1 (.inr rfl) (by rw [hnext.2]; decide)
  exact ⟨m, hm, hmasked, hm.keys_invisible hmasked rfl hrun⟩

end Machine

end Tis80
