import Mathlib.Logic.Relation
import Tis80.Proofs.Lockstep

/-!
# How a step ends

A step ends in one of five ways, and what the machine is like before it decides which: it is halted
already, its program counter has left memory, no opcode stands there, the opcode that halts stands
there, or another one does. Only the last completes.

    m.Outcome m.step                                                              (outcome_step)

A machine that is halted stays so, whatever is done to it from outside. Interrupts and loads still
change its registers and memory; steps and runs change nothing.

    Relation.ReflTransGen Moves m n → m is halted → n is halted                   (isHalted_of_moves)
    Relation.ReflTransGen Runs m n → m is halted → n = m                          (eq_of_runs)
-/

namespace Tis80

theorem Opcode.toByte_injective {op op' : Opcode} (h : op.toByte = op'.toByte) : op = op' := by
  have hsame := ofByte?_eq_some_iff.mpr h
  rw [ofByte?_toByte, Option.some.injEq] at hsame
  exact hsame.symm

theorem Opcode.ofByte?_eq_none_iff {b : Byte} :
    ofByte? b = none ↔ ∀ op : Opcode, op.toByte ≠ b := by
  constructor
  · rintro h op rfl
    rw [ofByte?_toByte] at h
    cases h
  · intro h
    cases hop : ofByte? b with
    | none => rfl
    | some op => exact absurd (ofByte?_eq_some_iff.mp hop) (h op)

namespace Machine

section Outcomes

variable {σ : Type}

/-- What a step gives, and what has to hold before it. -/
inductive Outcome (m : Machine σ) : Except Stop Unit × Machine σ → Prop
  | halted : m.isHalted = true → Outcome m (.error .ended, m)
  | outOfBounds : m.isHalted = false → memorySize ≤ m.registers.pc →
      Outcome m (.error (.outOfBounds m.registers.pc), m)
  | unknown : m.isHalted = false → m.registers.pc < memorySize →
      (∀ op : Opcode, op.toByte ≠ m.memory.fetch m.registers.pc) →
      Outcome m (.error (.unknownInstruction (m.memory.fetch m.registers.pc) m.registers.pc),
        m.advance 1)
  | halts : m.isHalted = false → m.registers.pc < memorySize →
      Opcode.hlt.toByte = m.memory.fetch m.registers.pc →
      Outcome m (.error .ended, (m.advance 1).setMode { m.registers.mode with halted := true })
  | completes {op : Opcode} {n : Machine σ} : m.isHalted = false → m.registers.pc < memorySize →
      op.toByte = m.memory.fetch m.registers.pc → op ≠ .hlt → n.isHalted = false →
      Outcome m (.ok (), n)

/-! ## Conditions, one for each outcome -/

namespace Outcome

variable {m : Machine σ} {r : Except Stop Unit × Machine σ}

theorem outOfBounds_iff (h : m.Outcome r) (pc : Nat) :
    r.1 = .error (.outOfBounds pc) ↔
      m.isHalted = false ∧ memorySize ≤ m.registers.pc ∧ pc = m.registers.pc := by
  cases h with
  | halted hm => exact iff_of_false nofun fun h => Bool.false_ne_true (h.1.symm.trans hm)
  | outOfBounds hm hpc => simp [hm, hpc, eq_comm]
  | unknown _ hpc | halts _ hpc | completes _ hpc =>
    exact iff_of_false nofun fun h => Nat.not_le.mpr hpc h.2.1

theorem unknown_iff (h : m.Outcome r) (opcode : Byte) (address : Nat) :
    r.1 = .error (.unknownInstruction opcode address) ↔
      m.isHalted = false ∧ m.registers.pc < memorySize ∧
      (∀ op : Opcode, op.toByte ≠ m.memory.fetch m.registers.pc) ∧
      opcode = m.memory.fetch m.registers.pc ∧ address = m.registers.pc := by
  cases h with
  | halted hm => exact iff_of_false nofun fun h => Bool.false_ne_true (h.1.symm.trans hm)
  | outOfBounds _ hpc => exact iff_of_false nofun fun h => Nat.not_le.mpr h.2.1 hpc
  | unknown hm hpc hop =>
    constructor
    · rintro ⟨⟩
      exact ⟨hm, hpc, hop, rfl, rfl⟩
    · rintro ⟨-, -, -, rfl, rfl⟩
      rfl
  | halts _ _ hop | completes _ _ hop => exact iff_of_false nofun fun h => h.2.2.1 _ hop

theorem ended_iff (h : m.Outcome r) :
    r.1 = .error .ended ↔ m.isHalted = true ∨
      m.registers.pc < memorySize ∧ Opcode.hlt.toByte = m.memory.fetch m.registers.pc := by
  cases h with
  | halted hm => exact iff_of_true rfl (.inl hm)
  | outOfBounds hm hpc => simp [hm, Nat.not_lt.mpr hpc]
  | unknown hm _ hop => simp [hm, hop .hlt]
  | halts _ hpc hop => exact iff_of_true rfl (.inr ⟨hpc, hop⟩)
  | @completes op n hm _ hop hne =>
    -- a byte is one opcode only
    have hhlt : Opcode.hlt.toByte ≠ m.memory.fetch m.registers.pc := fun hsame =>
      hne (Opcode.toByte_injective (hop.trans hsame.symm))
    simp [hm, hhlt]

theorem ok_iff (h : m.Outcome r) :
    r.1 = .ok () ↔ m.isHalted = false ∧ m.registers.pc < memorySize ∧
      ∃ op : Opcode, op.toByte = m.memory.fetch m.registers.pc ∧ op ≠ .hlt := by
  constructor
  · intro hok
    cases h with
    | halted | outOfBounds | unknown | halts => cases hok
    | completes hm hpc hop hne => exact ⟨hm, hpc, _, hop, hne⟩
  · rintro ⟨hm, hpc, op, hop, hne⟩
    cases h with
    | halted hm' => exact absurd (hm.symm.trans hm') Bool.false_ne_true
    | outOfBounds _ hpc' => exact absurd hpc' (Nat.not_le.mpr hpc)
    | unknown _ _ hnone => exact absurd hop (hnone op)
    | halts _ _ hhlt => exact absurd (Opcode.toByte_injective (hop.trans hhlt.symm)) hne
    | completes => rfl

/-- What is left of the machine by a step that does not complete, and by one that does. -/
theorem machine_eq (h : m.Outcome r) :
    (∀ pc, r.1 = .error (.outOfBounds pc) → r.2 = m) ∧
    (∀ opcode address, r.1 = .error (.unknownInstruction opcode address) → r.2 = m.advance 1) ∧
    (m.isHalted = true → r.2 = m) ∧
    (m.isHalted = false → r.1 = .error .ended →
      r.2 = (m.advance 1).setMode { m.registers.mode with halted := true }) ∧
    (r.1 = .ok () → r.2.isHalted = false) := by
  cases h with
  | halted hm => simp [hm]
  | outOfBounds hm | unknown hm | halts hm => simp [hm]
  | completes hm _ _ _ hn => simp [hm, hn]

end Outcome

end Outcomes

variable {σ : Type} [ByteSource σ]

/-- What steps and runs lead to. -/
inductive Runs (m : Machine σ) : Machine σ → Prop
  | step : Runs m m.step.2
  | run {fuel : Nat} {r : Except Stop Unit × Machine σ} : m.run fuel = some r → Runs m r.2
  | runFor (n : Nat) : Runs m (m.runFor n).2

/-- What steps, runs, loads, interrupts and keys lead to. -/
inductive Moves (m : Machine σ) : Machine σ → Prop
  | runs {n : Machine σ} : Runs m n → Moves m n
  | event (e : Event σ) : Moves m (m.after e)

/-! ## One step -/

theorem halted_modeAfter {i : Instruction} (h : i.opcode ≠ .hlt) (mode : Mode) :
    (i.modeAfter mode).halted = mode.halted := by
  cases i with
  | hlt => exact absurd rfl h
  | _ => rfl

/-- An instruction is executed: the machine halts if it is the one for that. -/
theorem outcome_of_opcode {m : Machine σ} {op : Opcode} (hrunning : m.isHalted = false)
    (hpc : m.registers.pc < memorySize) (hop : op.toByte = m.memory.fetch m.registers.pc) :
    m.Outcome m.step := by
  have hnext := nextInstruction?_of_fetch op hrunning rfl hpc hop.symm
  have hopcode := Instruction.opcode_instruction op fun k => m.memory.fetch (m.registers.pc + (k + 1))
  generalize op.instruction (fun k => m.memory.fetch (m.registers.pc + (k + 1))) = i at *
  subst hopcode
  have hstep := step_of_nextInstruction? hnext
  by_cases hhlt : i.opcode = .hlt
  · cases i with
    | hlt =>
      rw [hstep]
      exact .halts hrunning hpc hop
    | _ => cases hhlt
  · have hgoing : ((m.advance i.size).execute i).isHalted = false := by
      rw [isHalted, mode_execute, halted_modeAfter hhlt]
      exact hrunning
    rw [hstep, hgoing]
    exact .completes hrunning hpc hop hhlt hgoing

theorem outcome_step (m : Machine σ) : m.Outcome m.step := by
  cases hrunning : m.isHalted with
  | true =>
    rw [step_of_isHalted hrunning]
    exact .halted hrunning
  | false =>
    by_cases hpc : memorySize ≤ m.registers.pc
    · rw [step_of_memorySize_le hrunning hpc]
      exact .outOfBounds hrunning hpc
    · replace hpc := Nat.not_le.mp hpc
      cases hop : Opcode.ofByte? (m.memory.fetch m.registers.pc) with
      | some op => exact outcome_of_opcode hrunning hpc (Opcode.ofByte?_eq_some_iff.mp hop)
      | none =>
        have hnext : m.nextInstruction? = none := by
          simp only [nextInstruction?, Memory.instructionAt, Instruction.decode?, Nat.add_zero, hop,
            Option.map_none, ite_self]
        rw [step_of_nextInstruction?_none hnext, if_neg (by simp [hrunning]),
          if_neg (Nat.not_le.mpr hpc)]
        exact .unknown hrunning hpc (Opcode.ofByte?_eq_none_iff.mp hop)

/-! ## A halted machine -/

theorem run_of_isHalted {m : Machine σ} (h : m.isHalted = true) (fuel : Nat) :
    m.run (fuel + 1) = some (.ok (), m) :=
  run_of_error (step_of_isHalted h) fuel

theorem eq_of_run {m n : Machine σ} (h : Runs m n) (hm : m.isHalted = true) : n = m := by
  cases h with
  | step => rw [step_of_isHalted hm]
  | @run fuel r hrun =>
    cases fuel with
    | zero => cases hrun
    | succ fuel =>
      rw [run_of_isHalted hm] at hrun
      cases hrun
      rfl
  | runFor n => rw [runFor_of_isHalted hm]

theorem isHalted_after {m : Machine σ} (hm : m.isHalted = true) (e : Event σ) :
    (m.after e).isHalted = true := by
  cases e with
  | step =>
    rw [after, step_of_isHalted hm]
    exact hm
  | load name =>
    rw [isHalted, after, registers_load]
    exact hm
  | dispatch id =>
    rw [isHalted, after, mode_dispatch]
    exact hm
  | interrupt i =>
    rw [isHalted, after, interrupt, mode_dispatch]
    exact hm
  | keyDown key =>
    rw [isHalted, after, keyDown, interrupt, mode_dispatch]
    exact hm
  | swap drive => exact hm

theorem eq_of_runs {m n : Machine σ} (h : Relation.ReflTransGen Runs m n) (hm : m.isHalted = true) :
    n = m := by
  induction h with
  | refl => rfl
  | tail _ hlast ih =>
    subst ih
    exact eq_of_run hlast hm

theorem isHalted_of_moves {m n : Machine σ} (h : Relation.ReflTransGen Moves m n)
    (hm : m.isHalted = true) : n.isHalted = true := by
  induction h with
  | refl => exact hm
  | tail _ hlast ih =>
    cases hlast with
    | runs hrun =>
      rw [eq_of_run hrun ih]
      exact ih
    | event e => exact isHalted_after ih e

/-! ## Top theorem -/

/-- Each way for a step to end, with the condition for it and what it leaves of the machine. A halted
machine stays halted, whatever sequence of steps, runs, loads, interrupts and keys follows; as long as
these are steps and runs, it stays as it is. -/
theorem step_ends_exactly (m : Machine σ) :
    (∀ pc, m.step.1 = .error (.outOfBounds pc) ↔
      m.isHalted = false ∧ memorySize ≤ m.registers.pc ∧ pc = m.registers.pc) ∧
    (∀ pc, m.step.1 = .error (.outOfBounds pc) → m.step.2 = m) ∧
    (∀ opcode address, m.step.1 = .error (.unknownInstruction opcode address) ↔
      m.isHalted = false ∧ m.registers.pc < memorySize ∧
      (∀ op : Opcode, op.toByte ≠ m.memory.fetch m.registers.pc) ∧
      opcode = m.memory.fetch m.registers.pc ∧ address = m.registers.pc) ∧
    (∀ opcode address, m.step.1 = .error (.unknownInstruction opcode address) →
      m.step.2 = { m with registers := { m.registers with pc := m.registers.pc + 1 } }) ∧
    (m.step.1 = .error .ended ↔ m.isHalted = true ∨
      m.registers.pc < memorySize ∧ Opcode.hlt.toByte = m.memory.fetch m.registers.pc) ∧
    (m.isHalted = true → m.step.2 = m) ∧
    (m.isHalted = false → m.step.1 = .error .ended →
      m.step.2 = { m with registers := { m.registers with
        pc := m.registers.pc + 1
        mode := { m.registers.mode with halted := true } } }) ∧
    (m.step.1 = .ok () ↔ m.isHalted = false ∧ m.registers.pc < memorySize ∧
      ∃ op : Opcode, op.toByte = m.memory.fetch m.registers.pc ∧ op ≠ .hlt) ∧
    (m.step.1 = .ok () → m.step.2.isHalted = false) ∧
    (m.isHalted = true →
      (∀ n, Relation.ReflTransGen Moves m n → n.isHalted = true) ∧
      (∀ n, Relation.ReflTransGen Runs m n → n = m) ∧
      m.step = (.error .ended, m) ∧ (∀ n, m.runFor n = (.ok 0, m)) ∧
      ∀ fuel, m.run (fuel + 1) = some (.ok (), m)) := by
  have h := outcome_step m
  obtain ⟨hbounds, hunknown, hhalted, hhalts, hok⟩ := h.machine_eq
  refine ⟨h.outOfBounds_iff, hbounds, h.unknown_iff, hunknown, h.ended_iff, hhalted, hhalts, h.ok_iff,
    hok, fun hm => ⟨fun n hn => isHalted_of_moves hn hm, fun n hn => eq_of_runs hn hm,
      step_of_isHalted hm, runFor_of_isHalted hm, run_of_isHalted hm⟩⟩

/-- A program that halts at once, with a handler for keys at 0300. -/
def halting : Machine Shelf where
  registers := { mode := { interruptible := true } }
  memory := (Memory.blank.write 0x0008 0x03).write 0x0200 Opcode.hlt.toByte
  drive := {}

/-- A key takes the halted machine to the handler, where it does not run. -/
theorem step_ends_of_halting :
    halting.step.1 = .error .ended ∧ halting.step.2.registers.pc = 0x0201 ∧
    (halting.step.2.keyDown 65).registers.pc = 0x0300 ∧
    (halting.step.2.keyDown 65).isHalted = true ∧
    (halting.step.2.keyDown 65).step.2 = halting.step.2.keyDown 65 := by
  have hfetch : Opcode.hlt.toByte = halting.memory.fetch halting.registers.pc :=
    ((Memory.fetch_toNat halting.memory 0x0200).trans (Memory.read_write_self _ _ _)).symm
  obtain ⟨-, -, -, -, hended, -, hhalts, -, -, -⟩ := step_ends_exactly halting
  have hstop := hended.mpr (.inr ⟨by decide, hfetch⟩)
  have hleft := hhalts rfl hstop
  have hm : halting.step.2.isHalted = true := by
    rw [hleft]
    rfl
  obtain ⟨-, -, -, -, -, -, -, -, -, hlatch⟩ := step_ends_exactly halting.step.2
  have hkey : (halting.step.2.keyDown 65).isHalted = true :=
    (hlatch hm).1 _ (.single (.event (.keyDown 65)))
  obtain ⟨-, -, -, -, -, hstays, -, -, -, -⟩ := step_ends_exactly (halting.step.2.keyDown 65)
  refine ⟨hstop, by rw [hleft]; rfl, ?_, hkey, hstays hkey⟩
  have hvector : (halting.step.2.write 0xF400 65).vector 4 = 0x0300 := by
    have hcell : ∀ a : Address, a ≠ 0xF400 → a ≠ 0x0200 →
        (halting.step.2.write 0xF400 65).memory.read a =
          (Memory.blank.write 0x0008 0x03).read a := by
      intro a hbuffer hkernel
      rw [hleft]
      exact (Memory.read_write_of_ne _ _ (Ne.symm hbuffer)).trans
        (Memory.read_write_of_ne _ _ (Ne.symm hkernel))
    rw [vector, hcell _ (by decide) (by decide), hcell _ (by decide) (by decide)]
    show Address.ofBytes ((Memory.blank.write 0x0008 0x03).read 0x0008)
      ((Memory.blank.write 0x0008 0x03).read 0x0009) = 0x0300
    rw [Memory.read_write_self, Memory.read_write_of_ne _ _ (by decide), Memory.read_blank]
    rfl
  have hhandler : (halting.step.2.write 0xF400 65).HasHandler 4 := by
    refine ⟨?_, by decide, by rw [hvector]; decide⟩
    rw [hleft]
    rfl
  have hdispatch : ∀ m : Machine Shelf, m.keyDown 65 = (m.write 0xF400 65).dispatch 4 := fun _ => rfl
  rw [hdispatch, dispatch_of_hasHandler hhandler, hvector, call_eq]
  rfl

end Machine

end Tis80
