import Tis80.Machine.Step
import Tis80.Proofs.Stack

/-!
# Events and steps

A machine changes by events: steps, loads, interrupts, keys, and whatever happens to its drive. A
machine is reachable if events, and budgeted runs, lead to it from a fresh or a booted one.

What a step writes is of two kinds. An instruction may store into cells that it names, or load a ROM
into them (`stores`); and whatever it does to the stack ends above the stack pointer. All other cells
stay as they are:

    m.Clear a → a ∉ m.stores i → (m.execute i).memory.read a = m.memory.read a       (read_execute)
-/

namespace Tis80

inductive Event (σ : Type)
  | step
  | load (name : String)
  | dispatch (id : Byte)
  | interrupt (i : Interrupt)
  | keyDown (key : Byte)
  /-- The drive holds other ROMs from now on. -/
  | swap (drive : σ)

/-- The mode that an instruction leaves. -/
def Instruction.modeAfter (i : Instruction) (mode : Mode) : Mode :=
  match i with
  | .hlt => { mode with halted := true }
  | .pmd => { mode with shielded := true }
  | .ein => { mode with interruptible := true }
  | .din => { mode with interruptible := false }
  | _ => mode

namespace Machine

section Calls

variable {σ : Type}

theorem accumulate_of_call {P : Machine σ → Prop} {m : Machine σ} (result : Option Byte)
    (hvalue : ∀ v, P (m.setAcc v)) (hflag : P ((m.setAcc 0).setFlag .accOverflow))
    (hcall : ∀ target, P (((m.setAcc 0).setFlag .accOverflow).call target)) :
    P (m.accumulate result) := by
  cases result with
  | some v => exact hvalue v
  | none => exact raise_of_call _ hflag hcall

theorem jumpIf_of_jump {P : Machine σ → Prop} {m : Machine σ} (taken : Bool) {target : Address}
    (h : P m) (hjump : P (m.jump target)) : P (m.jumpIf taken target) := by
  unfold jumpIf
  split
  · exact hjump
  · exact h

theorem pc_lt_of_nextInstruction? {m : Machine σ} {i : Instruction}
    (h : m.nextInstruction? = some i) : m.registers.pc < memorySize := by
  unfold nextInstruction? at h
  split at h
  · cases h
  · next hrun => exact Nat.not_le.mp (not_or.mp hrun).2

theorem isHalted_of_nextInstruction? {m : Machine σ} {i : Instruction}
    (h : m.nextInstruction? = some i) : m.isHalted = false := by
  unfold nextInstruction? at h
  split at h
  · cases h
  · next hrun => simpa using (not_or.mp hrun).1

theorem instructionAt_of_nextInstruction? {m : Machine σ} {i : Instruction}
    (h : m.nextInstruction? = some i) : m.memory.instructionAt m.registers.pc = some i := by
  unfold nextInstruction? at h
  split at h
  · cases h
  · exact h

theorem nextInstruction?_of_fetch {m : Machine σ} {pc : Nat} (op : Opcode)
    (hrun : m.isHalted = false) (hpc : m.registers.pc = pc) (hlt : pc < memorySize)
    (h : m.memory.fetch pc = op.toByte) :
    m.nextInstruction? = some (op.instruction fun i => m.memory.fetch (pc + (i + 1))) := by
  subst hpc
  simp only [nextInstruction?, hrun, Nat.not_le.mpr hlt, Bool.false_eq_true, or_self, if_false,
    Memory.instructionAt, Instruction.decode?, Nat.add_zero, h, Opcode.ofByte?_toByte,
    Option.map_some]

/-- Fresh registers are about to run the kernel. -/
theorem nextInstruction?_of_fresh {m : Machine σ} (op : Opcode) (hregisters : m.registers = {})
    (h : m.memory.read MemoryMap.kernelOrigin = op.toByte) :
    m.nextInstruction? = some (op.instruction fun i => m.memory.fetch (0x0200 + (i + 1))) := by
  apply nextInstruction?_of_fetch op
  · rw [isHalted, hregisters]
  · rw [hregisters]
    rfl
  · decide
  · exact (Memory.fetch_toNat _ MemoryMap.kernelOrigin).trans h

theorem read_dispatch {m : Machine σ} {a : Address} (h : m.Clear a) (id : Byte) :
    (m.dispatch id).memory.read a = m.memory.read a :=
  dispatch_of_call (P := fun n => n.memory.read a = m.memory.read a) id rfl (read_call h)

theorem read_push {m : Machine σ} {a : Address} (h : m.Clear a) (v : Byte) :
    (m.push v).memory.read a = m.memory.read a := by
  apply push_of_call (P := fun n => n.memory.read a = m.memory.read a)
  · intro hroom
    apply Memory.read_write_of_ne
    rintro rfl
    simp only [Clear, room, MemoryMap.toNat_kernelOrigin] at h hroom
    omega
  · rfl
  · exact read_call h

end Calls

variable {σ : Type} [ByteSource σ]

/-- The machine after an event, whatever the event reported. -/
def after (m : Machine σ) : Event σ → Machine σ
  | .step => m.step.2
  | .load name => (m.load name).2
  | .dispatch id => m.dispatch id
  | .interrupt i => m.interrupt i
  | .keyDown key => m.keyDown key
  | .swap drive => { m with drive := drive }

/-- The machine after events, one after the other. -/
def afterAll (m : Machine σ) (es : List (Event σ)) : Machine σ := es.foldl after m

/-- The events of a run, each with the machine that it happens to. -/
def moments (m : Machine σ) : List (Event σ) → List (Machine σ × Event σ)
  | [] => []
  | e :: es => (m, e) :: (m.after e).moments es

inductive Reachable : Machine σ → Prop
  | fresh (drive : σ) : Reachable { drive := drive }
  | booted {drive : σ} {kernel : String} {m : Machine σ} :
      boot drive kernel = .ok m → Reachable m
  | event {m : Machine σ} (e : Event σ) : Reachable m → Reachable (m.after e)
  | runFor {m : Machine σ} (n : Nat) : Reachable m → Reachable (m.runFor n).2

/-- The writes a load of `name` performs. -/
def loadWrites (m : Machine σ) (name : String) : List (Address × Byte) :=
  match ByteSource.openRom m.drive name with
  | (.error _, _) => []
  | (.ok (), opened) => (Rom.read (ByteSource.drain opened).1).writes

/-- The cells an instruction stores into by itself, what it pushes aside. -/
def stores (m : Machine σ) : Instruction → List Address
  | .str _ target => [target]
  | .inw _ pointer => [m.memory.readAddress pointer]
  | .movm _ pointer => [pointer, pointer + 1]
  | .dsk name => (m.loadWrites (lossyText (m.memory.stringAt name))).map Prod.fst
  | _ => []

/-- The cells an event stores into by itself, frames and keys aside. -/
def storedBy (m : Machine σ) : Event σ → List Address
  | .step => m.nextInstruction?.elim [] m.stores
  | .load name => (m.loadWrites name).map Prod.fst
  | _ => []

/-! ## Loads -/

@[simp]
theorem registers_load (m : Machine σ) (name : String) :
    (m.load name).2.registers = m.registers := by
  unfold load
  split <;> rfl

@[simp]
theorem savingFrame_load (m : Machine σ) (name : String) :
    (m.load name).2.savingFrame = m.savingFrame := by
  unfold load
  split <;> rfl

theorem memory_load (m : Machine σ) (name : String) :
    (m.load name).2.memory = m.memory.writeAll (m.loadWrites name) := by
  unfold load loadWrites
  rcases ByteSource.openRom m.drive name with ⟨cause | _, rest⟩
  · exact (Memory.writeAll_nil m.memory).symm
  · rfl

/-- A machine boots from a ROM that opens and loads: its registers are fresh, its memory holds what the
image writes, and its drive is closed. -/
theorem boot_of_openRom {drive opened : σ} {kernel : String} {report : Rom.Report}
    (hopen : ByteSource.openRom drive kernel = (.ok (), opened))
    (hread : (Rom.read (ByteSource.drain opened).1).result = .ok report) :
    ∃ m, boot drive kernel = .ok m ∧ m.registers = {} ∧
      m.memory = Memory.blank.writeAll (Rom.read (ByteSource.drain opened).1).writes ∧
      m.drive = ByteSource.close (ByteSource.drain opened).2 := by
  refine ⟨(load { drive := drive } kernel).2.jump MemoryMap.kernelOrigin, ?_, ?_, ?_, ?_⟩
  · simp only [boot, load, hopen, hread]
    rfl
  · simp only [jump, registers_load]
  · simp only [jump, load, hopen]
  · simp only [jump, load, hopen]

/-- A load goes the same way whatever the registers hold. -/
theorem load_setRegisters (m : Machine σ) (rs : Registers) (name : String) :
    load { m with registers := rs } name =
      ((m.load name).1, { (m.load name).2 with registers := rs }) := by
  unfold load
  rcases ByteSource.openRom m.drive name with ⟨_ | _, _⟩ <;> rfl

theorem loadNamed_of_call {P : Machine σ → Prop} {m loaded : Machine σ} (name : Address)
    (hload : (m.load (lossyText (m.memory.stringAt name))).2 = loaded) (hok : P loaded)
    (hflag : P (loaded.setFlag .ioError))
    (hcall : ∀ target, P ((loaded.setFlag .ioError).call target)) : P (m.loadNamed name) := by
  unfold loadNamed
  split
  · next h =>
    rw [h] at hload
    subst hload
    exact hok
  · next h =>
    rw [h] at hload
    subst hload
    exact raise_of_call _ hflag hcall

/-! ## Steps -/

theorem step_of_nextInstruction? {m : Machine σ} {i : Instruction}
    (h : m.nextInstruction? = some i) :
    m.step = (if ((m.advance i.size).execute i).isHalted then .error .ended else .ok (),
      (m.advance i.size).execute i) := by
  unfold nextInstruction? at h
  split at h
  · cases h
  · next hrun =>
    obtain ⟨hhalt, hpc⟩ := not_or.mp hrun
    simp only [step, hhalt, hpc, h, if_false]
    rfl

theorem step_snd {m : Machine σ} {i : Instruction} (h : m.nextInstruction? = some i) :
    m.step.2 = (m.advance i.size).execute i := by
  rw [step_of_nextInstruction? h]

/-- A step executes an instruction, does nothing, or goes past a byte that is no opcode. -/
theorem step_cases (m : Machine σ) :
    (∃ i, m.nextInstruction? = some i ∧ m.step.2 = (m.advance i.size).execute i) ∨
    (m.nextInstruction? = none ∧ m.step.2 = m) ∨
    (m.nextInstruction? = none ∧ m.registers.pc < memorySize ∧ m.step.2 = m.advance 1) := by
  cases hnext : m.nextInstruction? with
  | some i => exact .inl ⟨i, rfl, step_snd hnext⟩
  | none =>
    right
    unfold nextInstruction? at hnext
    split at hnext
    · next hstop =>
      left
      refine ⟨rfl, ?_⟩
      rcases hstop with hhalt | hpc
      · simp only [step, hhalt, if_true]
      · simp only [step, hpc, if_true]
        split <;> rfl
    · next hrun =>
      obtain ⟨hhalt, hpc⟩ := not_or.mp hrun
      right
      refine ⟨rfl, Nat.not_le.mp hpc, ?_⟩
      simp only [step, hhalt, hpc, hnext, if_false]
      rfl

theorem step_of_memorySize_le {m : Machine σ} (hrunning : m.isHalted = false)
    (h : memorySize ≤ m.registers.pc) : m.step = (.error (.outOfBounds m.registers.pc), m) := by
  simp only [step, hrunning, h, Bool.false_eq_true, if_false, if_true]

theorem step_ne_outOfBounds {m : Machine σ} (h : m.registers.pc < memorySize) (pc : Nat) :
    m.step.1 ≠ .error (.outOfBounds pc) := by
  unfold step
  split
  · nofun
  · simp only [Nat.not_le.mpr h, if_false]
    cases m.memory.instructionAt m.registers.pc with
    | none => nofun
    | some i =>
      dsimp only
      split <;> nofun

/-- What steps keep, budgeted runs keep. -/
theorem runFor_of_step {P : Machine σ → Prop} (hstep : ∀ m : Machine σ, P m → P m.step.2)
    (n : Nat) {m : Machine σ} (h : P m) : P (m.runFor n).2 := by
  suffices hfrom : ∀ done, P (runForFrom done n m).2 from hfrom 0
  induction n generalizing m with
  | zero => exact fun _ => h
  | succ n ih =>
    intro done
    have hnext := hstep m h
    rw [runForFrom]
    split
    · next m' he =>
      rw [he] at hnext
      exact ih hnext _
    · next m' he =>
      rw [he] at hnext
      exact hnext
    · next m' he =>
      rw [he] at hnext
      exact hnext

/-! ## The mode -/

theorem mode_call {σ : Type} (m : Machine σ) (target : Address) :
    (m.call target).registers.mode = m.registers.mode := by
  rw [call_eq]

theorem mode_dispatch {σ : Type} (m : Machine σ) (id : Byte) :
    (m.dispatch id).registers.mode = m.registers.mode :=
  dispatch_of_call (P := fun n => n.registers.mode = m.registers.mode) id rfl (mode_call m)

theorem mode_execute (m : Machine σ) (i : Instruction) :
    (m.execute i).registers.mode = i.modeAfter m.registers.mode := by
  let P : Machine σ → Prop := fun n => n.registers.mode = m.registers.mode
  cases i with
  | add r | addi v | sub r | subi v =>
    exact accumulate_of_call (P := P) _ (fun _ => rfl) rfl fun target => mode_call _ target
  | jeq | jne | jgt | jfg => exact jumpIf_of_jump (P := P) _ rfl rfl
  | dsk name =>
    have hload : P (m.load (lossyText (m.memory.stringAt name))).2 :=
      congrArg Registers.mode (registers_load m _)
    exact loadNamed_of_call (P := P) name rfl hload hload fun target =>
      (mode_call _ target).trans hload
  | int id => exact mode_dispatch m id
  | cll target => exact mode_call m target
  | crn =>
    obtain ⟨sp, f, hret⟩ := exists_ret_eq m
    rw [execute, hret]
    rfl
  | cfg code =>
    rw [execute]
    split <;> rfl
  | psa => exact push_of_call (P := P) _ (fun _ => rfl) rfl (mode_call _)
  | psr r => exact push_of_call (P := P) _ (fun _ => rfl) rfl (mode_call _)
  | jmp | jlt | sil | sir | and | or | not | xor | ldr | str | mov | movi | tar | tra | inr | inw
  | movm | hlt | pmd | ein | din | poa | por => rfl

/-- The mode changes as the instruction says, if one is executed. -/
theorem mode_step (m : Machine σ) :
    m.step.2.registers.mode = m.nextInstruction?.elim m.registers.mode
      (·.modeAfter m.registers.mode) := by
  rcases step_cases m with ⟨i, hi, he⟩ | ⟨hi, he⟩ | ⟨hi, -, he⟩
  · rw [he, hi, mode_execute]
    rfl
  · rw [he, hi]
    rfl
  · rw [he, hi]
    rfl

/-- An instruction that leaves the mode alone completes its step. -/
theorem step_of_modeAfter_eq {m : Machine σ} {i : Instruction} (hnext : m.nextInstruction? = some i)
    (hmode : i.modeAfter m.registers.mode = m.registers.mode) :
    m.step = (.ok (), (m.advance i.size).execute i) := by
  have hrunning : ((m.advance i.size).execute i).isHalted = false := by
    rw [isHalted, mode_execute]
    exact (congrArg Mode.halted hmode).trans (isHalted_of_nextInstruction? hnext)
  rw [step_of_nextInstruction? hnext, hrunning]
  rfl

/-! ## Cells that stay as they are -/

theorem read_loadNamed {m : Machine σ} {a name : Address} (h : m.Clear a)
    (hstores : a ∉ m.stores (.dsk name)) :
    (m.loadNamed name).memory.read a = m.memory.read a := by
  have hload : (m.load (lossyText (m.memory.stringAt name))).2.memory.read a = m.memory.read a := by
    rw [memory_load]
    exact Memory.read_writeAll_of_notMem _ hstores
  apply loadNamed_of_call (P := fun n => n.memory.read a = m.memory.read a) name rfl hload hload
  intro target
  rw [read_call _ target]
  · exact hload
  · show _ < _ ∨ _
    simp only [setFlag, setFlags, registers_load]
    exact h

theorem read_execute {m : Machine σ} {a : Address} (i : Instruction) (h : m.Clear a)
    (hstores : a ∉ m.stores i) : (m.execute i).memory.read a = m.memory.read a := by
  let P : Machine σ → Prop := fun n => n.memory.read a = m.memory.read a
  cases i with
  | add r | addi v | sub r | subi v =>
    exact accumulate_of_call (P := P) _ (fun _ => rfl) rfl (read_call h)
  | jmp | jlt => rfl
  | jeq | jne | jgt | jfg => exact jumpIf_of_jump (P := P) _ rfl rfl
  | str r target =>
    have hne : target ≠ a := fun e => hstores (e ▸ List.mem_singleton_self _)
    exact Memory.read_write_of_ne _ _ hne
  | inw r pointer =>
    have hne : m.memory.readAddress pointer ≠ a := fun e => hstores (e ▸ List.mem_singleton_self _)
    exact Memory.read_write_of_ne _ _ hne
  | movm value pointer =>
    simp only [stores, List.mem_cons, List.not_mem_nil, or_false, not_or] at hstores
    show ((m.memory.write pointer _).write (pointer + 1) _).read a = _
    rw [Memory.read_write_of_ne _ _ (Ne.symm hstores.2),
      Memory.read_write_of_ne _ _ (Ne.symm hstores.1)]
  | dsk name => exact read_loadNamed h hstores
  | int id => exact read_dispatch h id
  | cll target => exact read_call h target
  | crn =>
    rw [execute, memory_ret]
  | cfg code =>
    rw [execute]
    split <;> rfl
  | psa => exact read_push h _
  | psr r => exact read_push h _
  | sil | sir | and | or | not | xor | ldr | mov | movi | tar | tra | inr | hlt | pmd | ein | din
  | poa | por => rfl

theorem stores_advance (m : Machine σ) (n : Nat) (i : Instruction) :
    (m.advance n).stores i = m.stores i := by
  cases i <;> rfl

/-- A cell that no push can reach changes only if the event stores into it, or is a key. -/
theorem read_after {m : Machine σ} {a : Address} (e : Event σ) (h : m.Clear a)
    (hstores : a ∉ m.storedBy e)
    (hkey : a.toNat ≠ MemoryMap.keyboardBuffer.start ∨ ∀ key, e ≠ .keyDown key) :
    (m.after e).memory.read a = m.memory.read a := by
  cases e with
  | step =>
    rcases step_cases m with ⟨i, hi, he⟩ | ⟨-, he⟩ | ⟨-, -, he⟩
    · simp only [storedBy, hi, Option.elim_some] at hstores
      have hclear : (m.advance i.size).Clear a := h
      rw [after, he, read_execute i hclear (by rwa [stores_advance])]
      rfl
    · rw [after, he]
    · rw [after, he]
      rfl
  | load name =>
    rw [after, memory_load]
    exact Memory.read_writeAll_of_notMem _ hstores
  | dispatch id => exact read_dispatch h id
  | interrupt i => exact read_dispatch h i.id
  | keyDown key =>
    have hne : UInt16.ofNat MemoryMap.keyboardBuffer.start ≠ a := by
      rintro rfl
      rcases hkey with hkey | hkey
      · exact hkey rfl
      · exact hkey key rfl
    have hpressed : (m.write (UInt16.ofNat MemoryMap.keyboardBuffer.start) key).Clear a := h
    exact (read_dispatch hpressed _).trans (Memory.read_write_of_ne _ _ hne)
  | swap drive => rfl

end Machine

end Tis80
