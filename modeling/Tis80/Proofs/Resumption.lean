import Tis80.Proofs.Interrupts

/-!
# Going on after an interrupt

A step that raises an interrupt, and a handler that returns at once, should leave the registers as
the step alone does with interrupts disabled. The program counter makes a difference. It is wider
than an address, and a frame holds an address: what is saved and restored is the program counter
modulo the size of memory.

    (step and return).registers = (step alone).registers with pc := pc % memorySize       (resumes)

So a program that is interrupted by its last instruction does not run off the end of memory. It goes
on at the start.
-/

namespace Tis80

namespace Machine

section Masking

variable {σ : Type}

/-- The machine with interrupts disabled. -/
def masked (m : Machine σ) : Machine σ :=
  m.setMode { m.registers.mode with interruptible := false }

theorem not_hasHandler_masked (m : Machine σ) (id : Byte) : ¬ m.masked.HasHandler id :=
  fun h => Bool.false_ne_true h.1

/-- A call writes its frame and nothing else. -/
theorem read_call_of_outside {m : Machine σ} {a : Address} (target : Address)
    (h : a.toNat < m.registers.sp.toNat ∨ m.registers.sp.toNat + Frame.size ≤ a.toNat) :
    (m.call target).memory.read a = m.memory.read a := by
  rw [call_eq]
  apply Memory.read_writeAll_of_notMem
  intro hmem
  obtain ⟨i, hi, rfl⟩ := exists_of_mem_consecutive hmem
  rw [List.length_take, Frame.length_toBytes, room, MemoryMap.toNat_kernelOrigin] at hi
  have hcell := Address.toNat_add_ofNat (a := m.registers.sp) (i := i) (by unfold memorySize; omega)
  omega

end Masking

variable {σ : Type} [ByteSource σ]

/-- The handler is a single return, in a cell that the step leaves as it is: nothing is stored there,
and the frame is saved elsewhere. -/
structure ReturnsAtOnce (m own : Machine σ) (id : Byte) : Prop where
  handled : own.HasHandler id
  isReturn : m.memory.read (own.vector id) = Opcode.crn.toByte
  notStored : own.vector id ∉ m.storedBy .step
  notFramed : (own.vector id).toNat < m.registers.sp.toNat ∨
    m.registers.sp.toNat + Frame.size ≤ (own.vector id).toNat

/-! ## The step alone -/

theorem load_masked (m : Machine σ) (name : String) :
    m.masked.load name = ((m.load name).1, (m.load name).2.masked) := by
  rw [masked, setMode, load_setRegisters, masked, setMode, registers_load]

theorem Raises.masked {m own : Machine σ} {id : Byte} (h : Raises m .step id own) :
    Raises m.masked .step id own.masked := by
  cases h with
  | int hnext => exact .int hnext
  | sum hnext hsum hn => exact .sum hnext hsum hn
  | push hnext hpushed hfull => exact .push hnext hpushed hfull
  | @disk name fault hnext hfault =>
    have hload : (m.masked.advance 3).loadAt name =
        (((m.advance 3).loadAt name).1, ((m.advance 3).loadAt name).2.masked) :=
      load_masked (m.advance 3) _
    have hdisk := Raises.disk (m := m.masked) hnext (by rw [hload]; exact hfault)
    rw [hload] at hdisk
    exact hdisk

/-- What a step that raises an interrupt executes, and where that leaves the program counter. -/
theorem exists_nextInstruction_of_raises {m own : Machine σ} {id : Byte}
    (h : Raises m .step id own) :
    ∃ i, m.nextInstruction? = some i ∧ own.registers.pc = m.registers.pc + i.size := by
  cases h with
  | int hnext => exact ⟨_, hnext, rfl⟩
  | sum hnext hsum hn => exact ⟨_, hnext, rfl⟩
  | push hnext hpushed hfull => exact ⟨_, hnext, rfl⟩
  | disk hnext hfault =>
    refine ⟨_, hnext, ?_⟩
    simp only [setFlag, setFlags, loadAt, registers_load]
    rfl

theorem read_of_raises {m own : Machine σ} {id : Byte} {a : Address} (h : Raises m .step id own)
    (ha : a ∉ m.storedBy .step) : own.memory.read a = m.memory.read a := by
  cases h with
  | @disk name fault hnext hfault =>
    simp only [storedBy, hnext, Option.elim_some] at ha
    simp only [setFlag, setFlags, loadAt, memory_load]
    exact Memory.read_writeAll_of_notMem _ ha
  | int | sum | push => rfl

theorem step_of_running {m : Machine σ} {i : Instruction} (h : m.nextInstruction? = some i)
    (hrunning : m.step.2.isHalted = false) : m.step = (.ok (), m.step.2) := by
  rw [step_of_nextInstruction? h] at hrunning ⊢
  dsimp only at hrunning ⊢
  rw [hrunning]
  rfl

/-- With interrupts disabled the step has its own effect only. -/
theorem step_masked_of_raises {m own : Machine σ} {id : Byte} (h : Raises m .step id own)
    (hm : m.savingFrame = false) : m.masked.step = (.ok (), own.masked) := by
  obtain ⟨i, hnext, -⟩ := exists_nextInstruction_of_raises h
  have hstep : m.masked.step.2 = own.masked := by
    have hafter := after_of_raises h.masked (show m.masked.savingFrame = false from hm)
    rw [dispatch_of_not_hasHandler (not_hasHandler_masked own id)] at hafter
    exact hafter
  have hrunning : m.masked.step.2.isHalted = false := by
    rw [hstep]
    show own.registers.mode.halted = false
    rw [(mode_sp_of_raises h).1]
    exact isHalted_of_nextInstruction? hnext
  rw [step_of_running (m := m.masked) hnext hrunning, hstep]

/-! ## The step and the return -/

/-- A return to the frame that `s` saved: all is restored, the program counter as far as an address
holds it. -/
theorem step_crn_of_slice {t s : Machine σ}
    (hbase : MemoryMap.stackBase.toNat ≤ s.registers.sp.toNat)
    (hsp : t.registers.sp.toNat = s.registers.sp.toNat + Frame.size)
    (hframe : t.memory.slice ⟨s.registers.sp.toNat, s.registers.sp.toNat + Frame.size⟩ =
      s.frame.toBytes)
    (hnext : t.nextInstruction? = some .crn) :
    t.step = (.ok (), { t with registers := { t.registers with
      general := s.registers.general
      acc := s.registers.acc
      sp := s.registers.sp
      pc := s.registers.pc % memorySize } }) := by
  have hret := ret_of_slice (m := t.advance (Instruction.size .crn)) hbase hsp hframe
  have hrunning := isHalted_of_nextInstruction? hnext
  rw [step_of_nextInstruction? hnext, execute, hret]
  simp only [isHalted, restore, setPointer, advance, toNat_returnAddress] at hrunning ⊢
  simp only [hrunning, Bool.false_eq_true, if_false]
  rfl

/-- The step enters the handler, and the handler's return takes the machine back to where the step
left it, but for the cells of the frame and what an address cannot hold of the program counter. -/
theorem resumes {m own : Machine σ} {id : Byte} (hm : m.Bounded)
    (hroom : m.registers.sp.toNat + 20 ≤ MemoryMap.kernelOrigin.toNat)
    (hraises : Raises m .step id own) (hhandler : ReturnsAtOnce m own id) :
    m.step = (.ok (), own.call (own.vector id)) ∧
    m.step.2.step = (.ok (), { own.call (own.vector id) with
      registers := { own.registers with pc := own.registers.pc % memorySize } }) := by
  obtain ⟨i, hnext, -⟩ := exists_nextInstruction_of_raises hraises
  obtain ⟨hmode, hsp⟩ := mode_sp_of_raises hraises
  have hcall : m.step.2 = own.call (own.vector id) := by
    have hafter := after_of_raises hraises hm.notSaving
    rw [dispatch_of_hasHandler hhandler.handled] at hafter
    exact hafter
  have hrunning : (own.call (own.vector id)).isHalted = false := by
    rw [isHalted, call_eq]
    show own.registers.mode.halted = false
    rw [hmode]
    exact isHalted_of_nextInstruction? hnext
  have hcrn : (own.call (own.vector id)).nextInstruction? = some .crn := by
    have hpc : (own.call (own.vector id)).registers.pc = (own.vector id).toNat := by
      rw [call_eq]
    have hfetch : (own.call (own.vector id)).memory.fetch (own.vector id).toNat =
        Opcode.crn.toByte := by
      rw [Memory.fetch_toNat, read_call_of_outside _ (by rw [hsp]; exact hhandler.notFramed),
        read_of_raises hraises hhandler.notStored, hhandler.isReturn]
    exact nextInstruction?_of_fetch .crn hrunning hpc (own.vector id).toNat_lt_memorySize hfetch
  have hbase : MemoryMap.stackBase.toNat ≤ own.registers.sp.toNat := by
    rw [hsp]
    exact hm.base_le
  have hfits : Frame.size ≤ own.room := by
    rw [room, hsp, Frame.size_eq]
    omega
  have htop : (own.call (own.vector id)).registers.sp.toNat =
      own.registers.sp.toNat + Frame.size := by
    rw [toNat_sp_call, Nat.min_eq_right hfits]
  have hregisters : (own.call (own.vector id)).registers = { own.registers with
      pc := (own.vector id).toNat
      sp := (own.call (own.vector id)).registers.sp } := by
    rw [call_eq]
    simp only [Nat.not_lt.mpr hfits, if_false]
  refine ⟨?_, ?_⟩
  · rw [step_of_running hnext (by rw [hcall]; exact hrunning), hcall]
  · rw [hcall, step_crn_of_slice hbase htop (slice_call hfits _) hcrn, hregisters]

/-! ## Top theorem -/

/-- A step that raises an interrupt, and the return of its handler, leave the registers as the step
alone does with interrupts disabled, with the program counter reduced modulo the size of memory. So
the two agree if and only if the instruction ends before the last cell of memory. If it does not, the
undisturbed machine is out of bounds, and the other one goes on at the start of memory. -/
theorem Reachable.resumes_modulo {m own : Machine σ} {id : Byte} (hm : Reachable m)
    (hroom : m.registers.sp ≤ MemoryMap.kernelOrigin - 20) (hraises : Raises m .step id own)
    (hhandler : ReturnsAtOnce m own id) :
    ∃ (i : Instruction) (undisturbed resumed : Machine σ),
      m.nextInstruction? = some i ∧
      m.masked.step = (.ok (), undisturbed) ∧
      m.step.1 = .ok () ∧ m.step.2.step = (.ok (), resumed) ∧
      undisturbed.registers.pc = m.registers.pc + i.size ∧
      resumed.registers = { undisturbed.registers with
        pc := undisturbed.registers.pc % memorySize
        mode := m.registers.mode } ∧
      (resumed.registers.pc = undisturbed.registers.pc ↔ m.registers.pc + i.size - 1 < 0xFFFF) ∧
      (0xFFFF ≤ m.registers.pc + i.size - 1 →
        undisturbed.step.1 = .error (.outOfBounds (m.registers.pc + i.size)) ∧
        resumed.registers.pc < 5 ∧ ∀ pc, resumed.step.1 ≠ .error (.outOfBounds pc)) := by
  replace hroom : m.registers.sp.toNat ≤ 492 := hroom
  have hbounded := hm.bounded
  obtain ⟨i, hnext, hpc⟩ := exists_nextInstruction_of_raises hraises
  obtain ⟨hfirst, hsecond⟩ := resumes hbounded (by rw [MemoryMap.toNat_kernelOrigin]; omega)
    hraises hhandler
  have hlt := pc_lt_of_nextInstruction? hnext
  have hpos := i.size_pos
  have hle := i.size_le
  have hmode := (mode_sp_of_raises hraises).1
  refine ⟨i, own.masked, _, hnext, step_masked_of_raises hraises hbounded.notSaving, ?_, hsecond,
    hpc, ?_, ?_, ?_⟩
  · rw [hfirst]
  · rw [← hmode]
    rfl
  · show own.registers.pc % memorySize = own.registers.pc ↔ _
    unfold memorySize
    omega
  · intro hlast
    have hresumed : own.registers.pc % memorySize < 5 := by
      unfold memorySize at hlt ⊢
      omega
    refine ⟨?_, hresumed, ?_⟩
    · have hrunning : own.masked.isHalted = false := by
        show own.registers.mode.halted = false
        rw [hmode]
        exact isHalted_of_nextInstruction? hnext
      have hout : memorySize ≤ own.masked.registers.pc := by
        show 65536 ≤ own.registers.pc
        omega
      rw [step_of_memorySize_le hrunning hout]
      exact congrArg (Except.error ∘ Stop.outOfBounds) hpc
    · exact step_ne_outOfBounds (Nat.mod_lt own.registers.pc (by decide))

/-- A program that enables interrupts and jumps to a subtraction in the last two cells of memory, with
a handler for its result at 0300. -/
def offTheEnd : Rom where
  data := some [.number 0x0002 0x03, .number 0x0300 Opcode.crn.toByte,
    .number 0xFFFE Opcode.subi.toByte, .number 0xFFFF 1]
  start := MemoryMap.kernelOrigin
  code := [Opcode.ein.toByte, Opcode.jmp.toByte, 0xFF, 0xFE]

theorem exists_offTheEnd :
    ∃ m own : Machine Shelf, Reachable m ∧ m.registers.sp = MemoryMap.stackBase ∧
      m.registers.pc = 0xFFFE ∧ m.nextInstruction? = some (.subi 1) ∧ Raises m .step 1 own ∧
      ReturnsAtOnce m own 1 := by
  obtain ⟨c, hc, hregisters, hread⟩ := exists_enabled (show offTheEnd.NulFree by
    simp [Rom.NulFree, offTheEnd, Rom.Entry.NulFree]) rfl
  have hfetch : ∀ a : Address, c.memory.fetch a.toNat =
      (offTheEnd.writes.reverse.lookup a).getD 0 := fun a =>
    (Memory.fetch_toNat c.memory a).trans (hread a)
  have hjmp : c.nextInstruction? = some (.jmp 0xFFFE) := by
    have hpc : c.registers.pc = 0x0201 := by rw [hregisters]
    have htarget : Address.ofBytes (c.memory.fetch 0x0202) (c.memory.fetch 0x0203) = 0xFFFE := by
      rw [show c.memory.fetch 0x0202 = 0xFF from hfetch 0x0202,
        show c.memory.fetch 0x0203 = 0xFE from hfetch 0x0203]
      rfl
    rw [nextInstruction?_of_fetch .jmp (by rw [isHalted, hregisters]) hpc (by decide)
      (hfetch 0x0201)]
    exact congrArg (some ∘ Instruction.jmp) htarget
  obtain ⟨m, hm⟩ : ∃ m : Machine Shelf, m = c.step.2 := ⟨_, rfl⟩
  have hmregisters : m.registers = { pc := 0xFFFE, mode := { interruptible := true } } := by
    rw [hm, step_snd hjmp]
    simp only [execute, jump, advance, hregisters]
    rfl
  have hmmemory : m.memory = c.memory := by
    rw [hm, step_snd hjmp]
    rfl
  have hsubi : m.nextInstruction? = some (.subi 1) := by
    have hpc : m.registers.pc = 0xFFFE := by rw [hmregisters]
    have hop : m.memory.fetch 0xFFFE = Opcode.subi.toByte := by
      rw [hmmemory]
      exact hfetch 0xFFFE
    rw [nextInstruction?_of_fetch .subi (by rw [isHalted, hmregisters]) hpc (by decide) hop, hmmemory]
    exact congrArg (some ∘ Instruction.subi) (hfetch 0xFFFF)
  have hsum : m.sum? (.subi 1) = some (-1) := by
    rw [sum?, hmregisters]
    rfl
  have hvector : (((m.advance 2).setAcc 0).setFlag .accOverflow).vector 1 = 0x0300 := by
    show Address.ofBytes (m.memory.read 0x0002) (m.memory.read 0x0003) = 0x0300
    rw [hmmemory, hread, hread]
    rfl
  have hmode : m.registers.mode.interruptible = true := by rw [hmregisters]
  refine ⟨m, ((m.advance 2).setAcc 0).setFlag .accOverflow, ?_, by rw [hmregisters],
    by rw [hmregisters], hsubi, .sum hsubi hsum (by decide), ?_⟩
  · rw [hm]
    exact .event .step hc
  · refine ⟨⟨hmode, by decide, by rw [hvector]; decide⟩, ?_, ?_, ?_⟩
    · rw [hvector, hmmemory, hread]
      rfl
    · simp only [storedBy, hsubi, Option.elim_some, stores]
      exact List.not_mem_nil
    · rw [hvector, hmregisters]
      decide

/-- The subtraction ends at the last cell, and the handler's return goes on at the first. -/
theorem resumes_modulo_of_offTheEnd :
    ∃ m : Machine Shelf, Reachable m ∧ m.step.2.step.2.registers.pc = 0 ∧
      m.masked.step.2.registers.pc = 0x10000 := by
  obtain ⟨m, own, hm, hsp, hpc, hsubi, hraises, hhandler⟩ := exists_offTheEnd
  obtain ⟨i, undisturbed, resumed, hi, hmasked, -, hsecond, hnext, hregisters, -, -⟩ :=
    hm.resumes_modulo (by rw [hsp]; decide) hraises hhandler
  obtain rfl : i = .subi 1 := by
    rw [hsubi] at hi
    cases hi
    rfl
  have hsize : m.registers.pc + Instruction.size (.subi 1) = 0x10000 := by
    rw [hpc]
    rfl
  refine ⟨m, hm, ?_, ?_⟩
  · rw [hsecond, hregisters, hnext, hsize]
    rfl
  · rw [hmasked, hnext, hsize]

/-- An interrupt can hide that a program ran off the end of memory: a machine that would be out of
bounds next goes on at the start of memory once the handler has returned. -/
theorem exists_hidden_outOfBounds :
    ∃ m own : Machine Shelf, Reachable m ∧ m.registers.sp ≤ MemoryMap.kernelOrigin - 20 ∧
      Raises m .step 1 own ∧ ReturnsAtOnce m own 1 ∧
      m.masked.step.2.step.1 = .error (.outOfBounds 0x10000) ∧
      m.step.2.step.2.registers.pc = 0 ∧
      ∀ pc, m.step.2.step.2.step.1 ≠ .error (.outOfBounds pc) := by
  obtain ⟨m, own, hm, hsp, hpc, hsubi, hraises, hhandler⟩ := exists_offTheEnd
  have hroom : m.registers.sp.toNat + 20 ≤ MemoryMap.kernelOrigin.toNat := by
    rw [hsp]
    decide
  obtain ⟨i, hi, hnext⟩ := exists_nextInstruction_of_raises hraises
  obtain rfl : i = .subi 1 := by
    rw [hsubi] at hi
    cases hi
    rfl
  replace hnext : own.registers.pc = 0x10000 := by
    rw [hnext, hpc]
    rfl
  obtain ⟨-, hsecond⟩ := resumes hm.bounded hroom hraises hhandler
  have hreturn : m.step.2.step.2.registers.pc = 0 := by
    rw [hsecond]
    show own.registers.pc % memorySize = 0
    rw [hnext]
    rfl
  refine ⟨m, own, hm, by rw [hsp]; decide, hraises, hhandler, ?_, hreturn, ?_⟩
  · have hrunning : own.masked.isHalted = false := by
      show own.registers.mode.halted = false
      rw [(mode_sp_of_raises hraises).1]
      exact isHalted_of_nextInstruction? hsubi
    have hout : memorySize ≤ own.masked.registers.pc := Nat.le_of_eq hnext.symm
    rw [step_masked_of_raises hraises hm.bounded.notSaving, step_of_memorySize_le hrunning hout]
    exact congrArg (Except.error ∘ Stop.outOfBounds) hnext
  · exact step_ne_outOfBounds (by rw [hreturn]; decide)

end Machine

end Tis80
