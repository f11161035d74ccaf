import Tis80.Panel
import Tis80.Proofs.RomImage

/-!
# Bounds on the registers

Whatever happens to a machine, its stack pointer stays in the stack, its program counter at most four
cells past the end of memory, and no frame is left half saved. The bound on the program counter is
kept because a step starts inside memory, and takes five bytes at most.

    Reachable m → m.Bounded                                              (Reachable.bounded)

So no counter ever wraps around: what the registers hold is what was counted.
-/

namespace Tis80

theorem Flags.toByte_le (fs : Flags) : fs.toByte ≤ 7 := by
  obtain ⟨a, b, c⟩ := fs
  revert a b c
  decide

theorem Mode.toByte_le (mode : Mode) : mode.toByte ≤ 7 := by
  obtain ⟨a, b, c⟩ := mode
  revert a b c
  decide

theorem Instruction.size_le (i : Instruction) : i.size ≤ 5 := by
  cases i <;> simp [size, encode, operands, Operand.bytes]

theorem Instruction.size_pos (i : Instruction) : 0 < i.size := Nat.succ_pos _

namespace Machine

/-- What holds of a machine between two events. -/
structure Bounded {σ : Type} (m : Machine σ) : Prop where
  base_le : MemoryMap.stackBase.toNat ≤ m.registers.sp.toNat
  sp_lt : m.registers.sp.toNat < MemoryMap.kernelOrigin.toNat
  pc_le : m.registers.pc ≤ memorySize + 4
  notSaving : m.savingFrame = false

namespace Bounded

section Stack

variable {σ : Type} {m n : Machine σ}

theorem congr (h : m.Bounded) (hsp : n.registers.sp = m.registers.sp)
    (hpc : n.registers.pc = m.registers.pc) (hsaving : n.savingFrame = m.savingFrame) :
    n.Bounded :=
  ⟨hsp ▸ h.base_le, hsp ▸ h.sp_lt, hpc ▸ h.pc_le, hsaving ▸ h.notSaving⟩

theorem jump (h : m.Bounded) (target : Address) : (m.jump target).Bounded := by
  have hlt := target.toNat_lt_memorySize
  refine ⟨h.base_le, h.sp_lt, ?_, h.notSaving⟩
  show target.toNat ≤ memorySize + 4
  omega

theorem setPointer (h : m.Bounded) {sp : Address} (hbase : MemoryMap.stackBase.toNat ≤ sp.toNat)
    (hsp : sp.toNat < MemoryMap.kernelOrigin.toNat) : (m.setPointer sp).Bounded :=
  ⟨hbase, hsp, h.pc_le, h.notSaving⟩

theorem call (h : m.Bounded) (target : Address) : (m.call target).Bounded := by
  have hbase := h.base_le
  have hlt := h.sp_lt
  have hsp := toNat_sp_call m target
  have htarget := target.toNat_lt_memorySize
  have hroom : m.room = MemoryMap.kernelOrigin.toNat - 1 - m.registers.sp.toNat := rfl
  refine ⟨by omega, by omega, ?_, ?_⟩
  · rw [call_eq]
    show target.toNat ≤ memorySize + 4
    omega
  · rw [call_eq]
    exact h.notSaving

theorem dispatch (h : m.Bounded) (id : Byte) : (m.dispatch id).Bounded :=
  dispatch_of_call id h h.call

theorem push (h : m.Bounded) (v : Byte) : (m.push v).Bounded := by
  have hflag : (m.setFlag .stackOverflow).Bounded := h.congr rfl rfl rfl
  apply push_of_call v _ hflag hflag.call
  intro hroom
  have hbase := h.base_le
  have hnext := toNat_sp_place hroom v
  simp only [room] at hroom
  exact ⟨by omega, by omega, h.pc_le, h.notSaving⟩

theorem pop (h : m.Bounded) : m.pop.2.Bounded := by
  have hlt := h.sp_lt
  rcases Nat.lt_or_eq_of_le h.base_le with hbase | hbase
  · have hsub := Address.toNat_sub_one (a := m.registers.sp) (by omega)
    rw [pop_of_lt hbase]
    exact h.setPointer (by omega) (by omega)
  · rw [pop_of_le (Nat.le_of_eq hbase.symm)]
    exact h

theorem ret (h : m.Bounded) : m.ret.Bounded := by
  have hlt := h.sp_lt
  obtain ⟨sp, he, hbase, hsp⟩ := popBytes_snd Frame.size h.base_le
  have haddress := (Frame.ofBytes (m.popBytes Frame.size).1).returnAddress.toNat_lt_memorySize
  have hpopped := h.setPointer hbase (Nat.lt_of_le_of_lt hsp hlt)
  rw [Machine.ret, he]
  refine ⟨hpopped.base_le, hpopped.sp_lt, ?_, hpopped.notSaving⟩
  simp only [restore]
  omega

theorem accumulate (h : m.Bounded) (result : Option Byte) : (m.accumulate result).Bounded := by
  have hflag : ((m.setAcc 0).setFlag .accOverflow).Bounded := h.congr rfl rfl rfl
  exact accumulate_of_call result (fun _ => h.congr rfl rfl rfl) hflag hflag.call

theorem jumpIf (h : m.Bounded) (taken : Bool) (target : Address) :
    (m.jumpIf taken target).Bounded :=
  jumpIf_of_jump taken h (h.jump target)

/-- Fetching from inside memory ends at most four cells past its end. -/
theorem advance (h : m.Bounded) {n : Nat} (hpc : m.registers.pc < memorySize) (hn : n ≤ 5) :
    (m.advance n).Bounded := by
  refine ⟨h.base_le, h.sp_lt, ?_, h.notSaving⟩
  show m.registers.pc + n ≤ memorySize + 4
  omega

end Stack

variable {σ : Type} [ByteSource σ] {m : Machine σ}

theorem load (h : m.Bounded) (name : String) : (m.load name).2.Bounded := by
  apply h.congr
  · rw [registers_load]
  · rw [registers_load]
  · rw [savingFrame_load]

theorem loadNamed (h : m.Bounded) (name : Address) : (m.loadNamed name).Bounded := by
  have hload := h.load (lossyText (m.memory.stringAt name))
  have hflag := hload.congr (n := Machine.setFlag _ .ioError) rfl rfl rfl
  exact loadNamed_of_call name rfl hload hflag hflag.call

theorem execute (h : m.Bounded) (i : Instruction) : (m.execute i).Bounded := by
  cases i with
  | add r | addi v | sub r | subi v => exact h.accumulate _
  | jmp target => exact h.jump target
  | jeq | jne | jgt | jfg => exact h.jumpIf _ _
  | jlt => exact h
  | dsk name => exact h.loadNamed name
  | int id => exact h.dispatch id
  | cll target => exact h.call target
  | crn => exact h.ret
  | cfg code =>
    rw [Machine.execute]
    split
    · exact h.congr rfl rfl rfl
    · exact h
  | psa | psr => exact h.push _
  | poa | por => exact h.pop.congr rfl rfl rfl
  | sil | sir | and | or | not | xor | ldr | str | mov | movi | tar | tra | inr | inw | movm | hlt
  | pmd | ein | din => exact h.congr rfl rfl rfl

theorem step (h : m.Bounded) : m.step.2.Bounded := by
  rcases step_cases m with ⟨i, hi, he⟩ | ⟨-, he⟩ | ⟨-, hpc, he⟩
  · rw [he]
    exact (h.advance (pc_lt_of_nextInstruction? hi) i.size_le).execute i
  · rw [he]
    exact h
  · rw [he]
    exact h.advance hpc (by omega)

theorem after (h : m.Bounded) (e : Event σ) : (m.after e).Bounded := by
  cases e with
  | step => exact h.step
  | load name => exact h.load name
  | dispatch id => exact h.dispatch id
  | interrupt i => exact h.dispatch i.id
  | keyDown key =>
    have hpressed : (m.write (UInt16.ofNat MemoryMap.keyboardBuffer.start) key).Bounded :=
      h.congr rfl rfl rfl
    exact hpressed.dispatch Interrupt.keyboard.id
  | swap drive => exact h.congr rfl rfl rfl

theorem fresh {σ : Type} (drive : σ) : Bounded { drive := drive } where
  base_le := Nat.le_refl _
  sp_lt := show MemoryMap.stackBase.toNat < MemoryMap.kernelOrigin.toNat by decide
  pc_le := show MemoryMap.kernelOrigin.toNat ≤ memorySize + 4 by decide
  notSaving := rfl

theorem boot {drive : σ} {kernel : String} (hm : Machine.boot drive kernel = .ok m) :
    m.Bounded := by
  have hload := (fresh drive).load kernel
  unfold Machine.boot at hm
  split at hm
  · cases hm
  · next he =>
    rw [he] at hload
    cases hm
    exact hload.jump _

end Bounded

variable {σ : Type} [ByteSource σ] {m : Machine σ}

theorem Reachable.bounded (h : Reachable m) : m.Bounded := by
  induction h with
  | fresh drive => exact .fresh drive
  | booted hm => exact .boot hm
  | event e _ ih => exact ih.after e
  | runFor n _ ih => exact runFor_of_step (fun _ hm => hm.step) n ih

theorem toNat_sp_pop {σ : Type} {m : Machine σ} (h : MemoryMap.stackBase < m.registers.sp) :
    m.pop.2.registers.sp.toNat + 1 = m.registers.sp.toNat := by
  have hlt : MemoryMap.stackBase.toNat < m.registers.sp.toNat := h
  have hsub := Address.toNat_sub_one (a := m.registers.sp) (by omega)
  rw [pop_of_lt hlt]
  show (m.registers.sp - 1).toNat + 1 = _
  omega

/-! ## Top theorem -/

/-- A reachable machine is within its bounds. So no instruction takes the program counter to where 32
bits do not hold it, whether on its way through memory or to a front end; and in no state does a push,
a pop or a return address wrap around. -/
theorem Reachable.within_bounds (h : Reachable m) :
    (MemoryMap.stackBase ≤ m.registers.sp ∧ m.registers.sp ≤ MemoryMap.kernelOrigin - 1 ∧
      m.registers.pc ≤ memorySize + 4 ∧ m.savingFrame = false ∧
      m.registers.flags.toByte ≤ 7 ∧ m.registers.mode.toByte ≤ 7) ∧
    (∀ i : Instruction, m.registers.pc + i.size < UInt32.size) ∧
    (∀ (n : Machine σ) (v : Byte), n.stackFull = false →
      (n.place v).registers.sp.toNat = n.registers.sp.toNat + 1) ∧
    (∀ n : Machine σ, MemoryMap.stackBase < n.registers.sp →
      n.pop.2.registers.sp.toNat + 1 = n.registers.sp.toNat) ∧
    (∀ n : Machine σ, n.frame.returnAddress.toNat = n.registers.pc % memorySize) ∧
    (∀ p : Panel, Reachable p.machine → p.programCounter = p.machine.registers.pc) := by
  have hm := h.bounded
  have hsp := hm.sp_lt
  have hpc := hm.pc_le
  refine ⟨⟨hm.base_le, ?_, hpc, hm.notSaving, Flags.toByte_le _, Mode.toByte_le _⟩, ?_,
    fun n v hn => toNat_sp_place ((room_ne_zero_iff n).mpr hn) v, fun n hn => toNat_sp_pop hn,
    toNat_returnAddress, ?_⟩
  · show m.registers.sp.toNat ≤ 511
    exact Nat.le_of_lt_succ hsp
  · intro i
    have hsize := i.size_le
    simp only [memorySize, UInt32.size] at hpc ⊢
    omega
  · intro p hp
    have hle := hp.bounded.pc_le
    simp only [memorySize] at hle
    simp only [Panel.programCounter]
    omega

/-- A program that calls itself, over and over. -/
def recursing : Rom where
  start := MemoryMap.kernelOrigin
  code := [Opcode.cll.toByte, 0x02, 0x00]

/-- The machine is about to call the program that it is in. -/
structure Recurses (m : Machine Shelf) : Prop where
  reachable : Reachable m
  running : m.isHalted = false
  pc_eq : m.registers.pc = 0x0200
  code : ∀ a : Address, 0x0200 ≤ a.toNat →
    m.memory.read a = (recursing.writes.reverse.lookup a).getD 0

theorem Recurses.nextInstruction? {m : Machine Shelf} (h : m.Recurses) :
    m.nextInstruction? = some (.cll 0x0200) := by
  have hfetch : ∀ a : Address, 0x0200 ≤ a.toNat →
      m.memory.fetch a.toNat = (recursing.writes.reverse.lookup a).getD 0 :=
    fun a ha => (Memory.fetch_toNat m.memory a).trans (h.code a ha)
  have hhigh : m.memory.fetch 0x0201 = 0x02 := hfetch 0x0201 (by decide)
  have hlow : m.memory.fetch 0x0202 = 0x00 := hfetch 0x0202 (by decide)
  rw [nextInstruction?_of_fetch .cll h.running h.pc_eq (by decide) (hfetch 0x0200 (by decide))]
  simp only [Opcode.instruction, Nat.reduceAdd, hhigh, hlow]
  rfl

/-- Each call puts a frame on the stack, or what there is room for. -/
theorem Recurses.step {m : Machine Shelf} (h : m.Recurses) :
    m.step.2.Recurses ∧
      m.step.2.registers.sp.toNat = m.registers.sp.toNat + min m.room Frame.size := by
  have hstep : m.step.2 = (m.advance 3).call 0x0200 := step_snd h.nextInstruction?
  refine ⟨⟨.event .step h.reachable, ?_, ?_, ?_⟩, ?_⟩
  · rw [hstep, call_eq]
    exact h.running
  · rw [hstep, call_eq]
    rfl
  · intro a ha
    rw [hstep, read_call (.inr (Nat.le_succ_of_le ha))]
    exact h.code a ha
  · rw [hstep, toNat_sp_call]
    rfl

theorem exists_recurses (k : Nat) :
    ∃ m : Machine Shelf, m.Recurses ∧ m.registers.sp.toNat = min (260 + 19 * k) 511 := by
  induction k with
  | zero =>
    obtain ⟨m, hm, hregisters, hread⟩ := exists_loaded (show recursing.NulFree by
      simp [Rom.NulFree, recursing])
    refine ⟨m, ⟨hm, ?_, ?_, fun a _ => hread a⟩, ?_⟩
    · rw [isHalted, hregisters]
    · rw [hregisters]
      rfl
    · rw [hregisters]
      rfl
  | succ k ih =>
    obtain ⟨m, hm, hsp⟩ := ih
    obtain ⟨hnext, hcalled⟩ := hm.step
    refine ⟨m.step.2, hnext, ?_⟩
    rw [hcalled, room, MemoryMap.toNat_kernelOrigin, Frame.size_eq]
    omega

/-- After fourteen calls the stack is full, to the cell: the last frame was cut off. The next call finds
no room and still leaves the machine within its bounds. -/
theorem within_bounds_of_recursing :
    ∃ m : Machine Shelf, Reachable m ∧ m.nextInstruction? = some (.cll 0x0200) ∧
      m.registers.sp = MemoryMap.kernelOrigin - 1 ∧
      m.step.2.registers.sp ≤ MemoryMap.kernelOrigin - 1 ∧ m.step.2.savingFrame = false := by
  obtain ⟨m, hm, hsp⟩ := exists_recurses 14
  obtain ⟨⟨-, hle, -, hsaving, -⟩, -⟩ := Reachable.within_bounds (.event .step hm.reachable)
  exact ⟨m, hm.reachable, hm.nextInstruction?, UInt16.toNat_inj.mp hsp, hle, hsaving⟩

end Machine

end Tis80
