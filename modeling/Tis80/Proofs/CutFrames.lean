import Tis80.Proofs.BoundedStack
import Tis80.Proofs.Resumption

/-!
# Frames that are cut

A call saves as much of its frame as the stack has room for: the first bytes, in order, in the cells
from the stack pointer on. The rest is dropped and flagged, and no handler is told.

    the cells of m.call target = those of m with the first `saved` bytes of the frame  (read_call_eq)

The interrupt for a stack overflow finds the stack full, so nothing at all of its frame is saved. Its
handler cannot return. A return takes the 19 bytes that the program pushed last for a frame:

    a full stack → m.call target = (m.setFlag .stackOverflow).jump target              (call_of_full)
    m.ret = m with what the 19 bytes below the stack pointer spell                     (ret_of_le)
-/

namespace Tis80

namespace Memory

/-- Bytes written in front of the end of memory, cell by cell. -/
theorem read_writeAll_consecutive_eq (m : Memory) {a : Address} {bytes : List Byte}
    (hfit : a.toNat + bytes.length ≤ memorySize) (c : Address) :
    (m.writeAll (consecutive a bytes)).read c =
      if a.toNat ≤ c.toNat ∧ c.toNat < a.toNat + bytes.length then bytes.getD (c.toNat - a.toNat) 0
      else m.read c := by
  split
  · next hin =>
    obtain ⟨i, hi⟩ := Nat.exists_eq_add_of_le hin.1
    have hlt : i < bytes.length := by omega
    have hc : c = a + UInt16.ofNat i := by
      apply UInt16.toNat_inj.mp
      rw [Address.toNat_add_ofNat (by omega), hi]
    have hoffset : c.toNat - a.toNat = i := by omega
    rw [hoffset, hc, read_writeAll_consecutive m a bytes hfit hlt, List.getD_eq_getElem?_getD,
      List.getElem?_eq_getElem hlt, Option.getD_some]
  · next hout =>
    apply read_writeAll_of_notMem
    intro hmem
    obtain ⟨i, hi, rfl⟩ := exists_of_mem_consecutive hmem
    rw [Address.toNat_add_ofNat (by omega)] at hout
    omega

end Memory

/-- The bytes of a frame spell its parts and no others. -/
theorem Frame.ofBytes_eq_iff {bytes : List Byte} (h : bytes.length = size) (f : Frame) :
    ofBytes bytes = f ↔ bytes = f.toBytes := by
  constructor
  · rintro rfl
    rw [toBytes_ofBytes h]
  · rintro rfl
    exact ofBytes_toBytes f

namespace Machine

section Saving

variable {σ : Type}

/-- How many bytes of a frame a call saves now. -/
def saved (m : Machine σ) : Nat :=
  min 19 (MemoryMap.kernelOrigin.toNat - 1 - m.registers.sp.toNat)

/-! ## What a call saves -/

theorem saved_eq (m : Machine σ) : m.saved = min m.room Frame.size := Nat.min_comm _ _

theorem saved_le (m : Machine σ) : m.registers.sp.toNat + m.saved ≤ memorySize := by
  have hsp := m.registers.sp.toNat_lt_memorySize
  unfold saved
  rw [MemoryMap.toNat_kernelOrigin]
  unfold memorySize at hsp ⊢
  omega

theorem toBytes_frame (m : Machine σ) :
    m.frame.toBytes =
      Address.high (UInt16.ofNat (m.registers.pc % memorySize)) ::
      Address.low (UInt16.ofNat (m.registers.pc % memorySize)) ::
      m.registers.acc :: m.registers.general.toList := by
  have haddress : UInt16.ofNat (m.registers.pc % memorySize) = UInt16.ofNat m.registers.pc := by
    apply UInt16.toNat_inj.mp
    rw [UInt16.toNat_ofNat', UInt16.toNat_ofNat']
    exact Nat.mod_mod _ _
  rw [haddress]
  rfl

theorem take_room_frame (m : Machine σ) :
    m.frame.toBytes.take m.room = m.frame.toBytes.take m.saved := by
  rw [saved_eq, ← Frame.length_toBytes m.frame, List.take_eq_take_iff, Nat.min_assoc, Nat.min_self]

theorem length_take_saved (m : Machine σ) : (m.frame.toBytes.take m.saved).length = m.saved := by
  rw [List.length_take, Frame.length_toBytes, saved_eq]
  omega

theorem memory_call (m : Machine σ) (target : Address) :
    (m.call target).memory =
      m.memory.writeAll (consecutive m.registers.sp (m.frame.toBytes.take m.saved)) := by
  rw [call_eq, ← take_room_frame]

theorem registers_call (m : Machine σ) (target : Address) :
    (m.call target).registers = { m.registers with
      pc := target.toNat
      sp := UInt16.ofNat (m.registers.sp.toNat + m.saved)
      flags := if m.saved < 19 then m.registers.flags.raise .stackOverflow
        else m.registers.flags } := by
  have hsize := Frame.size_eq
  have hcut : m.room < Frame.size ↔ m.saved < 19 := by
    rw [saved_eq]
    omega
  rw [call_eq, ← saved_eq]
  simp only [hcut, UInt16.ofNat_add, UInt16.ofNat_toNat]

/-- After a call every cell holds its byte of the frame, as far as the frame was saved, or what it
held before. -/
theorem read_call_eq (m : Machine σ) (target c : Address) :
    (m.call target).memory.read c =
      if m.registers.sp.toNat ≤ c.toNat ∧ c.toNat < m.registers.sp.toNat + m.saved then
        m.frame.toBytes.getD (c.toNat - m.registers.sp.toNat) 0
      else m.memory.read c := by
  have hlength := length_take_saved m
  have hfit := saved_le m
  rw [memory_call, Memory.read_writeAll_consecutive_eq _ (by rw [hlength]; exact hfit), hlength]
  split
  · next hin =>
    have hlt : c.toNat - m.registers.sp.toNat < m.saved := by omega
    rw [List.getD_eq_getElem?_getD, List.getD_eq_getElem?_getD, List.getElem?_take_of_lt hlt]
  · rfl

theorem slice_call_eq (m : Machine σ) (target : Address) :
    (m.call target).memory.slice ⟨m.registers.sp.toNat, m.registers.sp.toNat + m.saved⟩ =
      m.frame.toBytes.take m.saved := by
  have hlength := length_take_saved m
  have hfit := saved_le m
  rw [← hlength] at hfit
  have hslice := Memory.slice_writeAll_consecutive m.memory hfit
  rw [hlength] at hslice
  rw [memory_call, hslice]

/-! ## Top theorem: calls -/

/-- A call, whatever state the machine is in. The first bytes of the frame, as many as there is room
for, go into the cells from the stack pointer on, and no other cell changes. The stack pointer moves
past them and does not wrap around. A frame that is cut is flagged, and no other flag changes. The
pushes enter no handler, however an interrupt would be dispatched. -/
theorem call_saves_what_fits (m : Machine σ) (target : Address) :
    m.frame.toBytes =
      Address.high (UInt16.ofNat (m.registers.pc % memorySize)) ::
      Address.low (UInt16.ofNat (m.registers.pc % memorySize)) ::
      m.registers.acc :: m.registers.general.toList ∧
    (∀ c, (m.call target).memory.read c =
      if m.registers.sp.toNat ≤ c.toNat ∧ c.toNat < m.registers.sp.toNat + m.saved then
        m.frame.toBytes.getD (c.toNat - m.registers.sp.toNat) 0
      else m.memory.read c) ∧
    (m.call target).registers = { m.registers with
      pc := target.toNat
      sp := UInt16.ofNat (m.registers.sp.toNat + m.saved)
      flags := if m.saved < 19 then m.registers.flags.raise .stackOverflow
        else m.registers.flags } ∧
    (m.call target).registers.sp.toNat = m.registers.sp.toNat + m.saved ∧
    (m.call target).drive = m.drive ∧
    (m.call target).savingFrame = m.savingFrame ∧
    (m.call target).memory.slice ⟨m.registers.sp.toNat, m.registers.sp.toNat + m.saved⟩ <+:
      m.frame.toBytes ∧
    (m.saved < 19 → (m.call target).registers.flags.has .stackOverflow = true) ∧
    ∀ dispatch : Machine σ → Byte → Option (List Address × Machine σ), ∃ pushed,
      (m.setSaving true).pushAllWith dispatch m.frame.toBytes = some ([], pushed) ∧
      m.call target = (pushed.setSaving m.savingFrame).jump target := by
  refine ⟨toBytes_frame m, read_call_eq m target, registers_call m target, ?_, ?_, ?_, ?_,
    ?_, ?_⟩
  · rw [toNat_sp_call, saved_eq]
  · rw [call_eq]
  · rw [call_eq]
  · rw [slice_call_eq]
    exact List.take_prefix _ _
  · intro hcut
    rw [registers_call]
    simp only [if_pos hcut]
    exact Flags.has_assign_self _ _ _
  · intro dispatch
    exact ⟨_, pushAllWith_of_saving (m := m.setSaving true) rfl dispatch _, rfl⟩

/-- Four cells are left for a frame, and a handler stands ready for the overflow. -/
def cramped : Machine Shelf where
  registers := { acc := 7, pc := 0x1020B, sp := 0x01FB, mode := { interruptible := true } }
  memory := Memory.blank.write 0x0004 0x04
  drive := {}

theorem call_saves_of_cramped :
    (cramped.call 0x0300).memory.slice ⟨0x01FB, 0x01FF⟩ <+: cramped.frame.toBytes ∧
    (cramped.call 0x0300).memory.read 0x01FC = 0x0B ∧
    (cramped.call 0x0300).memory.read 0x01FF = 0 ∧
    (cramped.call 0x0300).registers.flags.has .stackOverflow = true ∧
    (cramped.call 0x0300).registers.pc = 0x0300 := by
  obtain ⟨-, hread, hregisters, -, -, -, hstart, hcut, -⟩ := call_saves_what_fits cramped 0x0300
  refine ⟨hstart, ?_, ?_, hcut (by decide), ?_⟩
  · rw [hread]
    rfl
  · rw [hread, if_neg (by decide), cramped, Memory.read_write_of_ne _ _ (by decide),
      Memory.read_blank]
  · rw [hregisters]
    rfl

/-! ## A return without a frame -/

/-- A full stack takes nothing of a frame. -/
theorem call_of_full {m : Machine σ} (h : m.room = 0) (target : Address) :
    m.call target = (m.setFlag .stackOverflow).jump target := by
  rw [call_eq, h]
  simp only [Nat.zero_min, Frame.size_eq, List.take_zero, consecutive_nil, Memory.writeAll_nil]
  simp [jump, setFlag, setFlags]

/-- The bytes that a return finds on top of the stack. -/
def topBytes (m : Machine σ) : List Byte :=
  m.memory.slice ⟨m.registers.sp.toNat - Frame.size, m.registers.sp.toNat⟩

/-- A return takes the bytes on top of the stack for a frame, whatever they are. -/
theorem ret_of_le {m : Machine σ}
    (h : MemoryMap.stackBase.toNat + Frame.size ≤ m.registers.sp.toNat) :
    m.ret = (m.setPointer (m.registers.sp - UInt16.ofNat Frame.size)).restore
      (Frame.ofBytes m.topBytes) := by
  rw [ret, popBytes_of_le h]
  rfl

theorem length_topBytes {m : Machine σ} (h : Frame.size ≤ m.registers.sp.toNat) :
    m.topBytes.length = Frame.size := by
  have hlt := m.registers.sp.toNat_lt_memorySize
  rw [topBytes, Memory.length_slice _ (Nat.le_of_lt hlt)]
  omega

/-- What a return restores is what `m` holds, with the program counter `n` further on, if and only if
the bytes on top of the stack are the frame of that. -/
theorem ofBytes_topBytes_iff {m : Machine σ} (h : Frame.size ≤ m.registers.sp.toNat) (n : Nat) :
    ((Frame.ofBytes m.topBytes).general = m.registers.general ∧
        (Frame.ofBytes m.topBytes).acc = m.registers.acc ∧
        (Frame.ofBytes m.topBytes).returnAddress.toNat = m.registers.pc + n) ↔
      m.registers.pc + n < memorySize ∧ m.topBytes = (m.advance n).frame.toBytes := by
  have hreturn : (m.advance n).frame.returnAddress.toNat = (m.registers.pc + n) % memorySize :=
    toNat_returnAddress _
  rw [← Frame.ofBytes_eq_iff (length_topBytes h)]
  generalize Frame.ofBytes m.topBytes = f
  constructor
  · rintro ⟨hgeneral, hacc, hpc⟩
    have hlt := f.returnAddress.toNat_lt_memorySize
    rw [hpc] at hlt
    rw [Nat.mod_eq_of_lt hlt, ← hpc, UInt16.toNat_inj] at hreturn
    refine ⟨hlt, ?_⟩
    obtain ⟨a, acc, general⟩ := f
    simp only [frame, advance] at hgeneral hacc hreturn ⊢
    rw [hgeneral, hacc, hreturn]
  · rintro ⟨hlt, rfl⟩
    rw [Nat.mod_eq_of_lt hlt] at hreturn
    exact ⟨rfl, rfl, hreturn⟩

/-- The next step pushes a byte on a full stack, and the handler that is told is a single return. -/
structure OverflowReturns (m : Machine σ) (i : Instruction) : Prop where
  next : m.nextInstruction? = some i
  pushes : i = .psa ∨ ∃ r, i = .psr r
  full : m.registers.sp = MemoryMap.kernelOrigin - 1
  handled : m.HasHandler Interrupt.stackOverflow.id
  isReturn : m.memory.read (m.vector Interrupt.stackOverflow.id) = Opcode.crn.toByte

theorem room_of_full {m : Machine σ} (h : m.registers.sp = MemoryMap.kernelOrigin - 1) :
    m.room = 0 := by
  rw [room, h]
  rfl

theorem OverflowReturns.frame_le {m : Machine σ} {i : Instruction} (h : m.OverflowReturns i) :
    MemoryMap.stackBase.toNat + Frame.size ≤ m.registers.sp.toNat := by
  rw [h.full]
  decide

end Saving

variable {σ : Type} [ByteSource σ]

/-- The push only sets the flag, and enters the handler with nothing saved. -/
theorem OverflowReturns.step_push {m : Machine σ} {i : Instruction} (h : m.OverflowReturns i)
    (hsaving : m.savingFrame = false) :
    m.step =
      (.ok (), (m.setFlag .stackOverflow).jump (m.vector Interrupt.stackOverflow.id)) := by
  have hroom := room_of_full h.full
  have hpushed : ∃ v, m.pushed? i = some v := by
    rcases h.pushes with rfl | ⟨r, rfl⟩
    · exact ⟨_, rfl⟩
    · exact ⟨_, rfl⟩
  obtain ⟨v, hv⟩ := hpushed
  have hafter := after_of_raises (.push h.next hv ((stackFull_iff m).mpr hroom)) hsaving
  have hhandled : ((m.advance i.size).setFlag .stackOverflow).HasHandler 2 := h.handled
  have hfull : ((m.advance i.size).setFlag .stackOverflow).room = 0 := hroom
  rw [dispatch_of_hasHandler hhandled, call_of_full hfull] at hafter
  have hstep : m.step.2 =
      (m.setFlag .stackOverflow).jump (m.vector Interrupt.stackOverflow.id) := by
    refine hafter.trans ?_
    simp only [jump, setFlag, setFlags, advance, Flags.raise_raise]
    rfl
  have hrunning : m.step.2.isHalted = false := by
    have hm := isHalted_of_nextInstruction? h.next
    rw [hstep]
    exact hm
  rw [step_of_running h.next hrunning, hstep]

/-- The return goes on from what the program pushed last. -/
theorem OverflowReturns.step_return {m : Machine σ} {i : Instruction} (h : m.OverflowReturns i) :
    ((m.setFlag .stackOverflow).jump (m.vector Interrupt.stackOverflow.id)).step =
      (.ok (), ((m.setFlag .stackOverflow).setPointer
        (m.registers.sp - UInt16.ofNat Frame.size)).restore (Frame.ofBytes m.topBytes)) := by
  have hrunning := isHalted_of_nextInstruction? h.next
  have hcrn : ((m.setFlag .stackOverflow).jump
      (m.vector Interrupt.stackOverflow.id)).nextInstruction? = some .crn :=
    nextInstruction?_of_fetch .crn hrunning rfl (Address.toNat_lt_memorySize _)
      ((Memory.fetch_toNat _ _).trans h.isReturn)
  have hret := ret_of_le (m := ((m.setFlag .stackOverflow).jump
    (m.vector Interrupt.stackOverflow.id)).advance (Instruction.size .crn)) h.frame_le
  have hgoing : (((m.setFlag .stackOverflow).setPointer
      (m.registers.sp - UInt16.ofNat Frame.size)).restore
      (Frame.ofBytes m.topBytes)).isHalted = false := by
    rw [isHalted]
    exact hrunning
  rw [step_of_nextInstruction? hcrn, execute, hret]
  refine Prod.ext ?_ rfl
  exact if_neg (ne_true_of_eq_false hgoing)

/-! ## Top theorem: a stack overflow -/

/-- The handler for a stack overflow is entered with nothing saved, and its return does not go back to
the interrupted program. It takes the 19 bytes that the program pushed last for the frame, so the
stack pointer never comes back. General registers, accumulator and program counter do if and only if
those bytes happen to spell them. -/
theorem Reachable.overflow_takes_topBytes {m : Machine σ} {i : Instruction} (hm : Reachable m)
    (h : m.OverflowReturns i) :
    ∃ told resumed : Machine σ,
      m.step = (.ok (), told) ∧ told.step = (.ok (), resumed) ∧
      told = (m.setFlag .stackOverflow).jump (m.vector Interrupt.stackOverflow.id) ∧
      resumed = { m with registers := { m.registers with
        general := (Frame.ofBytes m.topBytes).general
        acc := (Frame.ofBytes m.topBytes).acc
        pc := (Frame.ofBytes m.topBytes).returnAddress.toNat
        sp := m.registers.sp - UInt16.ofNat Frame.size
        flags := m.registers.flags.raise .stackOverflow } } ∧
      resumed.registers.sp ≠ m.registers.sp ∧
      ((resumed.registers.general = m.registers.general ∧
          resumed.registers.acc = m.registers.acc ∧
          resumed.registers.pc = m.registers.pc + i.size) ↔
        m.registers.pc + i.size < memorySize ∧
          m.topBytes = (m.advance i.size).frame.toBytes) := by
  refine ⟨_, _, h.step_push hm.bounded.notSaving, h.step_return, rfl, rfl, ?_, ?_⟩
  · show m.registers.sp - UInt16.ofNat Frame.size ≠ m.registers.sp
    rw [h.full]
    decide
  · have hle := h.frame_le
    exact ofBytes_topBytes_iff (by omega) i.size

/-- A program that pushes 7 for ever, with a handler for the overflow that returns at once. -/
def filling : Rom where
  data := some [.number 0x0004 0x03, .number 0x0300 Opcode.crn.toByte]
  start := MemoryMap.kernelOrigin
  code := [Opcode.ein.toByte, Opcode.addi.toByte, 7, Opcode.psa.toByte, Opcode.jmp.toByte, 0x02, 0x03]

/-- The program is about to push, with `k` bytes on the stack. -/
structure Filled (m : Machine Shelf) (k : Nat) : Prop where
  reachable : Reachable m
  registers : m.registers =
    { acc := 7, pc := 0x0203, sp := UInt16.ofNat (0x0104 + k), mode := { interruptible := true } }
  outside : ∀ a : Address, a.toNat < 0x0104 ∨ 0x0200 ≤ a.toNat →
    m.memory.read a = (filling.writes.reverse.lookup a).getD 0
  pushed : ∀ a : Address, 0x0104 ≤ a.toNat → a.toNat < 0x0104 + k → m.memory.read a = 7

theorem exists_filled_zero : ∃ m, Filled m 0 := by
  obtain ⟨c, hc, hregisters, hread⟩ := exists_enabled (show filling.NulFree by
    simp [Rom.NulFree, filling, Rom.Entry.NulFree]) rfl
  have hfetch : ∀ a : Address, c.memory.fetch a.toNat =
      (filling.writes.reverse.lookup a).getD 0 := fun a =>
    (Memory.fetch_toNat c.memory a).trans (hread a)
  have haddi : c.nextInstruction? = some (.addi 7) := by
    rw [nextInstruction?_of_fetch .addi (by rw [isHalted, hregisters])
      (show c.registers.pc = 0x0201 by rw [hregisters]) (by decide) (hfetch 0x0201)]
    exact congrArg (some ∘ Instruction.addi) (hfetch 0x0202)
  refine ⟨c.step.2, ⟨.event .step hc, ?_, ?_, fun a hlow hhigh => by omega⟩⟩
  · rw [step_snd haddi, execute, advance, hregisters]
    rfl
  · intro a _
    rw [← hread, step_snd haddi, execute, advance, hregisters]
    rfl

theorem Filled.psa {m : Machine Shelf} {k : Nat} (h : Filled m k) :
    m.nextInstruction? = some .psa := by
  have hop : m.memory.fetch 0x0203 = Opcode.psa.toByte :=
    (Memory.fetch_toNat m.memory 0x0203).trans (h.outside 0x0203 (by decide))
  exact nextInstruction?_of_fetch .psa (by rw [isHalted, h.registers])
    (show m.registers.pc = 0x0203 by rw [h.registers]) (by decide) hop

/-- Once round the loop there is one byte more. -/
theorem Filled.succ {m : Machine Shelf} {k : Nat} (h : Filled m k) (hk : k < 251) :
    Filled m.step.2.step.2 (k + 1) := by
  have hsp : m.registers.sp.toNat = 0x0104 + k := by
    rw [h.registers]
    exact UInt16.toNat_ofNat_of_lt (show _ < 65536 by omega)
  have hroom : m.room ≠ 0 := by
    rw [room, hsp, MemoryMap.toNat_kernelOrigin]
    omega
  have hpush : m.step.2 = (m.advance 1).place 7 := by
    have hacc : m.registers.acc = 7 := by rw [h.registers]
    rw [step_snd h.psa, execute]
    show (m.advance 1).push m.registers.acc = _
    rw [hacc, push, if_neg (mt (stackFull_iff (m.advance 1)).mp hroom)]
  have hmemory : m.step.2.memory = m.memory.write m.registers.sp 7 := by
    rw [hpush]
    rfl
  have hregisters : m.step.2.registers =
      { acc := 7, pc := 0x0204, sp := UInt16.ofNat (0x0104 + (k + 1)),
        mode := { interruptible := true } } := by
    rw [hpush]
    simp only [place, write, setPointer, advance, h.registers, ← Nat.add_assoc, UInt16.ofNat_add]
    rfl
  have houtside : ∀ a : Address, a.toNat < 0x0104 ∨ 0x0200 ≤ a.toNat →
      m.step.2.memory.read a = (filling.writes.reverse.lookup a).getD 0 := by
    intro a ha
    rw [hmemory, Memory.read_write_of_ne, h.outside a ha]
    rintro rfl
    omega
  have hjmp : m.step.2.nextInstruction? = some (.jmp 0x0203) := by
    have hfetch : ∀ a : Address, 0x0200 ≤ a.toNat → m.step.2.memory.fetch a.toNat =
        (filling.writes.reverse.lookup a).getD 0 := fun a ha =>
      (Memory.fetch_toNat _ a).trans (houtside a (.inr ha))
    have htarget : Address.ofBytes (m.step.2.memory.fetch 0x0205) (m.step.2.memory.fetch 0x0206) =
        0x0203 := by
      rw [show m.step.2.memory.fetch 0x0205 = 0x02 from hfetch 0x0205 (by decide),
        show m.step.2.memory.fetch 0x0206 = 0x03 from hfetch 0x0206 (by decide)]
      rfl
    rw [nextInstruction?_of_fetch .jmp (by rw [isHalted, hregisters])
      (show m.step.2.registers.pc = 0x0204 by rw [hregisters]) (by decide)
      (hfetch 0x0204 (by decide))]
    exact congrArg (some ∘ Instruction.jmp) htarget
  have hback : m.step.2.step.2.memory = m.step.2.memory := by
    rw [step_snd hjmp]
    rfl
  refine ⟨.event .step (.event .step h.reachable), ?_, ?_, ?_⟩
  · rw [step_snd hjmp, execute, advance, jump, hregisters]
    rfl
  · rw [hback]
    exact houtside
  · intro a hlow hhigh
    rw [hback, hmemory, Memory.read_write]
    split
    · rfl
    · next hne =>
      have hne' : m.registers.sp.toNat ≠ a.toNat := fun e => hne (UInt16.toNat_inj.mp e)
      exact h.pushed a hlow (by omega)

theorem exists_filled {k : Nat} (hk : k ≤ 251) : ∃ m, Filled m k := by
  induction k with
  | zero => exact exists_filled_zero
  | succ k ih =>
    obtain ⟨m, hm⟩ := ih (by omega)
    exact ⟨_, hm.succ (by omega)⟩

theorem Filled.overflowReturns {m : Machine Shelf} (h : Filled m 251) : m.OverflowReturns .psa := by
  have hvector : m.vector Interrupt.stackOverflow.id = 0x0300 := by
    show Address.ofBytes (m.memory.read 0x0004) (m.memory.read 0x0005) = 0x0300
    rw [h.outside _ (by decide), h.outside _ (by decide)]
    rfl
  refine ⟨h.psa, .inl rfl, ?_, ⟨?_, by decide, ?_⟩, ?_⟩
  · rw [h.registers]
    rfl
  · rw [h.registers]
  · rw [hvector]
    decide
  · rw [hvector, h.outside _ (by decide)]
    rfl

theorem Filled.topBytes_eq {m : Machine Shelf} (h : Filled m 251) :
    m.topBytes = List.replicate 19 7 := by
  have hsp : m.registers.sp.toNat = 511 := by
    rw [h.registers]
    rfl
  rw [topBytes, hsp, Frame.size_eq]
  apply List.ext_getElem
  · rw [Memory.length_slice _ (by decide), List.length_replicate]
  · intro i hi _
    rw [Memory.length_slice _ (by decide)] at hi
    have hcell : (UInt16.ofNat (511 - 19 + i)).toNat = 511 - 19 + i :=
      UInt16.toNat_ofNat_of_lt (show _ < 65536 by omega)
    rw [Memory.getElem_slice _ (by decide), List.getElem_replicate, ← hcell, Memory.fetch_toNat]
    exact h.pushed _ (by omega) (by omega)

/-- The handler enters at 0300, and its return goes on at 0707 with 7 in every register. -/
theorem overflow_takes_of_filling :
    ∃ m : Machine Shelf, Reachable m ∧ m.OverflowReturns .psa ∧
      m.step.2.registers.pc = 0x0300 ∧ m.step.2.step.2.registers.pc = 0x0707 := by
  obtain ⟨m, h⟩ := exists_filled (Nat.le_refl 251)
  obtain ⟨told, resumed, hpush, hreturn, htold, hresumed, -, -⟩ :=
    h.reachable.overflow_takes_topBytes h.overflowReturns
  refine ⟨m, h.reachable, h.overflowReturns, ?_, ?_⟩
  · rw [hpush, htold]
    show (Address.ofBytes (m.memory.read 0x0004) (m.memory.read 0x0005)).toNat = _
    rw [h.outside _ (by decide), h.outside _ (by decide)]
    rfl
  · rw [hpush, hreturn, hresumed, h.topBytes_eq]
    rfl

/-- A stack overflow is not transparent: the program is interrupted at 0203 by its push, and the return
of the handler restores no register, neither the program counter nor the stack pointer. -/
theorem exists_lost_return :
    ∃ m : Machine Shelf, Reachable m ∧ m.OverflowReturns .psa ∧ m.registers.pc = 0x0203 ∧
      m.step.2.step.2.registers.pc = 0x0707 ∧
      m.registers.sp = 0x01FF ∧ m.step.2.step.2.registers.sp = 0x01EC ∧
      m.registers.general = Vector.replicate 16 0 ∧
      m.step.2.step.2.registers.general = Vector.replicate 16 7 := by
  obtain ⟨m, h⟩ := exists_filled (Nat.le_refl 251)
  refine ⟨m, h.reachable, h.overflowReturns, ?_⟩
  rw [h.overflowReturns.step_push h.reachable.bounded.notSaving, h.overflowReturns.step_return,
    h.topBytes_eq]
  simp only [restore, setPointer, setFlag, setFlags, h.registers]
  exact ⟨trivial, by decide, by decide, by decide, trivial, by decide⟩

end Machine

end Tis80
