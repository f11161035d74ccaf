import Tis80.Proofs.Bounds
import Tis80.Proofs.RomImage

/-!
# The stack is a bounded stack

The cells from the stack base up to the stack pointer, seen as a list of bytes, are a stack with room
for 251 bytes that flags what it refuses. Every instruction and every interrupt that moves bytes there
is a list of pushes and pops of it, so a whole run of them is one too:

    StackRun m ops popped n → m.stackView.run ops = (popped, n.stackView)      (StackRun.run_stackView)

Calls and handlers are the pushes of a frame, returns the pops of one.
-/

namespace Tis80

theorem Frame.toBytes_ofBytes {bytes : List Byte} (h : bytes.length = size) :
    (ofBytes bytes).toBytes = bytes := by
  match bytes, h with
  | high :: low :: acc :: general, h =>
    have hgeneral : general.length = registerCount := by simpa [size, registerCount] using h
    simp only [toBytes, ofBytes, List.getD_cons_zero, List.getD_cons_succ, Address.high_ofBytes,
      Address.low_ofBytes, List.cons.injEq, true_and]
    apply List.ext_getElem
    · rw [Vector.length_toList, hgeneral]
    · intro i hi hi'
      simp [Nat.add_comm 3 i, hi']

/-- A stack of bytes, the lowest first. -/
@[ext]
structure ByteStack where
  bytes : List Byte
  /-- What a pop from the empty stack gives: the byte that was last the lowest. -/
  ground : Byte
  overflowed : Bool

namespace ByteStack

def capacity : Nat := MemoryMap.kernelOrigin.toNat - 1 - MemoryMap.stackBase.toNat

inductive Op
  | push (v : Byte)
  | pop

def push (s : ByteStack) (v : Byte) : ByteStack :=
  if s.bytes.length < capacity then
    { s with bytes := s.bytes ++ [v], ground := if s.bytes.isEmpty then v else s.ground }
  else { s with overflowed := true }

def pop (s : ByteStack) : Byte × ByteStack :=
  match s.bytes.getLast? with
  | none => (s.ground, s)
  | some v => (v, { s with bytes := s.bytes.dropLast })

/-- The bytes that operations pop, in order, and the stack they leave. -/
def run (s : ByteStack) : List Op → List Byte × ByteStack
  | [] => ([], s)
  | .push v :: ops => (s.push v).run ops
  | .pop :: ops => (s.pop.1 :: (s.pop.2.run ops).1, (s.pop.2.run ops).2)

theorem capacity_eq : capacity = 251 := rfl

/-! ## Runs of operations -/

theorem run_append (s : ByteStack) (ops ops' : List Op) :
    s.run (ops ++ ops') =
      ((s.run ops).1 ++ ((s.run ops).2.run ops').1, ((s.run ops).2.run ops').2) := by
  induction ops generalizing s with
  | nil => rfl
  | cons op ops ih =>
    cases op with
    | push v => exact ih (s.push v)
    | pop => simp only [List.cons_append, run, ih]

theorem run_pushes (s : ByteStack) (bytes : List Byte) :
    s.run (bytes.map .push) = ([], bytes.foldl push s) := by
  induction bytes generalizing s with
  | nil => rfl
  | cons v bytes ih => exact ih (s.push v)

theorem push_of_not_overflowed {s : ByteStack} {v : Byte} (h : (s.push v).overflowed = false) :
    s.overflowed = false ∧ (s.push v).bytes = s.bytes ++ [v] := by
  unfold push at h ⊢
  split
  · next hlt =>
    rw [if_pos hlt] at h
    exact ⟨h, rfl⟩
  · next hfull =>
    rw [if_neg hfull] at h
    cases h

theorem pop_push {s : ByteStack} (h : s.bytes.length < capacity) (v : Byte) :
    (s.push v).pop.1 = v := by
  rw [push, if_pos h]
  simp only [pop, List.getLast?_concat]

theorem overflowed_pop (s : ByteStack) : s.pop.2.overflowed = s.overflowed := by
  unfold pop
  split <;> rfl

/-- Once set, the mark stays. -/
theorem not_overflowed_of_run {s : ByteStack} {ops : List Op}
    (h : (s.run ops).2.overflowed = false) : s.overflowed = false := by
  induction ops generalizing s with
  | nil => exact h
  | cons op ops ih =>
    cases op with
    | push v => exact (push_of_not_overflowed (ih h)).1
    | pop => exact (overflowed_pop s).symm.trans (ih h)

/-- In a run that ends without the mark every push found room. -/
theorem bytes_push_of_run {s : ByteStack} {before after : List Op} {v : Byte}
    (h : (s.run (before ++ .push v :: after)).2.overflowed = false) :
    ((s.run before).2.push v).bytes = (s.run before).2.bytes ++ [v] := by
  rw [run_append] at h
  exact (push_of_not_overflowed (not_overflowed_of_run h)).2

end ByteStack

namespace Machine

section View

variable {σ : Type}

def stackView (m : Machine σ) : ByteStack where
  bytes := m.memory.slice ⟨MemoryMap.stackBase.toNat, m.registers.sp.toNat⟩
  ground := m.memory.read MemoryMap.stackBase
  overflowed := m.registers.flags.stackOverflow

def InStack (m : Machine σ) : Prop :=
  MemoryMap.stackBase.toNat ≤ m.registers.sp.toNat ∧
    m.registers.sp.toNat < MemoryMap.kernelOrigin.toNat

/-- The frame of a call made now. -/
def framePushes (m : Machine σ) : List ByteStack.Op := m.frame.toBytes.map .push

/-- The frame of a handler, if the interrupt has one to go to. -/
def handlerPushes (m : Machine σ) (id : Byte) : List ByteStack.Op :=
  if (m.handler? id).isSome then m.framePushes else []

/-- A byte, and on a full stack the frame of the handler that is told. -/
def bytePushes (m : Machine σ) (v : Byte) : List ByteStack.Op :=
  .push v :: if m.stackFull then m.handlerPushes Interrupt.stackOverflow.id else []

/-! ## Saved bytes and popped bytes -/

theorem Bounded.inStack {m : Machine σ} (h : m.Bounded) : m.InStack := ⟨h.base_le, h.sp_lt⟩

theorem bytes_stackView (m : Machine σ) : m.stackView.bytes =
    m.memory.slice ⟨MemoryMap.stackBase.toNat, m.registers.sp.toNat⟩ := by
  rw [stackView]

theorem length_stackView {m : Machine σ} (h : m.InStack) :
    m.stackView.bytes.length + MemoryMap.stackBase.toNat = m.registers.sp.toNat := by
  have hsp := m.registers.sp.toNat_lt_memorySize
  have hbase := h.1
  rw [bytes_stackView, Memory.length_slice _ (Nat.le_of_lt hsp)]
  omega

theorem length_lt_capacity_iff {m : Machine σ} (h : m.InStack) :
    m.stackView.bytes.length < ByteStack.capacity ↔ m.stackFull = false := by
  have hlen := length_stackView h
  rw [MemoryMap.toNat_stackBase] at hlen
  rw [ByteStack.capacity_eq, ← room_ne_zero_iff, room, MemoryMap.toNat_kernelOrigin]
  omega

theorem InStack.saveByte {m : Machine σ} (h : m.InStack) (v : Byte) : (m.saveByte v).InStack := by
  obtain ⟨hbase, hsp⟩ := h
  rw [Machine.saveByte]
  split
  · exact ⟨hbase, hsp⟩
  · next hroom =>
    have hne : m.room ≠ 0 := mt (stackFull_iff m).mpr hroom
    have hnext := toNat_sp_place hne v
    simp only [room] at hne
    exact ⟨by omega, by omega⟩

theorem bytes_stackView_place {m : Machine σ} (h : m.InStack) (hroom : m.stackFull = false)
    (v : Byte) : (m.place v).stackView.bytes = m.stackView.bytes ++ [v] := by
  have hsp := m.registers.sp.toNat_lt_memorySize
  have hmemory : (m.place v).memory = m.memory.write m.registers.sp v := rfl
  have hbelow : (m.place v).memory.slice ⟨MemoryMap.stackBase.toNat, m.registers.sp.toNat⟩ =
      m.memory.slice ⟨MemoryMap.stackBase.toNat, m.registers.sp.toNat⟩ := by
    apply Memory.slice_congr (Nat.le_of_lt hsp)
    intro a _ hlt
    apply Memory.read_write_of_ne
    rintro rfl
    exact Nat.lt_irrefl _ hlt
  rw [bytes_stackView, bytes_stackView, toNat_sp_place ((room_ne_zero_iff m).mpr hroom),
    Memory.slice_succ _ h.1, hbelow,
    hmemory, Memory.read_write_self]

theorem ground_stackView_place {m : Machine σ} (h : m.InStack) (v : Byte) :
    (m.place v).stackView.ground =
      if m.stackView.bytes.isEmpty then v else m.stackView.ground := by
  have hlen := length_stackView h
  have hempty : m.registers.sp = MemoryMap.stackBase ↔ m.stackView.bytes.isEmpty = true := by
    rw [List.isEmpty_iff, ← List.length_eq_zero_iff, ← UInt16.toNat_inj]
    omega
  have hread := m.memory.read_write m.registers.sp MemoryMap.stackBase v
  simp only [hempty] at hread
  exact hread

theorem stackView_saveByte {m : Machine σ} (h : m.InStack) (v : Byte) :
    (m.saveByte v).stackView = m.stackView.push v := by
  have hcapacity := length_lt_capacity_iff h
  cases hfull : m.stackFull with
  | true =>
    rw [saveByte, if_pos hfull, ByteStack.push, if_neg (by simp [hcapacity, hfull])]
    simp only [stackView, setFlag, setFlags, Flags.raise, Flags.assign]
  | false =>
    rw [saveByte, if_neg (by simp [hfull]), ByteStack.push, if_pos (hcapacity.mpr hfull)]
    ext1
    · exact bytes_stackView_place h hfull v
    · rw [ground_stackView_place h]
    · rfl

theorem stackView_foldl_saveByte {m : Machine σ} (h : m.InStack) (bytes : List Byte) :
    (bytes.foldl saveByte m).stackView = bytes.foldl ByteStack.push m.stackView := by
  induction bytes generalizing m with
  | nil => rfl
  | cons v bytes ih =>
    rw [List.foldl_cons, List.foldl_cons, ih (h.saveByte v), stackView_saveByte h]

theorem stackView_pop {m : Machine σ} (h : m.InStack) :
    m.stackView.pop = (m.pop.1, m.pop.2.stackView) := by
  rcases Nat.lt_or_eq_of_le h.1 with hlt | heq
  · have hsub := Address.toNat_sub_one (a := m.registers.sp) (by omega)
    have hbytes : m.stackView.bytes =
        m.memory.slice ⟨MemoryMap.stackBase.toNat, (m.registers.sp - 1).toNat⟩ ++
          [m.memory.read (m.registers.sp - 1)] := by
      rw [bytes_stackView, ← Memory.slice_succ _ (by omega), hsub, Nat.sub_add_cancel (by omega)]
    simp only [ByteStack.pop, hbytes, List.getLast?_concat, List.dropLast_concat, pop_of_lt hlt]
    rfl
  · have hbase : m.registers.sp = MemoryMap.stackBase := UInt16.toNat_inj.mp heq.symm
    have hbytes : m.stackView.bytes = [] := by
      rw [bytes_stackView, ← heq, Memory.slice_self]
    simp only [ByteStack.pop, hbytes, List.getLast?_nil, pop_of_le (Nat.le_of_eq heq.symm), hbase]
    rfl

theorem length_popBytes (m : Machine σ) (n : Nat) : (m.popBytes n).1.length = n := by
  induction n generalizing m with
  | zero => rfl
  | succ n ih => rw [popBytes, List.length_append, ih, List.length_singleton]

/-- The byte popped first is the one pushed last. -/
theorem run_replicate_pop {m : Machine σ} (h : m.Bounded) (n : Nat) :
    m.stackView.run (List.replicate n .pop) =
      ((m.popBytes n).1.reverse, (m.popBytes n).2.stackView) := by
  induction n generalizing m with
  | zero => rfl
  | succ n ih =>
    rw [List.replicate_succ, ByteStack.run, stackView_pop h.inStack, ih h.pop, popBytes,
      List.reverse_append, List.reverse_singleton, List.singleton_append]

/-! ## Calls, interrupts and pushes -/

theorem stackView_jump (m : Machine σ) (target : Address) :
    (m.jump target).stackView = m.stackView := by
  simp only [stackView, jump]

theorem stackView_setSaving (m : Machine σ) (saving : Bool) :
    (m.setSaving saving).stackView = m.stackView := by
  simp only [stackView, setSaving]

theorem run_framePushes {m : Machine σ} (h : m.InStack) (target : Address) :
    m.stackView.run m.framePushes = ([], (m.call target).stackView) := by
  have hsaving : (m.setSaving true).InStack := h
  rw [framePushes, ByteStack.run_pushes, call, stackView_jump, stackView_setSaving,
    stackView_foldl_saveByte hsaving, stackView_setSaving]

theorem run_handlerPushes {m : Machine σ} (h : m.InStack) (id : Byte) :
    m.stackView.run (m.handlerPushes id) = ([], (m.dispatch id).stackView) := by
  rw [handlerPushes, dispatch_eq]
  cases m.handler? id with
  | none => rfl
  | some target => exact run_framePushes h target

theorem stackView_setFlag (m : Machine σ) {f : Flag} (h : f ≠ .stackOverflow) :
    (m.setFlag f).stackView = m.stackView := by
  cases f with
  | stackOverflow => exact absurd rfl h
  | _ => simp only [stackView, setFlag, setFlags, Flags.raise, Flags.assign]

theorem run_raise {m : Machine σ} (h : m.Bounded) {f : Flag} (hf : f ≠ .stackOverflow) :
    m.stackView.run (m.handlerPushes f.interrupt.id) = ([], (m.raise f).stackView) := by
  have hflag : (m.setFlag f).InStack := h.inStack
  rw [raise_of_notSaving h.notSaving, ← stackView_setFlag m hf]
  exact run_handlerPushes hflag _

theorem run_bytePushes {m : Machine σ} (h : m.Bounded) (v : Byte) :
    m.stackView.run (m.bytePushes v) = ([], (m.push v).stackView) := by
  rw [bytePushes, ByteStack.run, ← stackView_saveByte h.inStack, saveByte, push]
  split
  · have hflag : (m.setFlag .stackOverflow).InStack := h.inStack
    rw [raise_of_notSaving h.notSaving]
    exact run_handlerPushes hflag _
  · rfl

theorem stackView_advance (m : Machine σ) (n : Nat) : (m.advance n).stackView = m.stackView := by
  simp only [stackView, advance]

/-- A key lands far above the stack. -/
theorem stackView_write_key {m : Machine σ} (h : m.InStack) (key : Byte) :
    (m.write (UInt16.ofNat MemoryMap.keyboardBuffer.start) key).stackView = m.stackView := by
  have hsp := h.2
  rw [MemoryMap.toNat_kernelOrigin] at hsp
  have hbytes : (m.memory.write (UInt16.ofNat MemoryMap.keyboardBuffer.start) key).slice
      ⟨MemoryMap.stackBase.toNat, m.registers.sp.toNat⟩ =
      m.memory.slice ⟨MemoryMap.stackBase.toNat, m.registers.sp.toNat⟩ := by
    apply Memory.slice_congr (by unfold memorySize; omega)
    intro a _ hlt
    apply Memory.read_write_of_ne
    rintro rfl
    have hkey : (UInt16.ofNat MemoryMap.keyboardBuffer.start).toNat = 62464 := rfl
    omega
  simp only [stackView, write, hbytes]
  rw [Memory.read_write_of_ne _ _ (by decide)]

theorem frame_ret (m : Machine σ) : m.ret.frame.toBytes = (m.popBytes Frame.size).1 := by
  have hframe : m.ret.frame = Frame.ofBytes (m.popBytes Frame.size).1 := by
    simp only [ret, restore, frame, UInt16.ofNat_toNat]
  rw [hframe, Frame.toBytes_ofBytes (length_popBytes m _)]

theorem stackView_ret (m : Machine σ) :
    m.ret.stackView = (m.popBytes Frame.size).2.stackView := by
  simp only [ret, restore, stackView]

end View

variable {σ : Type} [ByteSource σ]

/-- An event that moves bytes to or from the stack: the operations it amounts to, and the bytes it is
seen to pop, in order. -/
inductive StackStep (m : Machine σ) : List ByteStack.Op → List Byte → Machine σ → Prop
  | psa : m.nextInstruction? = some .psa →
      StackStep m ((m.advance 1).bytePushes m.registers.acc) [] m.step.2
  | psr {r : Register} : m.nextInstruction? = some (.psr r) →
      StackStep m ((m.advance 2).bytePushes (m.registers.get r)) [] m.step.2
  | poa : m.nextInstruction? = some .poa →
      StackStep m [.pop] [m.step.2.registers.acc] m.step.2
  | por {r : Register} : m.nextInstruction? = some (.por r) → r.index.toNat < registerCount →
      StackStep m [.pop] [m.step.2.registers.get r] m.step.2
  /-- There is no such register, and the byte goes nowhere. -/
  | porNowhere {r : Register} : m.nextInstruction? = some (.por r) →
      registerCount ≤ r.index.toNat → StackStep m [.pop] [m.pop.1] m.step.2
  | cll {target : Address} : m.nextInstruction? = some (.cll target) →
      StackStep m (m.advance 3).framePushes [] m.step.2
  | crn : m.nextInstruction? = some .crn →
      StackStep m (List.replicate Frame.size .pop) m.step.2.frame.toBytes.reverse m.step.2
  | int {id : Byte} : m.nextInstruction? = some (.int id) →
      StackStep m ((m.advance 2).handlerPushes id) [] m.step.2
  /-- A result that does not fit: the accumulator is cleared before its interrupt. -/
  | accOverflow {i : Instruction} : m.nextInstruction? = some i →
      (m.advance i.size).execute i = (m.advance i.size).accumulate none →
      StackStep m (((m.advance i.size).setAcc 0).handlerPushes Interrupt.accOverflow.id) [] m.step.2
  /-- A load that fails before it writes. -/
  | ioError {name : Address} {fault : LoadFault} : m.nextInstruction? = some (.dsk name) →
      (m.advance 3).load (lossyText (m.memory.stringAt name)) = (.error fault, m.advance 3) →
      StackStep m ((m.advance 3).handlerPushes Interrupt.ioError.id) [] m.step.2
  | dispatch (id : Byte) : StackStep m (m.handlerPushes id) [] (m.dispatch id)
  | keyDown (key : Byte) :
      StackStep m ((m.write (UInt16.ofNat MemoryMap.keyboardBuffer.start) key).handlerPushes
        Interrupt.keyboard.id) [] (m.keyDown key)

inductive StackRun : Machine σ → List ByteStack.Op → List Byte → Machine σ → Prop
  | nil (m : Machine σ) : StackRun m [] [] m
  | cons {m n l : Machine σ} {ops ops' : List ByteStack.Op} {popped popped' : List Byte} :
      StackStep m ops popped n → StackRun n ops' popped' l →
      StackRun m (ops ++ ops') (popped ++ popped') l

/-! ## Steps and runs -/

theorem StackStep.bounded {m n : Machine σ} {ops : List ByteStack.Op} {popped : List Byte}
    (h : StackStep m ops popped n) (hm : m.Bounded) : n.Bounded := by
  cases h with
  | dispatch id => exact hm.dispatch id
  | keyDown key => exact hm.after (.keyDown key)
  | _ => exact hm.step

theorem StackStep.run_stackView {m n : Machine σ} {ops : List ByteStack.Op} {popped : List Byte}
    (h : StackStep m ops popped n) (hm : m.Bounded) :
    m.stackView.run ops = (popped, n.stackView) := by
  have hfetched : ∀ {i : Instruction}, m.nextInstruction? = some i → (m.advance i.size).Bounded :=
    fun hnext => hm.advance (pc_lt_of_nextInstruction? hnext) (Instruction.size_le _)
  cases h with
  | psa hnext =>
    rw [step_snd hnext, ← stackView_advance m 1]
    exact run_bytePushes (hfetched hnext) _
  | psr hnext =>
    rw [step_snd hnext, ← stackView_advance m 2]
    exact run_bytePushes (hfetched hnext) _
  | poa hnext =>
    rw [step_snd hnext, ByteStack.run, stackView_pop hm.inStack]
    rfl
  | @por r hnext hr =>
    have hget : ((m.advance (Instruction.por r).size).execute (.por r)).registers.get r = m.pop.1 :=
      Registers.get_set_self _ _ hr
    rw [step_snd hnext, hget, ByteStack.run, stackView_pop hm.inStack]
    rfl
  | porNowhere hnext hr =>
    rw [step_snd hnext, ByteStack.run, stackView_pop hm.inStack]
    rfl
  | cll hnext =>
    rw [step_snd hnext, ← stackView_advance m 3]
    exact run_framePushes (hfetched hnext).inStack _
  | crn hnext =>
    rw [step_snd hnext, ← stackView_advance m (Instruction.size .crn), execute, frame_ret,
      stackView_ret]
    exact run_replicate_pop (hfetched hnext) _
  | int hnext =>
    rw [step_snd hnext, ← stackView_advance m 2]
    exact run_handlerPushes (hfetched hnext).inStack _
  | @accOverflow i hnext hover =>
    have hcleared : ((m.advance i.size).setAcc 0).Bounded := (hfetched hnext).congr rfl rfl rfl
    have hview : ((m.advance i.size).setAcc 0).stackView = m.stackView := by
      simp only [stackView, setAcc, advance]
    rw [step_snd hnext, hover, accumulate, ← hview]
    exact run_raise (f := .accOverflow) hcleared (by decide)
  | @ioError name fault hnext hload =>
    have hmemory : (m.advance 3).memory = m.memory := rfl
    have hfailed : (m.advance 3).execute (.dsk name) = (m.advance 3).raise .ioError := by
      rw [execute, loadNamed, hmemory, hload]
    have hstep : m.step.2 = (m.advance 3).raise .ioError := (step_snd hnext).trans hfailed
    rw [hstep, ← stackView_advance m 3]
    exact run_raise (f := .ioError) (hfetched hnext) (by decide)
  | dispatch id => exact run_handlerPushes hm.inStack id
  | keyDown key =>
    have hpressed : (m.write (UInt16.ofNat MemoryMap.keyboardBuffer.start) key).InStack := hm.inStack
    rw [← stackView_write_key hm.inStack key, run_handlerPushes hpressed]
    rfl

theorem StackRun.run_stackView {m n : Machine σ} {ops : List ByteStack.Op} {popped : List Byte}
    (h : StackRun m ops popped n) (hm : m.Bounded) :
    m.stackView.run ops = (popped, n.stackView) := by
  induction h with
  | nil m => rfl
  | cons hstep _ ih =>
    rw [ByteStack.run_append, hstep.run_stackView hm, ih (hstep.bounded hm)]

/-! ## Top theorem -/

/-- From a reachable machine, any run of pushes, pops, calls, returns and interrupts does to the stack
region, and pops from it, what the same operations do with a bounded stack. If the overflow flag is
clear in the end, every byte pushed on the way was put on the stack. -/
theorem Reachable.refines_byteStack {m n : Machine σ} {ops : List ByteStack.Op}
    {popped : List Byte} (hm : Reachable m) (h : StackRun m ops popped n) :
    m.stackView.run ops = (popped, n.stackView) ∧
    (n.registers.flags.stackOverflow = false →
      ∀ (before after : List ByteStack.Op) (v : Byte), ops = before ++ .push v :: after →
        ((m.stackView.run before).2.push v).bytes = (m.stackView.run before).2.bytes ++ [v]) := by
  have hrun := h.run_stackView hm.bounded
  refine ⟨hrun, ?_⟩
  intro hclear before after v hops
  have hend : (m.stackView.run ops).2.overflowed = false := by
    rw [hrun]
    exact hclear
  rw [hops] at hend
  exact ByteStack.bytes_push_of_run hend

/-- A program that pushes 7 and pops it. -/
def pushing : Rom where
  start := MemoryMap.kernelOrigin
  code := [Opcode.addi.toByte, 7, Opcode.psa.toByte, Opcode.poa.toByte]

theorem refines_byteStack_of_pushing :
    ∃ m n : Machine Shelf, Reachable m ∧ StackRun m [.push 7, .pop] [n.registers.acc] n ∧
      n.registers.acc = 7 := by
  obtain ⟨drive, hdrive⟩ : ∃ drive : Shelf, drive = { images := [("p", pushing.image)] } := ⟨_, rfl⟩
  have hopen : ByteSource.openRom drive "p" = (.ok (), { drive with unread := pushing.image }) := by
    rw [hdrive]
    rfl
  have hwrites : loadWrites { drive := drive } "p" = pushing.writes :=
    loadWrites_of_image (by simp [Rom.NulFree, pushing]) hopen (by rw [Shelf.drain_eq])
  have hmemory : (load { drive := drive } "p").2.memory = Memory.blank.writeAll pushing.writes := by
    rw [memory_load, hwrites]
  have hregisters : (load { drive := drive } "p").2.registers = {} := registers_load _ _
  have hloaded : Reachable (load { drive := drive } "p").2 := .event (.load "p") (.fresh drive)
  generalize (load { drive := drive } "p").2 = c at *
  have hcode : ∀ a : Address, c.memory.fetch a.toNat =
      (pushing.writes.reverse.lookup a).getD (Memory.blank.read a) := by
    intro a
    rw [Memory.fetch_toNat, hmemory, Memory.read_writeAll]
  have haddi : c.nextInstruction? = some (.addi 7) := by
    have hvalue : c.memory.fetch 0x0201 = 7 := hcode 0x0201
    rw [nextInstruction?_of_fetch .addi (by rw [isHalted, hregisters]) (by rw [hregisters])
      (by decide) (hcode MemoryMap.kernelOrigin)]
    exact congrArg (fun v => some (Instruction.addi v)) hvalue
  have hadded : c.step.2 = { c with registers := { acc := 7, pc := 0x0202 } } := by
    rw [step_snd haddi, execute, advance, hregisters]
    rfl
  have hm : Reachable c.step.2 := .event .step hloaded
  generalize c.step.2 = m at hadded hm
  have hpsa : m.nextInstruction? = some .psa := by
    rw [hadded]
    exact nextInstruction?_of_fetch .psa rfl (rfl : _ = 0x0202) (by decide) (hcode 0x0202)
  have hpushed : m.step.2 = { m with
      registers := { acc := 7, pc := 0x0203, sp := 0x0105 }
      memory := m.memory.write 0x0104 7 } := by
    rw [step_snd hpsa, hadded]
    rfl
  have hpoa : m.step.2.nextInstruction? = some .poa := by
    have hfetch : (m.memory.write 0x0104 7).fetch 0x0203 = Opcode.poa.toByte := by
      refine (Memory.fetch_toNat _ 0x0203).trans ?_
      rw [Memory.read_write_of_ne _ _ (by decide), ← Memory.fetch_toNat, hadded]
      exact hcode 0x0203
    rw [hpushed]
    exact nextInstruction?_of_fetch .poa rfl (rfl : _ = 0x0203) (by decide) hfetch
  have hrun : StackRun m [.push 7, .pop] [m.step.2.step.2.registers.acc] m.step.2.step.2 := by
    have hops : (m.advance 1).bytePushes m.registers.acc = [.push 7] := by
      rw [hadded]
      rfl
    have hcons := StackRun.cons (.psa hpsa) (.cons (.poa hpoa) (.nil _))
    rw [hops] at hcons
    exact hcons
  refine ⟨m, _, hm, hrun, ?_⟩
  have hpops := congrArg Prod.fst (hm.refines_byteStack hrun).1
  have hroom : m.stackView.bytes.length < ByteStack.capacity := by
    rw [length_lt_capacity_iff hm.bounded.inStack, hadded]
    rfl
  rw [ByteStack.run, ByteStack.run, ByteStack.pop_push hroom] at hpops
  exact (List.head_eq_of_cons_eq hpops).symm

end Machine

end Tis80
