import Tis80.Proofs.Stops

/-!
# Fetching an instruction

A machine takes an instruction from memory one byte at a time: the opcode first, and then as many bytes
as its operands have. Each byte moves the program counter on by one. What comes of it is the
instruction that stands there, with the program counter behind it:

    fetchInstruction m = (some i, m.advance i.size)                     (fetchInstruction_of_some)

Fetching is the inverse of encoding. An encoding that stands in memory is fetched as the instruction it
encodes, and whatever is fetched has the bytes that were taken as its encoding, also where they run
past the end of memory:

    m.Holds pc i.encode → m.instructionAt pc = some i                           (Holds.instructionAt)
    m.instructionAt pc = some i → i.encode = [m.fetch pc, m.fetch (pc + 1), …]        (encode_of_some)
-/

namespace Tis80

namespace Machine

variable {σ : Type}

/-! ## Algorithm -/

/-- Takes the byte at the program counter. -/
def fetchByte : StateM (Machine σ) Byte :=
  fun m => (m.memory.fetch m.registers.pc, m.advance 1)

def fetchRegister : StateM (Machine σ) Register :=
  return ⟨← fetchByte⟩

/-- Takes an address, high byte first. -/
def fetchLocation : StateM (Machine σ) Address := do
  let high ← fetchByte
  let low ← fetchByte
  return Address.ofBytes high low

/-- Takes the operands that an opcode asks for, in their order. -/
def fetchOperands : Opcode → StateM (Machine σ) Instruction
  | .add => return .add (← fetchRegister)
  | .addi => return .addi (← fetchByte)
  | .sub => return .sub (← fetchRegister)
  | .subi => return .subi (← fetchByte)
  | .sil => return .sil
  | .sir => return .sir
  | .and => return .and (← fetchRegister)
  | .or => return .or (← fetchRegister)
  | .not => return .not
  | .xor => return .xor (← fetchRegister)
  | .jmp => return .jmp (← fetchLocation)
  | .jeq => return .jeq (← fetchLocation)
  | .jne => return .jne (← fetchLocation)
  | .jgt => return .jgt (← fetchLocation)
  | .jlt => return .jlt (← fetchLocation)
  | .jfg => return .jfg (← fetchByte) (← fetchLocation)
  | .ldr => return .ldr (← fetchLocation) (← fetchRegister)
  | .str => return .str (← fetchRegister) (← fetchLocation)
  | .mov => return .mov (← fetchRegister) (← fetchRegister)
  | .movi => return .movi (← fetchByte) (← fetchRegister)
  | .tar => return .tar (← fetchRegister)
  | .tra => return .tra (← fetchRegister)
  | .inr => return .inr (← fetchLocation) (← fetchRegister)
  | .inw => return .inw (← fetchRegister) (← fetchLocation)
  | .dsk => return .dsk (← fetchLocation)
  | .movm => return .movm (← fetchLocation) (← fetchLocation)
  | .int => return .int (← fetchByte)
  | .hlt => return .hlt
  | .cll => return .cll (← fetchLocation)
  | .crn => return .crn
  | .pmd => return .pmd
  | .ein => return .ein
  | .din => return .din
  | .cfg => return .cfg (← fetchByte)
  | .psa => return .psa
  | .poa => return .poa
  | .psr => return .psr (← fetchRegister)
  | .por => return .por (← fetchRegister)

/-- Takes an instruction; nothing is taken behind a byte that is no opcode. -/
def fetchInstruction : StateM (Machine σ) (Option Instruction) := do
  match Opcode.ofByte? (← fetchByte) with
  | none => return none
  | some op => return some (← fetchOperands op)

end Machine

/-! ## Encodings in memory -/

namespace Instruction

theorem encode_instruction (op : Opcode) (b : Nat → Byte) :
    (op.instruction b).encode =
      op.toByte :: (List.range ((op.instruction b).size - 1)).map b := by
  cases op <;> simp [Opcode.instruction, encode, size, opcode, operands, Operand.bytes, List.range_succ]

/-- The bytes an instruction is read off are its encoding. -/
theorem encode_of_decode? {b : Nat → Byte} {i : Instruction} (h : decode? b = some i) :
    i.encode = (List.range i.size).map b := by
  unfold decode? at h
  obtain ⟨op, hop, rfl⟩ := Option.map_eq_some_iff.mp h
  rw [Opcode.ofByte?_eq_some_iff] at hop
  have hpos := (op.instruction fun k => b (k + 1)).size_pos
  obtain ⟨n, hn⟩ := Nat.exists_eq_succ_of_ne_zero (Nat.ne_of_gt hpos)
  rw [encode_instruction, hn, List.range_succ_eq_map, List.map_cons, List.map_map, hop]
  rfl

end Instruction

namespace Memory

/-- The bytes stand in memory from `a` on, and all of them before its end. -/
def Holds (m : Memory) (a : Nat) (bytes : List Byte) : Prop :=
  a + bytes.length ≤ memorySize ∧ ∀ k (h : k < bytes.length), m.fetch (a + k) = bytes[k]

theorem holds_writeAll_consecutive (m : Memory) {a : Address} {bytes : List Byte}
    (hfit : a.toNat + bytes.length ≤ memorySize) :
    (m.writeAll (consecutive a bytes)).Holds a.toNat bytes := by
  refine ⟨hfit, fun k hk => ?_⟩
  rw [← Address.toNat_add_ofNat (by omega), fetch_toNat, read_writeAll_consecutive m a bytes hfit hk]

theorem Holds.left {m : Memory} {a : Nat} {bytes more : List Byte} (h : m.Holds a (bytes ++ more)) :
    m.Holds a bytes := by
  obtain ⟨hfit, hbytes⟩ := h
  rw [List.length_append] at hfit
  refine ⟨by omega, fun k hk => ?_⟩
  rw [hbytes k (by rw [List.length_append]; omega), List.getElem_append_left hk]

theorem Holds.right {m : Memory} {a : Nat} {bytes more : List Byte} (h : m.Holds a (bytes ++ more)) :
    m.Holds (a + bytes.length) more := by
  obtain ⟨hfit, hbytes⟩ := h
  rw [List.length_append] at hfit
  refine ⟨by omega, fun k hk => ?_⟩
  rw [Nat.add_assoc, hbytes (bytes.length + k) (by rw [List.length_append]; omega),
    List.getElem_append_right (Nat.le_add_right _ _)]
  simp only [Nat.add_sub_cancel_left]

theorem Holds.instructionAt {m : Memory} {pc : Nat} {i : Instruction} (h : m.Holds pc i.encode) :
    m.instructionAt pc = some i := by
  apply Instruction.decode?_congr (Instruction.decode?_encode i [])
  intro k hk
  replace hk : k < i.encode.length := hk
  rw [List.append_nil, List.getD_eq_getElem?_getD, List.getElem?_eq_getElem hk, h.2 k hk]
  rfl

theorem encode_of_some {m : Memory} {pc : Nat} {i : Instruction} (h : m.instructionAt pc = some i) :
    i.encode = (List.range i.size).map fun k => m.fetch (pc + k) :=
  Instruction.encode_of_decode? h

end Memory

namespace Machine

/-! ## Byte by byte -/

section Fetching

variable {σ : Type}

/-- A machine that is not halted executes the encoding that stands at its program counter. -/
theorem nextInstruction?_of_holds {m : Machine σ} {i : Instruction} (hrunning : m.isHalted = false)
    (hstored : m.memory.Holds m.registers.pc i.encode) : m.nextInstruction? = some i := by
  have hfit := hstored.1
  have hpos : 0 < i.encode.length := i.size_pos
  have hpc : ¬ memorySize ≤ m.registers.pc := by omega
  rw [nextInstruction?, if_neg (by simp [hrunning, hpc]), hstored.instructionAt]

/-- The bytes that follow an opcode are taken one after the other, and no more of them than the
instruction has. -/
theorem fetchOperands_eq (op : Opcode) (m : Machine σ) :
    fetchOperands op m =
      (op.instruction (fun k => m.memory.fetch (m.registers.pc + k)),
        m.advance ((op.instruction fun k => m.memory.fetch (m.registers.pc + k)).size - 1)) := by
  cases op <;> rfl

theorem fetchInstruction_eq (m : Machine σ) :
    fetchInstruction m = match Opcode.ofByte? (m.memory.fetch m.registers.pc) with
      | none => (none, m.advance 1)
      | some op =>
        (some (fetchOperands op (m.advance 1)).1, (fetchOperands op (m.advance 1)).2) := by
  show (match Opcode.ofByte? (m.memory.fetch m.registers.pc) with
    | none => return none
    | some op => return some (← fetchOperands op) : StateM (Machine σ) (Option Instruction))
      (m.advance 1) = _
  cases Opcode.ofByte? (m.memory.fetch m.registers.pc) with
  | none => rfl
  | some op => rfl

theorem fetchInstruction_of_some {m : Machine σ} {i : Instruction}
    (h : m.memory.instructionAt m.registers.pc = some i) :
    fetchInstruction m = (some i, m.advance i.size) := by
  unfold Memory.instructionAt Instruction.decode? at h
  obtain ⟨op, hop, rfl⟩ := Option.map_eq_some_iff.mp h
  replace hop : Opcode.ofByte? (m.memory.fetch m.registers.pc) = some op := hop
  -- the bytes behind the opcode, seen from where the opcode leaves the machine
  have hahead : (fun k => (m.advance 1).memory.fetch ((m.advance 1).registers.pc + k)) =
      fun k => m.memory.fetch (m.registers.pc + (k + 1)) := by
    funext k
    show m.memory.fetch (m.registers.pc + 1 + k) = _
    rw [Nat.add_assoc, Nat.add_comm 1 k]
  rw [fetchInstruction_eq, hop]
  simp only [fetchOperands_eq, hahead]
  generalize (op.instruction fun k => m.memory.fetch (m.registers.pc + (k + 1))) = i
  have hpos := i.size_pos
  have hsize : m.registers.pc + 1 + (i.size - 1) = m.registers.pc + i.size := by omega
  simp only [advance, hsize]

theorem fetchInstruction_of_none {m : Machine σ}
    (h : m.memory.instructionAt m.registers.pc = none) :
    fetchInstruction m = (none, m.advance 1) := by
  have hop : Opcode.ofByte? (m.memory.fetch m.registers.pc) = none := Option.map_eq_none_iff.mp h
  rw [fetchInstruction_eq, hop]

end Fetching

variable {σ : Type} [ByteSource σ]

/-- A step executes the instruction that is fetched, from where fetching has left the machine. -/
theorem step_eq_fetch {m : Machine σ} (hrunning : m.isHalted = false)
    (hpc : m.registers.pc < memorySize) :
    m.step = match fetchInstruction m with
      | (none, n) =>
        (.error (.unknownInstruction (m.memory.fetch m.registers.pc) m.registers.pc), n)
      | (some i, n) => (if (n.execute i).isHalted then .error .ended else .ok (), n.execute i) := by
  have hin := Nat.not_le.mpr hpc
  cases h : m.memory.instructionAt m.registers.pc with
  | none =>
    rw [fetchInstruction_of_none h]
    simp only [step, hrunning, hin, h, Bool.false_eq_true, if_false]
  | some i =>
    rw [fetchInstruction_of_some h]
    simp only [step, hrunning, hin, h, Bool.false_eq_true, if_false]

/-! ## Top theorem -/

/-- Fetching inverts encoding, in both directions. An encoding that stands at the program counter is
fetched as the instruction it encodes; and whatever opcode stands there, the instruction that is fetched
has as its encoding the bytes from the program counter on, which are zero past the end of memory.
Either way the program counter moves on by the length of the encoding. Steps execute what is fetched. -/
theorem fetching_inverts_encoding (m : Machine σ) :
    (∀ i : Instruction, m.memory.Holds m.registers.pc i.encode →
      fetchInstruction m = (some i, { m with registers := { m.registers with
        pc := m.registers.pc + i.encode.length } })) ∧
    (∀ op : Opcode, m.memory.fetch m.registers.pc = op.toByte →
      ∃ i : Instruction, i.opcode = op ∧
        i.encode = (List.range i.encode.length).map (fun k => m.memory.fetch (m.registers.pc + k)) ∧
        fetchInstruction m = (some i, { m with registers := { m.registers with
          pc := m.registers.pc + i.encode.length } })) ∧
    (∀ k, memorySize ≤ k → m.memory.fetch k = 0) ∧
    (m.isHalted = false → m.registers.pc < memorySize →
      m.step = match fetchInstruction m with
        | (none, n) =>
          (.error (.unknownInstruction (m.memory.fetch m.registers.pc) m.registers.pc), n)
        | (some i, n) => (if (n.execute i).isHalted then .error .ended else .ok (), n.execute i)) := by
  refine ⟨?_, ?_, fun k hk => Memory.fetch_of_le _ hk, step_eq_fetch⟩
  · intro i hstored
    exact fetchInstruction_of_some hstored.instructionAt
  · intro op hop
    have hsome : m.memory.instructionAt m.registers.pc =
        some (op.instruction fun k => m.memory.fetch (m.registers.pc + (k + 1))) := by
      simp only [Memory.instructionAt, Instruction.decode?, Nat.add_zero, hop, Opcode.ofByte?_toByte,
        Option.map_some]
    exact ⟨_, Instruction.opcode_instruction op _, Memory.encode_of_some hsome,
      fetchInstruction_of_some hsome⟩

/-- The last five cells hold an instruction with two addresses. The very last one, taken for an opcode,
has its operand past the end of memory. -/
def lastCells : Machine Shelf where
  registers := { pc := 0xFFFB }
  memory := Memory.blank.writeAll (consecutive 0xFFFB [Opcode.movm.toByte, 0xAB, 0xCD, 0x03, 0x00])
  drive := {}

theorem fetching_inverts_of_lastCells :
    fetchInstruction lastCells = (some (.movm 0xABCD 0x0300), lastCells.advance 5) ∧
    ∃ i : Instruction, i.encode = [0x00, 0x00] ∧
      fetchInstruction (lastCells.advance 4) = (some i, lastCells.advance 6) := by
  have hstored : lastCells.memory.Holds 0xFFFB [Opcode.movm.toByte, 0xAB, 0xCD, 0x03, 0x00] :=
    Memory.holds_writeAll_consecutive Memory.blank (a := 0xFFFB) (by decide)
  refine ⟨(fetching_inverts_encoding lastCells).1 (.movm 0xABCD 0x0300) hstored, ?_⟩
  have hlast : lastCells.memory.fetch 0xFFFF = Opcode.add.toByte := hstored.2 4 (by decide)
  obtain ⟨-, hconverse, hzero, -⟩ := fetching_inverts_encoding (lastCells.advance 4)
  obtain ⟨i, hi, hencode, hfetch⟩ := hconverse .add hlast
  cases i with
  | add r =>
    refine ⟨_, ?_, hfetch⟩
    rw [hencode]
    show [lastCells.memory.fetch 0xFFFF, lastCells.memory.fetch 0x10000] = _
    have hpast : lastCells.memory.fetch 0x10000 = 0 := hzero 0x10000 (by decide)
    rw [hlast, hpast]
    rfl
  | _ => cases hi

end Machine

end Tis80
