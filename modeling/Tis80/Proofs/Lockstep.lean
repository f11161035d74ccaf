import Mathlib.Data.List.Forall2
import Tis80.Proofs.Budgets
import Tis80.Proofs.Interrupts

/-!
# Machines in lockstep

Two machines that differ only in what neither of them looks at do the same, step by step. What may
differ is a `Tolerance`: some cells, the shield, the drive as long as it hands out the same bytes. All
else is equal (`Alike`), and stays so:

    t.Alike m n → t.Discreet m → m.step.1 = n.step.1 ∧ t.Alike m.step.2 n.step.2         (Alike.step)

A machine is discreet if its next step reads no cell that may differ. The cells a step reads are those
of the instruction, and those the instruction looks at: what it loads from, the pointers it follows and
the name it opens. Vectors and popped bytes are read too, so no cell below the kernel may differ.
-/

namespace Tis80

/-- What a front end asks of a machine. -/
inductive Operation
  | step
  | runFor (n : Nat)
  | load (name : String)
  | dispatch (id : Byte)
  | keyDown (key : Byte)

/-- What the front end is told. -/
inductive Answer
  | stepped (result : Except Stop Unit)
  | ran (result : Except Stop Nat)
  | loaded (result : Except LoadFault Rom.Report)
  | done

/-- The loads have the same outcome, but for the fault that kept a ROM from being opened. -/
inductive SameLoad (fault : IoFault → IoFault → Prop) :
    Except LoadFault Rom.Report → Except LoadFault Rom.Report → Prop
  | same (result : Except LoadFault Rom.Report) : SameLoad fault result result
  | unreadable {name : String} {c c' : IoFault} : fault c c' →
      SameLoad fault (.error (.unreadable name c)) (.error (.unreadable name c'))

inductive SameAnswer (fault : IoFault → IoFault → Prop) : Answer → Answer → Prop
  | same (answer : Answer) : SameAnswer fault answer answer
  | loaded {r r' : Except LoadFault Rom.Report} : SameLoad fault r r' →
      SameAnswer fault (.loaded r) (.loaded r')

namespace Machine

variable {σ : Type} [ByteSource σ]

/-- Carries out an operation. -/
def perform (m : Machine σ) : Operation → Answer × Machine σ
  | .step => (.stepped m.step.1, m.step.2)
  | .runFor n => (.ran (m.runFor n).1, (m.runFor n).2)
  | .load name => (.loaded (m.load name).1, (m.load name).2)
  | .dispatch id => (.done, m.dispatch id)
  | .keyDown key => (.done, m.keyDown key)

/-- The operations of a session, each with the machine that is asked. -/
def occasions (m : Machine σ) : List Operation → List (Machine σ × Operation)
  | [] => []
  | op :: ops => (m, op) :: (m.perform op).2.occasions ops

/-- The answers of a session, each with the machine after it. -/
def trace (m : Machine σ) (ops : List Operation) : List (Answer × Machine σ) :=
  (m.occasions ops).map fun x => x.1.perform x.2

/-- The machine after a session. -/
def performAll (m : Machine σ) (ops : List Operation) : Machine σ :=
  ops.foldl (fun m op => (m.perform op).2) m

/-- The machines that an operation takes a step from. -/
inductive StepsFrom (m : Machine σ) : Operation → Machine σ → Prop
  | step : StepsFrom m .step m
  | runFor {n k : Nat} {s : Machine σ} : k < n → Completes k m s → StepsFrom m (.runFor n) s

/-- The cells an instruction looks at, apart from its own, vectors and the stack. The name of a ROM
is looked at up to its terminator. -/
def LooksAt (m : Machine σ) (a : Address) : Instruction → Prop
  | .ldr source _ => a = source
  | .inr pointer _ => a = pointer ∨ a = pointer + 1 ∨ a = m.memory.readAddress pointer
  | .inw _ pointer => a = pointer ∨ a = pointer + 1
  | .dsk name => name.toNat ≤ a.toNat ∧ a.toNat ≤ name.toNat + (m.memory.stringAt name).length
  | _ => False

/-- The next step reads the cell: as an opcode, as part of an operand, or because the instruction
looks at it. -/
def StepReads (m : Machine σ) (a : Address) : Prop :=
  m.isHalted = false ∧ (a.toNat = m.registers.pc ∨ ∃ i, m.nextInstruction? = some i ∧
    (m.registers.pc ≤ a.toNat ∧ a.toNat < m.registers.pc + i.size ∨ m.LooksAt a i))

/-- The next step opens the ROM. -/
def StepOpens (m : Machine σ) (name : String) : Prop :=
  ∃ a, m.nextInstruction? = some (.dsk a) ∧ name = lossyText (m.memory.stringAt a)

theorem stepOpens_iff_of_dsk {σ : Type} {m : Machine σ} {a : Address}
    (hnext : m.nextInstruction? = some (.dsk a)) (name : String) :
    m.StepOpens name ↔ name = lossyText (m.memory.stringAt a) := by
  constructor
  · rintro ⟨c, hc, rfl⟩
    rw [hnext] at hc
    cases hc
    rfl
  · rintro rfl
    exact ⟨a, hnext, rfl⟩

theorem looksAt_advance {σ : Type} {m : Machine σ} {k : Nat} {a : Address} {i : Instruction} :
    (m.advance k).LooksAt a i ↔ m.LooksAt a i := by
  cases i <;> exact Iff.rfl

end Machine

open ByteSource in
/-- Both drives open the ROM and hand out the same bytes, or neither does. -/
inductive OpensAlike {σ τ : Type} [ByteSource σ] [ByteSource τ] (drive : σ → τ → Prop)
    (fault : IoFault → IoFault → Prop) (s : σ) (u : τ) (name : String) : Prop
  | opened {o : σ} {p : τ} : openRom s name = (.ok (), o) → openRom u name = (.ok (), p) →
      (drain o).1 = (drain p).1 → drive (close (drain o).2) (close (drain p).2) →
      OpensAlike drive fault s u name
  | refused {c c' : IoFault} {o : σ} {p : τ} : openRom s name = (.error c, o) →
      openRom u name = (.error c', p) → fault c c' → drive o p → OpensAlike drive fault s u name

theorem opensAlike_self {σ : Type} [ByteSource σ] (s : σ) (name : String) :
    OpensAlike Eq Eq s s name := by
  match hopen : ByteSource.openRom s name with
  | (.ok (), o) => exact .opened hopen hopen rfl rfl
  | (.error c, o) => exact .refused hopen hopen rfl rfl

theorem SameAnswer.eq {a b : Answer} (h : SameAnswer Eq a b) : a = b := by
  cases h with
  | same => rfl
  | loaded hload =>
    cases hload with
    | same => rfl
    | unreadable hfault => rw [hfault]

/-- What two machines may differ in without it making a difference. -/
structure Tolerance (σ τ : Type) [ByteSource σ] [ByteSource τ] where
  /-- Cells that may hold different bytes. -/
  cell : Address → Prop
  /-- How one shield may differ from the other. -/
  shield : Bool → Bool → Prop
  drive : σ → τ → Prop
  /-- How the faults may differ when a ROM cannot be opened. -/
  fault : IoFault → IoFault → Prop
  /-- The names that may be opened. -/
  name : String → Prop
  kernelOrigin_le : ∀ {a}, cell a → MemoryMap.kernelOrigin.toNat ≤ a.toNat
  shield_true : shield true true
  opensAlike : ∀ {s u x}, drive s u → name x → OpensAlike drive fault s u x

namespace Tolerance

/-- Nothing is to be shown where no cell may differ. -/
theorem kernelOrigin_le_of_false {a : Address} (h : False) :
    MemoryMap.kernelOrigin.toNat ≤ a.toNat := h.elim

/-- Machines with one and the same drive may differ in some cells and in the shield. -/
def sameDrive (σ : Type) [ByteSource σ] (cell : Address → Prop) (shield : Bool → Bool → Prop)
    (hcell : ∀ {a}, cell a → MemoryMap.kernelOrigin.toNat ≤ a.toNat) (hshield : shield true true) :
    Tolerance σ σ where
  cell := cell
  shield := shield
  drive := Eq
  fault := Eq
  name _ := True
  kernelOrigin_le := hcell
  shield_true := hshield
  opensAlike := by
    rintro s _ x rfl -
    exact opensAlike_self s x

variable {σ τ : Type} [ByteSource σ] [ByteSource τ]

/-- The machines differ in nothing but what is tolerated. -/
structure Alike (t : Tolerance σ τ) (m : Machine σ) (n : Machine τ) : Prop where
  general : m.registers.general = n.registers.general
  acc : m.registers.acc = n.registers.acc
  pc : m.registers.pc = n.registers.pc
  sp : m.registers.sp = n.registers.sp
  flags : m.registers.flags = n.registers.flags
  halted : m.registers.mode.halted = n.registers.mode.halted
  interruptible : m.registers.mode.interruptible = n.registers.mode.interruptible
  shield : t.shield m.registers.mode.shielded n.registers.mode.shielded
  memory : ∀ a, ¬ t.cell a → m.memory.read a = n.memory.read a
  drive : t.drive m.drive n.drive
  saving : m.savingFrame = n.savingFrame

/-- The cells that may differ lie above the stack pointer. -/
def Above (t : Tolerance σ τ) (m : Machine σ) : Prop :=
  ∀ a, t.cell a → m.registers.sp.toNat < a.toNat

/-- The next step meets nothing that may differ. -/
structure Discreet (t : Tolerance σ τ) (m : Machine σ) : Prop where
  unread : ∀ a, t.cell a → ¬ m.StepReads a
  above : t.Above m
  names : ∀ name, m.StepOpens name → t.name name

/-- The operation meets nothing that may differ, whichever steps it takes. -/
structure Allows (t : Tolerance σ τ) (m : Machine σ) (op : Operation) : Prop where
  discreet : ∀ s, m.StepsFrom op s → t.Discreet s
  names : ∀ name, op = .load name → t.name name

end Tolerance

/-! ## What is read off memory -/

theorem Opcode.instruction_congr (op : Opcode) {b c : Nat → Byte}
    (h : ∀ k, k + 1 < (op.instruction b).size → b k = c k) :
    op.instruction c = op.instruction b := by
  -- the number of operand bytes depends on the opcode alone
  have hbyte : ∀ k n, (op.instruction b).size = n → k + 1 < n → b k = c k := by
    rintro k _ rfl hk
    exact h k hk
  cases op with
  | sil | sir | not | hlt | crn | pmd | ein | din | psa | poa => rfl
  | add | addi | sub | subi | and | or | xor | tar | tra | int | cfg | psr | por =>
    simp only [instruction, hbyte 0 2 rfl (by decide)]
  | jmp | jeq | jne | jgt | jlt | mov | movi | dsk | cll =>
    simp only [instruction, hbyte 0 3 rfl (by decide), hbyte 1 3 rfl (by decide)]
  | jfg | ldr | str | inr | inw =>
    simp only [instruction, hbyte 0 4 rfl (by decide), hbyte 1 4 rfl (by decide),
      hbyte 2 4 rfl (by decide)]
  | movm =>
    simp only [instruction, hbyte 0 5 rfl (by decide), hbyte 1 5 rfl (by decide),
      hbyte 2 5 rfl (by decide), hbyte 3 5 rfl (by decide)]

/-- An instruction is read off as many bytes as it takes. -/
theorem Instruction.decode?_congr {b c : Nat → Byte} {i : Instruction} (h : decode? b = some i)
    (hbytes : ∀ k, k < i.size → b k = c k) : decode? c = some i := by
  unfold decode? at h ⊢
  obtain ⟨op, hop, rfl⟩ := Option.map_eq_some_iff.mp h
  rw [← hbytes 0 (size_pos _), hop, Option.map_some,
    Opcode.instruction_congr op fun k hk => hbytes (k + 1) hk]

theorem Instruction.decode?_eq_none {b c : Nat → Byte} (h : decode? b = none) (hbytes : b 0 = c 0) :
    decode? c = none := by
  unfold decode? at h ⊢
  rw [Option.map_eq_none_iff] at h ⊢
  rw [← hbytes, h]

theorem Machine.step_of_nextInstruction?_none {σ : Type} [ByteSource σ] {m : Machine σ}
    (h : m.nextInstruction? = none) :
    m.step =
      if m.isHalted then (.error .ended, m)
      else if memorySize ≤ m.registers.pc then (.error (.outOfBounds m.registers.pc), m)
      else (.error (.unknownInstruction (m.memory.fetch m.registers.pc) m.registers.pc),
        m.advance 1) := by
  unfold step
  by_cases hhalted : m.isHalted = true
  · rw [if_pos hhalted, if_pos hhalted]
  · rw [if_neg hhalted, if_neg hhalted]
    by_cases hpc : memorySize ≤ m.registers.pc
    · rw [if_pos hpc, if_pos hpc]
    · have hnone : m.memory.instructionAt m.registers.pc = none := by
        rwa [nextInstruction?, if_neg (not_or.mpr ⟨hhalted, hpc⟩)] at h
      rw [if_neg hpc]
      dsimp only
      rw [if_neg hpc, hnone]

namespace Tolerance.Alike

variable {σ τ : Type} [ByteSource σ] [ByteSource τ] {t : Tolerance σ τ} {m : Machine σ} {n : Machine τ}

theorem get (h : t.Alike m n) (r : Register) : m.registers.get r = n.registers.get r := by
  simp only [Registers.get, h.general]

theorem isHalted (h : t.Alike m n) : m.isHalted = n.isHalted := h.halted

theorem readAddress (h : t.Alike m n) {a : Address} (ha : ¬ t.cell a) (hnext : ¬ t.cell (a + 1)) :
    m.memory.readAddress a = n.memory.readAddress a := by
  rw [Memory.readAddress, Memory.readAddress, h.memory a ha, h.memory _ hnext]

theorem fetch (h : t.Alike m n) {k : Nat} (hk : ∀ a, t.cell a → a.toNat ≠ k) :
    m.memory.fetch k = n.memory.fetch k := by
  by_cases hin : k < memorySize
  · have hnat : (UInt16.ofNat k).toNat = k := by
      rw [UInt16.toNat_ofNat']
      exact Nat.mod_eq_of_lt hin
    rw [← hnat, Memory.fetch_toNat, Memory.fetch_toNat]
    exact h.memory _ fun hcell => hk _ hcell hnat
  · rw [Memory.fetch_of_le _ (Nat.not_lt.mp hin), Memory.fetch_of_le _ (Nat.not_lt.mp hin)]

/-! ## Small updates -/

theorem writeAll (h : t.Alike m n) (ws : List (Address × Byte)) :
    t.Alike { m with memory := m.memory.writeAll ws } { n with memory := n.memory.writeAll ws } := by
  refine { h with memory := ?_ }
  intro a ha
  show (m.memory.writeAll ws).read a = (n.memory.writeAll ws).read a
  rw [Memory.read_writeAll, Memory.read_writeAll, h.memory a ha]

theorem write (h : t.Alike m n) {a b : Address} {v w : Byte} (ha : a = b) (hv : v = w) :
    t.Alike (m.write a v) (n.write b w) := by
  subst ha hv
  exact h.writeAll [(a, v)]

theorem setAcc (h : t.Alike m n) {v w : Byte} (hv : v = w) : t.Alike (m.setAcc v) (n.setAcc w) :=
  { h with acc := hv }

theorem setRegister (h : t.Alike m n) (r : Register) {v w : Byte} (hv : v = w) :
    t.Alike (m.setRegister r v) (n.setRegister r w) := by
  refine { h with general := ?_ }
  show m.registers.general.setIfInBounds r.index.toNat v =
    n.registers.general.setIfInBounds r.index.toNat w
  rw [h.general, hv]

theorem setFlags (h : t.Alike m n) {fs gs : Flags} (hfs : fs = gs) :
    t.Alike (m.setFlags fs) (n.setFlags gs) :=
  { h with flags := hfs }

theorem setFlag (h : t.Alike m n) (f : Flag) : t.Alike (m.setFlag f) (n.setFlag f) :=
  h.setFlags (by rw [h.flags])

theorem setPointer (h : t.Alike m n) {sp sp' : Address} (hsp : sp = sp') :
    t.Alike (m.setPointer sp) (n.setPointer sp') :=
  { h with sp := hsp }

theorem advance (h : t.Alike m n) (k : Nat) : t.Alike (m.advance k) (n.advance k) :=
  { h with pc := congrArg (· + k) h.pc }

theorem jump (h : t.Alike m n) (target : Address) : t.Alike (m.jump target) (n.jump target) :=
  { h with pc := rfl }

theorem jumpIf (h : t.Alike m n) {taken taken' : Bool} (htaken : taken = taken') (target : Address) :
    t.Alike (m.jumpIf taken target) (n.jumpIf taken' target) := by
  subst htaken
  unfold Machine.jumpIf
  split
  · exact h.jump target
  · exact h

/-! ## Stack, calls and interrupts -/

theorem frame (h : t.Alike m n) : m.frame = n.frame := by
  simp only [Machine.frame, h.pc, h.acc, h.general]

theorem room (h : t.Alike m n) : m.room = n.room := by
  rw [Machine.room, Machine.room, h.sp]

theorem call (h : t.Alike m n) (target : Address) : t.Alike (m.call target) (n.call target) := by
  have hwritten := h.writeAll (consecutive m.registers.sp (m.frame.toBytes.take m.room))
  rw [Machine.call_eq, Machine.call_eq, ← h.frame, ← h.room, ← h.sp]
  exact { hwritten with
    pc := rfl
    sp := rfl
    flags := by rw [h.flags] }

/-- Vectors lie below the kernel, so both machines find the same. -/
theorem vector (h : t.Alike m n) {id : Byte} (hid : id ≤ 127) : m.vector id = n.vector id := by
  have hlow : ∀ k, k ≤ 255 → m.memory.read (UInt16.ofNat k) = n.memory.read (UInt16.ofNat k) := by
    intro k hk
    refine h.memory _ fun hcell => ?_
    have hkernel := t.kernelOrigin_le hcell
    rw [MemoryMap.toNat_kernelOrigin, UInt16.toNat_ofNat'] at hkernel
    omega
  have hid' : id.toNat ≤ 127 := UInt8.le_iff_toNat_le.mp hid
  rw [Machine.vector, Machine.vector, hlow _ (by omega), hlow _ (by omega)]

theorem hasHandler_iff (h : t.Alike m n) (id : Byte) : m.HasHandler id ↔ n.HasHandler id := by
  unfold Machine.HasHandler
  rw [h.interruptible]
  exact and_congr_right fun _ => and_congr_right fun hid => by rw [h.vector hid]

theorem dispatch (h : t.Alike m n) (id : Byte) : t.Alike (m.dispatch id) (n.dispatch id) := by
  by_cases hhandler : m.HasHandler id
  · rw [Machine.dispatch_of_hasHandler hhandler,
      Machine.dispatch_of_hasHandler ((h.hasHandler_iff id).mp hhandler), h.vector hhandler.2.1]
    exact h.call _
  · rw [Machine.dispatch_of_not_hasHandler hhandler,
      Machine.dispatch_of_not_hasHandler (mt (h.hasHandler_iff id).mpr hhandler)]
    exact h

theorem raise (h : t.Alike m n) (f : Flag) : t.Alike (m.raise f) (n.raise f) := by
  unfold Machine.raise
  rw [h.saving]
  split
  · exact h.setFlag f
  · exact (h.setFlag f).dispatch f.interrupt.id

theorem push (h : t.Alike m n) {v w : Byte} (hv : v = w) : t.Alike (m.push v) (n.push w) := by
  subst hv
  have hfull : m.stackFull = n.stackFull := by
    rw [Machine.stackFull, Machine.stackFull, h.sp]
  unfold Machine.push
  rw [hfull]
  split
  · exact h.raise .stackOverflow
  · exact (h.write h.sp rfl).setPointer (by rw [h.sp])

theorem accumulate (h : t.Alike m n) {x y : Option Byte} (hx : x = y) :
    t.Alike (m.accumulate x) (n.accumulate y) := by
  subst hx
  cases x with
  | some v => exact h.setAcc rfl
  | none => exact (h.setAcc rfl).raise .accOverflow

theorem pop (h : t.Alike m n) (hm : t.Above m) :
    m.pop.1 = n.pop.1 ∧ t.Alike m.pop.2 n.pop.2 ∧ t.Above m.pop.2 := by
  have hle : (Machine.poppedPointer m.registers.sp).toNat ≤ m.registers.sp.toNat := by
    unfold Machine.poppedPointer
    split
    · next hlt =>
      have hlt' : MemoryMap.stackBase.toNat < m.registers.sp.toNat := hlt
      rw [Address.toNat_sub_one (by omega)]
      omega
    · exact Nat.le_refl _
  have habove : t.Above m.pop.2 := fun a ha => Nat.lt_of_le_of_lt hle (hm a ha)
  refine ⟨?_, h.setPointer (by rw [h.sp]), habove⟩
  show m.memory.read _ = n.memory.read _
  rw [← h.sp]
  exact h.memory _ fun hcell => Nat.lt_irrefl _ (habove _ hcell)

theorem popBytes (h : t.Alike m n) (hm : t.Above m) (k : Nat) :
    (m.popBytes k).1 = (n.popBytes k).1 ∧ t.Alike (m.popBytes k).2 (n.popBytes k).2 := by
  induction k generalizing m n with
  | zero => exact ⟨rfl, h⟩
  | succ k ih =>
    obtain ⟨htop, hpopped, habove⟩ := h.pop hm
    obtain ⟨hbelow, hrest⟩ := ih hpopped habove
    refine ⟨?_, hrest⟩
    show (m.pop.2.popBytes k).1 ++ [m.pop.1] = (n.pop.2.popBytes k).1 ++ [n.pop.1]
    rw [hbelow, htop]

theorem restore (h : t.Alike m n) (f : Frame) : t.Alike (m.restore f) (n.restore f) :=
  { h with general := rfl, acc := rfl, pc := rfl }

theorem ret (h : t.Alike m n) (hm : t.Above m) : t.Alike m.ret n.ret := by
  obtain ⟨hbytes, hpopped⟩ := h.popBytes hm Frame.size
  unfold Machine.ret
  dsimp only
  rw [hbytes]
  exact hpopped.restore _

/-! ## Loads -/

theorem load (h : t.Alike m n) {name : String} (hname : t.name name) :
    SameLoad t.fault (m.load name).1 (n.load name).1 ∧ t.Alike (m.load name).2 (n.load name).2 := by
  cases t.opensAlike h.drive hname with
  | @opened o p ho hp hbytes hclosed =>
    simp only [Machine.load, ho, hp, ← hbytes]
    exact ⟨.same _, { h.writeAll _ with drive := hclosed }⟩
  | refused ho hp hfault hrefused =>
    simp only [Machine.load, ho, hp]
    exact ⟨.unreadable hfault, { h with drive := hrefused }⟩

theorem stringAt (h : t.Alike m n) {name : Address}
    (hname : ∀ a, t.cell a → ¬ m.LooksAt a (.dsk name)) :
    m.memory.stringAt name = n.memory.stringAt name :=
  Memory.stringAt_congr fun a hstart hstop => h.memory a fun hcell => hname a hcell ⟨hstart, hstop⟩

theorem loadNamed (h : t.Alike m n) {name : Address}
    (hcells : ∀ a, t.cell a → ¬ m.LooksAt a (.dsk name))
    (hname : t.name (lossyText (m.memory.stringAt name))) :
    t.Alike (m.loadNamed name) (n.loadNamed name) := by
  obtain ⟨hresult, hloaded⟩ := h.load hname
  rw [Machine.loadNamed_eq, Machine.loadNamed_eq, Machine.loadAt, Machine.loadAt,
    ← h.stringAt hcells]
  revert hresult hloaded
  generalize m.load (lossyText (m.memory.stringAt name)) = loaded
  generalize n.load (lossyText (m.memory.stringAt name)) = loaded'
  intro hresult hloaded
  obtain ⟨r, s⟩ := loaded
  obtain ⟨r', s'⟩ := loaded'
  cases hresult with
  | same =>
    cases r with
    | ok => exact hloaded
    | error => exact hloaded.raise .ioError
  | unreadable => exact hloaded.raise .ioError

/-! ## Steps -/

/-- An instruction does the same to both machines, if it looks at nothing that may differ. -/
theorem execute (h : t.Alike m n) (hm : t.Above m) (i : Instruction)
    (hlooks : ∀ a, t.cell a → ¬ m.LooksAt a i)
    (hnames : ∀ a, i = .dsk a → t.name (lossyText (m.memory.stringAt a))) :
    t.Alike (m.execute i) (n.execute i) := by
  cases i with
  | add r | sub r => exact h.accumulate (by rw [h.acc, h.get])
  | addi v | subi v => exact h.accumulate (by rw [h.acc])
  | sil | sir | not => exact h.setAcc (by rw [h.acc])
  | and r | or r | xor r => exact h.setAcc (by rw [h.acc, h.get])
  | jmp target => exact h.jump target
  | jeq target | jne target | jgt target => exact h.jumpIf (by rw [h.acc]) target
  | jlt => exact h
  | jfg code target => exact h.jumpIf (by rw [h.flags]) target
  | ldr source r =>
    exact h.setRegister r (h.memory _ fun hcell => hlooks _ hcell rfl)
  | str r target => exact h.write rfl (h.get r)
  | mov source target => exact h.setRegister target (h.get source)
  | movi v r => exact h.setRegister r rfl
  | tar r => exact h.setRegister r h.acc
  | tra r => exact h.setAcc (h.get r)
  | inr pointer r =>
    have hpointer := h.readAddress (a := pointer) (fun hcell => hlooks _ hcell (.inl rfl))
      fun hcell => hlooks _ hcell (.inr (.inl rfl))
    refine h.setRegister r ?_
    rw [← hpointer]
    exact h.memory _ fun hcell => hlooks _ hcell (.inr (.inr rfl))
  | inw r pointer =>
    have hpointer := h.readAddress (a := pointer) (fun hcell => hlooks _ hcell (.inl rfl))
      fun hcell => hlooks _ hcell (.inr rfl)
    exact h.write hpointer (h.get r)
  | dsk name => exact h.loadNamed hlooks (hnames name rfl)
  | movm value pointer => exact h.writeAll [(pointer, value.high), (pointer + 1, value.low)]
  | int id => exact h.dispatch id
  | hlt => exact { h with halted := rfl }
  | cll target => exact h.call target
  | crn => exact h.ret hm
  | pmd => exact { h with shield := t.shield_true }
  | ein | din => exact { h with interruptible := rfl }
  | cfg code =>
    rw [Machine.execute, Machine.execute]
    cases Flag.ofCode? code with
    | none => exact h
    | some f => exact h.setFlags (by rw [h.flags])
  | psa => exact h.push h.acc
  | psr r => exact h.push (h.get r)
  | poa =>
    obtain ⟨htop, hpopped, -⟩ := h.pop hm
    exact hpopped.setAcc htop
  | por r =>
    obtain ⟨htop, hpopped, -⟩ := h.pop hm
    exact hpopped.setRegister r htop

/-- Both machines are at the same instruction, as far as it is read. -/
theorem nextInstruction? (h : t.Alike m n) (hread : ∀ a, t.cell a → ¬ m.StepReads a) :
    m.nextInstruction? = n.nextInstruction? := by
  by_cases hstop : m.isHalted = true ∨ memorySize ≤ m.registers.pc
  · have hstop' : n.isHalted = true ∨ memorySize ≤ n.registers.pc := by rwa [← h.isHalted, ← h.pc]
    rw [Machine.nextInstruction?, Machine.nextInstruction?, if_pos hstop, if_pos hstop']
  · have hstop' : ¬ (n.isHalted = true ∨ memorySize ≤ n.registers.pc) := by
      rwa [← h.isHalted, ← h.pc]
    have hrunning : m.isHalted = false := by simpa using (not_or.mp hstop).1
    have hm : m.nextInstruction? = m.memory.instructionAt m.registers.pc := if_neg hstop
    have hn : n.nextInstruction? = n.memory.instructionAt n.registers.pc := if_neg hstop'
    rw [hn, ← h.pc]
    cases hi : m.nextInstruction? with
    | none =>
      rw [hi] at hm
      refine (Instruction.decode?_eq_none hm.symm (h.fetch fun a hcell ha => ?_)).symm
      exact hread a hcell ⟨hrunning, .inl ha⟩
    | some i =>
      rw [hi] at hm
      refine (Instruction.decode?_congr hm.symm fun k hk => h.fetch fun a hcell ha => ?_).symm
      exact hread a hcell ⟨hrunning, .inr ⟨i, hi, .inl ⟨by omega, by omega⟩⟩⟩

theorem step (h : t.Alike m n) (hm : t.Discreet m) :
    m.step.1 = n.step.1 ∧ t.Alike m.step.2 n.step.2 := by
  have hnext := h.nextInstruction? hm.unread
  cases hi : m.nextInstruction? with
  | some i =>
    have hexecute := (h.advance i.size).execute hm.above i
      (fun a hcell hlooks => hm.unread a hcell
        ⟨Machine.isHalted_of_nextInstruction? hi,
          .inr ⟨i, hi, .inr (Machine.looksAt_advance.mp hlooks)⟩⟩)
      (fun a ha => hm.names _ ⟨a, ha ▸ hi, rfl⟩)
    rw [Machine.step_of_nextInstruction? hi, Machine.step_of_nextInstruction? (hnext ▸ hi)]
    refine ⟨?_, hexecute⟩
    rw [hexecute.isHalted]
  | none =>
    rw [Machine.step_of_nextInstruction?_none hi, Machine.step_of_nextInstruction?_none (hnext ▸ hi),
      ← h.isHalted, ← h.pc]
    split
    · exact ⟨rfl, h⟩
    · next hrunning =>
      split
      · exact ⟨rfl, h⟩
      · refine ⟨?_, h.advance 1⟩
        dsimp only
        rw [h.fetch fun a hcell ha => hm.unread a hcell ⟨by simpa using hrunning, .inl ha⟩]

theorem runFor (h : t.Alike m n) (k : Nat)
    (hm : ∀ j s, j < k → Machine.Completes j m s → t.Discreet s) :
    (m.runFor k).1 = (n.runFor k).1 ∧ t.Alike (m.runFor k).2 (n.runFor k).2 := by
  induction k generalizing m n with
  | zero => exact ⟨rfl, h⟩
  | succ k ih =>
    obtain ⟨hresult, hnext⟩ := h.step (hm 0 m (Nat.succ_pos k) (.zero m))
    cases hstep : m.step with
    | mk result m' =>
      cases hstep' : n.step with
      | mk result' n' =>
        rw [hstep, hstep'] at hresult hnext
        obtain rfl : result = result' := hresult
        cases result with
        | error stop =>
          rw [Machine.runFor_of_error hstep, Machine.runFor_of_error hstep']
          exact ⟨rfl, hnext⟩
        | ok =>
          obtain ⟨hcount, hend⟩ := ih hnext fun j s hj hs => hm (j + 1) s (by omega) (.succ hstep hs)
          rw [Machine.runFor_of_ok hstep, Machine.runFor_of_ok hstep', hcount]
          exact ⟨rfl, hend⟩

/-! ## Operations -/

theorem perform (h : t.Alike m n) {op : Operation} (hop : t.Allows m op) :
    SameAnswer t.fault (m.perform op).1 (n.perform op).1 ∧
      t.Alike (m.perform op).2 (n.perform op).2 := by
  cases op with
  | step =>
    obtain ⟨hresult, hnext⟩ := h.step (hop.discreet m .step)
    simp only [Machine.perform, hresult]
    exact ⟨.same _, hnext⟩
  | runFor k =>
    obtain ⟨hresult, hnext⟩ := h.runFor k fun j s hj hs => hop.discreet s (.runFor hj hs)
    simp only [Machine.perform, hresult]
    exact ⟨.same _, hnext⟩
  | load name =>
    obtain ⟨hresult, hnext⟩ := h.load (hop.names name rfl)
    exact ⟨.loaded hresult, hnext⟩
  | dispatch id => exact ⟨.same _, h.dispatch id⟩
  | keyDown key => exact ⟨.same _, (h.write rfl rfl).dispatch Interrupt.keyboard.id⟩

/-- Machines that are alike stay so through a session, and answer alike. -/
theorem trace (h : t.Alike m n) {ops : List Operation}
    (hops : ∀ x ∈ m.occasions ops, t.Allows x.1 x.2) :
    List.Forall₂ (fun x y => SameAnswer t.fault x.1 y.1 ∧ t.Alike x.2 y.2)
      (m.trace ops) (n.trace ops) := by
  induction ops generalizing m n with
  | nil => exact .nil
  | cons op ops ih =>
    obtain ⟨hop, hrest⟩ := List.forall_mem_cons.mp hops
    have hnext := h.perform hop
    exact .cons hnext (ih hnext.2 hrest)

/-- Under equal shields the registers are equal. -/
theorem registers (h : t.Alike m n)
    (hshield : m.registers.mode.shielded = n.registers.mode.shielded) :
    m.registers = n.registers := by
  have hmode : m.registers.mode = n.registers.mode := by
    rw [Mode.mk.injEq]
    exact ⟨h.halted, hshield, h.interruptible⟩
  rw [Registers.mk.injEq]
  exact ⟨h.general, h.acc, h.pc, h.sp, h.flags, hmode⟩

end Tolerance.Alike

end Tis80
