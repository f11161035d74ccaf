import Tis80.Proofs.Bounds
import Tis80.Proofs.RomImage

/-!
# Interrupts are dispatched once

Six things raise an interrupt: an instruction that asks for it, a result that does not fit, a push on
a full stack, a ROM that does not load, a key, and a call from outside. Each has an effect of its own
first, and then the interrupt is dispatched:

    Raises m e id own → m.after e = own.dispatch id                               (after_of_raises)

Saving the frame of a handler pushes bytes, a push may raise the stack overflow flag, and raising a
flag dispatches. `dispatchWithin` is this recursion with a bound on how deep it goes. One level is
always enough, because a flag raised while a frame is saved dispatches nothing:

    m.dispatchWithin (depth + 1) id = some (handlers entered, m.dispatch id)      (dispatchWithin_succ)
-/

namespace Tis80

theorem Byte.add?_eq_none_iff (a b : Byte) : a.add? b = none ↔ 255 < a.toNat + b.toNat := by
  unfold add?
  split
  · simp only [reduceCtorEq, false_iff]
    omega
  · simp only [true_iff]
    omega

theorem Byte.sub?_eq_none_iff (a b : Byte) : a.sub? b = none ↔ a.toNat < b.toNat := by
  unfold sub?
  split
  · next h =>
    rw [UInt8.le_iff_toNat_le] at h
    simp only [reduceCtorEq, false_iff]
    omega
  · next h =>
    rw [UInt8.le_iff_toNat_le] at h
    simp only [true_iff]
    omega

theorem vectorSlot?_eq (id : Byte) :
    vectorSlot? id = if id ≤ 127 then some (UInt16.ofNat (2 * id.toNat)) else none := by
  have hle : id ≤ 127 ↔ id.toNat ≤ 127 := UInt8.le_iff_toNat_le
  have hslot : MemoryMap.vectorTable.start + 2 * id.toNat = 2 * id.toNat := Nat.zero_add _
  have hstop : MemoryMap.vectorTable.stop = 256 := rfl
  unfold vectorSlot?
  simp only [hslot, hstop, hle]
  by_cases h : id.toNat ≤ 127
  · rw [if_pos (by omega), if_pos h]
  · rw [if_neg (by omega), if_neg h]

namespace Machine

section Dispatch

variable {σ : Type}

/-- What stands in the two cells that the vector table has for an identifier. -/
def vector (m : Machine σ) (id : Byte) : Address :=
  Address.ofBytes (m.memory.read (UInt16.ofNat (2 * id.toNat)))
    (m.memory.read (UInt16.ofNat (2 * id.toNat + 1)))

/-- Interrupts are enabled, and the identifier has a vector that is not zero. -/
def HasHandler (m : Machine σ) (id : Byte) : Prop :=
  m.registers.mode.interruptible = true ∧ id ≤ 127 ∧ m.vector id ≠ 0

instance (m : Machine σ) (id : Byte) : Decidable (m.HasHandler id) :=
  inferInstanceAs (Decidable (_ ∧ _ ∧ _))

/-- A push that may dispatch: gives the handlers entered on the way, and the machine. -/
def pushWith (dispatch : Machine σ → Byte → Option (List Address × Machine σ)) (m : Machine σ)
    (v : Byte) : Option (List Address × Machine σ) :=
  if m.stackFull then
    if m.savingFrame then some ([], m.setFlag .stackOverflow)
    else dispatch (m.setFlag .stackOverflow) Interrupt.stackOverflow.id
  else some ([], m.place v)

def pushAllWith (dispatch : Machine σ → Byte → Option (List Address × Machine σ)) :
    Machine σ → List Byte → Option (List Address × Machine σ)
  | m, [] => some ([], m)
  | m, v :: bytes => do
    let (entered, m) ← m.pushWith dispatch v
    let (more, m) ← m.pushAllWith dispatch bytes
    some (entered ++ more, m)

/-- Dispatches an interrupt, at most `depth` of them inside each other; no value if it takes more.
The handlers entered are given in order. -/
def dispatchWithin : Nat → Machine σ → Byte → Option (List Address × Machine σ)
  | 0, _, _ => none
  | depth + 1, m, id =>
    match m.handler? id with
    | none => some ([], m)
    | some target => do
      let (more, saved) ← (m.setSaving true).pushAllWith (dispatchWithin depth) m.frame.toBytes
      some (target :: more, (saved.setSaving m.savingFrame).jump target)

/-! ## One level of dispatching -/

theorem readAddress_vector (m : Machine σ) (id : Byte) :
    m.memory.readAddress (UInt16.ofNat (2 * id.toNat)) = m.vector id := by
  have hnext : UInt16.ofNat (2 * id.toNat) + 1 = UInt16.ofNat (2 * id.toNat + 1) := by
    rw [UInt16.ofNat_add]
    rfl
  rw [Memory.readAddress, hnext, vector]

theorem handler?_eq (m : Machine σ) (id : Byte) :
    m.handler? id = if m.HasHandler id then some (m.vector id) else none := by
  unfold handler?
  rw [vectorSlot?_eq]
  by_cases hmode : m.registers.mode.interruptible = true
  · rw [if_pos hmode]
    by_cases hid : id ≤ 127
    · rw [if_pos hid, Option.bind_some, readAddress_vector]
      by_cases hzero : m.vector id = 0
      · rw [if_pos hzero, if_neg fun h => h.2.2 hzero]
      · rw [if_neg hzero, if_pos ⟨hmode, hid, hzero⟩]
    · rw [if_neg hid, if_neg fun h => hid h.2.1]
      rfl
  · rw [if_neg hmode, if_neg fun h => hmode h.1]

/-- A frame fills the stack or is all there. -/
theorem sp_add_room {m : Machine σ} (h : m.registers.sp.toNat < MemoryMap.kernelOrigin.toNat) :
    m.registers.sp + UInt16.ofNat (min m.room Frame.size) =
      UInt16.ofNat (min (m.registers.sp.toNat + 19) (MemoryMap.kernelOrigin.toNat - 1)) := by
  have hsize := Frame.size_eq
  rw [MemoryMap.toNat_kernelOrigin] at h ⊢
  apply UInt16.toNat_inj.mp
  rw [room, MemoryMap.toNat_kernelOrigin, Address.toNat_add_ofNat (by unfold memorySize; omega),
    UInt16.toNat_ofNat']
  omega

theorem dispatch_of_hasHandler {m : Machine σ} {id : Byte} (h : m.HasHandler id) :
    m.dispatch id = m.call (m.vector id) := by
  rw [dispatch_eq, handler?_eq, if_pos h]
  rfl

theorem dispatch_of_not_hasHandler {m : Machine σ} {id : Byte} (h : ¬ m.HasHandler id) :
    m.dispatch id = m := by
  rw [dispatch_eq, handler?_eq, if_neg h]
  rfl

theorem pushWith_of_saving {m : Machine σ} (h : m.savingFrame = true)
    (dispatch : Machine σ → Byte → Option (List Address × Machine σ)) (v : Byte) :
    m.pushWith dispatch v = some ([], m.saveByte v) := by
  unfold pushWith saveByte
  rw [if_pos h]
  split <;> rfl

/-- While a frame is saved, no push goes into the recursion. -/
theorem pushAllWith_of_saving {m : Machine σ} (h : m.savingFrame = true)
    (dispatch : Machine σ → Byte → Option (List Address × Machine σ)) (bytes : List Byte) :
    m.pushAllWith dispatch bytes = some ([], bytes.foldl saveByte m) := by
  induction bytes generalizing m with
  | nil => rfl
  | cons v bytes ih =>
    have hsaving := (savingFrame_saveByte m v).trans h
    simp only [pushAllWith, pushWith_of_saving h, ih hsaving, Option.bind_eq_bind,
      Option.bind_some, List.nil_append, List.foldl_cons]

theorem dispatchWithin_succ (depth : Nat) (m : Machine σ) (id : Byte) :
    m.dispatchWithin (depth + 1) id = some ((m.handler? id).toList, m.dispatch id) := by
  rw [dispatch_eq]
  unfold dispatchWithin
  cases m.handler? id with
  | none => rfl
  | some target =>
    -- `depth` disappears here: nothing pushed while saving asks for another level
    simp only [pushAllWith_of_saving (m := m.setSaving true) rfl, Option.bind_eq_bind,
      Option.bind_some]
    rfl

end Dispatch

section Sources

variable {σ : Type}

/-- The number that an addition or a subtraction comes to. -/
def sum? (m : Machine σ) : Instruction → Option Int
  | .add r => some (m.registers.acc.toNat + (m.registers.get r).toNat)
  | .addi v => some (m.registers.acc.toNat + v.toNat)
  | .sub r => some (m.registers.acc.toNat - (m.registers.get r).toNat)
  | .subi v => some (m.registers.acc.toNat - v.toNat)
  | _ => none

/-- The byte that an instruction pushes. -/
def pushed? (m : Machine σ) : Instruction → Option Byte
  | .psa => some m.registers.acc
  | .psr r => some (m.registers.get r)
  | _ => none

theorem sum?_advance (m : Machine σ) (n : Nat) (i : Instruction) :
    (m.advance n).sum? i = m.sum? i := by
  cases i <;> rfl

theorem pushed?_advance (m : Machine σ) (n : Nat) (i : Instruction) :
    (m.advance n).pushed? i = m.pushed? i := by
  cases i <;> rfl

variable [ByteSource σ]

theorem execute_of_sum {m : Machine σ} {i : Instruction} {n : Int} (h : m.sum? i = some n) :
    ∃ result : Option Byte, m.execute i = m.accumulate result ∧
      (result = none ↔ n < 0 ∨ 255 < n) := by
  have hacc := m.registers.acc.toNat_lt
  cases i with
  | add r | addi v =>
    cases h
    refine ⟨_, rfl, ?_⟩
    rw [Byte.add?_eq_none_iff]
    omega
  | sub r | subi v =>
    cases h
    refine ⟨_, rfl, ?_⟩
    rw [Byte.sub?_eq_none_iff]
    omega
  | _ => cases h

theorem execute_of_pushed {m : Machine σ} {i : Instruction} {v : Byte}
    (h : m.pushed? i = some v) : m.execute i = m.push v := by
  cases i with
  | psa | psr r =>
    cases h
    rfl
  | _ => cases h

/-- The load that an instruction asks for: of the ROM whose name stands at `name`. -/
def loadAt (m : Machine σ) (name : Address) : Except LoadFault Rom.Report × Machine σ :=
  m.load (lossyText (m.memory.stringAt name))

theorem loadNamed_eq (m : Machine σ) (name : Address) :
    m.loadNamed name = match (m.loadAt name).1 with
      | .ok _ => (m.loadAt name).2
      | .error _ => (m.loadAt name).2.raise .ioError := by
  unfold loadNamed loadAt
  split
  · next he => rw [he]
  · next he => rw [he]

/-- An event raises the interrupt with an identifier. The last machine is the one that the event
leaves by itself, with the interrupt still to be dispatched. -/
inductive Raises (m : Machine σ) : Event σ → Byte → Machine σ → Prop
  | int {id : Byte} : m.nextInstruction? = some (.int id) → Raises m .step id (m.advance 2)
  | sum {i : Instruction} {n : Int} : m.nextInstruction? = some i → m.sum? i = some n →
      n < 0 ∨ 255 < n → Raises m .step 1 (((m.advance i.size).setAcc 0).setFlag .accOverflow)
  | push {i : Instruction} {v : Byte} : m.nextInstruction? = some i → m.pushed? i = some v →
      m.stackFull = true → Raises m .step 2 ((m.advance i.size).setFlag .stackOverflow)
  | disk {name : Address} {fault : LoadFault} : m.nextInstruction? = some (.dsk name) →
      ((m.advance 3).loadAt name).1 = .error fault →
      Raises m .step 3 (((m.advance 3).loadAt name).2.setFlag .ioError)
  | keyDown (key : Byte) : Raises m (.keyDown key) 4 (m.write 0xF400 key)
  | dispatch (id : Byte) : Raises m (.dispatch id) id m
  | interrupt (i : Interrupt) : Raises m (.interrupt i) i.id m

/-! ## Raising an interrupt or not -/

/-- An addition or a subtraction raises an interrupt, or its result becomes the accumulator. -/
theorem raises_or_setAcc {m : Machine σ} {i : Instruction} {n : Int}
    (hnext : m.nextInstruction? = some i) (hsum : m.sum? i = some n) :
    (∃ own, Raises m .step 1 own) ∨ ∃ v, m.step.2 = (m.advance i.size).setAcc v := by
  by_cases hn : n < 0 ∨ 255 < n
  · exact .inl ⟨_, .sum hnext hsum hn⟩
  · rw [← sum?_advance m i.size] at hsum
    obtain ⟨result, hexecute, hresult⟩ := execute_of_sum hsum
    cases result with
    | none => exact absurd (hresult.mp rfl) hn
    | some v =>
      rw [step_snd hnext, hexecute]
      exact .inr ⟨v, rfl⟩

theorem raises_or_place {m : Machine σ} {i : Instruction} {v : Byte}
    (hnext : m.nextInstruction? = some i) (hpushed : m.pushed? i = some v) :
    (∃ own, Raises m .step 2 own) ∨ m.step.2 = (m.advance i.size).place v := by
  by_cases hfull : m.stackFull = true
  · exact .inl ⟨_, .push hnext hpushed hfull⟩
  · have hplace : (m.advance i.size).push v = (m.advance i.size).place v := if_neg hfull
    rw [← pushed?_advance m i.size] at hpushed
    rw [step_snd hnext, execute_of_pushed hpushed, hplace]
    exact .inr rfl

theorem raises_or_loadAt {m : Machine σ} {name : Address}
    (hnext : m.nextInstruction? = some (.dsk name)) :
    (∃ own, Raises m .step 3 own) ∨ m.step.2 = ((m.advance 3).loadAt name).2 := by
  cases hload : ((m.advance 3).loadAt name).1 with
  | error fault => exact .inl ⟨_, .disk hnext hload⟩
  | ok report =>
    right
    rw [step_snd hnext]
    show (m.advance 3).loadNamed name = _
    rw [loadNamed_eq, hload]

/-! ## Raising is dispatching -/

theorem after_of_raises {m own : Machine σ} {e : Event σ} {id : Byte} (h : Raises m e id own)
    (hm : m.savingFrame = false) : m.after e = own.dispatch id := by
  cases h with
  | int hnext => exact step_snd hnext
  | @sum i n hnext hsum hn =>
    rw [← sum?_advance m i.size] at hsum
    obtain ⟨result, hexecute, hresult⟩ := execute_of_sum hsum
    rw [after, step_snd hnext, hexecute, hresult.mpr hn]
    exact raise_of_notSaving (m := (m.advance i.size).setAcc 0) hm .accOverflow
  | @push i v hnext hpushed hfull =>
    rw [← pushed?_advance m i.size] at hpushed
    have hpush : (m.advance i.size).push v = (m.advance i.size).raise .stackOverflow := if_pos hfull
    rw [after, step_snd hnext, execute_of_pushed hpushed, hpush]
    exact raise_of_notSaving (m := m.advance i.size) hm .stackOverflow
  | @disk name fault hnext hfault =>
    -- a load that fails may have written memory and moved the drive on, but it saves no frame
    have hsaving : ((m.advance 3).loadAt name).2.savingFrame = false := by
      rw [loadAt, savingFrame_load]
      exact hm
    rw [after, step_snd hnext, execute]
    show (m.advance 3).loadNamed name = _
    rw [loadNamed_eq, hfault]
    exact raise_of_notSaving hsaving .ioError
  | keyDown key => rfl
  | dispatch id => rfl
  | interrupt i => rfl

theorem mode_sp_of_raises {m own : Machine σ} {e : Event σ} {id : Byte} (h : Raises m e id own) :
    own.registers.mode = m.registers.mode ∧ own.registers.sp = m.registers.sp := by
  cases h with
  | disk hnext hfault =>
    simp only [setFlag, setFlags, loadAt, registers_load]
    exact ⟨rfl, rfl⟩
  | _ => exact ⟨rfl, rfl⟩

/-! ## Top theorem -/

/-- An event that raises an interrupt enters its handler if and only if there is one, as the vector
table stands after what the event itself writes. It enters no other handler, and the recursion stops
at its first level: one frame is saved, or as much of it as the stack has room for. Without a handler
the event has its own effect and no other. -/
theorem Reachable.dispatches_once {m own : Machine σ} {e : Event σ} {id : Byte} (hm : Reachable m)
    (h : Raises m e id own) :
    ∃ entered : List Address,
      (∀ depth, own.dispatchWithin (depth + 1) id = some (entered, m.after e)) ∧
      (entered ≠ [] ↔
        m.registers.mode.interruptible = true ∧ id ≤ 127 ∧ own.vector id ≠ 0) ∧
      (entered ≠ [] → entered = [own.vector id] ∧
        m.after e = { own with
          registers := { own.registers with
            pc := (own.vector id).toNat
            sp := UInt16.ofNat
              (min (m.registers.sp.toNat + 19) (MemoryMap.kernelOrigin.toNat - 1))
            flags := if own.room < Frame.size then own.registers.flags.raise .stackOverflow
              else own.registers.flags }
          memory := own.memory.writeAll
            (consecutive own.registers.sp (own.frame.toBytes.take own.room)) }) ∧
      (entered = [] → m.after e = own) := by
  have hafter := after_of_raises h hm.bounded.notSaving
  obtain ⟨hmode, hsp⟩ := mode_sp_of_raises h
  by_cases hhandler : own.HasHandler id
  · have hentered : (own.handler? id).toList = [own.vector id] := by
      rw [handler?_eq, if_pos hhandler]
      rfl
    refine ⟨[own.vector id], ?_, ?_, ?_, ?_⟩
    · intro depth
      rw [dispatchWithin_succ, hentered, hafter]
    · rw [← hmode]
      exact iff_of_true (List.cons_ne_nil _ _) hhandler
    · intro _
      have hlt : own.registers.sp.toNat < MemoryMap.kernelOrigin.toNat := by
        rw [hsp]
        exact hm.bounded.sp_lt
      rw [hafter, dispatch_of_hasHandler hhandler, call_eq, sp_add_room hlt, hsp]
      exact ⟨rfl, rfl⟩
    · intro hnil
      cases hnil
  · have hentered : (own.handler? id).toList = [] := by
      rw [handler?_eq, if_neg hhandler]
      rfl
    refine ⟨[], ?_, ?_, ?_, ?_⟩
    · intro depth
      rw [dispatchWithin_succ, hentered, hafter]
    · rw [← hmode]
      exact iff_of_false (fun hne => hne rfl) hhandler
    · intro hne
      exact absurd rfl hne
    · intro _
      rw [hafter, dispatch_of_not_hasHandler hhandler]

/-- A program that enables interrupts, with a handler for keys at 0300. -/
def listening : Rom where
  data := some [.number 0x0008 0x03]
  start := MemoryMap.kernelOrigin
  code := [Opcode.ein.toByte]

theorem dispatches_once_of_listening :
    ∃ m : Machine Shelf, Reachable m ∧ Raises m (.keyDown 65) 4 (m.write 0xF400 65) ∧
      (m.after (.keyDown 65)).registers.pc = 0x0300 ∧
      (m.after (.keyDown 65)).registers.sp = 0x0117 := by
  obtain ⟨c, hc, hregisters, hread⟩ := exists_loaded (show listening.NulFree by
    simp [Rom.NulFree, listening, Rom.Entry.NulFree])
  have hein : c.nextInstruction? = some .ein :=
    nextInstruction?_of_fresh .ein hregisters (hread MemoryMap.kernelOrigin)
  have hmode : c.step.2.registers.mode.interruptible = true := by
    rw [step_snd hein]
    rfl
  have hsp : c.step.2.registers.sp = 0x0104 := by
    rw [step_snd hein]
    show c.registers.sp = _
    rw [hregisters]
    rfl
  have hvector : (c.step.2.write 0xF400 65).vector 4 = 0x0300 := by
    have hcell : ∀ a : Address, a ≠ 0xF400 →
        (c.step.2.write 0xF400 65).memory.read a = (listening.writes.reverse.lookup a).getD 0 := by
      intro a ha
      rw [← hread, step_snd hein]
      exact Memory.read_write_of_ne _ _ (Ne.symm ha)
    rw [vector, hcell _ (by decide), hcell _ (by decide)]
    decide
  have hm : Reachable c.step.2 := .event .step hc
  generalize c.step.2 = m at *
  have hraises : Raises m (.keyDown 65) 4 (m.write 0xF400 65) := .keyDown 65
  obtain ⟨entered, -, hiff, hentered, -⟩ := hm.dispatches_once hraises
  have hne := hiff.mpr ⟨hmode, by decide, by rw [hvector]; decide⟩
  refine ⟨m, hm, hraises, ?_, ?_⟩
  · rw [(hentered hne).2, hvector]
    rfl
  · rw [(hentered hne).2, hsp]
    rfl

end Sources

end Machine

end Tis80
