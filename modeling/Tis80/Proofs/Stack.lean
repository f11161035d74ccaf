import Tis80.Machine.Stack
import Tis80.Proofs.Memory

/-!
# What pushes, calls and returns do

Each operation of the stack said once, so that nothing later opens it. Saving bytes keeps as many as
there is room for and flags the rest; a call does that with its frame and jumps; raising a flag,
dispatching an interrupt and pushing come down to at most one call; popping reads the cells below the
stack pointer.

    m.call target = m with the first `room` bytes of the frame above the old top      (call_eq)
    m.popBytes n  = the slice of `n` cells below the stack pointer                    (popBytes_of_le)
-/

namespace Tis80

theorem MemoryMap.toNat_stackBase : stackBase.toNat = 260 := rfl

theorem MemoryMap.toNat_kernelOrigin : kernelOrigin.toNat = 512 := rfl

theorem Frame.size_eq : Frame.size = 19 := rfl

theorem Flags.raise_raise (fs : Flags) (f : Flag) : (fs.raise f).raise f = fs.raise f := by
  cases f <;> rfl

namespace Machine

variable {σ : Type}

/-- How many bytes the stack can still take. -/
def room (m : Machine σ) : Nat := MemoryMap.kernelOrigin.toNat - 1 - m.registers.sp.toNat

/-- No push from here on reaches the cell: it lies below the top of the stack or above its end. -/
def Clear (m : Machine σ) (a : Address) : Prop :=
  a.toNat < m.registers.sp.toNat ∨ MemoryMap.kernelOrigin.toNat ≤ a.toNat + 1

/-- The handler that an interrupt would be sent to now. -/
def handler? (m : Machine σ) (id : Byte) : Option Address :=
  if m.registers.mode.interruptible then
    (vectorSlot? id).bind fun slot =>
      if m.memory.readAddress slot = 0 then none else some (m.memory.readAddress slot)
  else none

/-! ## Saving bytes -/

theorem stackFull_iff (m : Machine σ) : m.stackFull = true ↔ m.room = 0 := by
  rw [stackFull, decide_eq_true_iff, room, MemoryMap.toNat_kernelOrigin]
  omega

theorem room_ne_zero_iff (m : Machine σ) : m.room ≠ 0 ↔ m.stackFull = false := by
  rw [Ne, ← stackFull_iff, Bool.not_eq_true]

theorem toNat_sp_place {m : Machine σ} (h : m.room ≠ 0) (v : Byte) :
    (m.place v).registers.sp.toNat = m.registers.sp.toNat + 1 := by
  simp only [room, MemoryMap.toNat_kernelOrigin] at h
  exact Address.toNat_add_ofNat (i := 1) (by unfold memorySize; omega)

theorem room_place {m : Machine σ} (h : m.room ≠ 0) (v : Byte) :
    (m.place v).room = m.room - 1 := by
  rw [room, toNat_sp_place h, room]
  omega

theorem foldl_saveByte (m : Machine σ) (bytes : List Byte) :
    bytes.foldl saveByte m =
      { m with
        registers := { m.registers with
          sp := m.registers.sp + UInt16.ofNat (min m.room bytes.length)
          flags := if m.room < bytes.length then m.registers.flags.raise .stackOverflow
            else m.registers.flags }
        memory := m.memory.writeAll (consecutive m.registers.sp (bytes.take m.room)) } := by
  induction bytes generalizing m with
  | nil => simp
  | cons b bytes ih =>
    rw [List.foldl_cons]
    by_cases hfull : m.room = 0
    · -- the flag is set now, and once more by every byte that follows
      have hsave : m.saveByte b = m.setFlag .stackOverflow := by
        rw [saveByte, if_pos ((stackFull_iff m).mpr hfull)]
      have hroom : (m.setFlag .stackOverflow).room = 0 := hfull
      rw [hsave, ih, hroom, hfull]
      simp only [setFlag, setFlags, Nat.zero_min, List.take_zero, List.length_cons, Nat.zero_lt_succ,
        if_true, Flags.raise_raise, ite_self]
    · have hsave : m.saveByte b = m.place b := by
        rw [saveByte, if_neg (mt (stackFull_iff m).mp hfull)]
      obtain ⟨k, hk⟩ := Nat.exists_eq_succ_of_ne_zero hfull
      have hroom : (m.place b).room = k := by
        rw [room_place hfull, hk]
        rfl
      rw [hsave, ih, hroom, hk]
      have hsp : m.registers.sp + UInt16.ofNat (min (k + 1) (bytes.length + 1)) =
          m.registers.sp + 1 + UInt16.ofNat (min k bytes.length) := by
        rw [Nat.add_min_add_right, UInt16.ofNat_add, UInt16.add_comm (UInt16.ofNat _),
          ← UInt16.add_assoc]
        rfl
      simp only [place, setPointer, write, Nat.succ_eq_add_one, List.length_cons, hsp,
        List.take_succ_cons, consecutive_cons, Memory.writeAll_cons, Nat.add_lt_add_iff_right]

/-! ## Calls -/

theorem toNat_returnAddress (m : Machine σ) :
    m.frame.returnAddress.toNat = m.registers.pc % memorySize :=
  UInt16.toNat_ofNat'

theorem call_eq (m : Machine σ) (target : Address) :
    m.call target =
      { m with
        registers := { m.registers with
          pc := target.toNat
          sp := m.registers.sp + UInt16.ofNat (min m.room Frame.size)
          flags := if m.room < Frame.size then m.registers.flags.raise .stackOverflow
            else m.registers.flags }
        memory := m.memory.writeAll (consecutive m.registers.sp (m.frame.toBytes.take m.room)) } := by
  rw [call, foldl_saveByte, Frame.length_toBytes]
  rfl

theorem toNat_sp_call (m : Machine σ) (target : Address) :
    (m.call target).registers.sp.toNat = m.registers.sp.toNat + min m.room Frame.size := by
  have hsp := m.registers.sp.toNat_lt
  rw [call_eq]
  apply Address.toNat_add_ofNat
  simp only [room, MemoryMap.toNat_kernelOrigin, memorySize]
  omega

/-- A call writes nothing but stack cells that were free. -/
theorem read_call {m : Machine σ} {a : Address} (h : m.Clear a) (target : Address) :
    (m.call target).memory.read a = m.memory.read a := by
  rw [call_eq]
  apply Memory.read_writeAll_of_notMem
  intro hmem
  obtain ⟨i, hi, rfl⟩ := exists_of_mem_consecutive hmem
  simp only [List.length_take, room, MemoryMap.toNat_kernelOrigin] at hi
  have hcell := Address.toNat_add_ofNat (a := m.registers.sp) (i := i) (by unfold memorySize; omega)
  simp only [Clear, hcell, MemoryMap.toNat_kernelOrigin] at h
  omega

/-- A frame that fits stands on the stack after the call. -/
theorem slice_call {m : Machine σ} (h : Frame.size ≤ m.room) (target : Address) :
    (m.call target).memory.slice ⟨m.registers.sp.toNat, m.registers.sp.toNat + Frame.size⟩ =
      m.frame.toBytes := by
  have hall : m.frame.toBytes.take m.room = m.frame.toBytes := by
    rw [List.take_of_length_le]
    rw [Frame.length_toBytes]
    exact h
  rw [call_eq, hall, ← Frame.length_toBytes m.frame]
  apply Memory.slice_writeAll_consecutive
  have hsp := m.registers.sp.toNat_lt
  simp only [room, MemoryMap.toNat_kernelOrigin, Frame.length_toBytes, memorySize] at h ⊢
  omega

/-! ## Interrupts, flags and pushes -/

theorem dispatch_eq (m : Machine σ) (id : Byte) :
    m.dispatch id = (m.handler? id).elim m m.call := by
  unfold dispatch handler?
  split
  · cases vectorSlot? id with
    | none => rfl
    | some slot =>
      simp only [Option.bind_some]
      split <;> rfl
  · rfl

/-- What holds with and without a call holds of a dispatch. -/
theorem dispatch_of_call {P : Machine σ → Prop} {m : Machine σ} (id : Byte) (h : P m)
    (hcall : ∀ target, P (m.call target)) : P (m.dispatch id) := by
  rw [dispatch_eq]
  cases m.handler? id with
  | none => exact h
  | some target => exact hcall target

theorem raise_of_notSaving {m : Machine σ} (h : m.savingFrame = false) (f : Flag) :
    m.raise f = (m.setFlag f).dispatch f.interrupt.id := by
  rw [raise, if_neg (by simp [h])]
  rfl

theorem raise_of_call {P : Machine σ → Prop} {m : Machine σ} (f : Flag) (h : P (m.setFlag f))
    (hcall : ∀ target, P ((m.setFlag f).call target)) : P (m.raise f) := by
  unfold raise
  split
  · exact h
  · exact dispatch_of_call _ h hcall

theorem push_of_call {P : Machine σ → Prop} {m : Machine σ} (v : Byte)
    (hplace : m.room ≠ 0 → P (m.place v)) (hflag : P (m.setFlag .stackOverflow))
    (hcall : ∀ target, P ((m.setFlag .stackOverflow).call target)) : P (m.push v) := by
  unfold push
  split
  · exact raise_of_call _ hflag hcall
  · next hfull => exact hplace (mt (stackFull_iff m).mpr hfull)

/-! ## Pops and returns -/

theorem pop_of_lt {m : Machine σ} (h : MemoryMap.stackBase.toNat < m.registers.sp.toNat) :
    m.pop = (m.memory.read (m.registers.sp - 1), m.setPointer (m.registers.sp - 1)) := by
  have hlt : MemoryMap.stackBase < m.registers.sp := h
  simp only [pop, poppedPointer, if_pos hlt]

theorem pop_of_le {m : Machine σ} (h : m.registers.sp.toNat ≤ MemoryMap.stackBase.toNat) :
    m.pop = (m.memory.read m.registers.sp, m) := by
  have hle : ¬ MemoryMap.stackBase < m.registers.sp := Nat.not_lt.mpr h
  simp only [pop, poppedPointer, if_neg hle]
  rfl

/-- A return sets the stack pointer and what a frame holds, and nothing else. -/
theorem exists_ret_eq (m : Machine σ) : ∃ sp f, m.ret = (m.setPointer sp).restore f := by
  have hpop : ∀ (n : Nat) (m : Machine σ), ∃ sp, (m.popBytes n).2 = m.setPointer sp := by
    intro n
    induction n with
    | zero => exact fun m => ⟨m.registers.sp, rfl⟩
    | succ n ih =>
      intro m
      obtain ⟨sp, hsp⟩ := ih m.pop.2
      exact ⟨sp, hsp⟩
  obtain ⟨sp, hsp⟩ := hpop Frame.size m
  refine ⟨sp, Frame.ofBytes (m.popBytes Frame.size).1, ?_⟩
  simp only [ret, hsp]

theorem memory_ret (m : Machine σ) : m.ret.memory = m.memory := by
  obtain ⟨sp, f, hret⟩ := exists_ret_eq m
  rw [hret]
  rfl

/-- Pops move the stack pointer and nothing else, and not below the base. -/
theorem popBytes_snd {m : Machine σ} (n : Nat)
    (h : MemoryMap.stackBase.toNat ≤ m.registers.sp.toNat) :
    ∃ sp : Address, (m.popBytes n).2 = m.setPointer sp ∧
      MemoryMap.stackBase.toNat ≤ sp.toNat ∧ sp.toNat ≤ m.registers.sp.toNat := by
  induction n generalizing m with
  | zero => exact ⟨m.registers.sp, rfl, h, Nat.le_refl _⟩
  | succ n ih =>
    rw [popBytes]
    rcases Nat.lt_or_eq_of_le h with hlt | heq
    · have hsub := Address.toNat_sub_one (a := m.registers.sp) (by omega)
      rw [pop_of_lt hlt]
      obtain ⟨sp, he, hbase, hsp⟩ := ih (m := m.setPointer (m.registers.sp - 1))
        (by show _ ≤ (m.registers.sp - 1).toNat; omega)
      replace hsp : sp.toNat ≤ (m.registers.sp - 1).toNat := hsp
      exact ⟨sp, he, hbase, by omega⟩
    · rw [pop_of_le (Nat.le_of_eq heq.symm)]
      exact ih h

/-- Bytes on the stack are popped as they stand there. -/
theorem popBytes_of_le {m : Machine σ} {n : Nat}
    (h : MemoryMap.stackBase.toNat + n ≤ m.registers.sp.toNat) :
    m.popBytes n =
      (m.memory.slice ⟨m.registers.sp.toNat - n, m.registers.sp.toNat⟩,
        m.setPointer (m.registers.sp - UInt16.ofNat n)) := by
  induction n generalizing m with
  | zero =>
    rw [Nat.sub_zero, Memory.slice_self]
    simp [popBytes, setPointer]
  | succ n ih =>
    have hsub := Address.toNat_sub_one (a := m.registers.sp) (by omega)
    have hih := ih (m := m.setPointer (m.registers.sp - 1))
      (by show _ ≤ (m.registers.sp - 1).toNat; omega)
    have htop := @Memory.slice_succ m.memory (m.registers.sp.toNat - (n + 1)) (m.registers.sp - 1)
      (by omega)
    have hsp : m.registers.sp - 1 - UInt16.ofNat n = m.registers.sp - UInt16.ofNat (n + 1) := by
      apply UInt16.toNat_inj.mp
      rw [Address.toNat_sub_ofNat (by omega), Address.toNat_sub_ofNat (by omega), hsub]
      omega
    rw [hsub, Nat.sub_add_cancel (by omega)] at htop
    rw [popBytes, pop_of_lt (by omega), hih, htop]
    simp only [setPointer, hsub, hsp]
    rw [show m.registers.sp.toNat - 1 - n = m.registers.sp.toNat - (n + 1) by omega]

/-- A return to a frame that stands on top of the stack, from `sp` on. -/
theorem ret_of_slice {m : Machine σ} {f : Frame} {sp : Address}
    (hbase : MemoryMap.stackBase.toNat ≤ sp.toNat)
    (hsp : m.registers.sp.toNat = sp.toNat + Frame.size)
    (hframe : m.memory.slice ⟨sp.toNat, sp.toNat + Frame.size⟩ = f.toBytes) :
    m.ret = (m.setPointer sp).restore f := by
  have hback : m.registers.sp - UInt16.ofNat Frame.size = sp := by
    apply UInt16.toNat_inj.mp
    rw [Address.toNat_sub_ofNat (by omega), hsp]
    omega
  have hpop : m.popBytes Frame.size = (f.toBytes, m.setPointer sp) := by
    rw [popBytes_of_le (by omega), hback, hsp, Nat.add_sub_cancel, hframe]
  rw [ret, hpop, Frame.ofBytes_toBytes]

/-- A return to the frame that `s` saved, if it stands on top of the stack of `m`. -/
theorem ret_of_frame {m s : Machine σ}
    (hbase : MemoryMap.stackBase.toNat ≤ s.registers.sp.toNat) (hpc : s.registers.pc < memorySize)
    (hsp : m.registers.sp.toNat = s.registers.sp.toNat + Frame.size)
    (hframe : m.memory.slice ⟨s.registers.sp.toNat, s.registers.sp.toNat + Frame.size⟩ =
      s.frame.toBytes) :
    m.ret = { m with registers := { m.registers with
      general := s.registers.general
      acc := s.registers.acc
      sp := s.registers.sp
      pc := s.registers.pc } } := by
  have hreturn : s.frame.returnAddress.toNat = s.registers.pc := by
    rw [toNat_returnAddress, Nat.mod_eq_of_lt hpc]
  rw [ret_of_slice hbase hsp hframe]
  simp only [restore, setPointer, hreturn]
  rfl

end Machine

end Tis80
