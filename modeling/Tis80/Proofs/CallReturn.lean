import Tis80.Drive.Shelf
import Tis80.Proofs.Execution

/-!
# Calls are transparent

A call puts a frame on the stack, and a return goes on from the frame on top. In between anything may
happen, calls and interrupts and stack overflows included: as long as nothing is stored into the cells
of the frame and the stack pointer does not fall below its end, the frame stays, because what is
pushed goes above it.

    Body low high m n → n.memory.slice ⟨low, high⟩ = m.memory.slice ⟨low, high⟩      (Body.slice_eq)

So a return that finds the stack pointer where the call left it restores what the call saved.
-/

namespace Tis80

namespace Machine

variable {σ : Type} [ByteSource σ]

/-- Events that lead from one machine to another. After each of them the stack pointer is at `high`
or above, and none of them stores into a cell from `low` up to `high`. -/
inductive Body (low high : Nat) : Machine σ → Machine σ → Prop
  | nil (m : Machine σ) : Body low high m m
  | snoc {m n : Machine σ} (e : Event σ) : Body low high m n →
      (∀ a ∈ n.storedBy e, a.toNat < low ∨ high ≤ a.toNat) →
      high ≤ (n.after e).registers.sp.toNat → Body low high m (n.after e)

/-! ## Lemmas -/

theorem Body.le_sp {low high : Nat} {m n : Machine σ} (h : Body low high m n)
    (hm : high ≤ m.registers.sp.toNat) : high ≤ n.registers.sp.toNat := by
  cases h with
  | nil => exact hm
  | snoc e _ _ hsp => exact hsp

/-- One event leaves the guarded cells alone. -/
theorem slice_after {low high : Nat} {m : Machine σ} (e : Event σ)
    (hsp : high ≤ m.registers.sp.toNat) (hhigh : high ≤ MemoryMap.kernelOrigin.toNat)
    (hstores : ∀ a ∈ m.storedBy e, a.toNat < low ∨ high ≤ a.toNat) :
    (m.after e).memory.slice ⟨low, high⟩ = m.memory.slice ⟨low, high⟩ := by
  rw [MemoryMap.toNat_kernelOrigin] at hhigh
  apply Memory.slice_congr (by unfold memorySize; omega)
  intro a hlow hlt
  have hclear : m.Clear a := .inl (by omega)
  have hstored : a ∉ m.storedBy e := by
    intro hmem
    have := hstores a hmem
    omega
  -- the keyboard buffer lies far above the stack
  have hkey : a.toNat ≠ MemoryMap.keyboardBuffer.start := by
    show a.toNat ≠ 62464
    omega
  exact read_after e hclear hstored (.inl hkey)

theorem Body.slice_eq {low high : Nat} {m n : Machine σ} (h : Body low high m n)
    (hm : high ≤ m.registers.sp.toNat) (hhigh : high ≤ MemoryMap.kernelOrigin.toNat) :
    n.memory.slice ⟨low, high⟩ = m.memory.slice ⟨low, high⟩ := by
  induction h with
  | nil => rfl
  | snoc e hbody hstores _ ih => rw [slice_after e (hbody.le_sp hm) hhigh hstores, ih]

/-- After the body of a call that found room, the saved frame stands where it was put. -/
theorem Body.slice_frame {s t : Machine σ} {target : Address}
    (hroom : s.registers.sp.toNat + 20 ≤ MemoryMap.kernelOrigin.toNat)
    (h : Body s.registers.sp.toNat (s.registers.sp.toNat + Frame.size) (s.call target) t) :
    t.memory.slice ⟨s.registers.sp.toNat, s.registers.sp.toNat + Frame.size⟩ = s.frame.toBytes := by
  have hsize := Frame.size_eq
  have hfits : Frame.size ≤ s.room := by
    rw [room]
    omega
  have hsp : (s.call target).registers.sp.toNat = s.registers.sp.toNat + Frame.size := by
    rw [toNat_sp_call, Nat.min_eq_right hfits]
  rw [h.slice_eq (by omega) (by omega), slice_call hfits]

/-! ## Top theorem -/

/-- The return from a call: general registers, accumulator, stack pointer and program counter are
what they were when the call was made in `s`, and all else is as the body left it in `t`. -/
theorem step_crn_of_body {s t : Machine σ} {target : Address}
    (hbase : MemoryMap.stackBase ≤ s.registers.sp)
    (hroom : s.registers.sp ≤ MemoryMap.kernelOrigin - 20)
    (hpc : s.registers.pc < memorySize)
    (hbody : Body s.registers.sp.toNat (s.registers.sp.toNat + Frame.size) (s.call target) t)
    (hsp : t.registers.sp = s.registers.sp + 19) (hnext : t.nextInstruction? = some .crn) :
    t.step = (.ok (), { t with registers := { t.registers with
      general := s.registers.general
      acc := s.registers.acc
      sp := s.registers.sp
      pc := s.registers.pc } }) := by
  replace hroom : s.registers.sp.toNat ≤ 492 := hroom
  have hsize := Frame.size_eq
  have htop : t.registers.sp.toNat = s.registers.sp.toNat + Frame.size := by
    rw [hsp]
    exact Address.toNat_add_ofNat (i := 19) (by unfold memorySize; omega)
  have hframe := hbody.slice_frame (by rw [MemoryMap.toNat_kernelOrigin]; omega)
  have hret := ret_of_frame (m := t.advance (Instruction.size .crn)) hbase hpc htop hframe
  have hrunning := isHalted_of_nextInstruction? hnext
  rw [step_of_nextInstruction? hnext, execute, hret]
  simp only [isHalted, advance] at hrunning ⊢
  simp only [hrunning, Bool.false_eq_true, if_false]

/-- A subroutine that complements the accumulator and returns, about to be called with 7 there. -/
def complementing : Machine Shelf where
  registers := { acc := 7, pc := 0x020B }
  memory := (Memory.blank.write 0x0300 Opcode.not.toByte).write 0x0301 Opcode.crn.toByte
  drive := {}

theorem step_crn_of_complementing :
    ((complementing.call 0x0300).after .step).registers.acc = 0xF8 ∧
    ((complementing.call 0x0300).after .step).step.2.registers.acc = 7 ∧
    ((complementing.call 0x0300).after .step).step.2.registers.pc = 0x020B := by
  have hcall := call_eq complementing 0x0300
  have hread : ∀ a : Address, 0x0300 ≤ a.toNat →
      (complementing.call 0x0300).memory.fetch a.toNat = complementing.memory.read a := by
    intro a ha
    rw [Memory.fetch_toNat]
    refine read_call (.inr ?_) _
    rw [MemoryMap.toNat_kernelOrigin]
    omega
  have hfirst : (complementing.call 0x0300).memory.fetch 0x0300 = Opcode.not.toByte := by
    refine (hread 0x0300 (by decide)).trans ?_
    rw [complementing, Memory.read_write_of_ne _ _ (by decide), Memory.read_write_self]
  have hsecond : (complementing.call 0x0300).memory.fetch 0x0301 = Opcode.crn.toByte := by
    refine (hread 0x0301 (by decide)).trans ?_
    rw [complementing, Memory.read_write_self]
  have hpc : (complementing.call 0x0300).registers.pc = 0x0300 := by rw [hcall]; rfl
  have hsp : (complementing.call 0x0300).registers.sp = 0x0104 + 19 := by rw [hcall]; rfl
  have hacc : (complementing.call 0x0300).registers.acc = 7 := by rw [hcall]; rfl
  have hhalt : (complementing.call 0x0300).isHalted = false := by rw [hcall]; rfl
  have hreturn := fun t => @step_crn_of_body Shelf _ complementing t 0x0300 (by decide) (by decide)
    (by decide)
  -- from here on only these facts about the call matter
  generalize complementing.call 0x0300 = c at *
  have hnot : c.nextInstruction? = some .not :=
    nextInstruction?_of_fetch .not hhalt hpc (by decide) hfirst
  have hafter : c.after .step = (c.advance 1).execute .not := by
    rw [after, step_of_nextInstruction? hnot]
    rfl
  have hbody : Body 0x0104 (0x0104 + Frame.size) c (c.after .step) := by
    refine .snoc .step (.nil _) ?_ ?_
    · simp only [storedBy, hnot, Option.elim_some, stores, List.not_mem_nil, false_implies,
        implies_true]
    · rw [hafter]
      show _ ≤ c.registers.sp.toNat
      rw [hsp]
      decide
  have hcrn : (c.after .step).nextInstruction? = some .crn := by
    rw [hafter]
    exact nextInstruction?_of_fetch .crn hhalt (congrArg (· + 1) hpc) (by decide) hsecond
  have hstep := hreturn (c.after .step) hbody (by rw [hafter]; exact hsp) hcrn
  refine ⟨?_, by rw [hstep]; rfl, by rw [hstep]; rfl⟩
  rw [hafter]
  show ~~~ c.registers.acc = 0xF8
  rw [hacc]
  decide

end Machine

end Tis80
