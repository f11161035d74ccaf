import Tis80.Proofs.Lockstep

/-!
# The shield changes nothing

The shield is one of the three bits of the mode. An instruction raises it, nothing lowers it, and
nothing asks for it: two machines that differ in it alone answer alike forever.

    (m.perform op).2 is shielded ↔ m is, or the operation executes pmd                (shielded_perform)
-/

namespace Tis80

namespace Machine

/-- The machine with its shield down. -/
def unshielded {σ : Type} (m : Machine σ) : Machine σ :=
  m.setMode { m.registers.mode with shielded := false }

variable {σ : Type} [ByteSource σ]

/-- The operation takes a step that executes the instruction. -/
def Executes (m : Machine σ) (op : Operation) (i : Instruction) : Prop :=
  ∃ s, m.StepsFrom op s ∧ s.nextInstruction? = some i

end Machine

/-- Machines may differ in the shield. -/
def shieldOnly (σ : Type) [ByteSource σ] : Tolerance σ σ :=
  .sameDrive σ (fun _ => False) (fun _ _ => True) @Tolerance.kernelOrigin_le_of_false trivial

namespace Machine

variable {σ : Type} [ByteSource σ]

/-! ## Two machines -/

theorem alike_shieldOnly_iff {m n : Machine σ} :
    (shieldOnly σ).Alike m n ↔ m.unshielded = n.unshielded := by
  constructor
  · intro h
    have hmemory : m.memory = n.memory := Memory.ext_read fun a => h.memory a not_false
    have hdrive : m.drive = n.drive := h.drive
    simp only [unshielded, setMode, hmemory, hdrive, h.saving, h.general, h.acc, h.pc, h.sp, h.flags,
      h.halted, h.interruptible]
  · intro h
    simp only [unshielded, setMode, Machine.mk.injEq, Registers.mk.injEq, Mode.mk.injEq,
      true_and] at h
    obtain ⟨⟨hgeneral, hacc, hpc, hsp, hflags, hhalted, hinterruptible⟩, hmemory, hdrive, hsaving⟩ := h
    exact ⟨hgeneral, hacc, hpc, hsp, hflags, hhalted, hinterruptible, trivial,
      fun a _ => by rw [hmemory], hdrive, hsaving⟩

/-- No operation is forbidden: no cell and no name is of the kind that may differ. -/
theorem allows_shieldOnly (m : Machine σ) (op : Operation) : (shieldOnly σ).Allows m op where
  discreet _ _ := ⟨fun _ hcell => hcell.elim, fun _ hcell => hcell.elim, fun _ _ => trivial⟩
  names _ _ := trivial

/-! ## One machine -/

theorem shielded_step (m : Machine σ) :
    m.step.2.registers.mode.shielded = true ↔
      m.registers.mode.shielded = true ∨ m.nextInstruction? = some .pmd := by
  rw [mode_step]
  cases m.nextInstruction? with
  | none => simp
  | some i => cases i <;> simp [Instruction.modeAfter]

theorem executes_step {m : Machine σ} {i : Instruction} :
    m.Executes .step i ↔ m.nextInstruction? = some i := by
  constructor
  · rintro ⟨s, hs, hi⟩
    cases hs
    exact hi
  · exact fun hi => ⟨m, .step, hi⟩

/-- A budgeted run executes what its first step does, and what the rest of it does. -/
theorem executes_runFor_of_ok {m m' : Machine σ} {i : Instruction} (h : m.step = (.ok (), m'))
    (k : Nat) :
    m.Executes (.runFor (k + 1)) i ↔ m.nextInstruction? = some i ∨ m'.Executes (.runFor k) i := by
  constructor
  · rintro ⟨s, hs, hi⟩
    cases hs with
    | runFor hj hcompletes =>
      cases hcompletes with
      | zero => exact .inl hi
      | succ hstep hrest =>
        rw [h] at hstep
        cases hstep
        exact .inr ⟨s, .runFor (Nat.lt_of_succ_lt_succ hj) hrest, hi⟩
  · rintro (hi | ⟨s, hs, hi⟩)
    · exact ⟨m, .runFor (Nat.succ_pos k) (.zero m), hi⟩
    · cases hs with
      | runFor hj hcompletes => exact ⟨s, .runFor (Nat.succ_lt_succ hj) (.succ h hcompletes), hi⟩

theorem executes_runFor_of_error {m m' : Machine σ} {stop : Stop} {i : Instruction}
    (h : m.step = (.error stop, m')) (k : Nat) :
    m.Executes (.runFor (k + 1)) i ↔ m.nextInstruction? = some i := by
  constructor
  · rintro ⟨s, hs, hi⟩
    cases hs with
    | runFor hj hcompletes =>
      cases hcompletes with
      | zero => exact hi
      | succ hstep _ =>
        rw [h] at hstep
        cases hstep
  · exact fun hi => ⟨m, .runFor (Nat.succ_pos k) (.zero m), hi⟩

theorem shielded_runFor (m : Machine σ) (k : Nat) :
    (m.runFor k).2.registers.mode.shielded = true ↔
      m.registers.mode.shielded = true ∨ m.Executes (.runFor k) .pmd := by
  induction k generalizing m with
  | zero =>
    have hnone : ¬ m.Executes (.runFor 0) .pmd := by
      rintro ⟨s, hs, -⟩
      cases hs with
      | runFor hj => exact Nat.not_lt_zero _ hj
    rw [runFor_zero, or_iff_left hnone]
  | succ k ih =>
    have hfirst := shielded_step m
    cases hstep : m.step with
    | mk result m' =>
      rw [hstep] at hfirst
      cases result with
      | error stop =>
        rw [runFor_of_error hstep, executes_runFor_of_error hstep]
        exact hfirst
      | ok =>
        rw [runFor_of_ok hstep, executes_runFor_of_ok hstep, ih, hfirst, or_assoc]

theorem shielded_perform (m : Machine σ) (op : Operation) :
    (m.perform op).2.registers.mode.shielded = true ↔
      m.registers.mode.shielded = true ∨ m.Executes op .pmd := by
  have hnone : (∀ s, ¬ m.StepsFrom op s) → ¬ m.Executes op .pmd := by
    rintro hsteps ⟨s, hs, -⟩
    exact hsteps s hs
  cases op with
  | step =>
    rw [executes_step]
    exact shielded_step m
  | runFor k => exact shielded_runFor m k
  | load name =>
    rw [or_iff_left (hnone fun _ hsteps => nomatch hsteps)]
    show (m.load name).2.registers.mode.shielded = true ↔ _
    rw [registers_load]
  | dispatch id =>
    rw [or_iff_left (hnone fun _ hsteps => nomatch hsteps)]
    show (m.dispatch id).registers.mode.shielded = true ↔ _
    rw [mode_dispatch]
  | keyDown key =>
    rw [or_iff_left (hnone fun _ hsteps => nomatch hsteps)]
    show ((m.write _ key).dispatch _).registers.mode.shielded = true ↔ _
    rw [mode_dispatch]
    rfl

theorem shielded_performAll (m : Machine σ) (ops : List Operation) :
    (m.performAll ops).registers.mode.shielded = true ↔
      m.registers.mode.shielded = true ∨ ∃ x ∈ m.occasions ops, x.1.Executes x.2 .pmd := by
  induction ops generalizing m with
  | nil => simp [performAll, occasions]
  | cons op ops ih =>
    have hrest := ih (m.perform op).2
    rw [shielded_perform, or_assoc] at hrest
    simp only [occasions, List.mem_cons, exists_eq_or_imp]
    exact hrest

/-! ## Top theorem -/

/-- Machines that are equal but for the shield give equal answers to every operation of a session, and
are equal but for the shield after each of them. A shield that is up stays up, and only the instruction
for it puts it up. -/
theorem shield_inert {m n : Machine σ} (h : m.unshielded = n.unshielded) (ops : List Operation) :
    List.Forall₂ (fun x y => x.1 = y.1 ∧ x.2.unshielded = y.2.unshielded)
      (m.trace ops) (n.trace ops) ∧
    ((m.performAll ops).registers.mode.shielded = true ↔
      m.registers.mode.shielded = true ∨ ∃ x ∈ m.occasions ops, x.1.Executes x.2 .pmd) := by
  have halike := alike_shieldOnly_iff.mpr h
  refine ⟨?_, shielded_performAll m ops⟩
  refine (halike.trace fun x _ => allows_shieldOnly x.1 x.2).imp ?_
  rintro x y ⟨hanswer, hstate⟩
  exact ⟨hanswer.eq, alike_shieldOnly_iff.mp hstate⟩

/-- A program that puts up the shield and goes on. -/
def shielding : Rom where
  data := none
  start := MemoryMap.kernelOrigin
  code := [Opcode.pmd.toByte, Opcode.not.toByte]

theorem shield_inert_of_shielding :
    ∃ m n : Machine Shelf, m.unshielded = n.unshielded ∧ m.registers.mode.shielded = false ∧
      n.registers.mode.shielded = true ∧
      List.Forall₂ (fun x y => x.1 = y.1 ∧ x.2.unshielded = y.2.unshielded)
        (m.trace [.keyDown 65, .runFor 3, .load "none"])
        (n.trace [.keyDown 65, .runFor 3, .load "none"]) ∧
      (m.performAll [.step, .keyDown 65]).registers.mode.shielded = true := by
  obtain ⟨m, -, hregisters, hread⟩ := exists_loaded (show shielding.NulFree by
    simp [Rom.NulFree, shielding])
  have hpmd : m.nextInstruction? = some .pmd :=
    nextInstruction?_of_fresh .pmd hregisters (hread MemoryMap.kernelOrigin)
  have hsame : m.unshielded = (m.setMode { m.registers.mode with shielded := true }).unshielded := rfl
  refine ⟨m, m.setMode { m.registers.mode with shielded := true }, hsame, ?_, rfl, ?_, ?_⟩
  · rw [hregisters]
  · exact (shield_inert hsame _).1
  · exact (shield_inert hsame _).2.mpr
      (.inr ⟨(m, .step), List.mem_cons_self, m, .step, hpmd⟩)

end Machine

end Tis80
