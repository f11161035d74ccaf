import Tis80.Proofs.ExactSums
import Tis80.Proofs.Resumption

/-!
# Progress

A step that completes moves the program counter on by the size of its instruction, unless it transfers
control: by a jump that is taken, a call, a return, or the entry into a handler (`Transfers`).

    ¬ Transfers m → m.nextInstruction? = some i → m.step.2.registers.pc = m.registers.pc + i.size
                                                                             (pc_step_of_not_transfers)

A step starts inside memory, and an instruction takes a byte at least. So a run without a transfer has
at most as many steps as there are cells from the program counter on, whatever the program writes over
itself on the way; and then the machine halts or faults.
-/

namespace Tis80

namespace Machine

variable {σ : Type} [ByteSource σ]

/-- The next step takes the program counter elsewhere: by a jump whose condition holds, a call, a
return, or an interrupt that has a handler. -/
inductive Transfers (m : Machine σ) : Prop
  | jmp {target : Address} : m.nextInstruction? = some (.jmp target) → Transfers m
  | jeq {target : Address} : m.nextInstruction? = some (.jeq target) → m.registers.acc = 0 →
      Transfers m
  | jne {target : Address} : m.nextInstruction? = some (.jne target) → m.registers.acc ≠ 0 →
      Transfers m
  | jgt {target : Address} : m.nextInstruction? = some (.jgt target) → 0 < m.registers.acc →
      Transfers m
  | jfg {f : Flag} {target : Address} : m.nextInstruction? = some (.jfg f.code target) →
      m.registers.flags.has f = true → Transfers m
  | cll {target : Address} : m.nextInstruction? = some (.cll target) → Transfers m
  | crn : m.nextInstruction? = some .crn → Transfers m
  | handler {id : Byte} {own : Machine σ} : Raises m .step id own → own.HasHandler id → Transfers m

/-! ## One step -/

theorem exists_nextInstruction_of_ok {m n : Machine σ} (h : m.step = (.ok (), n)) :
    ∃ i, m.nextInstruction? = some i := by
  cases hnext : m.nextInstruction? with
  | some i => exact ⟨i, rfl⟩
  | none =>
    rw [step_of_nextInstruction?_none hnext] at h
    split at h
    · cases h
    · split at h
      · cases h
      · cases h

/-- An interrupt that has no handler leaves the program counter behind the instruction. -/
theorem pc_step_of_raises {m own : Machine σ} {id : Byte} {i : Instruction}
    (hsaving : m.savingFrame = false) (hnext : m.nextInstruction? = some i)
    (hraises : Raises m .step id own) (h : ¬ Transfers m) :
    m.step.2.registers.pc = m.registers.pc + i.size := by
  have hafter := after_of_raises hraises hsaving
  rw [dispatch_of_not_hasHandler fun hhandler => h (.handler hraises hhandler)] at hafter
  obtain ⟨j, hj, hpc⟩ := exists_nextInstruction_of_raises hraises
  obtain rfl : i = j := Option.some.inj (hnext.symm.trans hj)
  exact (congrArg (fun n => n.registers.pc) hafter).trans hpc

theorem pc_step_of_jumpIf {m : Machine σ} {i : Instruction} {taken : Bool} {target : Address}
    (hnext : m.nextInstruction? = some i)
    (hexecute : (m.advance i.size).execute i = (m.advance i.size).jumpIf taken target)
    (h : taken ≠ true) : m.step.2.registers.pc = m.registers.pc + i.size := by
  rw [step_snd hnext, hexecute, jumpIf, if_neg h]
  rfl

/-- One case for each kind of instruction: it cannot transfer control, or it would and does not. -/
theorem pc_step_of_not_transfers {m : Machine σ} {i : Instruction} (hsaving : m.savingFrame = false)
    (hnext : m.nextInstruction? = some i) (h : ¬ Transfers m) :
    m.step.2.registers.pc = m.registers.pc + i.size := by
  cases i with
  | add r | addi v | sub r | subi v =>
    rcases raises_or_setAcc hnext rfl with ⟨own, hraises⟩ | ⟨result, hstep⟩
    · exact pc_step_of_raises hsaving hnext hraises h
    · rw [hstep]
      rfl
  | psa | psr r =>
    rcases raises_or_place hnext rfl with ⟨own, hraises⟩ | hstep
    · exact pc_step_of_raises hsaving hnext hraises h
    · rw [hstep]
      rfl
  | dsk name =>
    rcases raises_or_loadAt hnext with ⟨own, hraises⟩ | hstep
    · exact pc_step_of_raises hsaving hnext hraises h
    · rw [hstep, loadAt, registers_load]
      rfl
  | int id => exact pc_step_of_raises hsaving hnext (.int hnext) h
  | jmp target => exact absurd (.jmp hnext) h
  | cll target => exact absurd (.cll hnext) h
  | crn => exact absurd (.crn hnext) h
  | jeq target =>
    exact pc_step_of_jumpIf hnext rfl fun htaken => h (.jeq hnext (of_decide_eq_true htaken))
  | jne target =>
    exact pc_step_of_jumpIf hnext rfl fun htaken => h (.jne hnext (of_decide_eq_true htaken))
  | jgt target =>
    exact pc_step_of_jumpIf hnext rfl fun htaken => h (.jgt hnext (of_decide_eq_true htaken))
  | jfg code target =>
    refine pc_step_of_jumpIf hnext rfl fun htaken => h ?_
    obtain ⟨f, hf, hset⟩ := (Option.any_eq_true _ _).mp htaken
    rw [Flag.ofCode?_eq_some_iff] at hf
    subst hf
    exact .jfg hnext hset
  | cfg code =>
    rw [step_snd hnext, execute]
    split <;> rfl
  | _ =>
    rw [step_snd hnext]
    rfl

/-! ## Many steps -/

/-- Without a transfer, every step that completes takes the program counter further, and starts inside
memory. -/
theorem Completes.le_of_not_transfers {n : Nat} {m t : Machine σ} (h : Completes n m t)
    (hm : m.Bounded) (hstay : ∀ k u, k < n → Completes k m u → ¬ Transfers u) :
    n ≤ memorySize - m.registers.pc := by
  induction h with
  | zero m => exact Nat.zero_le _
  | @succ n m m' t hstep _ ih =>
    obtain ⟨i, hnext⟩ := exists_nextInstruction_of_ok hstep
    have hpc := pc_step_of_not_transfers hm.notSaving hnext (hstay 0 m (Nat.succ_pos n) (.zero m))
    have hbounded := hm.step
    rw [hstep] at hpc hbounded
    have hrest := ih hbounded fun k u hk hu => hstay (k + 1) u (Nat.succ_lt_succ hk) (.succ hstep hu)
    have hlt := pc_lt_of_nextInstruction? hnext
    have hpos := i.size_pos
    dsimp only at hpc
    omega

/-! ## Top theorem -/

/-- A step that completes and transfers no control moves the program counter on by the length of the
instruction, one to five bytes. So there are not more such steps in a row than cells from the program
counter on, whatever they write over the program; more steps than memory has cells cannot complete
without a transfer; and a program that never transfers control comes to a stop. -/
theorem Reachable.progress_or_transfer {m : Machine σ} (hm : Reachable m) :
    (∀ n, m.step = (.ok (), n) → ¬ Transfers m →
      ∃ i, m.nextInstruction? = some i ∧ n.registers.pc = m.registers.pc + i.encode.length ∧
        1 ≤ i.encode.length ∧ i.encode.length ≤ 5) ∧
    (∀ n t, Completes n m t → (∀ k u, k < n → Completes k m u → ¬ Transfers u) →
      n ≤ memorySize - m.registers.pc) ∧
    (∀ t, Completes (memorySize + 1) m t →
      ∃ k u, k < memorySize + 1 ∧ Completes k m u ∧ Transfers u) ∧
    ((∀ k u, Completes k m u → ¬ Transfers u) →
      ∃ k stop s, k ≤ memorySize - m.registers.pc ∧ m.StopsAfter k stop s ∧
        ∀ fuel, k < fuel → m.run fuel = some (stop.verdict (), s)) := by
  have hbounded := hm.bounded
  refine ⟨?_, ?_, ?_, ?_⟩
  · intro n hstep hstay
    obtain ⟨i, hnext⟩ := exists_nextInstruction_of_ok hstep
    have hpc := pc_step_of_not_transfers hbounded.notSaving hnext hstay
    rw [hstep] at hpc
    exact ⟨i, hnext, hpc, i.size_pos, i.size_le⟩
  · intro n t hcompletes hstay
    exact hcompletes.le_of_not_transfers hbounded hstay
  · intro t hcompletes
    apply Classical.byContradiction
    intro hnone
    have hle := hcompletes.le_of_not_transfers hbounded fun k u hk hu htransfers =>
      hnone ⟨k, u, hk, hu, htransfers⟩
    omega
  · intro hstay
    rcases completes_or_stopsAfter m (memorySize + 1) with ⟨t, ht⟩ | ⟨k, stop, s, hk, hstops⟩
    · have hle := ht.le_of_not_transfers hbounded fun k u _ hu => hstay k u hu
      omega
    · obtain ⟨t, ht, -⟩ := id hstops
      exact ⟨k, stop, s, ht.le_of_not_transfers hbounded fun k u _ hu => hstay k u hu, hstops,
        fun fuel hfuel => hstops.run hfuel⟩

/-- Blank memory is nothing but additions, and with interrupts disabled none of them leads elsewhere. -/
structure AddsOnly (m : Machine σ) : Prop where
  blank : m.memory = Memory.blank
  masked : m.registers.mode.interruptible = false

theorem AddsOnly.eq_add {σ : Type} {m : Machine σ} {i : Instruction} (h : m.AddsOnly)
    (hnext : m.nextInstruction? = some i) : i = .add ⟨0⟩ := by
  have hzero : ∀ k, m.memory.fetch k = 0 := by
    intro k
    simp [h.blank, Memory.fetch, Memory.blank]
  have hadd := nextInstruction?_of_fetch .add (isHalted_of_nextInstruction? hnext) rfl
    (pc_lt_of_nextInstruction? hnext) (hzero _)
  simp only [hzero] at hadd
  exact Option.some.inj (hnext.symm.trans hadd)

theorem AddsOnly.not_transfers {m : Machine σ} (h : m.AddsOnly) : ¬ Transfers m := by
  intro htransfers
  cases htransfers with
  | jmp hnext | jeq hnext | jne hnext | jgt hnext | jfg hnext | cll hnext | crn hnext =>
    cases h.eq_add hnext
  | handler hraises hhandler =>
    have hmode := congrArg Mode.interruptible (mode_sp_of_raises hraises).1
    exact Bool.false_ne_true ((h.masked.symm.trans hmode.symm).trans hhandler.1)

theorem AddsOnly.of_completes {k : Nat} {m u : Machine σ} (hu : Completes k m u) (h : m.AddsOnly) :
    u.AddsOnly := by
  induction hu with
  | zero => exact h
  | @succ k m n u hstep _ ih =>
    obtain ⟨i, hnext⟩ := exists_nextInstruction_of_ok hstep
    obtain rfl := h.eq_add hnext
    rw [step_of_isSum hnext rfl h.masked, sumUp_eq] at hstep
    obtain rfl := (Prod.mk.inj hstep).2
    exact ih ⟨h.blank, h.masked⟩

/-- A machine that has loaded nothing runs through memory and stops. -/
theorem progress_of_blank :
    ∃ k stop s, k ≤ 0xFE00 ∧ ({ drive := {} } : Machine Shelf).StopsAfter k stop s := by
  have hblank : ({ drive := {} } : Machine Shelf).AddsOnly := ⟨rfl, rfl⟩
  obtain ⟨-, -, -, hstops⟩ := Reachable.progress_or_transfer (.fresh ({} : Shelf))
  obtain ⟨k, stop, s, hk, hstop, -⟩ := hstops fun k u hu => (hblank.of_completes hu).not_transfers
  exact ⟨k, stop, s, hk, hstop⟩

end Machine

end Tis80
