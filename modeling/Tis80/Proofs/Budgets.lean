import Tis80.Command.Response
import Tis80.Proofs.Loading

/-!
# Runs with and without a budget

A run takes steps until one does not complete. How many complete before that, why the next one does
not, and the machine it leaves (`StopsAfter`) decide what every run gives that is long enough:

    m.StopsAfter k stop s → k < n → m.runFor n = (stop.verdict k, s)             (StopsAfter.runFor)
    m.StopsAfter k stop s → k < n → m.run n = some (stop.verdict (), s)          (StopsAfter.run)
    Completes n m t → m.runFor n = (.ok n, t) ∧ m.run n = none                   (Completes.runFor, run)

The step that halts is not counted, but it does move the program counter. So a budget of `k` steps
ends in front of it, and one of `k + 1` steps ends as a run without a budget does.
-/

namespace Tis80

/-- What a run gives at a stop: to halt is no error, and the count stands. -/
def Stop.verdict {α : Type} (count : α) : Stop → Except Stop α
  | .ended => .ok count
  | .outOfBounds pc => .error (.outOfBounds pc)
  | .unknownInstruction opcode address => .error (.unknownInstruction opcode address)

theorem Stop.verdict_eq_ok {α : Type} {count c : α} {stop : Stop} (h : stop.verdict count = .ok c) :
    stop = .ended ∧ count = c := by
  cases stop with
  | ended =>
    cases h
    exact ⟨rfl, rfl⟩
  | outOfBounds | unknownInstruction => cases h

theorem Stop.verdict_eq_error {α β : Type} {count : α} {stop e : Stop}
    (h : stop.verdict count = .error e) (other : β) : stop.verdict other = .error e := by
  cases stop with
  | ended => cases h
  | outOfBounds | unknownInstruction =>
    cases h
    rfl

namespace Machine

variable {σ : Type} [ByteSource σ]

/-- That many steps complete, one after the other, and lead from the first machine to the second. -/
inductive Completes : Nat → Machine σ → Machine σ → Prop
  | zero (m : Machine σ) : Completes 0 m m
  | succ {k : Nat} {m n t : Machine σ} : m.step = (.ok (), n) → Completes k n t →
      Completes (k + 1) m t

/-- Exactly `k` steps complete; the next one stops, and leaves `s`. -/
def StopsAfter (m : Machine σ) (k : Nat) (stop : Stop) (s : Machine σ) : Prop :=
  ∃ t, Completes k m t ∧ t.step = (.error stop, s)

/-! ## One step -/

theorem step_of_isHalted {m : Machine σ} (h : m.isHalted = true) : m.step = (.error .ended, m) := by
  simp only [step, h, if_true]

/-- A machine is halted after a step if and only if the step says so. -/
theorem isHalted_step_iff (m : Machine σ) : m.step.2.isHalted = true ↔ m.step.1 = .error .ended := by
  unfold step
  by_cases hhalted : m.isHalted = true
  · rw [if_pos hhalted]
    exact iff_of_true hhalted rfl
  · rw [if_neg hhalted]
    dsimp only
    split
    · exact iff_of_false hhalted nofun
    · cases m.memory.instructionAt m.registers.pc with
      | none => exact iff_of_false hhalted nofun
      | some i =>
        dsimp only
        split
        · next hnow => exact iff_of_true hnow rfl
        · next hrunning => exact iff_of_false hrunning nofun

theorem isHalted_of_step_ok {m n : Machine σ} (h : m.step = (.ok (), n)) : n.isHalted ≠ true := by
  have hiff := isHalted_step_iff m
  rw [h] at hiff
  exact mt hiff.mp nofun

theorem isHalted_of_step_ended {m s : Machine σ} (h : m.step = (.error .ended, s)) :
    s.isHalted = true := by
  have hiff := isHalted_step_iff m
  rw [h] at hiff
  exact hiff.mpr rfl

theorem runFor_of_ok {m s : Machine σ} (h : m.step = (.ok (), s)) (n : Nat) :
    m.runFor (n + 1) = ((s.runFor n).1.map (1 + ·), (s.runFor n).2) := by
  rw [runFor, runForFrom, h]
  exact runForFrom_eq 1 n s

theorem runFor_of_error {m s : Machine σ} {stop : Stop} (h : m.step = (.error stop, s)) (n : Nat) :
    m.runFor (n + 1) = (stop.verdict 0, s) := by
  rw [runFor, runForFrom, h]
  cases stop <;> rfl

theorem run_of_ok {m s : Machine σ} (h : m.step = (.ok (), s)) (n : Nat) :
    m.run (n + 1) = s.run n := by
  rw [run, h]

theorem run_of_error {m s : Machine σ} {stop : Stop} (h : m.step = (.error stop, s)) (n : Nat) :
    m.run (n + 1) = some (stop.verdict (), s) := by
  rw [run, h]
  cases stop <;> rfl

/-! ## Any number of steps -/

theorem Completes.runFor_add {k : Nat} {m t : Machine σ} (h : Completes k m t) (n : Nat) :
    m.runFor (k + n) = ((t.runFor n).1.map (k + ·), (t.runFor n).2) := by
  induction h with
  | zero m =>
    rw [Nat.zero_add]
    cases hrun : m.runFor n with
    | mk result s => cases result <;> simp [Except.map]
  | @succ k m m' t hstep _ ih =>
    rw [Nat.add_right_comm, runFor_of_ok hstep, ih]
    cases (t.runFor n).1 with
    | error e => rfl
    | ok j =>
      simp only [Except.map, Prod.mk.injEq, Except.ok.injEq, and_true]
      omega

theorem Completes.run_add {k : Nat} {m t : Machine σ} (h : Completes k m t) (n : Nat) :
    m.run (k + n) = t.run n := by
  induction h with
  | zero m => rw [Nat.zero_add]
  | succ hstep _ ih => rw [Nat.add_right_comm, run_of_ok hstep, ih]

theorem Completes.runFor {n : Nat} {m t : Machine σ} (h : Completes n m t) :
    m.runFor n = (.ok n, t) := h.runFor_add 0

theorem Completes.run {n : Nat} {m t : Machine σ} (h : Completes n m t) : m.run n = none :=
  h.run_add 0

/-- A step that completes does not halt, so no machine after one is halted. -/
theorem Completes.eq_of_isHalted {k : Nat} {m t : Machine σ} (h : Completes k m t)
    (ht : t.isHalted = true) : m = t := by
  induction h with
  | zero => rfl
  | succ hstep _ ih =>
    rw [← ih ht] at ht
    exact absurd ht (isHalted_of_step_ok hstep)

theorem StopsAfter.runFor {m s : Machine σ} {k n : Nat} {stop : Stop} (h : m.StopsAfter k stop s)
    (hn : k < n) : m.runFor n = (stop.verdict k, s) := by
  obtain ⟨t, hcompletes, hstop⟩ := h
  obtain ⟨j, rfl⟩ := Nat.exists_eq_add_of_lt hn
  rw [Nat.add_assoc, hcompletes.runFor_add, runFor_of_error hstop]
  cases stop <;> rfl

theorem StopsAfter.run {m s : Machine σ} {k n : Nat} {stop : Stop} (h : m.StopsAfter k stop s)
    (hn : k < n) : m.run n = some (stop.verdict (), s) := by
  obtain ⟨t, hcompletes, hstop⟩ := h
  obtain ⟨j, rfl⟩ := Nat.exists_eq_add_of_lt hn
  rw [Nat.add_assoc, hcompletes.run_add, run_of_error hstop]

theorem StopsAfter.isHalted {m s : Machine σ} {k : Nat} (h : m.StopsAfter k .ended s) :
    s.isHalted = true := by
  obtain ⟨t, -, hstop⟩ := h
  exact isHalted_of_step_ended hstop

theorem stopsAfter_of_isHalted {m : Machine σ} (h : m.isHalted = true) : m.StopsAfter 0 .ended m :=
  ⟨m, .zero m, step_of_isHalted h⟩

/-- Within `n` steps either all complete or one of them stops. -/
theorem completes_or_stopsAfter (m : Machine σ) (n : Nat) :
    (∃ t, Completes n m t) ∨ ∃ k stop s, k < n ∧ m.StopsAfter k stop s := by
  induction n generalizing m with
  | zero => exact .inl ⟨m, .zero m⟩
  | succ n ih =>
    cases hstep : m.step with
    | mk result m' =>
      cases result with
      | error stop => exact .inr ⟨0, stop, m', Nat.succ_pos n, m, .zero m, hstep⟩
      | ok =>
        rcases ih m' with ⟨t, ht⟩ | ⟨k, stop, s, hk, t, ht, hstop⟩
        · exact .inl ⟨t, .succ hstep ht⟩
        · exact .inr ⟨k + 1, stop, s, Nat.succ_lt_succ hk, t, .succ hstep ht, hstop⟩

/-- What a budgeted run without an error says about the steps. -/
theorem completes_or_stopsAfter_of_runFor_ok {m s : Machine σ} {n i : Nat}
    (h : m.runFor n = (.ok i, s)) :
    (i = n ∧ Completes n m s) ∨ (i < n ∧ m.StopsAfter i .ended s) := by
  rcases completes_or_stopsAfter m n with ⟨t, ht⟩ | ⟨k, stop, s', hk, hstops⟩
  · rw [ht.runFor] at h
    cases h
    exact .inl ⟨rfl, ht⟩
  · rw [hstops.runFor hk] at h
    obtain ⟨hverdict, rfl⟩ := Prod.mk.inj h
    obtain ⟨rfl, rfl⟩ := Stop.verdict_eq_ok hverdict
    exact .inr ⟨hk, hstops⟩

theorem stopsAfter_of_runFor_error {m s : Machine σ} {n : Nat} {e : Stop}
    (h : m.runFor n = (.error e, s)) :
    ∃ k stop, k < n ∧ m.StopsAfter k stop s ∧ stop.verdict k = .error e := by
  rcases completes_or_stopsAfter m n with ⟨t, ht⟩ | ⟨k, stop, s', hk, hstops⟩
  · rw [ht.runFor] at h
    cases h
  · rw [hstops.runFor hk] at h
    obtain ⟨hverdict, rfl⟩ := Prod.mk.inj h
    exact ⟨k, stop, hk, hstops, hverdict⟩

theorem stopsAfter_of_run {m : Machine σ} {fuel : Nat} {r : Except Stop Unit × Machine σ}
    (h : m.run fuel = some r) :
    ∃ k stop s, k < fuel ∧ m.StopsAfter k stop s ∧ r = (stop.verdict (), s) := by
  rcases completes_or_stopsAfter m fuel with ⟨t, ht⟩ | ⟨k, stop, s, hk, hstops⟩
  · rw [ht.run] at h
    cases h
  · rw [hstops.run hk] at h
    cases h
    exact ⟨k, stop, s, hk, hstops, rfl⟩

/-! ## Budgets -/

/-- A halted machine takes no further step, whatever the budget. -/
theorem runFor_of_isHalted {m : Machine σ} (h : m.isHalted = true) (n : Nat) :
    m.runFor n = (.ok 0, m) := by
  cases n with
  | zero => rfl
  | succ n => exact runFor_of_error (step_of_isHalted h) n

/-- Budgets add up: what is left over is spent where the first run ended. -/
theorem runFor_add {m s : Machine σ} {a i : Nat} (h : m.runFor a = (.ok i, s)) (b : Nat) :
    m.runFor (a + b) = ((s.runFor b).1.map (i + ·), (s.runFor b).2) := by
  rcases completes_or_stopsAfter_of_runFor_ok h with ⟨rfl, hcompletes⟩ | ⟨hi, hstops⟩
  · exact hcompletes.runFor_add b
  · rw [runFor_of_isHalted hstops.isHalted, hstops.runFor (by omega)]
    rfl

theorem runFor_add_of_error {m s : Machine σ} {a : Nat} {e : Stop} (h : m.runFor a = (.error e, s))
    (b : Nat) : m.runFor (a + b) = (.error e, s) := by
  obtain ⟨k, stop, hk, hstops, hverdict⟩ := stopsAfter_of_runFor_error h
  rw [hstops.runFor (by omega), hverdict]

theorem run_ok_iff {m s : Machine σ} :
    (∃ fuel, m.run fuel = some (.ok (), s)) ↔
      ∃ n k, m.runFor n = (.ok k, s) ∧ s.isHalted = true := by
  constructor
  · rintro ⟨fuel, hrun⟩
    obtain ⟨k, stop, s', -, hstops, hr⟩ := stopsAfter_of_run hrun
    obtain ⟨hverdict, rfl⟩ := Prod.mk.inj hr
    obtain ⟨rfl, -⟩ := Stop.verdict_eq_ok hverdict.symm
    exact ⟨k + 1, k, hstops.runFor (Nat.lt_succ_self k), hstops.isHalted⟩
  · rintro ⟨n, k, hrun, hs⟩
    rcases completes_or_stopsAfter_of_runFor_ok hrun with ⟨-, hcompletes⟩ | ⟨-, hstops⟩
    · -- no step that completes leads to a halted machine, so there was none
      obtain rfl := hcompletes.eq_of_isHalted hs
      exact ⟨1, (stopsAfter_of_isHalted hs).run Nat.one_pos⟩
    · exact ⟨k + 1, hstops.run (Nat.lt_succ_self k)⟩

theorem run_error_iff {m s : Machine σ} {e : Stop} :
    (∃ fuel, m.run fuel = some (.error e, s)) ↔ ∃ n, m.runFor n = (.error e, s) := by
  constructor
  · rintro ⟨fuel, hrun⟩
    obtain ⟨k, stop, s', -, hstops, hr⟩ := stopsAfter_of_run hrun
    obtain ⟨hverdict, rfl⟩ := Prod.mk.inj hr
    refine ⟨k + 1, ?_⟩
    rw [hstops.runFor (Nat.lt_succ_self k), Stop.verdict_eq_error hverdict.symm k]
  · rintro ⟨n, hrun⟩
    obtain ⟨k, stop, -, hstops, hverdict⟩ := stopsAfter_of_runFor_error hrun
    refine ⟨k + 1, ?_⟩
    rw [hstops.run (Nat.lt_succ_self k), Stop.verdict_eq_error hverdict ()]

end Machine

/-! ## The command line -/

namespace Response

/-- What is answered when a run has come to a stop and left `s`. -/
def atStop (s : Machine Folder) (o : RunOptions) (colors : Bool) : Stop → Response
  | .ended => .report (runText s.snapshot o colors)
  | .outOfBounds pc => .stopped (.outOfBounds pc)
  | .unknownInstruction opcode address => .stopped (.unknownInstruction opcode address)

theorem run_of_finishRun {folder : Folder} {o : RunOptions} {colors : Bool} {fuel : Nat}
    {m s : Machine Folder} {stop : Stop}
    (hboot : Machine.boot folder (o.kernel.getD MemoryMap.kernelImage) = .ok m)
    (hrun : finishRun m o.maxSteps fuel = some (stop.verdict (), s)) :
    run folder o colors fuel = some (atStop s o colors stop) := by
  unfold run
  rw [hboot]
  dsimp only
  rw [hrun]
  cases stop <;> rfl

theorem finishRun_of_stopsAfter {m s : Machine Folder} {k : Nat} {stop : Stop}
    (h : m.StopsAfter k stop s) :
    (∀ fuel, k < fuel → finishRun m none fuel = some (stop.verdict (), s)) ∧
    ∀ n fuel, k < n → finishRun m (some n) fuel = some (stop.verdict (), s) := by
  refine ⟨fun fuel hfuel => h.run hfuel, fun n fuel hn => ?_⟩
  rw [finishRun, h.runFor hn]
  cases stop <;> rfl

end Response

theorem respond_of_run {args : List String} {f : Format} {o : RunOptions} (w : Workplace)
    (h : Invocation.read args = .ok ⟨f, .run o⟩) (terminal : Bool) (fuel : Nat) :
    respond args w terminal fuel = Response.run (w.folder o.romDir) o (f.colors terminal) fuel := by
  rw [respond, h]
  rfl

namespace Machine

variable {σ : Type} [ByteSource σ]

/-! ## Top theorem -/

/-- Steps and runs agree. Budgets add up, and an error takes the rest of a budget with it. A budget
is not used up only if the machine halts, after as many steps as are counted. A run without a budget
ends as some run with a budget does that ends in a halted machine or in an error, and so does every
larger budget. On the command line, then, a budget above the number of steps that complete makes no
difference. -/
theorem runs_agree (m : Machine σ) :
    (∀ (a b i : Nat) (s : Machine σ), m.runFor a = (.ok i, s) →
      (∀ j t, s.runFor b = (.ok j, t) → m.runFor (a + b) = (.ok (i + j), t)) ∧
      (∀ e t, s.runFor b = (.error e, t) → m.runFor (a + b) = (.error e, t))) ∧
    (∀ (a b : Nat) e s, m.runFor a = (.error e, s) → m.runFor (a + b) = (.error e, s)) ∧
    (∀ n k s, m.runFor n = (.ok k, s) → k < n →
      s.isHalted = true ∧ ∃ t, Completes k m t ∧ t.step = (.error .ended, s)) ∧
    (∀ s, (∃ fuel, m.run fuel = some (.ok (), s)) ↔
      ∃ n k, m.runFor n = (.ok k, s) ∧ s.isHalted = true) ∧
    (∀ e s, (∃ fuel, m.run fuel = some (.error e, s)) ↔ ∃ n, m.runFor n = (.error e, s)) ∧
    (∀ n n' k s, m.runFor n = (.ok k, s) → s.isHalted = true → n ≤ n' →
      m.runFor n' = (.ok k, s)) ∧
    (∀ n n' e s, m.runFor n = (.error e, s) → n ≤ n' → m.runFor n' = (.error e, s)) ∧
    (∀ (args args' : List String) (f : Format) (o : RunOptions) (n : Nat) (w : Workplace)
      (booted s : Machine Folder) (k : Nat) (stop : Stop) (terminal : Bool),
      Invocation.read args = .ok ⟨f, .run { o with maxSteps := none }⟩ →
      Invocation.read args' = .ok ⟨f, .run { o with maxSteps := some n }⟩ →
      boot (w.folder o.romDir) (o.kernel.getD MemoryMap.kernelImage) = .ok booted →
      booted.StopsAfter k stop s → k < n →
      (∀ fuel, k < fuel → respond args w terminal fuel =
        some (Response.atStop s o (f.colors terminal) stop)) ∧
      ∀ fuel, respond args' w terminal fuel =
        some (Response.atStop s o (f.colors terminal) stop)) := by
  refine ⟨?_, fun a b e s h => runFor_add_of_error h b, ?_, fun s => run_ok_iff,
    fun e s => run_error_iff, ?_, ?_, ?_⟩
  · intro a b i s h
    have hadd := runFor_add h b
    refine ⟨fun j t hrest => ?_, fun e t hrest => ?_⟩
    · rw [hadd, hrest]
      rfl
    · rw [hadd, hrest]
      rfl
  · intro n k s h hk
    rcases completes_or_stopsAfter_of_runFor_ok h with ⟨rfl, -⟩ | ⟨-, hstops⟩
    · exact absurd hk (Nat.lt_irrefl k)
    · exact ⟨hstops.isHalted, hstops⟩
  · intro n n' k s h hs hn
    obtain ⟨b, rfl⟩ := Nat.exists_eq_add_of_le hn
    rw [runFor_add h, runFor_of_isHalted hs]
    rfl
  · intro n n' e s h hn
    obtain ⟨b, rfl⟩ := Nat.exists_eq_add_of_le hn
    exact runFor_add_of_error h b
  · intro args args' f o n w booted s k stop terminal hargs hargs' hboot hstops hn
    obtain ⟨hunbounded, hbudget⟩ := Response.finishRun_of_stopsAfter hstops
    refine ⟨fun fuel hfuel => ?_, fun fuel => ?_⟩
    · rw [respond_of_run w hargs]
      exact Response.run_of_finishRun hboot (hunbounded fuel hfuel)
    · rw [respond_of_run w hargs']
      exact Response.run_of_finishRun hboot (hbudget n fuel hn)

/-- A directory with a kernel that complements the accumulator and halts. -/
def inverting : Workplace where
  tree := FileTree.writeFile {} ["kernal.rom"]
    [0xFF, 0xFE, 0xFE, 0xFF, 0x01, 0x02, 0x00, Opcode.not.toByte, Opcode.hlt.toByte]
  here := []

theorem runs_agree_of_inverting :
    ∃ response, respond ["run"] inverting true 2 = some response ∧
      respond ["run", "--max-steps", "2"] inverting true 0 = some response := by
  have himage : ImageDrive.image (inverting.folder none) "kernal.rom" =
      .ok [0xFF, 0xFE, 0xFE, 0xFF, 0x01, 0x02, 0x00, 0x08, 0x41] := rfl
  obtain ⟨m, hboot, hregisters, hmemory⟩ := boot_of_image_ok himage rfl
  have hread : ∀ a, m.memory.read a = ([(0x0201, 0x41), (0x0200, 0x08)].lookup a).getD 0 := by
    intro a
    rw [hmemory, Memory.read_writeAll, Memory.read_blank]
    rfl
  have hnot : m.nextInstruction? = some .not :=
    nextInstruction?_of_fresh .not hregisters (hread 0x0200)
  have hfirst : m.step = (.ok (), (m.advance 1).execute .not) := by
    have hrunning : ((m.advance 1).execute .not).isHalted = false := by
      show m.registers.mode.halted = false
      rw [hregisters]
    rw [step_of_nextInstruction? hnot, show Instruction.size .not = 1 from rfl, hrunning]
    rfl
  have hhlt : ((m.advance 1).execute .not).nextInstruction? = some .hlt := by
    have hpc : ((m.advance 1).execute .not).registers.pc = 0x0201 := by
      show m.registers.pc + 1 = 0x0201
      rw [hregisters]
      rfl
    refine nextInstruction?_of_fetch .hlt ?_ hpc (by decide) ?_
    · show m.registers.mode.halted = false
      rw [hregisters]
    · exact (Memory.fetch_toNat m.memory 0x0201).trans (hread 0x0201)
  have hstops : m.StopsAfter 1 .ended _ := ⟨_, .succ hfirst (.zero _), step_of_nextInstruction? hhlt⟩
  obtain ⟨-, -, -, -, -, -, -, hlines⟩ := runs_agree m
  obtain ⟨hunbounded, hbudget⟩ := hlines ["run"] ["run", "--max-steps", "2"] {} {} 2 inverting m _ 1
    .ended true rfl rfl hboot hstops (by decide)
  exact ⟨_, hunbounded 2 (by decide), hbudget 0⟩

end Machine

end Tis80
