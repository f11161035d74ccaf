import Tis80.Proofs.Interrupts

/-!
# The history of a flag

A flag is up because something raised it and nothing lowered it since. What raises each flag is said
by `Causes`, what lowers it by `Clears`, and one event does this to it:

    (m.after e).registers.flags.has f ↔ Causes m f e ∨ m.registers.flags.has f ∧ ¬ Clears m f e
                                                                                        (has_after)

An event may raise two flags, when the frame of the handler for the first finds no room. Over a run
the last event that causes or clears the flag decides, and without one it is as it was.
-/

namespace Tis80

namespace Flag

/-- The code that an instruction names the flag by. -/
def code : Flag → Byte
  | .accOverflow => 0
  | .stackOverflow => 1
  | .ioError => 2

theorem ofCode?_eq_some_iff {c : Byte} {f : Flag} : ofCode? c = some f ↔ c = f.code := by
  constructor
  · intro h
    unfold ofCode? at h
    split at h
    · cases h
      assumption
    · split at h
      · cases h
        assumption
      · split at h
        · cases h
          assumption
        · cases h
  · rintro rfl
    cases f <;> rfl

theorem ofCode?_eq_none {c : Byte} (h : 2 < c) : ofCode? c = none := by
  cases hc : ofCode? c with
  | none => rfl
  | some f =>
    rw [ofCode?_eq_some_iff.mp hc] at h
    cases f <;> exact absurd h (by decide)

end Flag

namespace Flags

theorem has_raise_iff {fs : Flags} {f g : Flag} :
    (fs.raise g).has f = true ↔ fs.has f = true ∨ f = g := by
  by_cases h : f = g
  · subst h
    simp [raise]
  · rw [raise, has_assign_of_ne _ _ (Ne.symm h)]
    simp [h]

theorem has_lower_iff {fs : Flags} {f g : Flag} :
    (fs.lower g).has f = true ↔ fs.has f = true ∧ f ≠ g := by
  by_cases h : f = g
  · subst h
    simp [lower]
  · rw [lower, has_assign_of_ne _ _ (Ne.symm h)]
    simp [h]

end Flags

namespace Machine

section Frames

variable {σ : Type}

theorem room_saveByte (m : Machine σ) (v : Byte) : (m.saveByte v).room = m.room - 1 := by
  unfold saveByte
  split
  · next hfull =>
    rw [stackFull_iff] at hfull
    show m.room = m.room - 1
    omega
  · next hfull => exact room_place (mt (stackFull_iff m).mpr hfull) v

theorem room_foldl_saveByte (m : Machine σ) (bytes : List Byte) :
    (bytes.foldl saveByte m).room = m.room - bytes.length := by
  induction bytes generalizing m with
  | nil => rfl
  | cons v bytes ih =>
    rw [List.foldl_cons, ih, room_saveByte, List.length_cons]
    omega

/-- The byte of the frame with index `k` is pushed on a full stack. -/
def FullAt (m : Machine σ) (k : Nat) : Prop :=
  MemoryMap.kernelOrigin.toNat ≤
    ((m.frame.toBytes.take k).foldl saveByte (m.setSaving true)).registers.sp.toNat + 1

/-- Some byte of the frame finds the stack full if and only if not all of them find room. -/
theorem exists_fullAt_iff (m : Machine σ) :
    (∃ k, k < Frame.size ∧ m.FullAt k) ↔ m.room < Frame.size := by
  have hfull : ∀ k, k ≤ Frame.size → (m.FullAt k ↔ m.room ≤ k) := by
    intro k hk
    have hlength : (m.frame.toBytes.take k).length = k := by
      rw [List.length_take, Frame.length_toBytes]
      omega
    have hroom : (m.setSaving true).room = m.room := rfl
    have hnone := stackFull_iff ((m.frame.toBytes.take k).foldl saveByte (m.setSaving true))
    rw [stackFull, decide_eq_true_iff, room_foldl_saveByte, hlength, hroom] at hnone
    rw [FullAt, hnone]
    omega
  constructor
  · rintro ⟨k, hk, hat⟩
    rw [hfull k (Nat.le_of_lt hk)] at hat
    omega
  · intro hroom
    exact ⟨m.room, hroom, (hfull _ (Nat.le_of_lt hroom)).mpr (Nat.le_refl _)⟩

theorem has_call_iff {m : Machine σ} {target : Address} {f : Flag} :
    (m.call target).registers.flags.has f = true ↔
      m.registers.flags.has f = true ∨ f = .stackOverflow ∧ m.room < Frame.size := by
  rw [call_eq]
  by_cases hroom : m.room < Frame.size
  · simp only [hroom, if_true, and_true]
    exact Flags.has_raise_iff
  · simp only [hroom, if_false, and_false, or_false]

theorem has_dispatch_iff {m : Machine σ} {id : Byte} {f : Flag} :
    (m.dispatch id).registers.flags.has f = true ↔
      m.registers.flags.has f = true ∨
        f = .stackOverflow ∧ m.HasHandler id ∧ m.room < Frame.size := by
  by_cases hhandler : m.HasHandler id
  · rw [dispatch_of_hasHandler hhandler, has_call_iff]
    simp only [hhandler, true_and]
  · rw [dispatch_of_not_hasHandler hhandler]
    simp only [hhandler, false_and, and_false, or_false]

theorem has_setFlag_iff {m : Machine σ} {f g : Flag} :
    (m.setFlag g).registers.flags.has f = true ↔ m.registers.flags.has f = true ∨ f = g :=
  Flags.has_raise_iff

theorem flags_ret (m : Machine σ) : m.ret.registers.flags = m.registers.flags := by
  obtain ⟨sp, f, hret⟩ := exists_ret_eq m
  rw [hret]
  rfl

end Frames

variable {σ : Type} [ByteSource σ]

/-- The event makes a call, and saves the frame that the second machine has then. -/
inductive Saves (m : Machine σ) : Event σ → Machine σ → Prop
  | cll {target : Address} : m.nextInstruction? = some (.cll target) → Saves m .step (m.advance 3)
  | handler {e : Event σ} {id : Byte} {own : Machine σ} : Raises m e id own → own.HasHandler id →
      Saves m e own

/-- What raises a flag: a sum that does not fit, a byte or a part of a frame that is pushed on a full
stack, or a ROM that an instruction fails to load. -/
inductive Causes (m : Machine σ) : Flag → Event σ → Prop
  | sum {i : Instruction} {n : Int} : m.nextInstruction? = some i → m.sum? i = some n →
      n < 0 ∨ 255 < n → Causes m .accOverflow .step
  | push {i : Instruction} {v : Byte} : m.nextInstruction? = some i → m.pushed? i = some v →
      MemoryMap.kernelOrigin.toNat ≤ m.registers.sp.toNat + 1 → Causes m .stackOverflow .step
  | frame {e : Event σ} {caller : Machine σ} {k : Nat} : Saves m e caller → k < Frame.size →
      caller.FullAt k → Causes m .stackOverflow e
  | disk {name : Address} {fault : LoadFault} : m.nextInstruction? = some (.dsk name) →
      ((m.advance 3).loadAt name).1 = .error fault → Causes m .ioError .step

/-- The instruction that lowers the flag is executed. -/
def Clears (m : Machine σ) (f : Flag) (e : Event σ) : Prop :=
  e = .step ∧ m.nextInstruction? = some (.cfg f.code)

/-- Along a run the flag is caused, and not cleared any more after that. -/
def Standing (f : Flag) (run : List (Machine σ × Event σ)) : Prop :=
  ∃ before m e rest, run = before ++ (m, e) :: rest ∧ Causes m f e ∧
    ∀ x ∈ rest, ¬ Clears x.1 f x.2

/-- What an event means for the flags: it raises an interrupt, calls a subroutine, names a flag to
lower, or leaves them alone. -/
inductive FlagCase (m : Machine σ) (e : Event σ) : Prop
  | raises {id : Byte} {own : Machine σ} : Raises m e id own → FlagCase m e
  | calls {target : Address} : e = .step → m.nextInstruction? = some (.cll target) → FlagCase m e
  | lowers {code : Byte} : e = .step → m.nextInstruction? = some (.cfg code) → FlagCase m e
  | keeps : (m.after e).registers.flags = m.registers.flags → (∀ f, ¬ Clears m f e) → FlagCase m e

/-! ## Every event is one of these cases -/

theorem FlagCase.of_flags_execute {m : Machine σ} {i : Instruction}
    (hnext : m.nextInstruction? = some i)
    (hflags : ((m.advance i.size).execute i).registers.flags = m.registers.flags)
    (hi : ∀ code, i ≠ .cfg code) : FlagCase m .step := by
  apply keeps
  · rw [after, step_snd hnext]
    exact hflags
  · rintro f ⟨-, hcfg⟩
    rw [hnext] at hcfg
    cases hcfg
    exact hi _ rfl

theorem FlagCase.of_sum {m : Machine σ} {i : Instruction} {n : Int}
    (hnext : m.nextInstruction? = some i) (hsum : m.sum? i = some n) : FlagCase m .step := by
  rcases raises_or_setAcc hnext hsum with ⟨own, hraises⟩ | ⟨v, hstep⟩
  · exact raises hraises
  · apply of_flags_execute hnext
    · rw [← step_snd hnext, hstep]
      rfl
    · rintro code rfl
      cases hsum

theorem FlagCase.of_push {m : Machine σ} {i : Instruction} {v : Byte}
    (hnext : m.nextInstruction? = some i) (hpushed : m.pushed? i = some v) :
    FlagCase m .step := by
  rcases raises_or_place hnext hpushed with ⟨own, hraises⟩ | hstep
  · exact raises hraises
  · apply of_flags_execute hnext
    · rw [← step_snd hnext, hstep]
      rfl
    · rintro code rfl
      cases hpushed

theorem FlagCase.of_disk {m : Machine σ} {name : Address}
    (hnext : m.nextInstruction? = some (.dsk name)) : FlagCase m .step := by
  rcases raises_or_loadAt hnext with ⟨own, hraises⟩ | hstep
  · exact raises hraises
  · refine of_flags_execute hnext ?_ (by rintro code ⟨⟩)
    rw [← step_snd hnext, hstep, loadAt, registers_load]
    rfl

theorem FlagCase.of_nextInstruction {m : Machine σ} {i : Instruction}
    (hnext : m.nextInstruction? = some i) : FlagCase m .step := by
  cases i with
  | add r | addi v | sub r | subi v => exact of_sum hnext rfl
  | psa | psr r => exact of_push hnext rfl
  | dsk name => exact of_disk hnext
  | int id => exact raises (.int hnext)
  | cll target => exact calls rfl hnext
  | cfg code => exact lowers rfl hnext
  | jeq | jne | jgt | jfg =>
    refine of_flags_execute hnext ?_ (by rintro code ⟨⟩)
    exact jumpIf_of_jump (P := fun n => n.registers.flags = m.registers.flags) _ rfl rfl
  | crn =>
    refine of_flags_execute hnext ?_ (by rintro code ⟨⟩)
    exact flags_ret (m.advance 1)
  | _ => exact of_flags_execute hnext rfl (by rintro code ⟨⟩)

theorem flagCase (m : Machine σ) (e : Event σ) : FlagCase m e := by
  cases e with
  | step =>
    have hnone : m.nextInstruction? = none → ∀ f, ¬ Clears m f .step := by
      rintro hnext f ⟨-, hcfg⟩
      rw [hnext] at hcfg
      cases hcfg
    rcases step_cases m with ⟨i, hnext, -⟩ | ⟨hnext, he⟩ | ⟨hnext, -, he⟩
    · exact .of_nextInstruction hnext
    · exact .keeps (by rw [after, he]) (hnone hnext)
    · exact .keeps (by rw [after, he]; rfl) (hnone hnext)
  | load name => exact .keeps (by rw [after, registers_load]) (by rintro f ⟨⟨⟩, -⟩)
  | dispatch id => exact .raises (.dispatch id)
  | interrupt i => exact .raises (.interrupt i)
  | keyDown key => exact .raises (.keyDown key)
  | swap drive => exact .keeps rfl (by rintro f ⟨⟨⟩, -⟩)

/-! ## One event -/

theorem has_execute_cfg_iff {m : Machine σ} {code : Byte} {f : Flag} :
    (m.execute (.cfg code)).registers.flags.has f = true ↔
      m.registers.flags.has f = true ∧ code ≠ f.code := by
  cases hcode : Flag.ofCode? code with
  | none =>
    have hexecute : m.execute (.cfg code) = m := by simp only [execute, hcode]
    have hne : code ≠ f.code := by
      intro he
      rw [Flag.ofCode?_eq_some_iff.mpr he] at hcode
      cases hcode
    rw [hexecute, and_iff_left hne]
  | some g =>
    have hexecute : m.execute (.cfg code) = m.setFlags (m.registers.flags.lower g) := by
      simp only [execute, hcode]
    have hiff : code ≠ f.code ↔ f ≠ g := by
      rw [Ne, ← Flag.ofCode?_eq_some_iff, hcode, Option.some_inj]
      exact ne_comm
    rw [hexecute, hiff]
    exact Flags.has_lower_iff

theorem not_clears_of_raises {m own : Machine σ} {e : Event σ} {id : Byte} {f : Flag}
    (h : Raises m e id own) : ¬ Clears m f e := by
  rintro ⟨he, hcfg⟩
  cases h with
  | int hnext | disk hnext =>
    rw [hcfg] at hnext
    cases hnext
  | sum hnext hsum =>
    rw [hcfg] at hnext
    cases hnext
    cases hsum
  | push hnext hpushed =>
    rw [hcfg] at hnext
    cases hnext
    cases hpushed
  | _ => cases he

/-- By itself an event that raises an interrupt sets the flag that it causes, and keeps the others. -/
theorem has_of_raises {m own : Machine σ} {e : Event σ} {id : Byte} {f : Flag}
    (h : Raises m e id own) :
    (own.registers.flags.has f = true → Causes m f e ∨ m.registers.flags.has f = true) ∧
    (m.registers.flags.has f = true → own.registers.flags.has f = true) := by
  have hset : ∀ {n : Machine σ} {g : Flag}, n.registers.flags = m.registers.flags → Causes m g e →
      ((n.setFlag g).registers.flags.has f = true →
        Causes m f e ∨ m.registers.flags.has f = true) ∧
      (m.registers.flags.has f = true → (n.setFlag g).registers.flags.has f = true) := by
    intro n g hflags hcause
    rw [has_setFlag_iff, hflags]
    refine ⟨?_, .inl⟩
    rintro (hf | rfl)
    · exact .inr hf
    · exact .inl hcause
  cases h with
  | sum hnext hsum hn => exact hset rfl (.sum hnext hsum hn)
  | push hnext hpushed hfull => exact hset rfl (.push hnext hpushed (of_decide_eq_true hfull))
  | disk hnext hfault =>
    refine hset ?_ (.disk hnext hfault)
    rw [loadAt, registers_load]
    rfl
  | int | keyDown | dispatch | interrupt => exact ⟨.inr, fun hf => hf⟩

theorem has_after_of_setFlag {m n : Machine σ} {e : Event σ} {id : Byte} {f : Flag} (hm : m.Bounded)
    (h : Raises m e id (n.setFlag f)) : (m.after e).registers.flags.has f = true := by
  rw [after_of_raises h hm.notSaving, has_dispatch_iff, has_setFlag_iff]
  exact .inl (.inr rfl)

theorem has_after_of_causes {m : Machine σ} {e : Event σ} {f : Flag} (hm : m.Bounded)
    (h : Causes m f e) : (m.after e).registers.flags.has f = true := by
  cases h with
  | sum hnext hsum hn => exact has_after_of_setFlag hm (.sum hnext hsum hn)
  | push hnext hpushed hfull => exact has_after_of_setFlag hm (.push hnext hpushed (decide_eq_true hfull))
  | @frame _ caller k hsaves hk hat =>
    have hroom := (exists_fullAt_iff caller).mp ⟨k, hk, hat⟩
    cases hsaves with
    | cll hnext =>
      rw [after, step_snd hnext]
      exact has_call_iff.mpr (.inr ⟨rfl, hroom⟩)
    | handler hraises hhandler =>
      rw [after_of_raises hraises hm.notSaving, has_dispatch_iff]
      exact .inr ⟨rfl, hhandler, hroom⟩
  | disk hnext hfault => exact has_after_of_setFlag hm (.disk hnext hfault)

theorem has_after_of_has {m : Machine σ} {e : Event σ} {f : Flag} (hm : m.Bounded)
    (hf : m.registers.flags.has f = true) (hclears : ¬ Clears m f e) :
    (m.after e).registers.flags.has f = true := by
  cases flagCase m e with
  | raises h =>
    rw [after_of_raises h hm.notSaving, has_dispatch_iff]
    exact .inl ((has_of_raises h).2 hf)
  | calls he hnext =>
    subst he
    rw [after, step_snd hnext]
    exact has_call_iff.mpr (.inl hf)
  | @lowers code he hnext =>
    subst he
    rw [after, step_snd hnext, has_execute_cfg_iff]
    refine ⟨hf, ?_⟩
    rintro rfl
    exact hclears ⟨rfl, hnext⟩
  | keeps h => rwa [h]

theorem causes_or_has_of_has_after {m : Machine σ} {e : Event σ} {f : Flag} (hm : m.Bounded)
    (h : (m.after e).registers.flags.has f = true) :
    Causes m f e ∨ m.registers.flags.has f = true ∧ ¬ Clears m f e := by
  cases flagCase m e with
  | @raises id own hraises =>
    -- the flag comes from the event itself, or from the frame that its handler saves
    rw [after_of_raises hraises hm.notSaving, has_dispatch_iff] at h
    rcases h with hown | ⟨rfl, hhandler, hroom⟩
    · exact ((has_of_raises hraises).1 hown).imp_right (⟨·, not_clears_of_raises hraises⟩)
    · obtain ⟨k, hk, hat⟩ := (exists_fullAt_iff own).mpr hroom
      exact .inl (.frame (.handler hraises hhandler) hk hat)
  | calls he hnext =>
    subst he
    rw [after, step_snd hnext] at h
    rcases has_call_iff.mp h with hf | ⟨rfl, hroom⟩
    · refine .inr ⟨hf, ?_⟩
      rintro ⟨-, hcfg⟩
      rw [hnext] at hcfg
      cases hcfg
    · obtain ⟨k, hk, hat⟩ := (exists_fullAt_iff (m.advance 3)).mpr hroom
      exact .inl (.frame (.cll hnext) hk hat)
  | lowers he hnext =>
    subst he
    rw [after, step_snd hnext, has_execute_cfg_iff] at h
    refine .inr ⟨h.1, ?_⟩
    rintro ⟨-, hcfg⟩
    rw [hnext] at hcfg
    cases hcfg
    exact h.2 rfl
  | keeps hflags hclears =>
    rw [hflags] at h
    exact .inr ⟨h, hclears f⟩

theorem has_after {m : Machine σ} (hm : m.Bounded) (e : Event σ) (f : Flag) :
    (m.after e).registers.flags.has f = true ↔
      Causes m f e ∨ m.registers.flags.has f = true ∧ ¬ Clears m f e := by
  constructor
  · exact causes_or_has_of_has_after hm
  · rintro (hcause | ⟨hf, hclears⟩)
    · exact has_after_of_causes hm hcause
    · exact has_after_of_has hm hf hclears

/-! ## A run -/

theorem not_standing_nil {f : Flag} : ¬ Standing f ([] : List (Machine σ × Event σ)) := by
  rintro ⟨before, m, e, rest, hrun, -⟩
  cases before <;> cases hrun

theorem standing_cons {f : Flag} {x : Machine σ × Event σ} {run : List (Machine σ × Event σ)} :
    Standing f (x :: run) ↔
      Standing f run ∨ Causes x.1 f x.2 ∧ ∀ y ∈ run, ¬ Clears y.1 f y.2 := by
  constructor
  · rintro ⟨before, m, e, rest, hrun, hcause, hclears⟩
    cases before with
    | nil =>
      cases hrun
      exact .inr ⟨hcause, hclears⟩
    | cons y before =>
      cases hrun
      exact .inl ⟨before, m, e, rest, rfl, hcause, hclears⟩
  · rintro (⟨before, m, e, rest, rfl, hcause, hclears⟩ | ⟨hcause, hclears⟩)
    · exact ⟨x :: before, m, e, rest, rfl, hcause, hclears⟩
    · exact ⟨[], x.1, x.2, run, rfl, hcause, hclears⟩

theorem has_afterAll {m : Machine σ} (hm : m.Bounded) (es : List (Event σ)) (f : Flag) :
    (m.afterAll es).registers.flags.has f = true ↔
      Standing f (m.moments es) ∨
        m.registers.flags.has f = true ∧ ∀ x ∈ m.moments es, ¬ Clears x.1 f x.2 := by
  induction es generalizing m with
  | nil =>
    simp [not_standing_nil, moments, afterAll]
  | cons e es ih =>
    -- the rest of the run starts with the flag as the first event leaves it
    have hrest := ih (hm.after e)
    rw [has_after hm] at hrest
    rw [moments, standing_cons, List.forall_mem_cons]
    exact hrest.trans (by rw [or_and_right, and_assoc, or_assoc])

/-! ## Top theorem -/

/-- After any run a flag is set if and only if it was caused along the run and not cleared any more
after that, or it was set before the run and never cleared. Codes above 2 clear no flag, returning
restores none, and a load from outside sets none, whether or not it fails. -/
theorem Reachable.flag_set_iff {m : Machine σ} (hm : Reachable m) (es : List (Event σ)) (f : Flag) :
    ((m.afterAll es).registers.flags.has f = true ↔
      Standing f (m.moments es) ∨
        m.registers.flags.has f = true ∧ ∀ x ∈ m.moments es, ¬ Clears x.1 f x.2) ∧
    (∀ (n : Machine σ) (code : Byte), n.nextInstruction? = some (.cfg code) → 2 < code →
      (n.after .step).registers.flags = n.registers.flags) ∧
    (∀ n : Machine σ, n.nextInstruction? = some .crn →
      (n.after .step).registers.flags = n.registers.flags) ∧
    (∀ (n : Machine σ) (name : String),
      (n.after (.load name)).registers.flags = n.registers.flags) := by
  refine ⟨has_afterAll hm.bounded es f, ?_, ?_, ?_⟩
  · intro n code hnext hcode
    rw [after, step_snd hnext, execute, Flag.ofCode?_eq_none hcode]
    rfl
  · intro n hnext
    rw [after, step_snd hnext]
    exact flags_ret (n.advance 1)
  · intro n name
    rw [after, registers_load]

/-- A program that takes one from an accumulator of zero. -/
def underflowing : Rom where
  data := none
  start := MemoryMap.kernelOrigin
  code := [Opcode.subi.toByte, 1]

theorem flag_set_of_underflowing :
    ∃ m : Machine Shelf, Reachable m ∧
      (m.afterAll [.step, .keyDown 65]).registers.flags.has .accOverflow = true := by
  obtain ⟨m, hm, hregisters, hread⟩ := exists_loaded (show underflowing.NulFree by
    simp [Rom.NulFree, underflowing])
  have hsubi := nextInstruction?_of_fresh .subi hregisters (hread MemoryMap.kernelOrigin)
  have hone : m.memory.fetch 0x0201 = 1 :=
    (Memory.fetch_toNat _ (0x0201 : Address)).trans (hread _)
  have hcause : Causes m .accOverflow .step := by
    refine .sum hsubi rfl (.inl ?_)
    show (m.registers.acc.toNat : Int) - (m.memory.fetch 0x0201).toNat < 0
    rw [hregisters, hone]
    decide
  refine ⟨m, hm, (hm.flag_set_iff _ _).1.mpr (.inl ?_)⟩
  refine ⟨[], m, .step, _, rfl, hcause, ?_⟩
  simp [moments, Clears]

end Machine

end Tis80
