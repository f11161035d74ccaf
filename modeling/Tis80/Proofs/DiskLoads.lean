import Tis80.Proofs.Decoding
import Tis80.Proofs.Resumption
import Tis80.Proofs.RomDefects

/-!
# Loads that a program asks for

A program names a ROM by the address of a text in memory: the bytes up to the first NUL, or up to the
end of memory (`NulEnded`). If the load succeeds, the program goes on behind the instruction. If it
fails, what it wrote stays written, the flag goes up, and the interrupt is dispatched in the memory as
it is then:

    (m.load name).1 = .ok report → m.step.2 = m.loading name                      (step_dsk_of_ok)
    (m.load name).1 = .error fault → m.step.2 = (m.failing name).dispatch 3       (step_dsk_of_error)

So a load that fails may have put up the handler that is told of it, or have written over the stack
that the frame is saved on.
-/

namespace Tis80

namespace Memory

/-- The text at `a`: its bytes stand there, none of them is NUL, and behind them is a NUL or the end of
memory. -/
structure NulEnded (m : Memory) (a : Nat) (bytes : List Byte) : Prop where
  stored : m.Holds a bytes
  notNul : 0 ∉ bytes
  ended : a + bytes.length = memorySize ∨ m.fetch (a + bytes.length) = 0

/-! ## Names -/

theorem holds_iff_prefix_slice {m : Memory} {a : Nat} {bytes : List Byte} (ha : a ≤ memorySize) :
    m.Holds a bytes ↔ bytes <+: m.slice ⟨a, memorySize⟩ := by
  have hlength : (m.slice ⟨a, memorySize⟩).length = memorySize - a :=
    length_slice m (Nat.le_refl memorySize)
  rw [List.prefix_iff_getElem]
  constructor
  · rintro ⟨hfit, hbytes⟩
    refine ⟨by omega, fun k hk => ?_⟩
    rw [getElem_slice m (Nat.le_refl memorySize), hbytes k hk]
  · rintro ⟨hfit, hbytes⟩
    refine ⟨by omega, fun k hk => ?_⟩
    rw [hbytes k hk, getElem_slice m (Nat.le_refl memorySize)]

/-- A byte that stands in memory behind others. -/
theorem fetch_of_slice_eq {m : Memory} {a : Nat} {b : Byte} {bytes rest : List Byte}
    (h : m.slice ⟨a, memorySize⟩ = bytes ++ b :: rest) :
    a + bytes.length < memorySize ∧ m.fetch (a + bytes.length) = b := by
  have hlength : (m.slice ⟨a, memorySize⟩).length = memorySize - a :=
    length_slice m (Nat.le_refl memorySize)
  have hlt : bytes.length < (m.slice ⟨a, memorySize⟩).length := by
    rw [h, List.length_append, List.length_cons]
    omega
  refine ⟨by omega, ?_⟩
  rw [← getElem_slice m (Nat.le_refl memorySize) hlt, List.getElem_of_eq h,
    List.getElem_append_right (Nat.le_refl _)]
  simp

theorem nulEnded_stringAt (m : Memory) (a : Address) : m.NulEnded a.toNat (m.stringAt a) := by
  have ha : a.toNat ≤ memorySize := Nat.le_of_lt a.toNat_lt_memorySize
  refine ⟨(holds_iff_prefix_slice ha).mpr (List.takeWhile_prefix _), ?_, ?_⟩
  · intro hmem
    simpa using List.all_eq_true.mp List.all_takeWhile 0 hmem
  · have hslice : m.slice ⟨a.toNat, memorySize⟩ =
        m.stringAt a ++ (m.slice ⟨a.toNat, memorySize⟩).dropWhile (· ≠ 0) :=
      List.takeWhile_append_dropWhile.symm
    cases hrest : (m.slice ⟨a.toNat, memorySize⟩).dropWhile (· ≠ 0) with
    | nil =>
      rw [hrest, List.append_nil] at hslice
      rw [← hslice, length_slice m (Nat.le_refl memorySize)]
      omega
    | cons b rest =>
      have hb : b = 0 := by
        have hhead := List.head?_dropWhile_not (· ≠ (0 : Byte)) (m.slice ⟨a.toNat, memorySize⟩)
        rw [hrest] at hhead
        simpa using hhead
      rw [hrest] at hslice
      exact .inr ((fetch_of_slice_eq hslice).2.trans hb)

/-- There is one text at an address. -/
theorem NulEnded.eq_stringAt {m : Memory} {a : Address} {bytes : List Byte}
    (h : m.NulEnded a.toNat bytes) : bytes = m.stringAt a := by
  have ha : a.toNat ≤ memorySize := Nat.le_of_lt a.toNat_lt_memorySize
  obtain ⟨rest, hrest⟩ := (holds_iff_prefix_slice ha).mp h.stored
  rw [stringAt, ← hrest, Rom.Cursor.takeWhile_append_of_notMem h.notNul]
  cases rest with
  | nil => simp
  | cons b rest =>
    obtain ⟨hlt, hfetch⟩ := fetch_of_slice_eq hrest.symm
    have hb : b = 0 := hfetch.symm.trans (h.ended.resolve_left (Nat.ne_of_lt hlt))
    simp [hb]

theorem nulEnded_iff {m : Memory} {a : Address} {bytes : List Byte} :
    m.NulEnded a.toNat bytes ↔ bytes = m.stringAt a :=
  ⟨NulEnded.eq_stringAt, fun h => h ▸ nulEnded_stringAt m a⟩

end Memory

namespace Machine

variable {σ : Type} [ByteSource σ]

/-- Behind an instruction that loads `name`. -/
def loading (m : Machine σ) (name : String) : Machine σ :=
  { (m.load name).2 with registers := { m.registers with pc := m.registers.pc + 3 } }

/-- Behind an instruction that loads `name` and fails, before anybody is told. -/
def failing (m : Machine σ) (name : String) : Machine σ := (m.loading name).setFlag .ioError

/-! ## Loading and failing -/

/-- The program counter is moved on before the load, and the load does not see it. -/
theorem loadAt_advance (m : Machine σ) (a : Address) :
    (m.advance 3).loadAt a =
      ((m.loadAt a).1, m.loading (lossyText (m.memory.stringAt a))) :=
  load_setRegisters m _ _

theorem step_dsk_of_ok {m : Machine σ} {a : Address} {report : Rom.Report}
    (hnext : m.nextInstruction? = some (.dsk a)) (hok : (m.loadAt a).1 = .ok report) :
    m.step.2 = m.loading (lossyText (m.memory.stringAt a)) := by
  rw [step_snd hnext]
  show (m.advance 3).loadNamed a = _
  rw [loadNamed_eq, loadAt_advance, hok]

theorem step_dsk_of_error {m : Machine σ} {a : Address} {fault : LoadFault}
    (hm : m.savingFrame = false) (hnext : m.nextInstruction? = some (.dsk a))
    (hfault : (m.loadAt a).1 = .error fault) :
    m.step.2 = (m.failing (lossyText (m.memory.stringAt a))).dispatch 3 := by
  have hraises := Raises.disk hnext (by rw [loadAt_advance]; exact hfault)
  rw [loadAt_advance] at hraises
  exact after_of_raises hraises hm

/-- The handler is the one that stands in memory after the load. -/
theorem dispatch_failing_of_handler {m : Machine σ} {name : String}
    (hmode : m.registers.mode.interruptible = true) (hvector : (m.load name).2.vector 3 ≠ 0) :
    (m.failing name).dispatch 3 = (m.failing name).call ((m.load name).2.vector 3) :=
  dispatch_of_hasHandler (m := m.failing name) ⟨hmode, by decide, hvector⟩

theorem dispatch_failing_of_noHandler {m : Machine σ} {name : String}
    (h : m.registers.mode.interruptible = false ∨ (m.load name).2.vector 3 = 0) :
    (m.failing name).dispatch 3 = m.failing name := by
  apply dispatch_of_not_hasHandler
  rintro ⟨hmode, -, hvector⟩
  rcases h with h | h
  · exact Bool.false_ne_true (h.symm.trans hmode)
  · exact hvector h

theorem step_dsk_completes {m : Machine σ} {a : Address} (hnext : m.nextInstruction? = some (.dsk a)) :
    m.step.1 = .ok () := by
  rw [step_of_modeAfter_eq hnext rfl]

/-! ## Top theorem -/

/-- There is one text at an address, it ends at the first NUL or at the end of memory, and it names the
ROM that `dsk` loads. The step completes. After a load that succeeds the memory and the drive are those
of the load, and no register has changed but the program counter. After one that fails they are still
those of the load, with the flag set, and the interrupt is dispatched there: the handler is read from
the memory that the load left, and the frame is saved over it, as far as there is room on the stack. The
frame has the registers from before the step, and the address behind the instruction as far as an
address holds it. -/
theorem Reachable.dsk_loads_or_raises {m : Machine σ} {a : Address} (hm : Reachable m)
    (hnext : m.nextInstruction? = some (.dsk a)) :
    m.step.1 = .ok () ∧
    ∃ bytes, (∀ bs, m.memory.NulEnded a.toNat bs ↔ bs = bytes) ∧
      ∀ result loaded, m.load (lossyText bytes) = (result, loaded) →
        let failed : Machine σ := { loaded with registers := { m.registers with
          pc := m.registers.pc + 3
          flags := m.registers.flags.raise .ioError } }
        let frame : Frame := {
          returnAddress := UInt16.ofNat (m.registers.pc + 3)
          acc := m.registers.acc
          general := m.registers.general }
        loaded.memory = m.memory.writeAll (m.loadWrites (lossyText bytes)) ∧
        (∀ report, result = .ok report →
          m.step.2 = { loaded with registers := { m.registers with pc := m.registers.pc + 3 } }) ∧
        (∀ fault, result = .error fault →
          m.step.2 = failed.dispatch 3 ∧
          (m.registers.mode.interruptible = true → loaded.vector 3 ≠ 0 →
            m.step.2 = { failed with
              registers := { failed.registers with
                pc := (loaded.vector 3).toNat
                sp := m.registers.sp + UInt16.ofNat (min m.room Frame.size)
                flags := if m.room < Frame.size then failed.registers.flags.raise .stackOverflow
                  else failed.registers.flags }
              memory := loaded.memory.writeAll
                (consecutive m.registers.sp (frame.toBytes.take m.room)) }) ∧
          (m.registers.mode.interruptible = false ∨ loaded.vector 3 = 0 → m.step.2 = failed)) := by
  refine ⟨step_dsk_completes hnext, m.memory.stringAt a, fun bs => Memory.nulEnded_iff, ?_⟩
  intro result loaded hload failed frame
  have hresult : (m.loadAt a).1 = result := congrArg Prod.fst hload
  have hloaded : (m.loadAt a).2 = loaded := congrArg Prod.snd hload
  subst hresult hloaded
  refine ⟨memory_load m _, fun report hok => step_dsk_of_ok hnext hok, fun fault hfault => ?_⟩
  have hstep := step_dsk_of_error hm.bounded.notSaving hnext hfault
  refine ⟨hstep, fun hmode hvector => ?_, fun hnone => ?_⟩
  · rw [hstep, dispatch_failing_of_handler hmode hvector, call_eq]
    rfl
  · rw [hstep, dispatch_failing_of_noHandler hnone]
    rfl

/-- A program that enables interrupts and asks for a ROM, whose name is a letter in the last cell. -/
def askingInVain : Rom where
  data := some [.number 0xFFFF 0x41]
  start := MemoryMap.kernelOrigin
  code := [Opcode.ein.toByte, Opcode.dsk.toByte, 0xFF, 0xFF]

/-- An image that breaks off behind a number in the vector table. -/
def vectorOnly : List Byte := Rom.header ++ Rom.dataSection :: [0x00, 0x06, Rom.numberEntry, 0x04]

theorem read_vectorOnly : Rom.read vectorOnly = ⟨[(0x0006, 4)], .error (.header 9 0xFF 0)⟩ := by
  have hnumber : Rom.Cursor.entry ⟨[0x00, 0x06, Rom.numberEntry, 0x04], 5⟩ =
      (some (.number 0x0006 4), ⟨[], 9⟩) := rfl
  rw [vectorOnly, Rom.read_of_data, Rom.readData,
    Rom.Cursor.entries_of_some (List.cons_ne_nil _ _) hnumber, Rom.Cursor.entries_of_nil rfl]
  rfl

/-- The machine about to load, with the broken image on its drive. -/
theorem exists_askingInVain :
    ∃ m : Machine Shelf, Reachable m ∧ m.drive = { images := [("A", vectorOnly)] } ∧
      m.registers = { pc := 0x0201, mode := { interruptible := true } } ∧
      m.nextInstruction? = some (.dsk 0xFFFF) ∧
      ∀ c, m.memory.read c = (askingInVain.writes.reverse.lookup c).getD 0 := by
  obtain ⟨c, hc, hregisters, hread⟩ := exists_enabled (show askingInVain.NulFree by
    simp [Rom.NulFree, askingInVain, Rom.Entry.NulFree]) rfl
  have hfetch : ∀ a : Address, c.memory.fetch a.toNat =
      (askingInVain.writes.reverse.lookup a).getD 0 := fun a =>
    (Memory.fetch_toNat c.memory a).trans (hread a)
  have hdsk : c.nextInstruction? = some (.dsk 0xFFFF) := by
    have hpc : c.registers.pc = 0x0201 := by rw [hregisters]
    have hname : Address.ofBytes (c.memory.fetch 0x0202) (c.memory.fetch 0x0203) = 0xFFFF := by
      rw [show c.memory.fetch 0x0202 = 0xFF from hfetch 0x0202,
        show c.memory.fetch 0x0203 = 0xFF from hfetch 0x0203]
      rfl
    rw [nextInstruction?_of_fetch .dsk (by rw [isHalted, hregisters]) hpc (by decide)
      (hfetch 0x0201)]
    exact congrArg (some ∘ Instruction.dsk) hname
  exact ⟨_, .event (.swap { images := [("A", vectorOnly)] }) hc, rfl, hregisters, hdsk, hread⟩

/-- There is no handler before the load, and the load fails. What it wrote is the vector of the handler
that is told. -/
theorem dsk_raises_of_askingInVain :
    ∃ m : Machine Shelf, Reachable m ∧ m.nextInstruction? = some (.dsk 0xFFFF) ∧
      m.memory.NulEnded 0xFFFF [0x41] ∧ m.vector 3 = 0 ∧ m.step.1 = .ok () ∧
      m.step.2.registers.pc = 0x0400 ∧ m.step.2.registers.flags.has .ioError = true ∧
      m.step.2.memory.Holds 0x0104 (0x02 :: 0x04 :: List.replicate 17 0) := by
  obtain ⟨m, hm, hdrive, hregisters, hdsk, hread⟩ := exists_askingInVain
  have hletter : m.memory.NulEnded 0xFFFF [0x41] := by
    refine ⟨⟨Nat.le_refl _, ?_⟩, by decide, .inl rfl⟩
    intro k hk
    obtain rfl : k = 0 := by simpa using hk
    exact (Memory.fetch_toNat m.memory 0xFFFF).trans (hread 0xFFFF)
  have hvector : m.vector 3 = 0 := by
    rw [vector, hread, hread]
    rfl
  have himage : ImageDrive.image m.drive "A" = .ok vectorOnly := by
    rw [hdrive]
    rfl
  have hname : lossyText [0x41] = "A" := by
    rw [lossyText, Lossy.chars_cons_of_ascii (by decide), Lossy.chars_nil]
    rfl
  obtain ⟨hok, bytes, hbytes, hload⟩ := hm.dsk_loads_or_raises hdsk
  obtain rfl : [0x41] = bytes := (hbytes _).mp hletter
  rw [hname] at hload
  obtain ⟨hmemory, -, hfails⟩ := hload (m.load "A").1 (m.load "A").2 rfl
  rw [loadWrites_of_image_ok himage, read_vectorOnly] at hmemory
  have hloaded : (m.load "A").2.vector 3 = 0x0400 := by
    rw [vector, hmemory, Memory.read_writeAll, Memory.read_writeAll, hread, hread]
    rfl
  obtain ⟨-, hcall, -⟩ := hfails (.malformed (.header 9 0xFF 0)) (by
    rw [result_load_of_image_ok himage, read_vectorOnly]
    rfl)
  have hstep := hcall (by rw [hregisters]) (by rw [hloaded]; decide)
  refine ⟨m, hm, hdsk, hletter, hvector, hok, ?_, ?_, ?_⟩
  · rw [hstep, hloaded]
    rfl
  · rw [hstep, room, hregisters]
    rfl
  · have hframe : (Frame.toBytes {
        returnAddress := UInt16.ofNat (m.registers.pc + 3)
        acc := m.registers.acc
        general := m.registers.general }).take m.room = 0x02 :: 0x04 :: List.replicate 17 0 := by
      rw [room, hregisters]
      rfl
    have hsp : m.registers.sp = MemoryMap.stackBase := by rw [hregisters]
    rw [hstep]
    dsimp only
    rw [hframe, hsp]
    exact Memory.holds_writeAll_consecutive _ (by decide)

end Machine

end Tis80
