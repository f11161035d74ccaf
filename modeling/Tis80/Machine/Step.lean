import Tis80.Instruction.Basic
import Tis80.Machine.Load
import Tis80.Text.Lossy

/-!
# Execution

A step executes the instruction at the program counter. It does not complete if the machine is
halted already or halts now, if the program counter has left memory, or if no instruction stands
there. `runFor` counts the steps that complete within a budget; `run` goes on until a step does not
complete, and more fuel never changes what it gives:

    m.run n = some r  →  m.run (n + k) = some r               (run_add)
-/

namespace Tis80

/-- Why a step did not complete. -/
inductive Stop
  | ended
  | outOfBounds (pc : Nat)
  | unknownInstruction (opcode : Byte) (address : Nat)
deriving DecidableEq, Repr

def Stop.message : Stop → String
  | .ended => "execution ended"
  | .outOfBounds pc => "program counter out of bounds (0x" ++ hex 1 pc ++ ")"
  | .unknownInstruction opcode address =>
    "unknown instruction 0x" ++ opcode.hex ++ " at 0x" ++ hex 4 address

namespace Machine

variable {σ : Type} [ByteSource σ]

/-- Puts the result of an addition or subtraction into the accumulator; a result that does not fit
clears it and raises the flag. -/
def accumulate (m : Machine σ) : Option Byte → Machine σ
  | some v => m.setAcc v
  | none => (m.setAcc 0).raise .accOverflow

/-- Loads the ROM whose name stands at `name`; a failure raises the flag. -/
def loadNamed (m : Machine σ) (name : Address) : Machine σ :=
  match m.load (lossyText (m.memory.stringAt name)) with
  | (.ok _, m) => m
  | (.error _, m) => m.raise .ioError

def jumpIf (m : Machine σ) (taken : Bool) (target : Address) : Machine σ :=
  if taken then m.jump target else m

/-- Carries out an instruction, with the program counter behind it already. -/
def execute (m : Machine σ) : Instruction → Machine σ
  | .add r => m.accumulate (m.registers.acc.add? (m.registers.get r))
  | .addi v => m.accumulate (m.registers.acc.add? v)
  | .sub r => m.accumulate (m.registers.acc.sub? (m.registers.get r))
  | .subi v => m.accumulate (m.registers.acc.sub? v)
  | .sil => m.setAcc (m.registers.acc <<< 1)
  | .sir => m.setAcc (m.registers.acc >>> 1)
  | .and r => m.setAcc (m.registers.acc &&& m.registers.get r)
  | .or r => m.setAcc (m.registers.acc ||| m.registers.get r)
  | .not => m.setAcc (~~~ m.registers.acc)
  | .xor r => m.setAcc (m.registers.acc ^^^ m.registers.get r)
  | .jmp target => m.jump target
  | .jeq target => m.jumpIf (m.registers.acc = 0) target
  | .jne target => m.jumpIf (m.registers.acc ≠ 0) target
  | .jgt target => m.jumpIf (0 < m.registers.acc) target
  -- the accumulator is never below zero
  | .jlt _ => m
  | .jfg code target => m.jumpIf ((Flag.ofCode? code).any m.registers.flags.has) target
  | .ldr source r => m.setRegister r (m.memory.read source)
  | .str r target => m.write target (m.registers.get r)
  | .mov source target => m.setRegister target (m.registers.get source)
  | .movi v r => m.setRegister r v
  | .tar r => m.setRegister r m.registers.acc
  | .tra r => m.setAcc (m.registers.get r)
  | .inr pointer r => m.setRegister r (m.memory.read (m.memory.readAddress pointer))
  | .inw r pointer => m.write (m.memory.readAddress pointer) (m.registers.get r)
  | .dsk name => m.loadNamed name
  | .movm value pointer => { m with memory := m.memory.writeAddress pointer value }
  | .int id => m.dispatch id
  | .hlt => m.setMode { m.registers.mode with halted := true }
  | .cll target => m.call target
  | .crn => m.ret
  | .pmd => m.setMode { m.registers.mode with shielded := true }
  | .ein => m.setMode { m.registers.mode with interruptible := true }
  | .din => m.setMode { m.registers.mode with interruptible := false }
  | .cfg code =>
    match Flag.ofCode? code with
    | some f => m.setFlags (m.registers.flags.lower f)
    | none => m
  | .psa => m.push m.registers.acc
  | .poa =>
    let popped := m.pop
    popped.2.setAcc popped.1
  | .psr r => m.push (m.registers.get r)
  | .por r =>
    let popped := m.pop
    popped.2.setRegister r popped.1

/-- The instruction the next step would execute, if it would execute one. -/
def nextInstruction? (m : Machine σ) : Option Instruction :=
  if m.isHalted ∨ memorySize ≤ m.registers.pc then none
  else m.memory.instructionAt m.registers.pc

def step (m : Machine σ) : Except Stop Unit × Machine σ :=
  if m.isHalted then (.error .ended, m)
  else
    let pc := m.registers.pc
    if memorySize ≤ pc then (.error (.outOfBounds pc), m)
    else match m.memory.instructionAt pc with
      | none => (.error (.unknownInstruction (m.memory.fetch pc) pc), m.advance 1)
      | some i =>
        let m := (m.advance i.size).execute i
        (if m.isHalted then .error .ended else .ok (), m)

/-- At most `n` steps from now, after `done` steps that completed. -/
def runForFrom (done : Nat) : Nat → Machine σ → Except Stop Nat × Machine σ
  | 0, m => (.ok done, m)
  | n + 1, m =>
    match m.step with
    | (.ok (), m) => runForFrom (done + 1) n m
    | (.error .ended, m) => (.ok done, m)
    | (.error stop, m) => (.error stop, m)

/-- Runs until the machine halts or `n` steps completed, and counts them. -/
def runFor (m : Machine σ) (n : Nat) : Except Stop Nat × Machine σ := runForFrom 0 n m

/-- Runs until the machine halts; no value if that takes more than `fuel` steps. -/
def run (m : Machine σ) : Nat → Option (Except Stop Unit × Machine σ)
  | 0 => none
  | fuel + 1 =>
    match m.step with
    | (.ok (), m) => m.run fuel
    | (.error .ended, m) => some (.ok (), m)
    | (.error stop, m) => some (.error stop, m)

/-! ## Lemmas -/

theorem run_add {m : Machine σ} {n : Nat} {r : Except Stop Unit × Machine σ}
    (h : m.run n = some r) (k : Nat) : m.run (n + k) = some r := by
  induction n generalizing m with
  | zero => simp [run] at h
  | succ n ih =>
    rw [Nat.add_right_comm]
    rw [run] at h ⊢
    split at h
    · next m' _ => exact ih h
    · exact h
    · exact h

@[simp]
theorem runFor_zero (m : Machine σ) : m.runFor 0 = (.ok 0, m) := rfl

/-- Steps that completed before are added to those that complete now. -/
theorem runForFrom_eq (done n : Nat) (m : Machine σ) :
    runForFrom done n m = ((m.runFor n).1.map (done + ·), (m.runFor n).2) := by
  unfold runFor
  induction n generalizing done m with
  | zero => rfl
  | succ n ih =>
    rw [runForFrom, runForFrom]
    split
    · next m' _ =>
      rw [ih (done + 1), ih (0 + 1)]
      cases (runForFrom 0 n m').1 with
      | error stop => rfl
      | ok k => simp only [Except.map, Nat.add_assoc, Nat.zero_add]
    · rfl
    · rfl

end Machine

end Tis80
