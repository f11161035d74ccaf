import Tis80.Machine.Basic

/-!
# Stack, calls and interrupts

The stack fills the cells from the stack base up to the kernel, whose last cell before it stays
free. A byte pushed on a full stack is dropped, and the stack overflow flag is raised; a pop from an
empty stack reads the cell at its base.

A call saves a frame: the return address, the accumulator and the sixteen registers, 19 bytes in
that order. Raising a flag dispatches its interrupt, which may call a handler; but a flag raised
while a frame is saved is set and dispatches nothing, so a call never starts another one.

    Frame.ofBytes f.toBytes = f                               (Frame.ofBytes_toBytes)
    a call is 19 pushes with dispatching held back            (Machine.call_eq_foldl_push)
-/

namespace Tis80

/-- What a call saves and a return restores. -/
structure Frame where
  returnAddress : Address
  acc : Byte
  general : Vector Byte registerCount
deriving DecidableEq

namespace Frame

def size : Nat := 3 + registerCount

/-- The bytes of a frame in the order they are pushed. -/
def toBytes (f : Frame) : List Byte :=
  f.returnAddress.high :: f.returnAddress.low :: f.acc :: f.general.toList

/-- The frame made of 19 bytes, the one pushed first in front. -/
def ofBytes (bytes : List Byte) : Frame where
  returnAddress := Address.ofBytes (bytes.getD 0 0) (bytes.getD 1 0)
  acc := bytes.getD 2 0
  general := Vector.ofFn fun i => bytes.getD (3 + i.val) 0

end Frame

namespace Machine

variable {σ : Type}

/-! ## Algorithm -/

def stackFull (m : Machine σ) : Bool :=
  MemoryMap.kernelOrigin.toNat ≤ m.registers.sp.toNat + 1

/-- Puts a byte on a stack that is not full. -/
def place (m : Machine σ) (v : Byte) : Machine σ :=
  (m.write m.registers.sp v).setPointer (m.registers.sp + 1)

def setFlag (m : Machine σ) (f : Flag) : Machine σ := m.setFlags (m.registers.flags.raise f)

/-- Pushes a byte while a frame is saved: a full stack only sets the flag. -/
def saveByte (m : Machine σ) (v : Byte) : Machine σ :=
  if m.stackFull then m.setFlag .stackOverflow else m.place v

/-- The frame a call would save now. -/
def frame (m : Machine σ) : Frame where
  returnAddress := UInt16.ofNat m.registers.pc
  acc := m.registers.acc
  general := m.registers.general

def call (m : Machine σ) (target : Address) : Machine σ :=
  ((m.frame.toBytes.foldl saveByte (m.setSaving true)).setSaving m.savingFrame).jump target

/-- Calls the handler of an interrupt, if interrupts are enabled, the identifier has a slot and a
handler stands in it. -/
def dispatch (m : Machine σ) (id : Byte) : Machine σ :=
  if m.registers.mode.interruptible then
    match vectorSlot? id with
    | none => m
    | some slot =>
      let handler := m.memory.readAddress slot
      if handler = 0 then m else m.call handler
  else m

def interrupt (m : Machine σ) (i : Interrupt) : Machine σ := m.dispatch i.id

/-- Sets a flag and dispatches its interrupt, unless a frame is being saved. -/
def raise (m : Machine σ) (f : Flag) : Machine σ :=
  if m.savingFrame then m.setFlag f else (m.setFlag f).interrupt f.interrupt

def push (m : Machine σ) (v : Byte) : Machine σ :=
  if m.stackFull then m.raise .stackOverflow else m.place v

/-- The stack pointer after a pop: it does not go below the base. -/
def poppedPointer (sp : Address) : Address :=
  if MemoryMap.stackBase < sp then sp - 1 else sp

def pop (m : Machine σ) : Byte × Machine σ :=
  let sp := poppedPointer m.registers.sp
  (m.memory.read sp, m.setPointer sp)

/-- Pops `n` bytes, and gives them in the order they were pushed. -/
def popBytes : Nat → Machine σ → List Byte × Machine σ
  | 0, m => ([], m)
  | n + 1, m =>
    let top := m.pop
    let below := popBytes n top.2
    (below.1 ++ [top.1], below.2)

/-- Goes on from a frame. -/
def restore (m : Machine σ) (f : Frame) : Machine σ :=
  { m with registers := { m.registers with
      general := f.general, acc := f.acc, pc := f.returnAddress.toNat } }

/-- Returns from a call. -/
def ret (m : Machine σ) : Machine σ :=
  let popped := m.popBytes Frame.size
  popped.2.restore (Frame.ofBytes popped.1)

/-- Stores a key in the keyboard buffer and tells the program. -/
def keyDown (m : Machine σ) (key : Byte) : Machine σ :=
  (m.write (UInt16.ofNat MemoryMap.keyboardBuffer.start) key).interrupt .keyboard

end Machine

/-! ## Lemmas -/

namespace Frame

theorem length_toBytes (f : Frame) : f.toBytes.length = size := by
  simp [toBytes, size, registerCount]

theorem ofBytes_toBytes (f : Frame) : ofBytes f.toBytes = f := by
  obtain ⟨a, acc, general⟩ := f
  simp only [ofBytes, toBytes, List.getD_cons_zero, List.getD_cons_succ, Address.ofBytes_high_low,
    Frame.mk.injEq, true_and]
  refine Vector.ext fun i hi => ?_
  simp [Nat.add_comm 3 i, hi]

end Frame

namespace Machine

variable {σ : Type}

theorem push_of_savingFrame {m : Machine σ} (h : m.savingFrame = true) (v : Byte) :
    m.push v = m.saveByte v := by
  simp [push, saveByte, raise, h]

theorem savingFrame_saveByte (m : Machine σ) (v : Byte) :
    (m.saveByte v).savingFrame = m.savingFrame := by
  unfold saveByte
  split <;> rfl

/-- While a frame is saved, pushing its bytes is saving them. -/
theorem foldl_push_of_savingFrame {m : Machine σ} (h : m.savingFrame = true) (bytes : List Byte) :
    bytes.foldl push m = bytes.foldl saveByte m := by
  induction bytes generalizing m with
  | nil => rfl
  | cons b bytes ih =>
    rw [List.foldl_cons, List.foldl_cons, push_of_savingFrame h]
    exact ih ((savingFrame_saveByte m b).trans h)

/-- A call pushes the bytes of its frame with dispatching held back. -/
theorem call_eq_foldl_push (m : Machine σ) (target : Address) :
    m.call target =
      ((m.frame.toBytes.foldl push (m.setSaving true)).setSaving m.savingFrame).jump target := by
  rw [foldl_push_of_savingFrame rfl]
  rfl

end Machine

end Tis80
