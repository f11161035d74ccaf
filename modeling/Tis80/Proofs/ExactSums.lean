import Mathlib.Algebra.Ring.Int.Defs
import Tis80.Proofs.Decoding
import Tis80.Proofs.FlagHistory

/-!
# Sums are exact, or the flag says so

Additions and subtractions, one behind the other in memory, with interrupts disabled. Each one adds its
`change` to the accumulator, or subtracts it; if the result is no byte, the accumulator starts again
from zero and the overflow flag goes up (`sumUp`). So, for a whole sequence:

    m.Holds pc (the encoding of is) → Completes is.length m (m.sumUpAll is)     (SumsAhead.completes)
    Exact acc changes → the accumulator is acc plus the changes                 (sumUpAll_of_exact)
    ¬ Exact acc changes → there is a last overflow, and what follows it is exact from zero
                                                                                (exists_lastOverflow)

`Exact` says that every partial result is a byte. The flag stays up once it is, and nothing in such a
sequence lowers it.
-/

namespace Tis80

/-- A byte holds the number. -/
def IsByte (n : Int) : Prop := 0 ≤ n ∧ n ≤ 255

instance (n : Int) : Decidable (IsByte n) := inferInstanceAs (Decidable (_ ∧ _))

/-- Every partial result of adding the changes, one after the other, is a byte. -/
def Exact (start : Int) (changes : List Int) : Prop :=
  ∀ k, k ≤ changes.length → IsByte (start + (changes.take k).sum)

/-- The byte that holds the number, if there is one. -/
def Byte.ofInt? (n : Int) : Option Byte :=
  if IsByte n then some (UInt8.ofNat n.toNat) else none

def Instruction.isSum : Instruction → Bool
  | .add _ | .addi _ | .sub _ | .subi _ => true
  | _ => false

/-- What an addition adds to the accumulator; a subtraction adds the opposite of its operand. -/
def Registers.change (rs : Registers) : Instruction → Int
  | .add r => (rs.get r).toNat
  | .addi v => v.toNat
  | .sub r => -(rs.get r).toNat
  | .subi v => -v.toNat
  | _ => 0

/-! ## Partial results -/

theorem Exact.isByte {start : Int} {changes : List Int} (h : Exact start changes) : IsByte start := by
  have hstart := h 0 (Nat.zero_le _)
  rwa [List.take_zero, List.sum_nil, Int.add_zero] at hstart

theorem exact_nil {start : Int} : Exact start [] ↔ IsByte start := by
  constructor
  · exact Exact.isByte
  · intro h k _
    rwa [List.take_nil, List.sum_nil, Int.add_zero]

theorem exact_cons {start change : Int} {changes : List Int} :
    Exact start (change :: changes) ↔ IsByte start ∧ Exact (start + change) changes := by
  constructor
  · intro h
    refine ⟨h.isByte, fun k hk => ?_⟩
    have hpartial := h (k + 1) (Nat.succ_le_succ hk)
    rwa [List.take_succ_cons, List.sum_cons, ← Int.add_assoc] at hpartial
  · rintro ⟨hstart, hrest⟩ k hk
    cases k with
    | zero => rwa [List.take_zero, List.sum_nil, Int.add_zero]
    | succ k =>
      rw [List.take_succ_cons, List.sum_cons, ← Int.add_assoc]
      exact hrest k (Nat.le_of_succ_le_succ hk)

theorem Exact.left {start : Int} {changes more : List Int} (h : Exact start (changes ++ more)) :
    Exact start changes := by
  intro k hk
  have hpartial := h k (by rw [List.length_append]; omega)
  rwa [List.take_append_of_le_length hk] at hpartial

theorem Exact.right {start : Int} {changes more : List Int} (h : Exact start (changes ++ more)) :
    Exact (start + changes.sum) more := by
  intro k hk
  have hpartial := h (changes.length + k) (by rw [List.length_append]; omega)
  rwa [List.take_length_add_append, List.sum_append, ← Int.add_assoc] at hpartial

/-! ## One addition or subtraction -/

namespace Byte

theorem isByte_toNat (b : Byte) : IsByte b.toNat := by
  have hlt := b.toNat_lt
  refine ⟨?_, ?_⟩ <;> omega

theorem ofInt?_toNat (v : Byte) : ofInt? v.toNat = some v := by
  rw [ofInt?, if_pos (isByte_toNat v), Int.toNat_natCast, UInt8.ofNat_toNat]

theorem ofInt?_eq_none {n : Int} (h : ¬ IsByte n) : ofInt? n = none := if_neg h

theorem exists_toNat_eq {n : Int} (h : IsByte n) : ∃ v : Byte, v.toNat = n := by
  obtain ⟨hlow, hhigh⟩ := h
  refine ⟨UInt8.ofNat n.toNat, ?_⟩
  rw [UInt8.toNat_ofNat']
  omega

theorem add?_eq_ofInt? (a b : Byte) : a.add? b = ofInt? (a.toNat + b.toNat) := by
  unfold add?
  split
  · next h =>
    have hsum : ((a + b).toNat : Int) = a.toNat + b.toNat := by
      rw [UInt8.toNat_add]
      omega
    rw [← hsum, ofInt?_toNat]
  · next h =>
    rw [ofInt?_eq_none]
    rintro ⟨-, hhigh⟩
    omega

theorem sub?_eq_ofInt? (a b : Byte) : a.sub? b = ofInt? (a.toNat - b.toNat) := by
  unfold sub?
  split
  · next h =>
    have hle := UInt8.le_iff_toNat_le.mp h
    have hdifference : ((a - b).toNat : Int) = a.toNat - b.toNat := by
      rw [UInt8.toNat_sub_of_le _ _ h]
      omega
    rw [← hdifference, ofInt?_toNat]
  · next h =>
    have hlt := mt UInt8.le_iff_toNat_le.mpr h
    rw [ofInt?_eq_none]
    rintro ⟨hlow, -⟩
    omega

end Byte

namespace Machine

section Sums

variable {σ : Type}

/-- The number that an addition or a subtraction comes to. -/
def sumOf (m : Machine σ) (i : Instruction) : Int :=
  m.registers.acc.toNat + m.registers.change i

/-- The machine after an addition or a subtraction, with interrupts disabled. -/
def sumUp (m : Machine σ) (i : Instruction) : Machine σ :=
  match Byte.ofInt? (m.sumOf i) with
  | some v => (m.advance i.size).setAcc v
  | none => ((m.advance i.size).setAcc 0).setFlag .accOverflow

def sumUpAll (m : Machine σ) (is : List Instruction) : Machine σ := is.foldl sumUp m

theorem sum?_of_isSum {m : Machine σ} {i : Instruction} (hi : i.isSum = true) :
    m.sum? i = some (m.sumOf i) := by
  cases i with
  | add r | addi v | sub r | subi v => rfl
  | _ => cases hi

/-- A sum that is a byte becomes the accumulator, and nothing else changes but the program counter. -/
theorem sumUp_of_isByte {m : Machine σ} {i : Instruction} (h : IsByte (m.sumOf i)) :
    ∃ v : Byte, v.toNat = m.sumOf i ∧ m.sumUp i = (m.advance i.size).setAcc v := by
  obtain ⟨v, hv⟩ := Byte.exists_toNat_eq h
  refine ⟨v, hv, ?_⟩
  rw [sumUp, ← hv, Byte.ofInt?_toNat]

theorem sumUp_of_not_isByte {m : Machine σ} {i : Instruction} (h : ¬ IsByte (m.sumOf i)) :
    m.sumUp i = ((m.advance i.size).setAcc 0).setFlag .accOverflow := by
  simp only [sumUp, Byte.ofInt?_eq_none h]

/-- A sum changes the accumulator, the program counter and the flags. -/
theorem sumUp_eq (m : Machine σ) (i : Instruction) :
    m.sumUp i = { m with registers := { m.registers with
      pc := m.registers.pc + i.size
      acc := (m.sumUp i).registers.acc
      flags := (m.sumUp i).registers.flags } } := by
  by_cases h : IsByte (m.sumOf i)
  · obtain ⟨v, -, hsum⟩ := sumUp_of_isByte h
    rw [hsum]
    rfl
  · rw [sumUp_of_not_isByte h]
    rfl

theorem raise_of_not_interruptible {m : Machine σ} (h : m.registers.mode.interruptible = false)
    (f : Flag) : m.raise f = m.setFlag f := by
  have hnone : ¬ (m.setFlag f).HasHandler f.interrupt.id := fun hhandler =>
    Bool.false_ne_true (h.symm.trans hhandler.1)
  unfold raise
  split
  · rfl
  · exact dispatch_of_not_hasHandler hnone

/-! ## Sums in a row -/

theorem change_sumUp (m : Machine σ) (i : Instruction) :
    (m.sumUp i).registers.change = m.registers.change := by
  rw [sumUp_eq]
  funext j
  cases j <;> rfl

theorem change_sumUpAll (m : Machine σ) (is : List Instruction) :
    (m.sumUpAll is).registers.change = m.registers.change := by
  induction is generalizing m with
  | nil => rfl
  | cons i is ih => exact (ih (m.sumUp i)).trans (change_sumUp m i)

theorem sumUpAll_append (m : Machine σ) (is js : List Instruction) :
    m.sumUpAll (is ++ js) = (m.sumUpAll is).sumUpAll js :=
  List.foldl_append

/-- Sums in a row change the accumulator, the program counter and the flags. -/
theorem sumUpAll_eq (m : Machine σ) (is : List Instruction) :
    m.sumUpAll is = { m with registers := { m.registers with
      pc := m.registers.pc + (is.flatMap Instruction.encode).length
      acc := (m.sumUpAll is).registers.acc
      flags := (m.sumUpAll is).registers.flags } } := by
  induction is generalizing m with
  | nil => rfl
  | cons i is ih =>
    have hlength : m.registers.pc + i.size + (is.flatMap Instruction.encode).length =
        m.registers.pc + ((i :: is).flatMap Instruction.encode).length := by
      rw [List.flatMap_cons, List.length_append, Nat.add_assoc]
      rfl
    have hrest := ih (m.sumUp i)
    rw [sumUp_eq m i] at hrest
    simp only [hlength] at hrest
    rw [← sumUp_eq m i] at hrest
    exact hrest

theorem has_sumUp_of_has {m : Machine σ} {i : Instruction}
    (h : m.registers.flags.has .accOverflow = true) :
    (m.sumUp i).registers.flags.has .accOverflow = true := by
  by_cases hbyte : IsByte (m.sumOf i)
  · obtain ⟨v, -, hsum⟩ := sumUp_of_isByte hbyte
    rw [hsum]
    exact h
  · rw [sumUp_of_not_isByte hbyte]
    exact has_setFlag_iff.mpr (.inr rfl)

/-- The flag stays up. -/
theorem has_sumUpAll_of_has {m : Machine σ} {is : List Instruction}
    (h : m.registers.flags.has .accOverflow = true) :
    (m.sumUpAll is).registers.flags.has .accOverflow = true := by
  induction is generalizing m with
  | nil => exact h
  | cons i is ih => exact ih (has_sumUp_of_has h)

/-- As long as every partial result is a byte, the accumulator is exact and the flags are left alone. -/
theorem sumUpAll_of_exact {m : Machine σ} {is : List Instruction}
    (h : Exact m.registers.acc.toNat (is.map m.registers.change)) :
    (m.sumUpAll is).registers.acc.toNat =
        m.registers.acc.toNat + (is.map m.registers.change).sum ∧
      (m.sumUpAll is).registers.flags = m.registers.flags := by
  induction is generalizing m with
  | nil => exact ⟨(Int.add_zero _).symm, rfl⟩
  | cons i is ih =>
    rw [List.map_cons, exact_cons] at h
    obtain ⟨v, hv, hsum⟩ := sumUp_of_isByte (m := m) (i := i) h.2.isByte
    have hacc : ((m.sumUp i).registers.acc.toNat : Int) =
        m.registers.acc.toNat + m.registers.change i := by
      rw [hsum]
      exact hv
    have hflags : (m.sumUp i).registers.flags = m.registers.flags := by
      rw [hsum]
      rfl
    have hrest := ih (m := m.sumUp i) (by rw [change_sumUp, hacc]; exact h.2)
    rw [change_sumUp, hacc, hflags] at hrest
    rw [List.map_cons, List.sum_cons, ← Int.add_assoc]
    exact hrest

/-- If not every partial result is a byte, some sum is the last that overflows: it leaves zero, and
what follows is exact from there. -/
theorem exists_lastOverflow {m : Machine σ} {is : List Instruction}
    (h : ¬ Exact m.registers.acc.toNat (is.map m.registers.change)) :
    ∃ before i rest, is = before ++ i :: rest ∧ ¬ IsByte ((m.sumUpAll before).sumOf i) ∧
      Exact 0 (rest.map m.registers.change) := by
  induction is generalizing m with
  | nil => exact absurd (exact_nil.mpr (Byte.isByte_toNat _)) h
  | cons i is ih =>
    by_cases hrest : Exact (m.sumUp i).registers.acc.toNat (is.map m.registers.change)
    · -- nothing overflows behind the first one, so it does itself
      have hover : ¬ IsByte (m.sumOf i) := by
        intro hbyte
        obtain ⟨v, hv, hsum⟩ := sumUp_of_isByte hbyte
        apply h
        rw [List.map_cons, exact_cons]
        rw [hsum] at hrest
        refine ⟨Byte.isByte_toNat _, ?_⟩
        show Exact (m.sumOf i) _
        rw [← hv]
        exact hrest
      refine ⟨[], i, is, rfl, hover, ?_⟩
      rw [sumUp_of_not_isByte hover] at hrest
      exact hrest
    · obtain ⟨before, j, rest, hsplit, hover, hexact⟩ :=
        ih (m := m.sumUp i) (by rw [change_sumUp]; exact hrest)
      refine ⟨i :: before, j, rest, by rw [hsplit]; rfl, hover, ?_⟩
      rw [change_sumUp] at hexact
      exact hexact

/-- An overflow shows to the end. -/
theorem has_sumUpAll_of_overflow {m : Machine σ} {before rest : List Instruction} {i : Instruction}
    (h : ¬ IsByte ((m.sumUpAll before).sumOf i)) :
    (m.sumUpAll (before ++ i :: rest)).registers.flags.has .accOverflow = true := by
  rw [sumUpAll_append]
  apply has_sumUpAll_of_has (m := (m.sumUpAll before).sumUp i)
  rw [sumUp_of_not_isByte h]
  exact has_setFlag_iff.mpr (.inr rfl)

theorem has_sumUpAll_eq_false_iff {m : Machine σ} {is : List Instruction}
    (hclear : m.registers.flags.has .accOverflow = false) :
    (m.sumUpAll is).registers.flags.has .accOverflow = false ↔
      Exact m.registers.acc.toNat (is.map m.registers.change) := by
  constructor
  · intro hfalse
    apply Classical.byContradiction
    intro hinexact
    obtain ⟨before, i, rest, rfl, hover, -⟩ := exists_lastOverflow hinexact
    exact Bool.false_ne_true (hfalse.symm.trans (has_sumUpAll_of_overflow hover))
  · intro hexact
    rw [(sumUpAll_of_exact hexact).2]
    exact hclear

theorem isByte_sumOf_of_exact {m : Machine σ} {is js : List Instruction} {i : Instruction}
    (h : Exact m.registers.acc.toNat ((is ++ i :: js).map m.registers.change)) :
    IsByte ((m.sumUpAll is).sumOf i) := by
  rw [List.map_append, List.map_cons] at h
  have hnext := (exact_cons.mp h.right).2.isByte
  rw [sumOf, change_sumUpAll, (sumUpAll_of_exact h.left).1]
  exact hnext

/-- The machine is running, with interrupts disabled, and sums in a row are what it comes to next. -/
structure SumsAhead (m : Machine σ) (is : List Instruction) : Prop where
  sums : ∀ i ∈ is, i.isSum = true
  stored : m.memory.Holds m.registers.pc (is.flatMap Instruction.encode)
  running : m.isHalted = false
  masked : m.registers.mode.interruptible = false

theorem SumsAhead.nextInstruction? {m : Machine σ} {i : Instruction} {is : List Instruction}
    (h : m.SumsAhead (i :: is)) : m.nextInstruction? = some i := by
  have hstored := h.stored
  rw [List.flatMap_cons] at hstored
  exact nextInstruction?_of_holds h.running hstored.left

theorem SumsAhead.tail {m : Machine σ} {i : Instruction} {is : List Instruction}
    (h : m.SumsAhead (i :: is)) : (m.sumUp i).SumsAhead is := by
  have hstored := h.stored
  rw [List.flatMap_cons] at hstored
  rw [sumUp_eq]
  exact ⟨fun j hj => h.sums j (List.mem_cons_of_mem i hj), hstored.right, h.running, h.masked⟩

theorem SumsAhead.left {m : Machine σ} {is js : List Instruction} (h : m.SumsAhead (is ++ js)) :
    m.SumsAhead is := by
  have hstored := h.stored
  rw [List.flatMap_append] at hstored
  exact ⟨fun i hi => h.sums i (List.mem_append_left js hi), hstored.left, h.running, h.masked⟩

end Sums

variable {σ : Type} [ByteSource σ]

/-! ## Steps -/

theorem execute_of_isSum {m : Machine σ} {i : Instruction} (hi : i.isSum = true) :
    m.execute i = m.accumulate (Byte.ofInt? (m.sumOf i)) := by
  cases i with
  | add r => rw [execute, Byte.add?_eq_ofInt?]; rfl
  | addi v => rw [execute, Byte.add?_eq_ofInt?]; rfl
  | sub r => rw [execute, Byte.sub?_eq_ofInt?]; rfl
  | subi v => rw [execute, Byte.sub?_eq_ofInt?]; rfl
  | _ => cases hi

theorem step_of_isSum {m : Machine σ} {i : Instruction} (hnext : m.nextInstruction? = some i)
    (hi : i.isSum = true) (hmode : m.registers.mode.interruptible = false) :
    m.step = (.ok (), m.sumUp i) := by
  have hexecute : (m.advance i.size).execute i = m.sumUp i := by
    have hsum : (m.advance i.size).sumOf i = m.sumOf i := by cases i <;> rfl
    rw [execute_of_isSum hi, hsum, sumUp]
    cases Byte.ofInt? (m.sumOf i) with
    | some v => rfl
    | none => exact raise_of_not_interruptible (m := (m.advance i.size).setAcc 0) hmode .accOverflow
  have hrunning : (m.sumUp i).isHalted = false := by
    have hm := isHalted_of_nextInstruction? hnext
    rw [sumUp_eq]
    exact hm
  rw [step_of_nextInstruction? hnext, hexecute, hrunning]
  rfl

theorem SumsAhead.completes {m : Machine σ} {is : List Instruction} (h : m.SumsAhead is) :
    Completes is.length m (m.sumUpAll is) := by
  induction is generalizing m with
  | nil => exact .zero m
  | cons i is ih =>
    have hstep := step_of_isSum h.nextInstruction? (h.sums i List.mem_cons_self) h.masked
    exact .succ hstep (ih h.tail)

/-! ## Top theorem -/

/-- Additions and subtractions in a row all complete, and change nothing but the accumulator, the
program counter and the flags. The overflow flag is clear afterwards if and only if every partial result
is a byte, and then the accumulator is the exact result. Otherwise one of the sums is the last that
overflowed, and the accumulator is exactly what those behind it come to from zero. A register that does
not exist counts as zero. -/
theorem sums_exact_or_flagged {m : Machine σ} {is : List Instruction} (h : m.SumsAhead is)
    (hclear : m.registers.flags.has .accOverflow = false) :
    ∃ t, Completes is.length m t ∧
      t = { m with registers := { m.registers with
        pc := m.registers.pc + (is.flatMap Instruction.encode).length
        acc := t.registers.acc
        flags := t.registers.flags } } ∧
      (t.registers.flags.has .accOverflow = false ↔
        ∀ k, k ≤ is.length →
          IsByte (m.registers.acc.toNat + ((is.take k).map m.registers.change).sum)) ∧
      (t.registers.flags.has .accOverflow = false →
        t.registers.acc.toNat = m.registers.acc.toNat + (is.map m.registers.change).sum) ∧
      (t.registers.flags.has .accOverflow = true →
        ∃ before i rest, is = before ++ i :: rest ∧
          (∃ u n, Completes before.length m u ∧ u.sum? i = some n ∧ ¬ IsByte n) ∧
          (∀ between j after, rest = between ++ j :: after →
            ∃ u n, Completes (before.length + 1 + between.length) m u ∧ u.sum? j = some n ∧
              IsByte n) ∧
          t.registers.acc.toNat = (rest.map m.registers.change).sum) ∧
      ∀ r : Register, 15 < r.index →
        m.registers.change (.add r) = 0 ∧ m.registers.change (.sub r) = 0 := by
  have hiff : (m.sumUpAll is).registers.flags.has .accOverflow = false ↔
      Exact m.registers.acc.toNat (is.map m.registers.change) := has_sumUpAll_eq_false_iff hclear
  refine ⟨m.sumUpAll is, h.completes, sumUpAll_eq m is, ?_, ?_, ?_, ?_⟩
  · rw [hiff]
    simp only [Exact, List.length_map, List.map_take]
  · intro hfalse
    exact (sumUpAll_of_exact (hiff.mp hfalse)).1
  · intro htrue
    have hinexact : ¬ Exact m.registers.acc.toNat (is.map m.registers.change) := fun hexact =>
      Bool.false_ne_true ((hiff.mpr hexact).symm.trans htrue)
    obtain ⟨before, i, rest, rfl, hover, hexact⟩ := exists_lastOverflow hinexact
    obtain ⟨n, hn⟩ : ∃ n, n = (m.sumUpAll before).sumUp i := ⟨_, rfl⟩
    have hzero : n.registers.acc = 0 := by
      rw [hn, sumUp_of_not_isByte hover]
      rfl
    have hchange : n.registers.change = m.registers.change := by
      rw [hn, change_sumUp, change_sumUpAll]
    have hafter : Exact n.registers.acc.toNat (rest.map n.registers.change) := by
      rw [hzero, hchange]
      exact hexact
    refine ⟨before, i, rest, rfl, ?_, ?_, ?_⟩
    · exact ⟨_, _, h.left.completes, sum?_of_isSum (h.sums i (by simp)), hover⟩
    · rintro between j after rfl
      have hprefix : m.SumsAhead ((before ++ i :: between) ++ j :: after) := by
        rw [List.append_assoc]
        exact h
      have hcompletes := hprefix.left.completes
      rw [sumUpAll_append, List.length_append, List.length_cons] at hcompletes
      refine ⟨n.sumUpAll between, (n.sumUpAll between).sumOf j, ?_,
        sum?_of_isSum (h.sums j (by simp)), isByte_sumOf_of_exact hafter⟩
      rw [Nat.add_assoc, Nat.add_comm 1, hn]
      exact hcompletes
    · have hrest := (sumUpAll_of_exact hafter).1
      rw [hzero, hchange] at hrest
      rw [sumUpAll_append]
      show ((((m.sumUpAll before).sumUp i).sumUpAll rest).registers.acc.toNat : Int) = _
      rw [← hn, hrest]
      exact Int.zero_add _
  · intro r hr
    have hnone : ¬ r.index.toNat < registerCount := Nat.not_lt.mpr hr
    have hget : m.registers.get r = 0 := by rw [Registers.get, dif_neg hnone]
    simp only [Registers.change, hget]
    decide

/-- Four sums that end with memory. The third one names a register that does not exist, and only the
last one overflows. -/
def tallying : Machine Shelf where
  registers := { acc := 250, pc := 0xFFF8 }
  memory := Memory.blank.writeAll (consecutive 0xFFF8
    (Instruction.encode (.subi 200) ++ Instruction.encode (.addi 100) ++
      Instruction.encode (.sub ⟨20⟩) ++ Instruction.encode (.addi 106)))
  drive := {}

theorem sums_exact_of_tallying :
    (∃ t, Completes 3 tallying t ∧ t.registers.flags.has .accOverflow = false ∧
      t.registers.acc = 150) ∧
    ∃ t, Completes 4 tallying t ∧ t.registers.flags.has .accOverflow = true := by
  have hall : tallying.SumsAhead ([.subi 200, .addi 100, .sub ⟨20⟩] ++ [.addi 106]) :=
    ⟨by decide, Memory.holds_writeAll_consecutive Memory.blank (a := 0xFFF8) (by decide), rfl, rfl⟩
  refine ⟨?_, ?_⟩
  · obtain ⟨t, hcompletes, -, hiff, hexact, -⟩ := sums_exact_or_flagged hall.left rfl
    have hfalse := hiff.mpr (by decide)
    have hacc : (t.registers.acc.toNat : Int) = 150 := hexact hfalse
    exact ⟨t, hcompletes, hfalse, UInt8.toNat_inj.mp (Int.ofNat.inj hacc)⟩
  · obtain ⟨t, hcompletes, -, hiff, -⟩ := sums_exact_or_flagged hall rfl
    refine ⟨t, hcompletes, ?_⟩
    rw [← Bool.not_eq_false, hiff]
    intro hbytes
    exact absurd (hbytes 4 (by decide)) (by decide)

end Machine

end Tis80
