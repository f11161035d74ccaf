import Tis80.Proofs.Decoding
import Tis80.Proofs.Dumps
import Tis80.Proofs.RegionGrammar

/-!
# Listings can be read back

A listing shows one instruction: a mnemonic, and operands between commas. A register has an `r` in front
of it and a location a `$`; a value has nothing. Read piece by piece, a listing gives back the bytes of
the instruction:

    readOperand o.render = some o                                          (readOperand_render)
    readListing i.render = some i.encode                                   (readListing_render)

Instructions with the same bytes are the same, so there are no two with one listing.
-/

namespace Tis80

/-- The opcode with this mnemonic, if there is one. -/
def Opcode.ofMnemonic? (name : List Char) : Option Opcode :=
  all.find? fun op => op.mnemonic.toList == name

namespace Listing

/-- The number that the characters spell, all of them together. -/
def readNumber (base : Nat) (cs : List Char) : Option Nat :=
  match Region.digits base cs with
  | some (n, []) => some n
  | _ => none

/-- What stands in front of a number says what kind of operand it is. -/
def readOperand : List Char → Option Operand
  | 'r' :: cs => (readNumber 10 cs).map fun n => .register ⟨UInt8.ofNat n⟩
  | '$' :: cs => (readNumber 16 cs).map fun n => .location (UInt16.ofNat n)
  | cs => (readNumber 10 cs).map fun n => .value (UInt8.ofNat n)

/-- The operands between commas; blanks do not count. -/
def readOperands (cs : List Char) : Option (List Operand) :=
  let text := cs.filter (· ≠ ' ')
  if text = [] then some [] else (text.splitOn ',').mapM readOperand

/-- The bytes of the instruction that a text lists. -/
def readListing (text : String) : Option (List Byte) :=
  let behind := text.toList.dropWhile (· ≠ ' ')
  match Opcode.ofMnemonic? (text.toList.takeWhile (· ≠ ' ')), readOperands behind with
  | some op, some operands => some (op.toByte :: operands.flatMap Operand.bytes)
  | _, _ => none

end Listing

/-! ## Numbers -/

namespace Region

theorem Numeral.append {base n d : Nat} {run : List Char} {c : Char} (h : Numeral base run n)
    (hc : digit? base c = some d) : Numeral base (run ++ [c]) (n * base + d) := by
  obtain ⟨-, hrun, rfl⟩ := numeral_iff.mp h
  refine numeral_iff.mpr ⟨by simp, ?_, ?_⟩
  · intro x hx
    rcases List.mem_append.mp hx with hx | hx
    · exact hrun x hx
    · rw [List.mem_singleton.mp hx, hc]
      rfl
  · rw [List.filterMap_append, List.filterMap_cons_some hc, List.filterMap_nil]
    simp [ofDigits]

theorem numeral_singleton {base d : Nat} {c : Char} (hc : digit? base c = some d) :
    Numeral base [c] d := by
  refine numeral_iff.mpr ⟨by simp, by simp [hc], ?_⟩
  simp [List.filterMap_cons_some hc, ofDigits]

theorem digit?_digitChar : ∀ d < 10, digit? 10 (Nat.digitChar d) = some d := by decide

theorem numeral_toDigits (n : Nat) : Numeral 10 (Nat.toDigits 10 n) n := by
  induction n using Nat.strongRecOn with
  | ind n ih =>
    by_cases hn : n < 10
    · rw [Nat.toDigits_of_lt_base hn]
      exact numeral_singleton (digit?_digitChar n hn)
    · have hlast := digit?_digitChar (n % 10) (Nat.mod_lt n (by decide))
      have hnumeral := (ih (n / 10) (by omega)).append hlast
      rw [Nat.div_add_mod' n 10] at hnumeral
      rwa [Nat.toDigits_of_base_le (by decide) (Nat.not_lt.mp hn)]

theorem numeral_hexDigits {width n : Nat} (h : n < 16 ^ (width + 1)) :
    Numeral 16 (hexDigits (width + 1) n) n := by
  have hlast := digit?_hexDigit (n % 16) (Nat.mod_lt n (by decide))
  induction width generalizing n with
  | zero =>
    have hn : n % 16 = n := Nat.mod_eq_of_lt (by omega)
    rw [hn] at hlast
    rw [hexDigits, hexDigits, hn]
    exact numeral_singleton hlast
  | succ width ih =>
    have hquotient : n / 16 < 16 ^ (width + 1) := by
      rw [Nat.div_lt_iff_lt_mul (by decide)]
      exact h
    have hfront := ih hquotient (digit?_hexDigit _ (Nat.mod_lt _ (by decide)))
    have hnumeral := hfront.append hlast
    rwa [Nat.div_add_mod' n 16] at hnumeral

/-- A letter, a sign or a blank is no digit, so none of them is in a number. -/
theorem Numeral.notMem {base n : Nat} {run : List Char} {c : Char} (h : Numeral base run n)
    (hc : digit? base c = none) : c ∉ run := by
  intro hmem
  have hsome := (numeral_iff.mp h).2.1 c hmem
  rw [hc] at hsome
  cases hsome

end Region

namespace Listing

open Region

theorem readNumber_of_numeral {base n : Nat} {run : List Char} (h : Numeral base run n)
    (hn : n ≤ greatest) : readNumber base run = some n := by
  have hdigits : digits base run = some (n, []) :=
    digits_eq_some_iff.mpr ⟨run, (List.append_nil run).symm, h, hn, by simp⟩
  rw [readNumber, hdigits]

/-! ## Operands -/

theorem toList_toString_byte (b : Byte) : (toString b.toNat).toList = Nat.toDigits 10 b.toNat := by
  rw [Nat.toString_eq_repr, Nat.toList_repr]

theorem toList_render_location (a : Address) : a.render.toList = '$' :: hexDigits 4 a.toNat := by
  have ha : (hex 4 a.toNat).toList = hexDigits 4 a.toNat := toList_hex a.toNat_lt
  rw [Address.render, String.toList_append, ha]
  rfl

theorem toList_render_register (r : Register) :
    r.render.toList = 'r' :: Nat.toDigits 10 r.index.toNat := by
  rw [Register.render, String.toList_append, toList_toString_byte]
  rfl

theorem readNumber_byte (b : Byte) : readNumber 10 (Nat.toDigits 10 b.toNat) = some b.toNat := by
  have hb := b.toNat_lt
  exact readNumber_of_numeral (numeral_toDigits _) (by rw [greatest_eq]; omega)

theorem readNumber_address (a : Address) : readNumber 16 (hexDigits 4 a.toNat) = some a.toNat := by
  have ha := a.toNat_lt
  exact readNumber_of_numeral (numeral_hexDigits ha) (by rw [greatest_eq]; omega)

/-- A number that begins with a digit is taken for a value. -/
theorem readOperand_of_numeral {cs : List Char} {n : Nat} (h : Numeral 10 cs n) :
    readOperand cs = (readNumber 10 cs).map fun n => .value (UInt8.ofNat n) := by
  have hr : 'r' ∉ cs := h.notMem (by decide)
  have hdollar : '$' ∉ cs := h.notMem (by decide)
  unfold readOperand
  split
  · exact absurd List.mem_cons_self hr
  · exact absurd List.mem_cons_self hdollar
  · rfl

theorem readOperand_render (o : Operand) : readOperand o.render.toList = some o := by
  cases o with
  | register r =>
    rw [Operand.render, toList_render_register, readOperand, readNumber_byte]
    simp
  | value v =>
    rw [Operand.render, toList_toString_byte, readOperand_of_numeral (numeral_toDigits _),
      readNumber_byte]
    simp
  | location a =>
    rw [Operand.render, toList_render_location, readOperand, readNumber_address]
    simp

theorem notMem_render {c : Char} (h : c = ' ' ∨ c = ',') (o : Operand) : c ∉ o.render.toList := by
  have hten : digit? 10 c = none := by rcases h with rfl | rfl <;> decide
  have hsixteen : digit? 16 c = none := by rcases h with rfl | rfl <;> decide
  cases o with
  | register r =>
    have hne : c ≠ 'r' := by rcases h with rfl | rfl <;> decide
    rw [Operand.render, toList_render_register, List.mem_cons, not_or]
    exact ⟨hne, (numeral_toDigits _).notMem hten⟩
  | value v =>
    rw [Operand.render, toList_toString_byte]
    exact (numeral_toDigits _).notMem hten
  | location a =>
    have hne : c ≠ '$' := by rcases h with rfl | rfl <;> decide
    rw [Operand.render, toList_render_location, List.mem_cons, not_or]
    exact ⟨hne, (numeral_hexDigits a.toNat_lt).notMem hsixteen⟩

theorem mapM_readOperand (os : List Operand) :
    (os.map fun o => o.render.toList).mapM readOperand = some os := by
  induction os with
  | nil => rfl
  | cons o os ih =>
    rw [List.map_cons, List.mapM_cons, readOperand_render, ih]
    rfl

theorem filter_of_notMem {cs : List Char} (h : ' ' ∉ cs) : cs.filter (· ≠ ' ') = cs := by
  rw [List.filter_eq_self]
  intro c hc
  simp only [decide_eq_true_eq]
  rintro rfl
  exact h hc

/-- Without the blanks, the operands stand between bare commas. -/
theorem filter_intercalate {ls : List (List Char)} (h : ∀ l ∈ ls, ' ' ∉ l) :
    ([',', ' '].intercalate ls).filter (· ≠ ' ') = [','].intercalate ls := by
  induction ls with
  | nil => rfl
  | cons l ls ih =>
    obtain ⟨hl, hls⟩ := List.forall_mem_cons.mp h
    cases ls with
    | nil => simpa using filter_of_notMem hl
    | cons next more =>
      rw [List.intercalate_cons_cons, List.intercalate_cons_cons, List.filter_append,
        List.filter_append, filter_of_notMem hl, ih hls]
      rfl

theorem readOperands_of_filter {cs : List Char} {os : List Operand}
    (h : cs.filter (· ≠ ' ') = [','].intercalate (os.map fun o => o.render.toList)) :
    readOperands cs = some os := by
  unfold readOperands
  rw [h]
  cases os with
  | nil => rfl
  | cons o os =>
    have hsplit : ([','].intercalate ((o :: os).map fun o => o.render.toList)).splitOn ',' =
        (o :: os).map fun o => o.render.toList := by
      apply List.splitOn_intercalate
      · intro l hl
        obtain ⟨o', -, rfl⟩ := List.mem_map.mp hl
        exact notMem_render (.inr rfl) o'
      · exact List.cons_ne_nil _ _
    have hne : [','].intercalate ((o :: os).map fun o => o.render.toList) ≠ [] := by
      -- nothing would be split into one empty piece, and that is no operand
      intro hnil
      rw [hnil, List.map_cons] at hsplit
      have hempty : [] = o.render.toList := (List.cons.inj hsplit).1
      have hread := readOperand_render o
      rw [← hempty] at hread
      cases hread
    dsimp only
    rw [if_neg hne, hsplit, mapM_readOperand]

/-! ## Instructions -/

theorem ofMnemonic?_mnemonic (op : Opcode) : Opcode.ofMnemonic? op.mnemonic.toList = some op := by
  cases op <;> rfl

theorem blank_notMem_mnemonic (op : Opcode) : ' ' ∉ op.mnemonic.toList := by
  cases op <;> decide

/-- Behind the mnemonic there is nothing, or a blank and the operands. -/
theorem toList_render (i : Instruction) :
    ∃ behind, i.render.toList = i.opcode.mnemonic.toList ++ behind ∧
      (∀ c ∈ behind.head?, c = ' ') ∧
      behind.filter (· ≠ ' ') = [','].intercalate (i.operands.map fun o => o.render.toList) := by
  unfold Instruction.render
  split
  · next hnone =>
    rw [hnone]
    exact ⟨[], by simp, by simp, rfl⟩
  · next operands _ =>
    obtain ⟨width, hwidth⟩ : ∃ width, width = 4 - i.opcode.mnemonic.toList.length := ⟨_, rfl⟩
    have hblanks : List.replicate (width + 1) ' ' = List.replicate width ' ' ++ " ".toList :=
      List.replicate_succ'
    refine ⟨List.replicate (width + 1) ' ' ++
      [',', ' '].intercalate (i.operands.map fun o => o.render.toList), ?_, ?_, ?_⟩
    · simp only [Opcode.column, String.toList_append, String.toList_ofList, List.rightpad,
        String.toList_intercalate, List.map_map, ← hwidth, hblanks, List.append_assoc]
      rfl
    · simp [List.replicate_succ]
    · have hnone : (List.replicate (width + 1) ' ').filter (· ≠ ' ') = [] := by simp
      rw [List.filter_append, hnone, List.nil_append]
      apply filter_intercalate
      intro l hl
      obtain ⟨o, -, rfl⟩ := List.mem_map.mp hl
      exact notMem_render (.inl rfl) o

theorem takeWhile_append_of_head {name behind : List Char} (hname : ' ' ∉ name)
    (hbehind : ∀ c ∈ behind.head?, c = ' ') :
    (name ++ behind).takeWhile (· ≠ ' ') = name ∧ (name ++ behind).dropWhile (· ≠ ' ') = behind := by
  have hall : ∀ c ∈ name, decide (c ≠ ' ') = true := by
    intro c hc
    simp only [decide_eq_true_eq]
    rintro rfl
    exact hname hc
  rw [List.takeWhile_append_of_pos hall, List.dropWhile_append_of_pos hall]
  cases behind with
  | nil => simp
  | cons c behind =>
    obtain rfl : c = ' ' := hbehind c rfl
    simp

theorem readListing_render (i : Instruction) : readListing i.render = some i.encode := by
  obtain ⟨behind, hrender, hhead, hfilter⟩ := toList_render i
  obtain ⟨hname, hrest⟩ := takeWhile_append_of_head (blank_notMem_mnemonic i.opcode) hhead
  unfold readListing
  dsimp only
  rw [hrender, hname, hrest, ofMnemonic?_mnemonic, readOperands_of_filter hfilter]
  rfl

end Listing

namespace Instruction

theorem encode_injective {i j : Instruction} (h : i.encode = j.encode) : i = j := by
  have hi := decode?_encode i []
  rw [h, decode?_encode j []] at hi
  exact (Option.some.inj hi).symm

/-! ## Top theorem -/

/-- A listing says which instruction it shows: no other one has the same. So the bytes of an instruction
can be read off its listing; and for the instruction that a step executes these are the bytes from the
program counter on, as many as the instruction has, and zeros past the end of memory. -/
theorem listing_identifies (i : Instruction) :
    (∀ j : Instruction, i.render = j.render ↔ i = j) ∧
    Listing.readListing i.render = some i.encode ∧
    ∀ (σ : Type) (m : Machine σ), m.nextInstruction? = some i →
      Listing.readListing i.render =
        some ((List.range i.encode.length).map fun k => m.memory.fetch (m.registers.pc + k)) := by
  have hread := Listing.readListing_render i
  refine ⟨fun j => ⟨fun hrender => ?_, congrArg render⟩, hread, fun σ m hnext => ?_⟩
  · rw [hrender, Listing.readListing_render j] at hread
    exact encode_injective (Option.some.inj hread).symm
  · have hstored := Machine.instructionAt_of_nextInstruction? hnext
    rw [hread]
    exact congrArg some (Memory.encode_of_some hstored)

/-- The last five cells hold an instruction, and its listing shows what they hold. -/
theorem listing_identifies_of_lastCells :
    Machine.lastCells.nextInstruction? = some (.movm 0xABCD 0x0300) ∧
    (Instruction.movm 0xABCD 0x0300).render = "movm $abcd, $0300" ∧
    Listing.readListing "movm $abcd, $0300" = some ((List.range 5).map fun k =>
      Machine.lastCells.memory.fetch (0xFFFB + k)) := by
  have hstored : Machine.lastCells.memory.Holds 0xFFFB (Instruction.movm 0xABCD 0x0300).encode :=
    Memory.holds_writeAll_consecutive Memory.blank (a := 0xFFFB) (by decide)
  have hnext := Machine.nextInstruction?_of_holds rfl hstored
  have hrender : (Instruction.movm 0xABCD 0x0300).render = "movm $abcd, $0300" := by decide
  obtain ⟨-, -, hbytes⟩ := listing_identifies (.movm 0xABCD 0x0300)
  rw [hrender] at hbytes
  exact ⟨hnext, hrender, hbytes Shelf Machine.lastCells hnext⟩

end Instruction

end Tis80
