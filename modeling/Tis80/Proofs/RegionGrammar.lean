import Mathlib.Data.List.DropRight
import Mathlib.Data.Nat.Digits.Defs
import Mathlib.Tactic.IntervalCases
import Tis80.Region.Parser

/-!
# The regions that can be written

A number is spelled as a run of digits, behind a zero and a letter if its base is not ten. The reader
tries the bases one after the other and takes as many digits as there are. What it takes is always the
spelling of what it returns, and a spelling is taken whole if it ends where no number goes on:

    number cs = some (n, rest)  →  ∃ run, cs = run ++ rest ∧ Literal run n       (literal_of_number)
    Literal run n → Closed rest → number (run ++ rest) = some (n, rest)          (number_of_literal)

A reading that falls back on the zero in front of a letter ends at that letter. No region goes on with
a letter, so the fall back makes nothing a region that is not spelled as one.
-/

namespace Tis80.Region

/-! ## Grammar -/

/-- The character stands for the digit, as a small letter or a capital. -/
def Stands (c : Char) (d : Nat) : Prop :=
  "0123456789abcdef".toList[d]? = some c ∨ "0123456789ABCDEF".toList[d]? = some c

/-- A run of digits, at least one, and the number it stands for. The highest digit comes first. -/
def Numeral (base : Nat) (run : List Char) (n : Nat) : Prop :=
  ∃ ds, ds ≠ [] ∧ List.Forall₂ (fun c d => Stands c d ∧ d < base) run ds ∧
    n = Nat.ofDigits base ds.reverse

/-- The letters that name a base. -/
def letters : List (Char × Nat) :=
  [('x', 16), ('X', 16), ('o', 8), ('O', 8), ('b', 2), ('B', 2)]

inductive Spelled : List Char → Nat → Prop
  | decimal {run : List Char} {n : Nat} (h : Numeral 10 run n) : Spelled run n
  | based {letter : Char} {base : Nat} {run : List Char} {n : Nat} (hletter : (letter, base) ∈ letters)
      (h : Numeral base run n) : Spelled ('0' :: letter :: run) n

/-- A spelling of a number below 2^64. -/
def Literal (run : List Char) (n : Nat) : Prop := Spelled run n ∧ n < 0x10000000000000000

/-- A text without the blanks in front of it and behind it. -/
def stripped (text : String) : List Char := (text.toList.dropWhile isBlank).rdropWhile isBlank

/-- The text gives a start and an end. -/
def GivesEnds (text : String) (start stop : Nat) : Prop :=
  ∃ first last, stripped text = first ++ ['.', '.'] ++ last ∧ Literal first start ∧ Literal last stop

/-- The text gives a start and a length. -/
def GivesLength (text : String) (start n : Nat) : Prop :=
  ∃ first last, stripped text = first ++ ['+'] ++ last ∧ Literal first start ∧ Literal last n

/-- No number goes on here: this is the end, a blank, or what stands between two numbers. -/
def Closed (rest : List Char) : Prop := ∀ c ∈ rest.head?, c ∈ ['.', '+', ' ', '\t']

/-! ## Digits -/

theorem eq_of_toNat {c : Char} {n : Nat} (h : c.toNat = n) : c = Char.ofNat n := by
  rw [← h, Char.ofNat_toNat]

/-- Where the digits and the letters of both cases stand among all characters. -/
theorem stands_iff {c : Char} {d : Nat} :
    Stands c d ↔ (d < 10 ∧ c.toNat = 48 + d) ∨
      ((10 ≤ d ∧ d < 16) ∧ (c.toNat = 87 + d ∨ c.toNat = 55 + d)) := by
  constructor
  · intro h
    have hd : d < 16 := by
      rcases h with h | h
      · exact (List.getElem?_eq_some_iff.mp h).1
      · exact (List.getElem?_eq_some_iff.mp h).1
    interval_cases d <;> rcases h with h | h <;> cases h <;> decide
  · rintro (⟨hd, hc⟩ | ⟨⟨hlow, hd⟩, hc | hc⟩)
    · rw [eq_of_toNat hc]
      interval_cases d <;> exact .inl rfl
    · rw [eq_of_toNat hc]
      interval_cases d <;> exact .inl rfl
    · rw [eq_of_toNat hc]
      interval_cases d <;> exact .inr rfl

theorem digit?_eq_some_iff {base : Nat} {c : Char} {d : Nat} :
    digit? base c = some d ↔ Stands c d ∧ d < base := by
  have hdigit : c.isDigit = true ↔ 48 ≤ c.toNat ∧ c.toNat ≤ 57 := by
    simp only [Char.isDigit, Bool.and_eq_true, decide_eq_true_eq]
    rfl
  have hsmall : 'a' ≤ c ∧ c ≤ 'f' ↔ 97 ≤ c.toNat ∧ c.toNat ≤ 102 := Iff.rfl
  have hcapital : 'A' ≤ c ∧ c ≤ 'F' ↔ 65 ≤ c.toNat ∧ c.toNat ≤ 70 := Iff.rfl
  have hzero : '0'.toNat = 48 := rfl
  have ha : 'a'.toNat = 97 := rfl
  have hA : 'A'.toNat = 65 := rfl
  rw [stands_iff]
  unfold digit?
  rw [Option.filter_eq_some_iff, decide_eq_true_eq]
  refine and_congr_left fun _ => ?_
  split
  · next h =>
    rw [hdigit] at h
    simp only [Option.some.injEq]
    omega
  · next h =>
    rw [hdigit] at h
    split
    · next h' =>
      rw [hsmall] at h'
      simp only [Option.some.injEq]
      omega
    · next h' =>
      rw [hsmall] at h'
      split
      · next h'' =>
        rw [hcapital] at h''
        simp only [Option.some.injEq]
        omega
      · next h'' =>
        rw [hcapital] at h''
        simp only [reduceCtorEq, false_iff]
        omega

theorem ofDigits_eq (base : Nat) (ds : List Nat) :
    ofDigits base ds = Nat.ofDigits base ds.reverse := by
  induction ds using List.reverseRecOn with
  | nil => rfl
  | append_singleton ds d ih =>
    rw [List.reverse_append, List.reverse_singleton, List.singleton_append, Nat.ofDigits_cons, ← ih]
    simp only [ofDigits, List.foldl_append, List.foldl_cons, List.foldl_nil]
    rw [Nat.mul_comm, Nat.add_comm]

/-- A run is read digit by digit. -/
theorem forall₂_digits {base : Nat} {run : List Char} (h : ∀ c ∈ run, (digit? base c).isSome) :
    List.Forall₂ (fun c d => Stands c d ∧ d < base) run (run.filterMap (digit? base)) := by
  induction run with
  | nil => exact .nil
  | cons c run ih =>
    obtain ⟨hc, hrun⟩ := List.forall_mem_cons.mp h
    obtain ⟨d, hd⟩ := Option.isSome_iff_exists.mp hc
    rw [List.filterMap_cons_some hd]
    exact .cons (digit?_eq_some_iff.mp hd) (ih hrun)

theorem filterMap_digits {base : Nat} {run : List Char} {ds : List Nat}
    (h : List.Forall₂ (fun c d => Stands c d ∧ d < base) run ds) :
    run.filterMap (digit? base) = ds ∧ ∀ c ∈ run, (digit? base c).isSome := by
  induction h with
  | nil => exact ⟨rfl, by simp⟩
  | cons hd _ ih =>
    have hsome := digit?_eq_some_iff.mpr hd
    refine ⟨?_, List.forall_mem_cons.mpr ⟨by rw [hsome]; rfl, ih.2⟩⟩
    rw [List.filterMap_cons_some hsome, ih.1]

theorem numeral_iff {base : Nat} {run : List Char} {n : Nat} :
    Numeral base run n ↔ run ≠ [] ∧ (∀ c ∈ run, (digit? base c).isSome) ∧
      n = ofDigits base (run.filterMap (digit? base)) := by
  constructor
  · rintro ⟨ds, hne, hds, rfl⟩
    obtain ⟨hmap, hsome⟩ := filterMap_digits hds
    refine ⟨?_, hsome, by rw [hmap, ofDigits_eq]⟩
    rintro rfl
    cases hds
    exact hne rfl
  · rintro ⟨hne, hsome, rfl⟩
    have hds := forall₂_digits hsome
    refine ⟨_, ?_, hds, ofDigits_eq base _⟩
    intro hnil
    rw [hnil] at hds
    cases hds
    exact hne rfl

/-- Digits are taken as long as there are any. -/
theorem digits_eq_some_iff {base : Nat} {cs : List Char} {n : Nat} {rest : List Char} :
    digits base cs = some (n, rest) ↔ ∃ run, cs = run ++ rest ∧ Numeral base run n ∧
      n ≤ greatest ∧ ∀ c ∈ rest.head?, digit? base c = none := by
  constructor
  · intro h
    obtain ⟨run, hrun⟩ : ∃ run, run = cs.takeWhile fun c => (digit? base c).isSome := ⟨_, rfl⟩
    have hcs : cs = run ++ cs.dropWhile fun c => (digit? base c).isSome := by
      rw [hrun, List.takeWhile_append_dropWhile]
    have hdrop : cs.drop run.length = cs.dropWhile fun c => (digit? base c).isSome := by
      conv_lhs => rw [hcs]
      exact List.drop_left
    unfold digits at h
    rw [← hrun] at h
    dsimp only at h
    split at h
    · cases h
    · next hdigits =>
      simp only [List.isEmpty_iff, not_or, Nat.not_lt] at hdigits
      cases h
      refine ⟨run, by rw [hdrop]; exact hcs, ?_, hdigits.2, ?_⟩
      · refine numeral_iff.mpr ⟨hdigits.1, ?_, rfl⟩
        intro c hc
        rw [hrun] at hc
        exact List.all_eq_true.mp List.all_takeWhile c hc
      · intro c hc
        have hhead := List.head?_dropWhile_not (fun c => (digit? base c).isSome) cs
        rw [← hdrop, Option.mem_def.mp hc] at hhead
        simpa using hhead
  · rintro ⟨run, rfl, hrun, hn, hrest⟩
    obtain ⟨hne, hsome, rfl⟩ := numeral_iff.mp hrun
    have htake : (run ++ rest).takeWhile (fun c => (digit? base c).isSome) = run := by
      rw [List.takeWhile_append_of_pos hsome]
      cases rest with
      | nil => simp
      | cons c rest => simp [hrest c rfl]
    have hdigits : ¬ (run.isEmpty = true ∨
        greatest < ofDigits base (run.filterMap (digit? base))) := by
      simp only [List.isEmpty_iff, not_or, Nat.not_lt]
      exact ⟨hne, hn⟩
    unfold digits
    dsimp only
    rw [htake, if_neg hdigits, List.drop_left]

/-! ## Numbers -/

theorem prefixed_eq_some_iff {letter : Char} {base : Nat} {cs : List Char} {r : Nat × List Char} :
    prefixed letter base cs = some r ↔ ∃ c cs', cs = '0' :: c :: cs' ∧
      (c = letter ∨ c = letter.toUpper) ∧ digits base cs' = some r := by
  constructor
  · intro h
    unfold prefixed at h
    split at h
    · next c cs' =>
      split at h
      · next hc => exact ⟨c, cs', rfl, hc, h⟩
      · cases h
    · cases h
  · rintro ⟨c, cs', rfl, hc, h⟩
    rw [prefixed, if_pos hc, h]

theorem prefixed_cons {letter : Char} {base : Nat} {c : Char} (cs : List Char) :
    prefixed letter base ('0' :: c :: cs) =
      if c = letter ∨ c = letter.toUpper then digits base cs else none := rfl

theorem greatest_eq : greatest = 0xFFFFFFFFFFFFFFFF := rfl

theorem numeral_of_digits {base : Nat} {cs : List Char} {n : Nat} {rest : List Char}
    (h : digits base cs = some (n, rest)) :
    ∃ run, cs = run ++ rest ∧ Numeral base run n ∧ n < 0x10000000000000000 := by
  obtain ⟨run, hcs, hrun, hn, -⟩ := digits_eq_some_iff.mp h
  rw [greatest_eq] at hn
  exact ⟨run, hcs, hrun, by omega⟩

theorem literal_of_prefixed {letter : Char} {base : Nat} {cs : List Char} {n : Nat}
    {rest : List Char} (hsmall : (letter, base) ∈ letters) (hcapital : (letter.toUpper, base) ∈ letters)
    (h : prefixed letter base cs = some (n, rest)) : ∃ run, cs = run ++ rest ∧ Literal run n := by
  obtain ⟨c, cs', rfl, hc, hdigits⟩ := prefixed_eq_some_iff.mp h
  obtain ⟨run, rfl, hrun, hn⟩ := numeral_of_digits hdigits
  have hletter : (c, base) ∈ letters := by
    rcases hc with rfl | rfl
    · exact hsmall
    · exact hcapital
  exact ⟨'0' :: c :: run, rfl, .based hletter hrun, hn⟩

/-- What is taken is the spelling of what is returned. -/
theorem literal_of_number {cs : List Char} {n : Nat} {rest : List Char}
    (h : number cs = some (n, rest)) : ∃ run, cs = run ++ rest ∧ Literal run n := by
  unfold number at h
  simp only [Option.orElse_eq_orElse, Option.orElse_eq_or, Option.or_eq_some_iff] at h
  rcases h with h | ⟨-, h | ⟨-, h | ⟨-, h⟩⟩⟩
  · exact literal_of_prefixed (by decide) (by decide) h
  · exact literal_of_prefixed (by decide) (by decide) h
  · exact literal_of_prefixed (by decide) (by decide) h
  · obtain ⟨run, hcs, hrun, hn⟩ := numeral_of_digits h
    exact ⟨run, hcs, .decimal hrun, hn⟩

theorem digit?_of_closing {base : Nat} {c : Char} (h : c ∈ ['.', '+', ' ', '\t']) :
    digit? base c = none := by
  simp only [List.mem_cons, List.not_mem_nil, or_false] at h
  rcases h with rfl | rfl | rfl | rfl <;> rfl

theorem digits_of_numeral {base : Nat} {run : List Char} {n : Nat} {rest : List Char}
    (h : Numeral base run n) (hn : n < 0x10000000000000000) (hrest : Closed rest) :
    digits base (run ++ rest) = some (n, rest) := by
  refine digits_eq_some_iff.mpr ⟨run, rfl, h, ?_, fun c hc => digit?_of_closing (hrest c hc)⟩
  rw [greatest_eq]
  omega

/-- Behind the first character of a decimal number comes another digit, or the number is at its end. -/
theorem second_of_decimal {run rest cs : List Char} {c : Char} {n : Nat} (h : Numeral 10 run n)
    (hrest : Closed rest) (hsecond : run ++ rest = '0' :: c :: cs) :
    (digit? 10 c).isSome ∨ c ∈ ['.', '+', ' ', '\t'] := by
  obtain ⟨hne, hsome, -⟩ := numeral_iff.mp h
  match run with
  | [] => exact absurd rfl hne
  | [_] =>
    right
    have hbehind : rest = c :: cs := (List.cons.inj hsecond).2
    exact hrest c (by rw [hbehind]; rfl)
  | _ :: d :: _ =>
    left
    obtain rfl : d = c := (List.cons.inj (List.cons.inj hsecond).2).1
    exact hsome d (by simp)

theorem prefixed_of_decimal {run rest : List Char} {letter : Char} {base n : Nat}
    (hletter : letter ∈ ['x', 'o', 'b']) (h : Numeral 10 run n) (hrest : Closed rest) :
    prefixed letter base (run ++ rest) = none := by
  rw [Option.eq_none_iff_forall_ne_some]
  intro r hr
  obtain ⟨c, cs, hcs, hc, -⟩ := prefixed_eq_some_iff.mp hr
  have hsecond := second_of_decimal h hrest hcs
  simp only [List.mem_cons, List.not_mem_nil, or_false] at hletter
  rcases hletter with rfl | rfl | rfl <;> rcases hc with rfl | rfl <;> revert hsecond <;> decide

/-- A spelling is taken whole if no number goes on behind it. -/
theorem number_of_literal {run rest : List Char} {n : Nat} (h : Literal run n)
    (hrest : Closed rest) : number (run ++ rest) = some (n, rest) := by
  obtain ⟨hspelled, hn⟩ := h
  cases hspelled with
  | decimal hrun =>
    rw [number, prefixed_of_decimal (by decide) hrun hrest, prefixed_of_decimal (by decide) hrun hrest,
      prefixed_of_decimal (by decide) hrun hrest, digits_of_numeral hrun hn hrest]
    rfl
  | @based letter base run _ hletter hrun =>
    have hdigits := digits_of_numeral hrun hn hrest
    rw [List.cons_append, List.cons_append]
    simp only [letters, List.mem_cons, List.not_mem_nil, or_false, Prod.mk.injEq] at hletter
    rcases hletter with ⟨rfl, rfl⟩ | ⟨rfl, rfl⟩ | ⟨rfl, rfl⟩ | ⟨rfl, rfl⟩ | ⟨rfl, rfl⟩ | ⟨rfl, rfl⟩ <;>
      simp [number, prefixed_cons, hdigits]

/-! ## Blanks -/

theorem closing_of_isBlank {c : Char} (h : isBlank c = true) : c ∈ ['.', '+', ' ', '\t'] := by
  rw [isBlank, Bool.or_eq_true, beq_iff_eq, beq_iff_eq] at h
  rcases h with rfl | rfl <;> decide

theorem closed_of_blank {blanks : List Char} (h : blanks.all isBlank = true) : Closed blanks := by
  intro c hc
  exact closing_of_isBlank (List.all_eq_true.mp h c (List.mem_of_mem_head? hc))

theorem Numeral.last {base : Nat} {run : List Char} {n : Nat} (h : Numeral base run n) :
    ∃ run' c, run = run' ++ [c] ∧ isBlank c = false := by
  obtain ⟨hne, hsome, -⟩ := numeral_iff.mp h
  refine ⟨run.dropLast, run.getLast hne, (List.dropLast_append_getLast hne).symm, ?_⟩
  have hdigit := hsome _ (List.getLast_mem hne)
  rw [← Bool.not_eq_true]
  intro hblank
  rw [digit?_of_closing (closing_of_isBlank hblank)] at hdigit
  cases hdigit

/-- A number ends with a digit. -/
theorem Literal.last {run : List Char} {n : Nat} (h : Literal run n) :
    ∃ run' c, run = run' ++ [c] ∧ isBlank c = false := by
  cases h.1 with
  | decimal hrun => exact hrun.last
  | @based letter _ _ _ _ hrun =>
    obtain ⟨run', c, rfl, hc⟩ := hrun.last
    exact ⟨'0' :: letter :: run', c, rfl, hc⟩

/-- Blanks can be stripped off the end as far as the last character that is none. -/
theorem stripped_eq_iff {text : String} {body : List Char} {n : Nat} {front last : List Char}
    (hbody : body = front ++ last) (hlast : Literal last n) :
    stripped text = body ↔
      ∃ blanks, text.toList.dropWhile isBlank = body ++ blanks ∧ blanks.all isBlank = true := by
  unfold stripped
  constructor
  · rintro rfl
    refine ⟨(text.toList.dropWhile isBlank).rtakeWhile isBlank, ?_, ?_⟩
    · rw [List.rdropWhile_append_rtakeWhile]
    · exact List.all_eq_true.mpr fun c hc => List.mem_rtakeWhile_imp hc
  · rintro ⟨blanks, htext, hblanks⟩
    obtain ⟨last', c, rfl, hc⟩ := hlast.last
    have hreverse : ∀ c ∈ blanks.reverse, isBlank c = true := by
      simpa using hblanks
    rw [htext, List.rdropWhile, List.reverse_append, List.dropWhile_append_of_pos hreverse, hbody,
      ← List.append_assoc, List.reverse_append, List.reverse_singleton, List.singleton_append,
      List.dropWhile_cons_of_neg (by simp [hc]), List.reverse_cons, List.reverse_reverse]

theorem lastNumber_eq_some_iff {cs : List Char} {n : Nat} :
    lastNumber cs = some n ↔
      ∃ run blanks, cs = run ++ blanks ∧ Literal run n ∧ blanks.all isBlank = true := by
  constructor
  · intro h
    unfold lastNumber at h
    split at h
    · next m rest hnumber =>
      split at h
      · next hrest =>
        cases h
        obtain ⟨run, hcs, hrun⟩ := literal_of_number hnumber
        exact ⟨run, rest, hcs, hrun, hrest⟩
      · cases h
    · cases h
  · rintro ⟨run, blanks, rfl, hrun, hblanks⟩
    rw [lastNumber, number_of_literal hrun (closed_of_blank hblanks)]
    exact if_pos hblanks

/-! ## Regions -/

/-- Two numbers with something between them are read one after the other: what stands there ends the
first. -/
theorem separated_iff {text : String} {c : Char} (between : List Char) {a b : Nat}
    (hc : c ∈ ['.', '+']) :
    (∃ first last, stripped text = first ++ c :: between ++ last ∧ Literal first a ∧ Literal last b) ↔
      ∃ rest, number (text.toList.dropWhile isBlank) = some (a, c :: (between ++ rest)) ∧
        lastNumber rest = some b := by
  constructor
  · rintro ⟨first, last, htext, hfirst, hlast⟩
    obtain ⟨blanks, htext, hblanks⟩ := (stripped_eq_iff rfl hlast).mp htext
    refine ⟨last ++ blanks, ?_, lastNumber_eq_some_iff.mpr ⟨last, blanks, rfl, hlast, hblanks⟩⟩
    have hclosed : Closed (c :: (between ++ (last ++ blanks))) := by
      intro d hd
      obtain rfl : c = d := by simpa using hd
      revert hc
      simp only [List.mem_cons, List.not_mem_nil, or_false]
      tauto
    have hnumber := number_of_literal hfirst hclosed
    rw [htext]
    simpa using hnumber
  · rintro ⟨rest, hnumber, hlast⟩
    obtain ⟨first, htext, hfirst⟩ := literal_of_number hnumber
    obtain ⟨last, blanks, rfl, hlast, hblanks⟩ := lastNumber_eq_some_iff.mp hlast
    refine ⟨first, last, (stripped_eq_iff rfl hlast).mpr ⟨blanks, ?_, hblanks⟩, hfirst, hlast⟩
    simp [htext]

theorem givesEnds_iff {text : String} {start stop : Nat} :
    GivesEnds text start stop ↔
      ∃ rest, number (text.toList.dropWhile isBlank) = some (start, '.' :: '.' :: rest) ∧
        lastNumber rest = some stop :=
  separated_iff ['.'] (by decide)

theorem givesLength_iff {text : String} {start n : Nat} :
    GivesLength text start n ↔
      ∃ rest, number (text.toList.dropWhile isBlank) = some (start, '+' :: rest) ∧
        lastNumber rest = some n :=
  separated_iff [] (by decide)

theorem bounds_eq_some_iff {text : String} {start stop : Nat} :
    bounds text.toList = some (start, stop) ↔ GivesEnds text start stop ∨
      ∃ n, GivesLength text start n ∧ stop = min (start + n) greatest := by
  constructor
  · intro h
    unfold bounds at h
    split at h
    · next a rest hnumber =>
      left
      obtain ⟨b, hlast, he⟩ := Option.map_eq_some_iff.mp h
      cases he
      exact givesEnds_iff.mpr ⟨rest, hnumber, hlast⟩
    · next a rest hnumber =>
      right
      obtain ⟨n, hlast, he⟩ := Option.map_eq_some_iff.mp h
      cases he
      exact ⟨n, givesLength_iff.mpr ⟨rest, hnumber, hlast⟩, rfl⟩
    · cases h
  · rintro (hends | ⟨n, hlength, rfl⟩)
    · obtain ⟨rest, hnumber, hlast⟩ := givesEnds_iff.mp hends
      simp only [bounds, hnumber, hlast, Option.map_some]
    · obtain ⟨rest, hnumber, hlast⟩ := givesLength_iff.mp hlength
      simp only [bounds, hnumber, hlast, Option.map_some]

/-- A region given by its length is never reversed. -/
theorem GivesLength.start_le {text : String} {start n : Nat} (h : GivesLength text start n) :
    start ≤ min (start + n) greatest := by
  obtain ⟨first, last, -, ⟨-, hstart⟩, -⟩ := h
  rw [greatest_eq]
  omega

theorem parse_of_bounds (text : String) :
    (∀ a b, parse text = .ok ⟨a, b⟩ ↔ bounds text.toList = some (a, b) ∧ a ≤ b) ∧
    (∀ a b, parse text = .error (.reversed a b) ↔ bounds text.toList = some (a, b) ∧ b < a) ∧
    (parse text = .error .malformed ↔ bounds text.toList = none) := by
  unfold parse
  split
  · next hnone => simp [hnone]
  · next start stop hsome =>
    by_cases horder : stop < start
    · simp only [hsome, horder, if_true]
      refine ⟨fun a b => ?_, fun a b => ?_, by simp⟩
      · simp only [reduceCtorEq, Option.some.injEq, Prod.mk.injEq, false_iff, not_and]
        rintro ⟨rfl, rfl⟩
        exact Nat.not_le.mpr horder
      · simp only [Except.error.injEq, ParseError.reversed.injEq, Option.some.injEq, Prod.mk.injEq]
        constructor
        · rintro ⟨rfl, rfl⟩
          exact ⟨⟨rfl, rfl⟩, horder⟩
        · exact And.left
    · simp only [hsome, horder, if_false]
      refine ⟨fun a b => ?_, fun a b => ?_, by simp⟩
      · simp only [Except.ok.injEq, mk.injEq, Option.some.injEq, Prod.mk.injEq]
        constructor
        · rintro ⟨rfl, rfl⟩
          exact ⟨⟨rfl, rfl⟩, Nat.not_lt.mp horder⟩
        · exact And.left
      · simp only [reduceCtorEq, Option.some.injEq, Prod.mk.injEq, false_iff, not_and]
        rintro ⟨rfl, rfl⟩
        exact horder

/-! ## Top theorem -/

/-- A text is read as a region if and only if it is spelled as one: as two ends in order, or as a start
and a length, with a region that would go on past the greatest number cut off there. Two ends in the
wrong order are reported with both of them. Every other text is malformed, one with a number of 2^64 or
more included. -/
theorem parse_iff_spelled (text : String) (a b : Nat) :
    (parse text = .ok ⟨a, b⟩ ↔
      (GivesEnds text a b ∧ a ≤ b) ∨
      ∃ n, GivesLength text a n ∧ b = min (a + n) 0xFFFFFFFFFFFFFFFF) ∧
    (parse text = .error (.reversed a b) ↔ GivesEnds text a b ∧ b < a) ∧
    (parse text = .error .malformed ↔
      (¬ ∃ start stop, GivesEnds text start stop) ∧ ¬ ∃ start n, GivesLength text start n) := by
  obtain ⟨hok, hreversed, hmalformed⟩ := parse_of_bounds text
  refine ⟨?_, ?_, ?_⟩
  · rw [hok, bounds_eq_some_iff]
    constructor
    · rintro ⟨hends | hlength, hle⟩
      · exact .inl ⟨hends, hle⟩
      · exact .inr hlength
    · rintro (⟨hends, hle⟩ | ⟨n, hlength, rfl⟩)
      · exact ⟨.inl hends, hle⟩
      · exact ⟨.inr ⟨n, hlength, rfl⟩, hlength.start_le⟩
  · rw [hreversed, bounds_eq_some_iff]
    constructor
    · rintro ⟨hends | ⟨n, hlength, rfl⟩, hlt⟩
      · exact ⟨hends, hlt⟩
      · exact absurd hlength.start_le (Nat.not_le.mpr hlt)
    · rintro ⟨hends, hlt⟩
      exact ⟨.inl hends, hlt⟩
  · rw [hmalformed, Option.eq_none_iff_forall_ne_some]
    constructor
    · intro hnone
      refine ⟨?_, ?_⟩
      · rintro ⟨start, stop, hends⟩
        exact hnone _ (bounds_eq_some_iff.mpr (.inl hends))
      · rintro ⟨start, n, hlength⟩
        exact hnone _ (bounds_eq_some_iff.mpr (.inr ⟨n, hlength, rfl⟩))
    · rintro ⟨hends, hlength⟩ ⟨start, stop⟩ hsome
      rcases bounds_eq_some_iff.mp hsome with h | ⟨n, h, -⟩
      · exact hends ⟨start, stop, h⟩
      · exact hlength ⟨start, n, h⟩

end Tis80.Region
