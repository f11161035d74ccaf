import Tis80.Memory

/-!
# Sequences of writes, and slices

Writes performed in order leave in a cell the last byte written to it, and a slice is read off cell
by cell:

    (m.writeAll ws).read a = (ws.reverse.lookup a).getD (m.read a)     (read_writeAll)
    m.slice ⟨a, b + 1⟩ = m.slice ⟨a, b⟩ ++ [m.read b]                   (slice_succ)
    (m.writeAll (consecutive a bs)).slice ⟨a, a + bs.length⟩ = bs      (slice_writeAll_consecutive)

The last one for bytes that do not run past the end of memory.
-/

namespace Tis80

/-! ## Consecutive writes -/

theorem Address.toNat_add_ofNat {a : Address} {i : Nat} (h : a.toNat + i < memorySize) :
    (a + UInt16.ofNat i).toNat = a.toNat + i := by
  have hsize : memorySize = 65536 := rfl
  rw [UInt16.toNat_add, UInt16.toNat_ofNat']
  omega

theorem Address.toNat_sub_ofNat {a : Address} {i : Nat} (h : i ≤ a.toNat) :
    (a - UInt16.ofNat i).toNat = a.toNat - i := by
  have ha := a.toNat_lt
  rw [UInt16.toNat_sub, UInt16.toNat_ofNat']
  omega

theorem Address.toNat_sub_one {a : Address} (h : 0 < a.toNat) : (a - 1).toNat = a.toNat - 1 :=
  toNat_sub_ofNat (i := 1) h

@[simp]
theorem consecutive_nil (a : Address) : consecutive a [] = [] := rfl

theorem consecutive_cons (a : Address) (b : Byte) (bytes : List Byte) :
    consecutive a (b :: bytes) = (a, b) :: consecutive (a + 1) bytes := by
  have hshift : ∀ i, a + UInt16.ofNat (i + 1) = a + 1 + UInt16.ofNat i := by
    intro i
    rw [UInt16.ofNat_add, UInt16.add_comm (UInt16.ofNat i), ← UInt16.add_assoc]
    rfl
  simp only [consecutive, List.mapIdx_cons, hshift]
  simp

@[simp]
theorem length_consecutive (a : Address) (bytes : List Byte) :
    (consecutive a bytes).length = bytes.length := by
  simp [consecutive]

theorem consecutive_prefix_append (a : Address) (bytes more : List Byte) :
    consecutive a bytes <+: consecutive a (bytes ++ more) := by
  rw [consecutive, consecutive, List.mapIdx_append]
  exact List.prefix_append _ _

theorem mem_of_mem_consecutive {a x : Address} {v : Byte} {bytes : List Byte}
    (h : (x, v) ∈ consecutive a bytes) : v ∈ bytes := by
  rw [consecutive, List.mem_mapIdx] at h
  obtain ⟨i, hi, he⟩ := h
  cases he
  exact List.getElem_mem hi

theorem exists_of_mem_consecutive {a c : Address} {bytes : List Byte}
    (h : c ∈ (consecutive a bytes).map Prod.fst) :
    ∃ i, i < bytes.length ∧ c = a + UInt16.ofNat i := by
  simp only [consecutive, List.mem_map, List.mem_mapIdx] at h
  obtain ⟨w, ⟨i, hi, rfl⟩, rfl⟩ := h
  exact ⟨i, hi, rfl⟩

namespace Memory

/-! ## Writes in order -/

@[simp]
theorem writeAll_nil (m : Memory) : m.writeAll [] = m := rfl

theorem writeAll_cons (m : Memory) (w : Address × Byte) (ws : List (Address × Byte)) :
    m.writeAll (w :: ws) = (m.write w.1 w.2).writeAll ws := rfl

/-- The last write to a cell wins, and a cell without a write is unchanged. -/
theorem read_writeAll (m : Memory) (ws : List (Address × Byte)) (a : Address) :
    (m.writeAll ws).read a = (ws.reverse.lookup a).getD (m.read a) := by
  induction ws generalizing m with
  | nil => rfl
  | cons w ws ih =>
    obtain ⟨c, v⟩ := w
    rw [writeAll_cons, ih, List.reverse_cons, List.lookup_append, read_write]
    cases hlater : ws.reverse.lookup a with
    | some later => rfl
    | none =>
      by_cases hc : c = a
      · subst hc
        simp
      · have hne : (a == c) = false := by simpa using Ne.symm hc
        simp [List.lookup_cons, hc, hne]

theorem read_writeAll_of_notMem (m : Memory) {ws : List (Address × Byte)} {a : Address}
    (h : a ∉ ws.map Prod.fst) : (m.writeAll ws).read a = m.read a := by
  have hnone : ws.reverse.lookup a = none := by
    rw [List.lookup_eq_none_iff]
    intro w hw
    have hne : w.1 ≠ a := fun e => h (e ▸ List.mem_map_of_mem (List.mem_reverse.mp hw))
    simpa using Ne.symm hne
  rw [read_writeAll, hnone]
  rfl

/-- What is written a second time is there already. -/
theorem writeAll_writeAll_self (m : Memory) (ws : List (Address × Byte)) :
    (m.writeAll ws).writeAll ws = m.writeAll ws := by
  apply ext_read
  intro a
  rw [read_writeAll, read_writeAll]
  cases ws.reverse.lookup a <;> rfl

/-- A cell holds what it held before, or what one of the writes puts there. -/
theorem read_writeAll_eq_or_mem (m : Memory) (ws : List (Address × Byte)) (a : Address) :
    (m.writeAll ws).read a = m.read a ∨ (a, (m.writeAll ws).read a) ∈ ws := by
  induction ws generalizing m with
  | nil => exact .inl rfl
  | cons w ws ih =>
    obtain ⟨c, v⟩ := w
    rw [writeAll_cons]
    rcases ih (m.write c v) with hsame | hmem
    · by_cases hc : c = a
      · subst hc
        rw [hsame, read_write_self]
        exact .inr List.mem_cons_self
      · rw [hsame, read_write_of_ne m v hc]
        exact .inl rfl
    · exact .inr (List.mem_cons_of_mem _ hmem)

theorem writeAll_comm (m : Memory) {ws vs : List (Address × Byte)}
    (h : ∀ a ∈ ws.map Prod.fst, a ∉ vs.map Prod.fst) :
    (m.writeAll ws).writeAll vs = (m.writeAll vs).writeAll ws := by
  apply ext_read
  intro a
  by_cases ha : a ∈ ws.map Prod.fst
  · rw [read_writeAll_of_notMem _ (h a ha), read_writeAll m ws, read_writeAll _ ws,
      read_writeAll_of_notMem m (h a ha)]
  · rw [read_writeAll_of_notMem _ ha, read_writeAll _ vs, read_writeAll m vs,
      read_writeAll_of_notMem m ha]

/-- Bytes written in front of the end of memory stand where they were put. -/
theorem read_writeAll_consecutive (m : Memory) (a : Address) (bytes : List Byte) {i : Nat}
    (hfit : a.toNat + bytes.length ≤ memorySize) (hi : i < bytes.length) :
    (m.writeAll (consecutive a bytes)).read (a + UInt16.ofNat i) = bytes[i] := by
  induction bytes generalizing m a i with
  | nil => simp at hi
  | cons b bytes ih =>
    rw [consecutive_cons, writeAll_cons]
    simp only [List.length_cons] at hfit hi
    have hsize : memorySize = 65536 := rfl
    by_cases hlast : bytes = []
    · subst hlast
      obtain rfl : i = 0 := by simpa using hi
      simp
    · have hpos := List.length_pos_iff.mpr hlast
      have hnext : (a + 1).toNat = a.toNat + 1 := Address.toNat_add_ofNat (i := 1) (by omega)
      cases i with
      | zero =>
        -- no later byte falls on the first cell again
        have hfirst : a ∉ (consecutive (a + 1) bytes).map Prod.fst := by
          intro hmem
          obtain ⟨j, hj, he⟩ := exists_of_mem_consecutive hmem
          have hj' := Address.toNat_add_ofNat (a := a + 1) (i := j) (by omega)
          rw [← he] at hj'
          omega
        have hzero : a + UInt16.ofNat 0 = a := by simp
        rw [hzero, read_writeAll_of_notMem _ hfirst]
        simp
      | succ j =>
        have hshift : a + UInt16.ofNat (j + 1) = a + 1 + UInt16.ofNat j := by
          apply UInt16.toNat_inj.mp
          rw [Address.toNat_add_ofNat (by omega), Address.toNat_add_ofNat (by omega), hnext]
          omega
        rw [hshift, ih _ _ (by omega) (by omega)]
        rfl

/-! ## Slices -/

theorem length_slice (m : Memory) {start stop : Nat} (h : stop ≤ memorySize) :
    (m.slice ⟨start, stop⟩).length = stop - start := by
  simp only [slice, Array.length_toList, Array.size_extract, Vector.size_toArray]
  omega

theorem getElem_slice (m : Memory) {start stop i : Nat} (hfit : stop ≤ memorySize)
    (h : i < (m.slice ⟨start, stop⟩).length) : (m.slice ⟨start, stop⟩)[i] = m.fetch (start + i) := by
  have hin : start + i < memorySize := by
    rw [length_slice m hfit] at h
    omega
  simp [slice, fetch, hin]

/-- A slice depends on its own cells only. -/
theorem slice_congr {m n : Memory} {start stop : Nat} (hfit : stop ≤ memorySize)
    (h : ∀ a : Address, start ≤ a.toNat → a.toNat < stop → m.read a = n.read a) :
    m.slice ⟨start, stop⟩ = n.slice ⟨start, stop⟩ := by
  apply List.ext_getElem
  · rw [length_slice m hfit, length_slice n hfit]
  · intro i hi _
    rw [length_slice m hfit] at hi
    have hsize : memorySize = 65536 := rfl
    have hnat : (UInt16.ofNat (start + i)).toNat = start + i := by
      rw [UInt16.toNat_ofNat']
      omega
    rw [getElem_slice m hfit, getElem_slice n hfit, ← hnat, fetch_toNat, fetch_toNat]
    exact h _ (by omega) (by omega)

theorem slice_self (m : Memory) (i : Nat) : m.slice ⟨i, i⟩ = [] := by
  simp [slice]

theorem slice_succ (m : Memory) {start : Nat} {a : Address} (h : start ≤ a.toNat) :
    m.slice ⟨start, a.toNat + 1⟩ = m.slice ⟨start, a.toNat⟩ ++ [m.read a] := by
  have ha : a.toNat + 1 ≤ memorySize := a.toNat_lt_memorySize
  have ha' : a.toNat ≤ memorySize := Nat.le_of_succ_le ha
  apply List.ext_getElem
  · rw [List.length_append, length_slice m ha, length_slice m ha', List.length_singleton]
    omega
  · intro i hi _
    rw [length_slice m ha] at hi
    rw [getElem_slice m ha, List.getElem_append]
    split
    · rw [getElem_slice m ha']
    · next hlast =>
      rw [length_slice m ha'] at hlast
      have he : start + i = a.toNat := by omega
      rw [he, fetch_toNat, List.getElem_singleton]

/-- Writing consecutive bytes in front of the end of memory makes them the slice. -/
theorem slice_writeAll_consecutive (m : Memory) {a : Address} {bytes : List Byte}
    (hfit : a.toNat + bytes.length ≤ memorySize) :
    (m.writeAll (consecutive a bytes)).slice ⟨a.toNat, a.toNat + bytes.length⟩ = bytes := by
  apply List.ext_getElem
  · rw [length_slice _ hfit]
    simp
  · intro i _ hi
    rw [getElem_slice _ hfit, ← Address.toNat_add_ofNat (by omega), fetch_toNat,
      read_writeAll_consecutive m a bytes hfit hi]

/-! ## Strings -/

/-- What is taken depends on the elements up to the first that is left. -/
theorem takeWhile_congr {p : Byte → Bool} {bs cs : List Byte} (hlength : bs.length = cs.length)
    (h : ∀ i, i ≤ (bs.takeWhile p).length → bs[i]? = cs[i]?) : bs.takeWhile p = cs.takeWhile p := by
  induction bs generalizing cs with
  | nil => rw [List.eq_nil_of_length_eq_zero hlength.symm]
  | cons b bs ih =>
    cases cs with
    | nil => simp at hlength
    | cons c cs =>
      obtain rfl : b = c := by simpa using h 0 (Nat.zero_le _)
      by_cases hb : p b = true
      · rw [List.takeWhile_cons_of_pos hb] at h ⊢
        rw [List.takeWhile_cons_of_pos hb, ih (by simpa using hlength)]
        intro i hi
        simpa using h (i + 1) (by simpa using hi)
      · rw [List.takeWhile_cons_of_neg hb, List.takeWhile_cons_of_neg hb]

/-- A string depends on its own cells and the one that ends it. -/
theorem stringAt_congr {m n : Memory} {a : Address}
    (h : ∀ c : Address, a.toNat ≤ c.toNat → c.toNat ≤ a.toNat + (m.stringAt a).length →
      m.read c = n.read c) : m.stringAt a = n.stringAt a := by
  have hlength : ∀ m : Memory, (m.slice ⟨a.toNat, memorySize⟩).length = memorySize - a.toNat :=
    fun m => length_slice m (Nat.le_refl memorySize)
  have hm := hlength m
  have hn := hlength n
  apply takeWhile_congr (hm.trans hn.symm)
  intro i hi
  by_cases hin : i < memorySize - a.toNat
  · have hcell : a.toNat + i < memorySize := by omega
    have hnat := Address.toNat_add_ofNat hcell
    rw [List.getElem?_eq_getElem (by omega), List.getElem?_eq_getElem (by omega),
      getElem_slice m (Nat.le_refl _), getElem_slice n (Nat.le_refl _), ← hnat, fetch_toNat,
      fetch_toNat, h _ (by omega) (by rw [hnat]; exact Nat.add_le_add_left hi _)]
  · rw [List.getElem?_eq_none (by omega), List.getElem?_eq_none (by omega)]

end Memory

end Tis80
