import Mathlib.Tactic.ByContra
import Mathlib.Tactic.SplitIfs
import Tis80.Proofs.Interference

/-!
# Flat names

A flat name names a file of a directory and nothing else. From a folder it leads to the file of that
name in the home directory, however the path of the home directory is written, as long as the whole
path is within the limit of the file system:

    d.HomeAt l → the path of `name` leads to `l ++ [name]`                       (Folder.resolve_flat)
    d.HomeAt l → a path over the limit leads nowhere                             (Folder.resolve_long)

and writing ROMs to a folder under flat names does to it what inserting them does to a shelf
(`Holds.store`).
-/

namespace Tis80

/-- A text that is one component of a path. -/
structure Component (name : String) : Prop where
  nonempty : name ≠ ""
  noSlash : '/' ∉ name.toList
  noNul : '\x00' ∉ name.toList

/-- A name that a directory can hold. -/
structure Flat (name : String) : Prop extends Component name where
  notHere : name ≠ "."
  notParent : name ≠ ".."
  length_le : name.utf8ByteSize ≤ Path.componentLimit

instance (name : String) : Decidable (Flat name) :=
  decidable_of_iff
    ((name ≠ "" ∧ '/' ∉ name.toList ∧ '\x00' ∉ name.toList) ∧
      name ≠ "." ∧ name ≠ ".." ∧ name.utf8ByteSize ≤ Path.componentLimit)
    ⟨fun ⟨⟨h₁, h₂, h₃⟩, h₄, h₅, h₆⟩ => ⟨⟨h₁, h₂, h₃⟩, h₄, h₅, h₆⟩,
      fun h => ⟨⟨h.nonempty, h.noSlash, h.noNul⟩, h.notHere, h.notParent, h.length_le⟩⟩

/-- A flat name whose path from the directory `root` is within the limit. -/
structure FlatIn (root name : String) : Prop extends Flat name where
  fits : (Path.join root name).utf8ByteSize ≤ Path.pathLimit

instance (root name : String) : Decidable (FlatIn root name) :=
  decidable_of_iff (Flat name ∧ (Path.join root name).utf8ByteSize ≤ Path.pathLimit)
    ⟨fun ⟨hflat, hfits⟩ => ⟨hflat, hfits⟩, fun h => ⟨h.toFlat, h.fits⟩⟩

/-! ## Paths -/

theorem splitSlashes_ne_nil (cs : List Char) : splitSlashes cs ≠ [] := by
  cases cs with
  | nil => exact List.cons_ne_nil _ _
  | cons c cs =>
    rw [splitSlashes]
    split
    · exact List.cons_ne_nil _ _
    · split <;> exact List.cons_ne_nil _ _

theorem splitSlashes_of_noSlash {cs : List Char} (h : '/' ∉ cs) : splitSlashes cs = [cs] := by
  induction cs with
  | nil => rfl
  | cons c cs ih =>
    rw [List.mem_cons, not_or] at h
    rw [splitSlashes, if_neg (Ne.symm h.1), ih h.2]

theorem splitSlashes_append_slash (cs ds : List Char) :
    splitSlashes (cs ++ '/' :: ds) = splitSlashes cs ++ splitSlashes ds := by
  induction cs with
  | nil => rfl
  | cons c cs ih =>
    rw [List.cons_append, splitSlashes, splitSlashes, ih]
    split
    · rfl
    · cases hcs : splitSlashes cs with
      | nil => exact absurd hcs (splitSlashes_ne_nil cs)
      | cons part parts => rfl

namespace Path

/-- The path of a directory, up to where a name can follow. -/
def stem (root : String) : String :=
  if root.isEmpty || root.toList.getLast? == some '/' then root else root ++ "/"

/-- The components that lead to the directory. -/
def parts (root : String) : List String := (components (stem root)).dropLast

/-- Where they are followed from. -/
def start (here : Location) (root : String) : Location := if isAbsolute (stem root) then [] else here

variable {root name : String}

theorem isAbsolute_of_noSlash (h : '/' ∉ name.toList) : isAbsolute name = false := by
  rw [isAbsolute, beq_eq_false_iff_ne]
  exact fun hhead => h (List.mem_of_head? hhead)

theorem join_eq (h : '/' ∉ name.toList) : join root name = stem root ++ name := by
  rw [join, isAbsolute_of_noSlash h, if_neg Bool.false_ne_true, stem]
  split <;> rfl

theorem stem_cases (root : String) : stem root = "" ∨ ∃ cs, (stem root).toList = cs ++ ['/'] := by
  unfold stem
  split
  · next h =>
    rw [Bool.or_eq_true, beq_iff_eq, String.isEmpty_iff] at h
    exact h.imp_right fun hlast => List.getLast?_eq_some_iff.mp hlast
  · exact .inr ⟨root.toList, String.toList_append⟩

theorem components_stem_append (h : '/' ∉ name.toList) :
    components (stem root ++ name) = parts root ++ [name] := by
  have hname : (splitSlashes name.toList).map String.ofList = [name] := by
    rw [splitSlashes_of_noSlash h, List.map_singleton, String.ofList_toList]
  rcases stem_cases root with hstem | ⟨cs, hcs⟩
  · rw [parts, hstem, String.empty_append]
    exact hname
  · simp only [parts, components, String.toList_append, hcs, List.append_assoc, List.singleton_append,
      splitSlashes_append_slash, List.map_append, hname]
    simp [splitSlashes]

theorem isAbsolute_stem_append (h : '/' ∉ name.toList) :
    isAbsolute (stem root ++ name) = isAbsolute (stem root) := by
  rcases stem_cases root with hstem | ⟨cs, hcs⟩
  · rw [hstem, String.empty_append, isAbsolute_of_noSlash h]
    rfl
  · rw [isAbsolute, isAbsolute, String.toList_append, hcs]
    cases cs <;> rfl

theorem nul_mem_stem_iff : '\x00' ∈ (stem root).toList ↔ '\x00' ∈ root.toList := by
  unfold stem
  split
  · rfl
  · simp [String.toList_append]

end Path

/-! ## Walks -/

namespace FileTree

variable {t : FileTree} {l : Location} {name : String}

/-- A path to something in the directory is its way there and one more component. -/
theorem resolve_join (t : FileTree) (here : Location) (root : String) (h : Component name) :
    t.resolve here (Path.join root name) =
      if '\x00' ∈ root.toList then .error .nulInName
      else if Path.pathLimit < (Path.stem root).utf8ByteSize + name.utf8ByteSize then
        .error .nameTooLong
      else t.walk (Path.start here root) (Path.parts root ++ [name]) := by
  have hempty : (Path.stem root ++ name).isEmpty = false := by
    simp [h.nonempty]
  have hnul : (Path.stem root ++ name).toList.contains '\x00' = true ↔ '\x00' ∈ root.toList := by
    rw [List.contains_iff_mem, String.toList_append, List.mem_append, Path.nul_mem_stem_iff,
      or_iff_left h.noNul]
  rw [resolve, Path.join_eq h.noSlash, hempty, String.utf8ByteSize_append,
    Path.components_stem_append h.noSlash, Path.isAbsolute_stem_append h.noSlash]
  simp only [hnul, Bool.false_eq_true, if_false]
  rfl

/-- The directory or file that one component leads to. -/
def enter (t : FileTree) (here : Location) (c : String) : Except IoFault Location :=
  if ¬ t.isDirectory here then .error .notADirectory
  else if c = "" ∨ c = "." then .ok here
  else if c = ".." then .ok here.dropLast
  else if Path.componentLimit < c.utf8ByteSize then .error .nameTooLong
  else if (t.lookup (here ++ [c])).isNone then .error .fileNotFound
  else .ok (here ++ [c])

theorem walk_cons (t : FileTree) (here : Location) (c : String) (cs : List String) :
    t.walk here (c :: cs) = (t.enter here c).bind fun l => t.walk l cs := by
  rw [walk, enter]
  split_ifs <;> rfl

theorem walk_append (t : FileTree) (here : Location) (xs ys : List String) :
    t.walk here (xs ++ ys) = (t.walk here xs).bind fun l => t.walk l ys := by
  induction xs generalizing here with
  | nil => rfl
  | cons c cs ih =>
    rw [List.cons_append, walk_cons, walk_cons]
    cases t.enter here c with
    | error fault => rfl
    | ok l => exact ih l

theorem walk_cons_ok_iff {here : Location} {c : String} {cs : List String} :
    t.walk here (c :: cs) = .ok l ↔ ∃ next, t.enter here c = .ok next ∧ t.walk next cs = .ok l := by
  rw [walk_cons]
  cases t.enter here c with
  | error fault => simp [Except.bind]
  | ok next => simp [Except.bind]

theorem enter_dot (h : t.isDirectory l = true) : t.enter l "." = .ok l := by
  simp [enter, h]

theorem enter_flat (h : t.isDirectory l = true) (hname : Flat name) :
    t.enter l name =
      if (t.lookup (l ++ [name])).isNone then .error .fileNotFound else .ok (l ++ [name]) := by
  simp only [enter, h, hname.nonempty, hname.notHere, hname.notParent,
    Nat.not_lt.mpr hname.length_le, not_true_eq_false, or_self, if_false]

theorem isDirectory_of_enter {here : Location} {c : String} (h : t.enter here c = .ok l) :
    t.isDirectory here = true := by
  by_contra hnot
  rw [enter, if_pos hnot] at h
  cases h

/-- Whatever is in the tree, a component leads in one direction. -/
theorem eq_of_enter {here : Location} {c : String} (h : t.enter here c = .ok l) :
    (if c = "" ∨ c = "." then here else if c = ".." then here.dropLast else here ++ [c]) = l := by
  unfold enter at h
  split_ifs at h ⊢ <;> exact Except.ok.inj h

theorem foldl_of_walk {cs : List String} {here : Location} (h : t.walk here cs = .ok l) :
    cs.foldl (fun l c => if c = "" ∨ c = "." then l else if c = ".." then l.dropLast else l ++ [c])
      here = l := by
  induction cs generalizing here with
  | nil => exact Except.ok.inj h
  | cons c cs ih =>
    obtain ⟨next, henter, hwalk⟩ := walk_cons_ok_iff.mp h
    rw [List.foldl_cons, eq_of_enter henter]
    exact ih hwalk

/-! ## More directories -/

theorem isDirectory_iff : t.isDirectory l = true ↔ t.lookup l = some .directory := by
  unfold isDirectory
  split
  · next h => simp [h]
  · next h => simpa using h

variable {u : FileTree}

theorem enter_mono (hdirs : ∀ p, t.isDirectory p = true → u.isDirectory p = true) {here : Location}
    {c : String} (h : t.enter here c = .ok l) (hl : t.isDirectory l = true) :
    u.enter here c = .ok l := by
  have hhere := hdirs here (isDirectory_of_enter h)
  have hfound : (u.lookup l).isNone = false := by
    rw [isDirectory_iff.mp (hdirs l hl)]
    rfl
  unfold enter at h ⊢
  rw [if_neg (not_not_intro hhere)]
  split_ifs at h with hnot hstay hparent hlong hnone
  · rw [if_pos hstay, h]
  · rw [if_neg hstay, if_pos hparent, h]
  · cases h
    rw [if_neg hstay, if_neg hparent, if_neg hlong, hfound]
    rfl

/-- A walk through directories goes the same way in a tree that has them all. -/
theorem walk_mono (hdirs : ∀ p, t.isDirectory p = true → u.isDirectory p = true) {cs : List String}
    {here : Location} (h : t.walk here cs = .ok l) (hl : t.isDirectory l = true) :
    u.walk here cs = .ok l := by
  induction cs generalizing here with
  | nil => exact h
  | cons c cs ih =>
    obtain ⟨next, henter, hwalk⟩ := walk_cons_ok_iff.mp h
    have hnext : t.isDirectory next = true := by
      cases cs with
      | nil =>
        cases hwalk
        exact hl
      | cons d ds =>
        obtain ⟨_, hnext, -⟩ := walk_cons_ok_iff.mp hwalk
        exact isDirectory_of_enter hnext
    exact walk_cons_ok_iff.mpr ⟨next, enter_mono hdirs henter hnext, ih hwalk⟩

theorem lookup_put (t : FileTree) (hl : l ≠ []) (n : Node) (p : Location) :
    (t.put l n).lookup p = if p = l then some n else t.lookup p := by
  unfold lookup
  split
  · next hp =>
    rw [if_neg]
    rintro rfl
    exact hl (List.isEmpty_iff.mp hp)
  · exact lookup_cons_filter t.nodes l p n

/-- Directories are added where nothing was, on the way to `l`. -/
theorem lookup_addDirectory (t : FileTree) (l p : Location) :
    (t.addDirectory l).lookup p = t.lookup p ∨
      t.lookup p = none ∧ (t.addDirectory l).lookup p = some .directory ∧ p.length ≤ l.length := by
  unfold addDirectory
  generalize List.range (l.length + 1) = ks
  induction ks generalizing t with
  | nil => exact .inl rfl
  | cons k ks ih =>
    rw [List.foldl_cons]
    split
    · exact ih t
    · next hnone =>
      have hput : (t.put (l.take k) .directory).lookup p =
          if p = l.take k then some .directory else t.lookup p := by
        apply lookup_put
        intro hnil
        rw [hnil] at hnone
        exact hnone rfl
      rcases ih (t.put (l.take k) .directory) with hsame | ⟨hnew, hdir⟩
      · rw [hsame, hput]
        by_cases hp : p = l.take k
        · rw [if_pos hp, hp]
          exact .inr ⟨by simpa using hnone, rfl, List.length_take_le' k l⟩
        · exact .inl (if_neg hp)
      · rw [hput] at hnew
        split at hnew
        · cases hnew
        · exact .inr ⟨hnew, hdir⟩

end FileTree

/-! ## Folders -/

namespace Folder

variable {d : Folder} {l : Location} {name : String}

/-- The path of the folder leads to the directory. -/
structure HomeAt (d : Folder) (l : Location) : Prop where
  noNul : '\x00' ∉ d.root.toList
  walk : d.tree.walk (Path.start d.here d.root) (Path.parts d.root) = .ok l
  isDirectory : d.tree.isDirectory l = true

theorem location_flat (h : d.HomeAt l) (hname : Flat name) :
    Path.location d.here (Path.join d.root name) = l ++ [name] := by
  rw [Path.location, Path.join_eq hname.noSlash, Path.components_stem_append hname.noSlash,
    Path.isAbsolute_stem_append hname.noSlash, List.foldl_append]
  show List.foldl _ (List.foldl _ (Path.start d.here d.root) (Path.parts d.root)) [name] = _
  rw [FileTree.foldl_of_walk h.walk]
  simp [hname.nonempty, hname.notHere, hname.notParent]

theorem resolve_flat (h : d.HomeAt l) (hname : FlatIn d.root name) :
    d.tree.resolve d.here (Path.join d.root name) =
      if (d.tree.lookup (l ++ [name])).isNone then .error .fileNotFound else .ok (l ++ [name]) := by
  have hfits := hname.fits
  rw [Path.join_eq hname.noSlash, String.utf8ByteSize_append] at hfits
  rw [FileTree.resolve_join _ _ _ hname.toComponent, if_neg h.noNul, if_neg (Nat.not_lt.mpr hfits),
    FileTree.walk_append, h.walk]
  show d.tree.walk l [name] = _
  rw [FileTree.walk_cons, FileTree.enter_flat h.isDirectory hname.toFlat]
  split_ifs <;> rfl

/-- What is in the directory makes no difference to a path over the limit. -/
theorem resolve_long (h : d.HomeAt l) (hname : Flat name)
    (hlong : Path.pathLimit < (Path.join d.root name).utf8ByteSize) :
    d.tree.resolve d.here (Path.join d.root name) = .error .nameTooLong := by
  rw [Path.join_eq hname.noSlash, String.utf8ByteSize_append] at hlong
  rw [FileTree.resolve_join _ _ _ hname.toComponent, if_neg h.noNul, if_pos hlong]

theorem lookup_store (h : d.HomeAt l) (hname : Flat name) (bytes : List Byte) (p : Location) :
    (d.store name bytes).tree.lookup p =
      if p = l ++ [name] then some (.file bytes) else (d.tree.addDirectory l).lookup p := by
  rw [store, location_flat h hname, FileTree.writeFile, List.dropLast_concat]
  exact FileTree.lookup_put _ (List.concat_ne_nil name l) _ p

theorem homeAt_store (h : d.HomeAt l) (hname : Flat name)
    (hfree : d.tree.lookup (l ++ [name]) ≠ some .directory) (bytes : List Byte) :
    (d.store name bytes).HomeAt l := by
  have hdirs : ∀ p, d.tree.isDirectory p = true → (d.store name bytes).tree.isDirectory p = true := by
    intro p hp
    rw [FileTree.isDirectory_iff] at hp ⊢
    have hother : p ≠ l ++ [name] := by
      rintro rfl
      exact hfree hp
    rw [lookup_store h hname, if_neg hother]
    rcases d.tree.lookup_addDirectory l p with hsame | ⟨hnone, -⟩
    · rw [hsame, hp]
    · rw [hnone] at hp
      cases hp
  exact ⟨h.noNul, FileTree.walk_mono hdirs h.walk h.isDirectory, hdirs l h.isDirectory⟩

end Folder

/-- The folder holds the images of the shelf as files whose lengths are told, and no more under flat
names. -/
def Holds (s : Shelf) (d : Folder) : Prop :=
  ∃ l, d.HomeAt l ∧ ∀ name, Flat name →
    d.tree.lookup (l ++ [name]) = (s.images.lookup name).map .file ∧
      d.lengthFault? (l ++ [name]) = none

namespace Holds

variable {s : Shelf} {d : Folder} {name : String}

theorem setFile (h : Holds s d) (unread : List Byte) (file : Option OpenFile) :
    Holds { s with unread := unread } { d with file := file } := by
  obtain ⟨l, hhome, hfiles⟩ := h
  exact ⟨l, ⟨hhome.noNul, hhome.walk, hhome.isDirectory⟩, hfiles⟩

theorem find_of_present (h : Holds s d) (hname : FlatIn d.root name) {bytes : List Byte}
    (hbytes : s.images.lookup name = some bytes) :
    ∃ l, d.find name = .ok l ∧ d.tree.lookup l = some (.file bytes) := by
  obtain ⟨l, hhome, hfiles⟩ := h
  obtain ⟨hlookup, hlength⟩ := hfiles name hname.toFlat
  rw [hbytes, Option.map_some] at hlookup
  refine ⟨l ++ [name], ?_, hlookup⟩
  rw [Folder.find, Folder.resolve_flat hhome hname, hlookup]
  show (d.askLength (l ++ [name])).map _ = _
  rw [Folder.askLength, hlength]
  rfl

theorem find_of_absent (h : Holds s d) (hname : FlatIn d.root name)
    (hnone : s.images.lookup name = none) : d.find name = .error .fileNotFound := by
  obtain ⟨l, hhome, hfiles⟩ := h
  rw [Folder.find, Folder.resolve_flat hhome hname, (hfiles name hname.toFlat).1, hnone]
  rfl

theorem openFile_of_long (h : Holds s d) (hname : Flat name)
    (hlong : Path.pathLimit < (Path.join d.root name).utf8ByteSize) :
    d.openFile name = (.error .nameTooLong, d) := by
  obtain ⟨l, hhome, -⟩ := h
  rw [Folder.openFile_eq, Folder.find, Folder.resolve_long hhome hname hlong]
  rfl

theorem store (h : Holds s d) (hname : Flat name) (bytes : List Byte) :
    Holds (s.insert name bytes) (d.store name bytes) := by
  obtain ⟨l, hhome, hfiles⟩ := h
  have hfree : d.tree.lookup (l ++ [name]) ≠ some .directory := by
    rw [(hfiles name hname).1]
    cases s.images.lookup name <;> nofun
  refine ⟨l, Folder.homeAt_store hhome hname hfree bytes, fun x hx => ⟨?_, (hfiles x hx).2⟩⟩
  rw [Folder.lookup_store hhome hname, Shelf.lookup_insert]
  by_cases hsame : x = name
  · rw [if_pos (congrArg (fun x => l ++ [x]) hsame), if_pos hsame, Option.map_some]
  · rw [if_neg (by simpa using hsame), if_neg hsame, ← (hfiles x hx).1]
    -- the directories that may be new are not below the home directory
    rcases d.tree.lookup_addDirectory l (l ++ [x]) with hold | ⟨-, -, hlength⟩
    · exact hold
    · rw [List.length_append, List.length_singleton] at hlength
      omega

/-- A folder and a shelf that hold the same are given the same images. -/
theorem storeAll (h : Holds s d) {images : List (String × List Byte)}
    (himages : ∀ i ∈ images, Flat i.1) :
    Holds (images.foldl (fun s i => s.insert i.1 i.2) s)
      (images.foldl (fun d i => d.store i.1 i.2) d) := by
  induction images generalizing s d with
  | nil => exact h
  | cons i images ih =>
    obtain ⟨hi, hrest⟩ := List.forall_mem_cons.mp himages
    exact ih (h.store hi i.2) hrest

end Holds

/-! ## Roots of any length -/

namespace Path

/-- The current directory, in `2 * k` bytes. -/
def dots : Nat → String
  | 0 => ""
  | k + 1 => "./" ++ dots k

theorem utf8ByteSize_dots (k : Nat) : (dots k).utf8ByteSize = 2 * k := by
  induction k with
  | zero => rfl
  | succ k ih =>
    have htwo : "./".utf8ByteSize = 2 := rfl
    rw [dots, String.utf8ByteSize_append, ih, htwo]
    omega

theorem toList_dots_succ (k : Nat) : (dots (k + 1)).toList = ['.'] ++ '/' :: (dots k).toList := by
  rw [dots, String.toList_append]
  rfl

theorem nul_notMem_dots (k : Nat) : '\x00' ∉ (dots k).toList := by
  induction k with
  | zero => decide
  | succ k ih =>
    rw [toList_dots_succ]
    simpa using ih

theorem stem_dots (k : Nat) : stem (dots k) = dots k := by
  cases k with
  | zero => rfl
  | succ k =>
    have hlast : (dots (k + 1)).toList.getLast? = some '/' := by
      induction k with
      | zero => rfl
      | succ k ih =>
        rw [toList_dots_succ, List.getLast?_append, List.getLast?_cons, ih]
        rfl
    rw [stem, hlast]
    simp

theorem utf8ByteSize_join_dots (k : Nat) {name : String} (h : '/' ∉ name.toList) :
    (join (dots k) name).utf8ByteSize = 2 * k + name.utf8ByteSize := by
  rw [join_eq h, stem_dots, String.utf8ByteSize_append, utf8ByteSize_dots]

theorem components_dots (k : Nat) : components (dots k) = List.replicate k "." ++ [""] := by
  induction k with
  | zero => rfl
  | succ k ih =>
    rw [components, toList_dots_succ, splitSlashes_append_slash, List.map_append]
    show ["."] ++ components (dots k) = _
    rw [ih]
    rfl

theorem parts_dots (k : Nat) : parts (dots k) = List.replicate k "." := by
  rw [parts, stem_dots, components_dots, List.dropLast_concat]

theorem start_dots (here : Location) (k : Nat) : start here (dots k) = here := by
  rw [start, stem_dots]
  cases k with
  | zero => rfl
  | succ k =>
    rw [isAbsolute, toList_dots_succ]
    rfl

end Path

theorem FileTree.walk_replicate_dot {t : FileTree} {l : Location} (h : t.isDirectory l = true) (k : Nat) :
    t.walk l (List.replicate k ".") = .ok l := by
  induction k with
  | zero => rfl
  | succ k ih => rw [List.replicate_succ, walk_cons, enter_dot h, Except.bind, ih]

theorem holds_empty_dots (k : Nat) : Holds {} { tree := {}, root := Path.dots k } := by
  have hroot : FileTree.isDirectory {} [] = true := rfl
  refine ⟨[], ⟨Path.nul_notMem_dots k, ?_, hroot⟩, fun _ _ => ⟨rfl, rfl⟩⟩
  rw [Path.parts_dots, Path.start_dots, FileTree.walk_replicate_dot hroot]

end Tis80
