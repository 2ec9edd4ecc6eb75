import Mathlib.Data.List.Basic
import Mathlib.Tactic.Common
import ValueClass.Workspace.Load

/-! # Places in a tree

Where a path leads does not depend on what stands in the tree, only whether it leads there: all
places that its components are looked up in must be directories. Putting something at a place
changes what stands at that place and nowhere else.
-/

namespace ValueClass

namespace FileTree

open Package (stepInto resolve)

variable {tree : FileTree} {place q : List Text} {node : Node}

/-! ## What stands at a place -/

theorem lookup_put_self (nodes : List (List Text × Node)) :
    (put place node nodes).lookup place = some node := by
  induction nodes with
  | nil => simp [put]
  | cons entry rest ih =>
      obtain ⟨other, old⟩ := entry
      rw [put]
      split
      · simp
      · rename_i apart
        have unlike : (place == other) = false :=
          beq_eq_false_iff_ne.mpr fun same => apart (beq_iff_eq.mpr same.symm)
        rw [List.lookup_cons, unlike, ih]

theorem lookup_put_of_ne (apart : q ≠ place) (nodes : List (List Text × Node)) :
    (put place node nodes).lookup q = nodes.lookup q := by
  have unlike : (q == place) = false := by simpa using apart
  induction nodes with
  | nil => simp [put, List.lookup_cons, unlike]
  | cons entry rest ih =>
      obtain ⟨other, old⟩ := entry
      rw [put]
      split
      · rename_i same
        rw [List.lookup_cons, List.lookup_cons, unlike, eq_of_beq same, unlike]
      · rw [List.lookup_cons, List.lookup_cons, ih]

@[simp] theorem cwd_insert : (tree.insert place node).cwd = tree.cwd := rfl

theorem node?_root (tree : FileTree) : tree.node? [] = some .directory := rfl

theorem node?_insert_self (below : place ≠ []) :
    (tree.insert place node).node? place = some node := by
  rw [node?, if_neg (by simpa using below)]
  exact lookup_put_self tree.nodes

theorem node?_insert_of_ne (apart : q ≠ place) :
    (tree.insert place node).node? q = tree.node? q := by
  rw [node?, node?, insert, lookup_put_of_ne apart]

/-! ## Where a path leads -/

def start (tree : FileTree) (p : Path) : List Text :=
  if p.isAbsolute then [] else tree.cwd

/-- The places that some components are looked up in, one after the other. -/
def lookedUpIn (place : List Text) : List Text → List (List Text)
  | [] => []
  | part :: rest => place :: lookedUpIn (stepInto place part) rest

/-- The places that the components of a path are looked up in. -/
def above (tree : FileTree) (p : Path) : List (List Text) :=
  lookedUpIn (tree.start p) p.parts

/-- All places along a path: those that its components are looked up in, and the one it leads to. -/
def way (tree : FileTree) (p : Path) : List (List Text) :=
  tree.above p ++ [resolve tree p]

theorem resolve_eq (tree : FileTree) (p : Path) :
    resolve tree p = p.parts.foldl stepInto (tree.start p) := rfl

variable {other : FileTree} {p : Path}

theorem start_congr (same : other.cwd = tree.cwd) (p : Path) : other.start p = tree.start p := by
  rw [start, start, same]

theorem resolve_congr (same : other.cwd = tree.cwd) (p : Path) :
    resolve other p = resolve tree p := by
  rw [resolve_eq, resolve_eq, start_congr same]

theorem above_congr (same : other.cwd = tree.cwd) (p : Path) : other.above p = tree.above p := by
  rw [above, above, start_congr same]

theorem way_congr (same : other.cwd = tree.cwd) (p : Path) : other.way p = tree.way p := by
  rw [way, way, above_congr same, resolve_congr same]

theorem lookedUpIn_concat (place : List Text) (parts : List Text) (last : Text) :
    lookedUpIn place (parts ++ [last]) = lookedUpIn place parts ++
      [parts.foldl stepInto place] := by
  induction parts generalizing place with
  | nil => rfl
  | cons part rest ih => exact congrArg (place :: ·) (ih _)

theorem above_eq_way (some : p.parts ≠ []) : tree.above p = tree.way p.parent := by
  obtain ⟨front, last, parts⟩ := List.eq_nil_or_concat p.parts |>.resolve_left some
  rw [List.concat_eq_append] at parts
  have same : tree.start p.parent = tree.start p := rfl
  have short : p.parent.parts = front := by rw [Path.parent, parts, List.dropLast_concat]
  rw [above, way, above, resolve_eq, same, short, parts, lookedUpIn_concat]

/-! ## Whether it leads there -/

/-- A name that an entry can have, or the way up. -/
def IsName (part : Text) : Prop :=
  part = ".." ∨ (Utf8.encode part).length ≤ maxNameBytes

instance (part : Text) : Decidable (IsName part) :=
  inferInstanceAs (Decidable (_ ∨ _))

theorem enter_directory {part : Text} (here : tree.node? place = some .directory)
    (name : IsName part) :
    tree.enter place part = .ok (stepInto place part) := by
  rw [enter, here, stepInto]
  dsimp only
  split
  · rfl
  · rename_i down
    rw [if_neg (Nat.not_lt.mpr (name.resolve_left down))]

theorem enter_eq_ok {part : Text} {next : List Text} (entered : tree.enter place part = .ok next) :
    tree.node? place = some .directory ∧ IsName part ∧ next = stepInto place part := by
  rw [enter] at entered
  split at entered
  · cases entered
  · cases entered
  · rename_i here
    rw [stepInto]
    split at entered
    · rename_i up
      cases entered
      exact ⟨here, .inl up, by rw [if_pos up]⟩
    · rename_i down
      split at entered
      · cases entered
      · rename_i short
        cases entered
        exact ⟨here, .inr (Nat.not_lt.mp short), by rw [if_neg down]⟩

theorem foldlM_enter_eq_ok {parts : List Text} {last : List Text} :
    parts.foldlM tree.enter place = .ok last ↔
      (∀ q ∈ lookedUpIn place parts, tree.node? q = some .directory) ∧
        (∀ part ∈ parts, IsName part) ∧
        last = parts.foldl stepInto place := by
  induction parts generalizing place with
  | nil =>
      simp only [List.foldlM_nil, lookedUpIn, List.foldl_nil, List.not_mem_nil, false_implies,
        implies_true, true_and]
      exact ⟨fun same => (Except.ok.inj same).symm, fun same => congrArg Except.ok same.symm⟩
  | cons part rest ih =>
      rw [List.foldlM_cons, lookedUpIn, List.forall_mem_cons, List.forall_mem_cons, List.foldl_cons]
      constructor
      · intro led
        cases entered : tree.enter place part with
        | error fault =>
            rw [entered] at led
            cases led
        | ok next =>
            rw [entered] at led
            obtain ⟨here, name, rfl⟩ := enter_eq_ok entered
            obtain ⟨directories, names, same⟩ := ih.mp led
            exact ⟨⟨here, directories⟩, ⟨name, names⟩, same⟩
      · rintro ⟨⟨here, directories⟩, ⟨name, names⟩, same⟩
        rw [enter_directory here name]
        exact ih.mpr ⟨directories, names, same⟩

/-- Where nothing stands at one of the places, and no file at the others, there is no entry. -/
theorem foldlM_enter_eq_noEntry {parts : List Text} (names : ∀ part ∈ parts, IsName part)
    (free : ∀ q ∈ lookedUpIn place parts, ∀ bytes, tree.node? q ≠ some (.file bytes))
    (gap : ∃ q ∈ lookedUpIn place parts, tree.node? q ≠ some .directory) :
    parts.foldlM tree.enter place = .error .noEntry := by
  induction parts generalizing place with
  | nil => simp [lookedUpIn] at gap
  | cons part rest ih =>
      rw [lookedUpIn] at free gap
      obtain ⟨here, others⟩ := List.forall_mem_cons.mp free
      rw [List.foldlM_cons]
      cases stands : tree.node? place with
      | none =>
          rw [enter, stands]
          rfl
      | some node =>
          cases node with
          | file bytes => exact absurd stands (here bytes)
          | directory =>
              rw [enter_directory stands (names part List.mem_cons_self)]
              apply ih (fun part member => names part (List.mem_cons_of_mem _ member)) others
              obtain ⟨q, member, lacks⟩ := gap
              rcases List.mem_cons.mp member with rfl | member
              · exact absurd stands lacks
              · exact ⟨q, member, lacks⟩

end FileTree

structure Path.Usable (p : Path) : Prop where
  /-- No zero ends it early. -/
  whole : Char.ofNat 0 ∉ p.text
  /-- It is not too long. -/
  short : (Utf8.encode p.text).length ≤ FileTree.maxPathBytes
  /-- Nor is one of its components. -/
  names : ∀ part ∈ p.parts, FileTree.IsName part

instance (p : Path) : Decidable p.Usable :=
  decidable_of_iff (Char.ofNat 0 ∉ p.text ∧ (Utf8.encode p.text).length ≤ FileTree.maxPathBytes ∧
    ∀ part ∈ p.parts, FileTree.IsName part)
    ⟨fun ⟨whole, short, names⟩ => ⟨whole, short, names⟩,
      fun usable => ⟨usable.whole, usable.short, usable.names⟩⟩

namespace FileTree

open Package (stepInto resolve)

variable {tree : FileTree} {p : Path} {place : List Text}

theorem locate_of_usable (usable : p.Usable) :
    tree.locate p = p.parts.foldlM tree.enter (tree.start p) := by
  rw [locate, if_neg (by simpa using usable.whole), if_neg (Nat.not_lt.mpr usable.short)]
  rfl

theorem locate_eq_ok :
    tree.locate p = .ok place ↔
      p.Usable ∧ (∀ q ∈ tree.above p, tree.node? q = some .directory) ∧ place = resolve tree p := by
  constructor
  · intro led
    rw [locate] at led
    split at led
    · cases led
    · rename_i whole
      split at led
      · cases led
      · rename_i short
        obtain ⟨directories, names, same⟩ := foldlM_enter_eq_ok.mp led
        exact ⟨⟨by simpa using whole, Nat.not_lt.mp short, names⟩, directories, same⟩
  · rintro ⟨usable, directories, same⟩
    rw [locate_of_usable usable]
    exact foldlM_enter_eq_ok.mpr ⟨directories, usable.names, same⟩

theorem foldlM_enter_ne_nameTooLong {parts : List Text} (names : ∀ part ∈ parts, IsName part) :
    parts.foldlM tree.enter place ≠ .error .nameTooLong := by
  induction parts generalizing place with
  | nil => exact fun led => (nomatch led)
  | cons part rest ih =>
      rw [List.foldlM_cons]
      cases stands : tree.node? place with
      | none =>
          rw [enter, stands]
          exact fun led => (nomatch led)
      | some node =>
          cases node with
          | file bytes =>
              rw [enter, stands]
              exact fun led => (nomatch led)
          | directory =>
              rw [enter_directory stands (names part List.mem_cons_self)]
              exact ih fun part member => names part (List.mem_cons_of_mem _ member)

theorem stat_eq (tree : FileTree) (p : Path) :
    tree.stat p = tree.locate p >>= fun place => (tree.node? place).elim (.error .noEntry) .ok := by
  rw [stat]
  refine bind_congr fun place => ?_
  cases tree.node? place <;> rfl

theorem stat_ne_nameTooLong (usable : p.Usable) : tree.stat p ≠ .error .nameTooLong := by
  have leads : p.parts.foldlM tree.enter (tree.start p) ≠ .error .nameTooLong :=
    foldlM_enter_ne_nameTooLong usable.names
  rw [stat_eq, locate_of_usable usable]
  cases led : p.parts.foldlM tree.enter (tree.start p) with
  | error fault =>
      rw [led] at leads
      rintro ⟨⟩
      exact leads rfl
  | ok place =>
      change (tree.node? place).elim _ _ ≠ _
      cases tree.node? place <;> simp

theorem stat_eq_ok {node : Node} :
    tree.stat p = .ok node ↔ ∃ place, tree.locate p = .ok place ∧ tree.node? place = some node := by
  rw [stat_eq]
  cases tree.locate p with
  | error fault =>
      constructor
      · rintro ⟨⟩
      · rintro ⟨_, ⟨⟩, _⟩
  | ok place =>
      change (tree.node? place).elim _ _ = _ ↔ _
      cases stands : tree.node? place with
      | none =>
          constructor
          · rintro ⟨⟩
          · rintro ⟨_, ⟨⟩, found⟩
            rw [stands] at found
            cases found
      | some other =>
          constructor
          · rintro ⟨⟩
            exact ⟨place, rfl, stands⟩
          · rintro ⟨_, ⟨⟩, found⟩
            rw [stands] at found
            exact congrArg Except.ok (Option.some.inj found)

def has (tree : FileTree) (p : Path) : Bool :=
  (tree.stat p).isOk

theorem has_eq_of_contains {found : Bool} (ok : tree.contains p = .ok found) :
    found = tree.has p := by
  rw [contains, test] at ok
  rw [has]
  split at ok
  · rename_i stands
    cases ok
    rw [stands]
    rfl
  · cases ok
  · rename_i fault _ failed
    cases ok
    rw [failed]
    rfl

theorem contains_of_usable (usable : p.Usable) : tree.contains p = .ok (tree.has p) := by
  rw [contains, test, has]
  split
  · rename_i stands
    rw [stands]
    rfl
  · rename_i tooLong
    exact absurd tooLong (stat_ne_nameTooLong usable)
  · rename_i fault _ failed
    rw [failed]
    rfl

theorem read_eq_ok {bytes : List UInt8} :
    tree.read p = .ok bytes ↔ tree.stat p = .ok (.file bytes) := by
  rw [read]
  cases tree.stat p with
  | error fault => exact ⟨fun h => (nomatch h), fun h => (nomatch h)⟩
  | ok node => cases node <;> simp

end FileTree

end ValueClass
