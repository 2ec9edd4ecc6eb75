import ValueClass.Proofs.Workspace.Tree

/-! # Making directories and writing files

Writing a file first makes the directories above it that are missing. Whether this succeeds or
fails half way, all that it can do is to put directories where nothing stood; and it succeeds
where no file is in the way.
-/

namespace ValueClass

theorem run_bind {ε σ α β : Type} (x : ExceptT ε (StateM σ) α) (f : α → ExceptT ε (StateM σ) β)
    (s : σ) :
    (x >>= f).run s = match x.run s with
      | (.ok a, s) => (f a).run s
      | (.error e, s) => (.error e, s) := by
  simp only [bind, ExceptT.bind, ExceptT.mk, ExceptT.run, StateT.bind]
  cases x s with
  | mk result s => cases result <;> rfl

namespace FileTree

open Package (stepInto resolve)

variable {tree before between after : FileTree} {p : Path} {place : List Text} {depth : Nat}
  {made more : List (List Text)}

/-- Directories were made where nothing stood, and only at the given places. -/
structure Extends (before after : FileTree) (made : List (List Text)) : Prop where
  /-- The current directory is the same. -/
  cwd : after.cwd = before.cwd
  /-- What stood at a place stands there still. -/
  node? : ∀ q, after.node? q = before.node? q ∨
    before.node? q = none ∧ after.node? q = some .directory ∧ q ∈ made

namespace Extends

theorem refl (tree : FileTree) (made : List (List Text)) : Extends tree tree made :=
  ⟨rfl, fun _ => .inl rfl⟩

theorem trans (first : Extends before between made) (second : Extends between after made) :
    Extends before after made := by
  refine ⟨second.cwd.trans first.cwd, fun q => ?_⟩
  rcases first.node? q with old | ⟨none, new, member⟩
  · rw [← old]
    exact second.node? q
  · rcases second.node? q with kept | ⟨lacking, -, -⟩
    · exact .inr ⟨none, kept.trans new, member⟩
    · rw [new] at lacking
      cases lacking

theorem mono (extended : Extends before after made) (part : made ⊆ more) :
    Extends before after more := by
  refine ⟨extended.cwd, fun q => (extended.node? q).imp_right ?_⟩
  rintro ⟨none, new, member⟩
  exact ⟨none, new, part member⟩

theorem keeps (extended : Extends before after made) {node : Node}
    (stands : before.node? place = some node) :
    after.node? place = some node := by
  rcases extended.node? place with same | ⟨none, -, -⟩
  · rw [same, stands]
  · rw [stands] at none
    cases none

theorem noFile (extended : Extends before after made)
    (free : ∀ bytes, before.node? place ≠ some (.file bytes)) :
    ∀ bytes, after.node? place ≠ some (.file bytes) := by
  intro bytes
  rcases extended.node? place with same | ⟨-, new, -⟩
  · rw [same]
    exact free bytes
  · rw [new]
    simp

end Extends

/-! ## One directory -/

theorem isDirectory_of_stat (found : tree.stat p = .ok .directory) :
    tree.isDirectory p = .ok true := by
  rw [isDirectory, test, found]
  rfl

theorem makeDirectory_eq_ok (ok : tree.makeDirectory p = .ok after) :
    tree.node? (resolve tree p) = none ∧ after = tree.insert (resolve tree p) .directory := by
  rw [makeDirectory] at ok
  split at ok
  · cases ok
  · rename_i place led
    obtain ⟨-, -, rfl⟩ := locate_eq_ok.mp led
    split at ok
    · cases ok
    · rename_i none
      exact ⟨none, (Except.ok.inj ok).symm⟩

theorem extends_insert (free : tree.node? place = none) :
    Extends tree (tree.insert place .directory) [place] := by
  refine ⟨rfl, fun q => ?_⟩
  by_cases here : q = place
  · subst here
    have below : q ≠ [] := by
      rintro rfl
      cases free
    exact .inr ⟨free, node?_insert_self below, List.mem_singleton_self q⟩
  · exact .inl (node?_insert_of_ne here)

theorem run_ensureOne (p : Path) (tree : FileTree) :
    (ensureOne p).run tree = match tree.makeDirectory p with
      | .ok made => (.ok (), made)
      | .error e => match tree.isDirectory p with
        | .ok true => (.ok (), tree)
        | .ok false => (.error e, tree)
        | .error other => (.error other, tree) := by
  change (match tree.makeDirectory p with
    | .ok made => set made
    | .error e => do if !(← tree.isDirectory p) then throw e : FileRun Unit).run tree = _
  cases tree.makeDirectory p with
  | ok made => rfl
  | error e =>
      cases tree.isDirectory p with
      | error other => rfl
      | ok directory => cases directory <;> rfl

theorem ensureOne_extends (p : Path) (tree : FileTree) :
    Extends tree ((ensureOne p).run tree).2 [resolve tree p] := by
  rw [run_ensureOne]
  cases ok : tree.makeDirectory p with
  | ok made =>
      obtain ⟨none, rfl⟩ := makeDirectory_eq_ok ok
      exact extends_insert none
  | error e =>
      dsimp only
      split <;> exact .refl _ _

/-- A directory can be made where the directories above stand and no file is in its place. -/
theorem ensureOne_ok (usable : p.Usable)
    (standing : ∀ q ∈ tree.above p, tree.node? q = some .directory)
    (free : ∀ bytes, tree.node? (resolve tree p) ≠ some (.file bytes)) :
    ((ensureOne p).run tree).1 = .ok () ∧ ∀ q ∈ tree.way p,
    ((ensureOne p).run tree).2.node? q = some .directory := by
  have led : tree.locate p = .ok (resolve tree p) := locate_eq_ok.mpr ⟨usable, standing, rfl⟩
  have last : ∀ {other : FileTree}, Extends tree other [resolve tree p] →
      other.node? (resolve tree p) = some .directory →
        ∀ q ∈ tree.way p, other.node? q = some .directory := by
    intro other extended here q member
    rcases List.mem_append.mp member with member | member
    · exact extended.keeps (standing q member)
    · rw [List.mem_singleton.mp member]
      exact here
  rw [run_ensureOne]
  cases stands : tree.node? (resolve tree p) with
  | none =>
      have below : resolve tree p ≠ [] := by
        intro root
        rw [root] at stands
        cases stands
      have ok : tree.makeDirectory p = .ok (tree.insert (resolve tree p) .directory) := by
        rw [makeDirectory, led]
        dsimp only
        rw [stands]
      rw [ok]
      exact ⟨rfl, last (extends_insert stands) (node?_insert_self below)⟩
  | some node =>
      cases node with
      | file bytes => exact absurd stands (free bytes)
      | directory =>
          have exist : tree.makeDirectory p = .error ⟨.alreadyExists, p⟩ := by
            rw [makeDirectory, led]
            dsimp only
            rw [stands]
          have there := isDirectory_of_stat (stat_eq_ok.mpr ⟨_, led, stands⟩)
          rw [exist, there]
          exact ⟨rfl, last (.refl _ _) stands⟩

/-! ## A directory and those above it -/

theorem run_ensureAll_succ (depth : Nat) (p : Path) (tree : FileTree) :
    (ensureAll (depth + 1) p).run tree = match tree.makeDirectory p with
      | .ok made => (.ok (), made)
      | .error e =>
        if e.fault == .noEntry && !p.parts.isEmpty then
          match (ensureAll depth p.parent).run tree with
          | (.ok (), between) => (ensureOne p).run between
          | (.error e, between) => (.error e, between)
        else (ensureOne p).run tree := by
  rw [run_ensureOne]
  change (match tree.makeDirectory p with
    | .ok made => set made
    | .error e => do
      if e.fault == .noEntry && !p.parts.isEmpty then
        ensureAll depth p.parent
        ensureOne p
      else if !(← tree.isDirectory p) then throw e : FileRun Unit).run tree = _
  cases ok : tree.makeDirectory p with
  | ok made => rfl
  | error e =>
      dsimp only
      split
      · rw [run_bind]
        cases (ensureAll depth p.parent).run tree with
        | mk result between => cases result <;> rfl
      · cases tree.isDirectory p with
        | error other => rfl
        | ok directory => cases directory <;> rfl

end FileTree

namespace Path

variable {p : Path}

theorem join_starts_concat (sep : Text) (front : List Text) (last : Text) :
    Text.join sep front <+: Text.join sep (front ++ [last]) := by
  induction front with
  | nil => exact List.nil_prefix
  | cons part rest ih =>
      cases rest with
      | nil => exact ⟨sep ++ last, by simp [Text.join]⟩
      | cons next more =>
          rw [Text.join, List.cons_append, List.cons_append, Text.join]
          exact (List.prefix_append_right_inj _).mpr ih

theorem text_parent (p : Path) : p.parent.text <+: p.text ∨ p.parent.text = "." := by
  by_cases bare : p.parent.root.isEmpty && p.parent.parts.isEmpty
  · right
    rw [text, if_pos bare]
  · left
    rcases List.eq_nil_or_concat p.parts with none | ⟨front, last, parts⟩
    · have same : p.parent = p := by
        rw [parent, none]
        cases p
        cases none
        rfl
      exact ⟨[], by rw [same, List.append_nil]⟩
    · rw [List.concat_eq_append] at parts
      have short : p.parent.parts = front := by rw [parent, parts, List.dropLast_concat]
      have full : ¬ (p.root.isEmpty && p.parts.isEmpty) := by simp [parts]
      rw [text, text, if_neg bare, if_neg full, short, parts]
      exact (List.prefix_append_right_inj _).mpr (join_starts_concat _ _ _)

theorem Usable.parent (usable : p.Usable) : p.parent.Usable := by
  have names : ∀ part ∈ p.parent.parts, FileTree.IsName part :=
    fun part member => usable.names part (List.dropLast_subset _ member)
  rcases text_parent p with ⟨tail, whole⟩ | dot
  · have unbroken := usable.whole
    have short := usable.short
    rw [← whole] at unbroken short
    rw [List.mem_append, not_or] at unbroken
    rw [Utf8.encode, List.flatMap_append, List.length_append] at short
    exact ⟨unbroken.1, Nat.le_trans (Nat.le_add_right _ _) short, names⟩
  · refine ⟨?_, ?_, names⟩ <;> rw [dot] <;> decide

end Path

namespace FileTree

open Package (stepInto resolve)

variable {tree before between after : FileTree} {p : Path} {place : List Text} {depth : Nat}

theorem above_subset_way (tree : FileTree) (p : Path) : tree.above p ⊆ tree.way p :=
  fun _ member => List.mem_append_left _ member

theorem parts_ne_nil_of_above (inside : place ∈ tree.above p) : p.parts ≠ [] := by
  intro none
  rw [above, none] at inside
  cases inside

theorem ensureOne_extends_way (same : before.cwd = tree.cwd) (p : Path) :
    Extends before ((ensureOne p).run before).2 (tree.way p) := by
  apply (ensureOne_extends p before).mono
  rw [resolve_congr same]
  exact fun q member => List.mem_append_right _ member

/-- Making directories, finished or not, puts directories along the way and does nothing else. -/
theorem ensureAll_extends (depth : Nat) (p : Path) (tree : FileTree) :
    Extends tree ((ensureAll depth p).run tree).2 (tree.way p) := by
  induction depth generalizing p tree with
  | zero => exact ensureOne_extends_way rfl p
  | succ depth ih =>
      have here : Extends tree ((ensureOne p).run tree).2 (tree.way p) :=
        ensureOne_extends_way rfl p
      rw [run_ensureAll_succ]
      cases ok : tree.makeDirectory p with
      | ok made =>
          rw [run_ensureOne, ok] at here
          exact here
      | error e =>
          dsimp only
          split
          · rename_i deeper
            have some : p.parts ≠ [] := by simpa using (Bool.and_eq_true_iff.mp deeper).2
            have first : Extends tree ((ensureAll depth p.parent).run tree).2 (tree.way p) := by
              apply (ih p.parent tree).mono
              rw [← above_eq_way some]
              exact above_subset_way tree p
            cases run : (ensureAll depth p.parent).run tree with
            | mk result between =>
                rw [run] at first
                cases result with
                | ok done => exact first.trans (ensureOne_extends_way first.cwd p)
                | error e => exact first
          · exact here

theorem run_ensureAll_of_standing (usable : p.Usable)
    (standing : ∀ q ∈ tree.above p, tree.node? q = some .directory) (depth : Nat) :
    (ensureAll depth p).run tree = (ensureOne p).run tree := by
  cases depth with
  | zero => rfl
  | succ depth =>
      rw [run_ensureAll_succ]
      cases ok : tree.makeDirectory p with
      | ok made => rw [run_ensureOne, ok]
      | error e =>
          have led : tree.locate p = .ok (resolve tree p) :=
            locate_eq_ok.mpr ⟨usable, standing, rfl⟩
          have fault : (e.fault == .noEntry) = false := by
            rw [makeDirectory, led] at ok
            dsimp only at ok
            split at ok <;> cases ok
            rfl
          dsimp only
          rw [fault]
          rfl

theorem run_ensureAll_of_gap (usable : p.Usable)
    (free : ∀ q ∈ tree.above p, ∀ bytes, tree.node? q ≠ some (.file bytes))
    (gap : ∃ q ∈ tree.above p, tree.node? q ≠ some .directory) :
    (ensureAll (depth + 1) p).run tree = match (ensureAll depth p.parent).run tree with
      | (.ok (), between) => (ensureOne p).run between
      | (.error e, between) => (.error e, between) := by
  have some : p.parts ≠ [] := by
    obtain ⟨q, inside, -⟩ := gap
    exact parts_ne_nil_of_above inside
  have led : tree.locate p = .error .noEntry := by
    rw [locate_of_usable usable]
    exact foldlM_enter_eq_noEntry usable.names free gap
  have missing : tree.makeDirectory p = .error ⟨.noEntry, p⟩ := by rw [makeDirectory, led]
  have deeper : ((FileFault.noEntry == .noEntry) && !p.parts.isEmpty) = true := by simpa using some
  rw [run_ensureAll_succ, missing]
  dsimp only
  rw [if_pos deeper]

/-- A directory can be made, with those above it, where no file is in the way. -/
theorem ensureAll_ok (usable : p.Usable) (fits : p.parts.length ≤ depth)
    (free : ∀ q ∈ tree.way p, ∀ bytes, tree.node? q ≠ some (.file bytes)) :
    ((ensureAll depth p).run tree).1 = .ok () ∧
      ∀ q ∈ tree.way p, ((ensureAll depth p).run tree).2.node? q = some .directory := by
  have target : resolve tree p ∈ tree.way p := List.mem_append_right _ (List.mem_singleton_self _)
  induction depth generalizing p with
  | zero =>
      have none : p.parts = [] := List.length_eq_zero_iff.mp (Nat.le_zero.mp fits)
      apply ensureOne_ok usable _ (free _ target)
      intro q inside
      exact absurd none (parts_ne_nil_of_above inside)
  | succ depth ih =>
      by_cases standing : ∀ q ∈ tree.above p, tree.node? q = some .directory
      · rw [run_ensureAll_of_standing usable standing]
        exact ensureOne_ok usable standing (free _ target)
      · have gap : ∃ q ∈ tree.above p, tree.node? q ≠ some .directory := by
          simpa only [not_forall, exists_prop] using standing
        have some : p.parts ≠ [] := by
          obtain ⟨q, inside, -⟩ := gap
          exact parts_ne_nil_of_above inside
        have parent := ih usable.parent (by simp [Path.parent]; omega)
          (fun q inside => free q (above_subset_way tree p (above_eq_way some ▸ inside)))
          (List.mem_append_right _ (List.mem_singleton_self _))
        have extended := ensureAll_extends depth p.parent tree
        rw [run_ensureAll_of_gap usable
          (fun q inside => free q (above_subset_way tree p inside)) gap]
        cases run : (ensureAll depth p.parent).run tree with
        | mk result between =>
            rw [run] at parent extended
            obtain ⟨rfl, standing⟩ := parent
            have above : ∀ q ∈ between.above p, between.node? q = Option.some .directory :=
              fun q inside => standing q
                (by rwa [above_congr extended.cwd, above_eq_way some] at inside)
            have last := ensureOne_ok usable above
              (by rw [resolve_congr extended.cwd]; exact extended.noFile (free _ target))
            rw [way_congr extended.cwd] at last
            exact last

/-! ## Writing a file -/

theorem run_writeText (p : Path) (content : Text) (tree : FileTree) :
    (writeText p content).run tree = match (ensureAll p.parent.parts.length p.parent).run tree with
      | (.ok (), between) => match between.write p (Utf8.encode content) with
        | .ok after => (.ok (), after)
        | .error e => (.error e, between)
      | (.error e, between) => (.error e, between) := by
  change (ensureAll p.parent.parts.length p.parent >>= fun _ => do
    set (← (← get).write p (Utf8.encode content)) : FileRun Unit).run tree = _
  rw [run_bind]
  cases (ensureAll p.parent.parts.length p.parent).run tree with
  | mk result between =>
      cases result with
      | error e => rfl
      | ok done =>
          cases done
          change (do set (← between.write p (Utf8.encode content)) : FileRun Unit).run between =
            match between.write p (Utf8.encode content) with
              | .ok after => (.ok (), after)
              | .error e => (.error e, between)
          cases between.write p (Utf8.encode content) <;> rfl

theorem write_eq_ok {bytes : List UInt8} (ok : tree.write p bytes = .ok after) :
    p.Usable ∧ (∀ q ∈ tree.above p, tree.node? q = some .directory) ∧
      tree.node? (resolve tree p) ≠ some .directory ∧
      after = tree.insert (resolve tree p) (.file bytes) := by
  rw [write] at ok
  split at ok
  · cases ok
  · rename_i place led
    obtain ⟨usable, standing, rfl⟩ := locate_eq_ok.mp led
    split at ok
    · cases ok
    · rename_i free
      exact ⟨usable, standing, free, (Except.ok.inj ok).symm⟩

/-- A file was written, after directories were made for it. -/
structure Wrote (before after : FileTree) (p : Path) (content : Text) : Prop where
  /-- The current directory is the same. -/
  cwd : after.cwd = before.cwd
  /-- The content stands where the path leads. -/
  stands : after.node? (resolve before p) = some (.file (Utf8.encode content))
  /-- And the path leads there. -/
  leads : after.locate p = .ok (resolve before p)
  /-- There was no directory. -/
  free : before.node? (resolve before p) ≠ some .directory
  /-- Elsewhere there is at most a new directory. -/
  elsewhere : ∀ q, q ≠ resolve before p → after.node? q = before.node? q ∨
    before.node? q = none ∧ after.node? q = some .directory ∧ q ∈ before.way p.parent

/-- Writing leaves a tree in which the file was written, or, when it fails, at most
    directories for it. -/
theorem writeText_cases (p : Path) (content : Text) (tree : FileTree) :
    (∃ after, (writeText p content).run tree = (.ok (), after) ∧ Wrote tree after p content) ∨
      ∃ e between, (writeText p content).run tree = (.error e, between) ∧
        Extends tree between (tree.way p.parent) := by
  have extended := ensureAll_extends p.parent.parts.length p.parent tree
  rw [run_writeText]
  cases run : (ensureAll p.parent.parts.length p.parent).run tree with
  | mk result between =>
      rw [run] at extended
      cases result with
      | error e => exact .inr ⟨e, between, rfl, extended⟩
      | ok done =>
          cases ok : between.write p (Utf8.encode content) with
          | error e => exact .inr ⟨e, between, by dsimp only; rw [ok], extended⟩
          | ok after =>
              refine .inl ⟨after, by dsimp only; rw [ok], ?_⟩
              obtain ⟨usable, standing, free, rfl⟩ := write_eq_ok ok
              have same : resolve between p = resolve tree p := resolve_congr extended.cwd p
              have below : resolve tree p ≠ [] := by
                intro root
                rw [same, root] at free
                exact free (node?_root between)
              rw [same] at free ⊢
              refine ⟨extended.cwd, node?_insert_self below, ?_, ?_, ?_⟩
              · refine locate_eq_ok.mpr ⟨usable, fun q inside => ?_, same.symm⟩
                have inside : q ∈ between.above p := inside
                have apart : q ≠ resolve tree p := by
                  rintro rfl
                  exact free (standing _ inside)
                rw [node?_insert_of_ne apart]
                exact standing q inside
              · intro directory
                exact free (extended.keeps directory)
              · intro q apart
                rw [node?_insert_of_ne apart]
                exact extended.node? q

end FileTree

end ValueClass
