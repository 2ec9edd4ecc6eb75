import ValueClass.Proofs.Workspace.Directories

/-! # Files laid one after the other

What a tree holds once some files were written to it in order: each of them, unless a later one
went to the same place, and elsewhere what was there before. Where nothing is in the way of any
of them, each can be written, and then nothing is in the way of the others.
-/

namespace ValueClass

namespace FileTree

open Package (stepInto resolve)

variable {tree before between after : FileTree} {p : Path} {place : List Text} {content : Text}
  {written : List (Path × Text)} {paths : List Path} {made : List (List Text)}

/-! ## What one file leaves alone -/

namespace Wrote

theorem keepsDirectory (wrote : Wrote before after p content)
    (stands : before.node? place = some .directory) :
    after.node? place = some .directory := by
  have apart : place ≠ resolve before p := by
    rintro rfl
    exact wrote.free stands
  rcases wrote.elsewhere place apart with same | ⟨-, made, -⟩
  · rw [same, stands]
  · exact made

end Wrote

/-! ## Several files -/

/-- Some files were written in order, and directories were made at some of the given places. -/
structure Laid (before after : FileTree) (written : List (Path × Text)) (made : List (List Text)) :
    Prop where
  /-- The current directory is the same. -/
  cwd : after.cwd = before.cwd
  /-- Directories stay. -/
  directories : ∀ q, before.node? q = some .directory → after.node? q = some .directory
  /-- The path of each file leads to its place. -/
  leads : ∀ f ∈ written, after.locate f.1 = .ok (resolve before f.1)
  /-- The content of a file stands there, unless another file had that place too. -/
  holds : ∀ f ∈ written, (∀ g ∈ written, resolve before g.1 = resolve before f.1 → g.2 = f.2) →
    after.node? (resolve before f.1) = some (.file (Utf8.encode f.2))
  /-- Elsewhere there are at most new directories. -/
  elsewhere : ∀ q, (∀ f ∈ written, q ≠ resolve before f.1) → after.node? q = before.node? q ∨
    before.node? q = none ∧ after.node? q = some .directory ∧ q ∈ made

namespace Laid

theorem of_extends (extended : Extends before after made) : Laid before after [] made where
  cwd := extended.cwd
  directories _ stands := extended.keeps stands
  leads _ member := absurd member List.not_mem_nil
  holds _ member := absurd member List.not_mem_nil
  elsewhere q _ := extended.node? q

/-- One file in front of others. -/
theorem cons (wrote : Wrote before between p content) (laid : Laid between after written made)
    (along : before.way p.parent ⊆ made) : Laid before after ((p, content) :: written) made := by
  have same (q : Path) : resolve between q = resolve before q := resolve_congr wrote.cwd q
  have later : ∀ q, (∀ f ∈ (p, content) :: written, q ≠ resolve before f.1) →
      ∀ f ∈ written, q ≠ resolve between f.1 := by
    intro q apart f member
    rw [same]
    exact apart f (List.mem_cons_of_mem _ member)
  have first : after.locate p = .ok (resolve before p) := by
    obtain ⟨usable, standing, -⟩ := locate_eq_ok.mp wrote.leads
    apply locate_eq_ok.mpr ⟨usable, _, ((resolve_congr laid.cwd p).trans (same p)).symm⟩
    intro q inside
    rw [above_congr laid.cwd] at inside
    exact laid.directories q (standing q inside)
  refine ⟨laid.cwd.trans wrote.cwd, fun q stands =>
    laid.directories q (wrote.keepsDirectory stands), ?_, ?_, ?_⟩
  · intro f member
    rcases List.mem_cons.mp member with rfl | member
    · exact first
    · rw [← same]
      exact laid.leads f member
  · intro f member alone
    by_cases again : ∃ g ∈ written, resolve before g.1 = resolve before f.1
    · -- A later file of the same content stands in the place.
      obtain ⟨g, inside, together⟩ := again
      have content := alone g (List.mem_cons_of_mem _ inside) together
      rw [← together, ← content, ← same]
      apply laid.holds g inside
      intro other member between
      rw [same, same, together] at between
      rw [alone other (List.mem_cons_of_mem _ member) between, content]
    · have apart : ∀ g ∈ written, resolve before f.1 ≠ resolve between g.1 := by
        intro g inside together
        rw [same] at together
        exact again ⟨g, inside, together.symm⟩
      rcases List.mem_cons.mp member with rfl | member
      · rcases laid.elsewhere _ apart with kept | ⟨none, -, -⟩
        · rw [kept]
          exact wrote.stands
        · rw [wrote.stands] at none
          cases none
      · exact absurd ⟨f, member, rfl⟩ again
  · intro q apart
    have here := wrote.elsewhere q (apart _ List.mem_cons_self)
    rcases laid.elsewhere q (later q apart) with kept | ⟨none, new, member⟩
    · rw [kept]
      exact here.imp_right fun ⟨vacant, new, member⟩ => ⟨vacant, new, along member⟩
    · rcases here with old | ⟨-, stands, -⟩
      · exact .inr ⟨old ▸ none, new, member⟩
      · rw [stands] at none
        cases none

theorem extend (laid : Laid before between written made) (extended : Extends between after made) :
    Laid before after written made := by
  refine ⟨extended.cwd.trans laid.cwd, fun q stands => extended.keeps (laid.directories q stands),
    ?_, ?_, ?_⟩
  · intro f member
    obtain ⟨usable, standing, same⟩ := locate_eq_ok.mp (laid.leads f member)
    apply locate_eq_ok.mpr ⟨usable, _, same.trans (resolve_congr extended.cwd f.1).symm⟩
    intro q inside
    rw [above_congr extended.cwd] at inside
    exact extended.keeps (standing q inside)
  · exact fun f member alone => extended.keeps (laid.holds f member alone)
  · intro q apart
    rcases extended.node? q with same | ⟨none, new, member⟩
    · rw [same]
      exact laid.elsewhere q apart
    · rcases laid.elsewhere q apart with kept | ⟨-, stands, -⟩
      · exact .inr ⟨kept ▸ none, new, member⟩
      · rw [stands] at none
        cases none

theorem read (laid : Laid before after written made) {f : Path × Text} (member : f ∈ written)
    (alone : ∀ g ∈ written, resolve before g.1 = resolve before f.1 → g.2 = f.2) :
    after.read f.1 = .ok (Utf8.encode f.2) :=
  read_eq_ok.mpr (stat_eq_ok.mpr ⟨_, laid.leads f member, laid.holds f member alone⟩)

end Laid

/-! ## Whether they can be written -/

/-- Nothing is in the way of writing files to some paths, with the directories above them. -/
structure Takes (tree : FileTree) (paths : List Path) : Prop where
  /-- The paths can be looked up. -/
  usable : ∀ p ∈ paths, p.Usable
  /-- Where a directory must be, there is one or nothing. -/
  clear : ∀ p ∈ paths, ∀ q ∈ tree.way p.parent, tree.node? q = none ∨ tree.node? q = some .directory
  /-- No directory stands where a file must be. -/
  free : ∀ p ∈ paths, tree.node? (resolve tree p) ≠ some .directory
  /-- No place must be both. -/
  apart : ∀ p ∈ paths, ∀ other ∈ paths, resolve tree p ∉ tree.way other.parent

instance (tree : FileTree) (paths : List Path) : Decidable (tree.Takes paths) :=
  decidable_of_iff ((∀ p ∈ paths, p.Usable) ∧
    (∀ p ∈ paths, ∀ q ∈ tree.way p.parent, tree.node? q = none ∨ tree.node? q = some .directory) ∧
    (∀ p ∈ paths, tree.node? (resolve tree p) ≠ some .directory) ∧
    ∀ p ∈ paths, ∀ other ∈ paths, resolve tree p ∉ tree.way other.parent)
    ⟨fun ⟨usable, clear, free, apart⟩ => ⟨usable, clear, free, apart⟩,
      fun takes => ⟨takes.usable, takes.clear, takes.free, takes.apart⟩⟩

namespace Takes

theorem mono {more : List Path} (takes : tree.Takes more) (part : paths ⊆ more) :
    tree.Takes paths where
  usable p member := takes.usable p (part member)
  clear p member := takes.clear p (part member)
  free p member := takes.free p (part member)
  apart p member other inside := takes.apart p (part member) other (part inside)

/-- Once one of the files is written, nothing is in the way of any. -/
theorem wrote (takes : tree.Takes paths) (member : p ∈ paths) (wrote : Wrote tree after p content) :
    after.Takes paths := by
  have place (q : Path) : resolve after q = resolve tree q := resolve_congr wrote.cwd q
  have way (q : Path) : after.way q = tree.way q := way_congr wrote.cwd q
  refine ⟨takes.usable, ?_, ?_, ?_⟩
  · intro other inside q along
    rw [way] at along
    have apart : q ≠ resolve tree p := by
      rintro rfl
      exact takes.apart p member other inside along
    rcases wrote.elsewhere q apart with same | ⟨-, new, -⟩
    · rw [same]
      exact takes.clear other inside q along
    · exact .inr new
  · intro other inside
    rw [place]
    by_cases same : resolve tree other = resolve tree p
    · rw [same, wrote.stands]
      simp
    · rcases wrote.elsewhere _ same with same | ⟨-, -, along⟩
      · rw [same]
        exact takes.free other inside
      · exact absurd along (takes.apart other inside p member)
  · intro one inside other within
    rw [place, way]
    exact takes.apart one inside other within

/-- A file that nothing is in the way of is written. -/
theorem writes (takes : tree.Takes paths) (member : p ∈ paths) (content : Text) :
    ∃ after, (writeText p content).run tree = (.ok (), after) ∧ Wrote tree after p content := by
  have usable := takes.usable p member
  rcases writeText_cases p content tree with written | ⟨e, after, failed, -⟩
  · exact written
  · exfalso
    have noFile : ∀ q ∈ tree.way p.parent, ∀ bytes, tree.node? q ≠ some (.file bytes) := by
      intro q along bytes
      rcases takes.clear p member q along with none | directory <;> simp [*]
    obtain ⟨done, standing⟩ := ensureAll_ok usable.parent (Nat.le_refl _) noFile
    have extended := ensureAll_extends p.parent.parts.length p.parent tree
    rw [run_writeText] at failed
    cases run : (ensureAll p.parent.parts.length p.parent).run tree with
    | mk result between =>
        rw [run] at done standing extended failed
        cases done
        have led : between.locate p = .ok (resolve tree p) := by
          apply locate_eq_ok.mpr ⟨usable, _, (resolve_congr extended.cwd p).symm⟩
          intro q inside
          apply standing q
          rwa [above_congr extended.cwd, above_eq_way (parts_ne_nil_of_above inside)] at inside
        have free : between.node? (resolve tree p) ≠ some .directory := by
          rcases extended.node? (resolve tree p) with same | ⟨-, -, along⟩
          · rw [same]
            exact takes.free p member
          · exact absurd along (takes.apart p member p member)
        have ok : between.write p (Utf8.encode content) =
            .ok (between.insert (resolve tree p) (.file (Utf8.encode content))) := by
          rw [write, led]
          dsimp only
          split
          · rename_i directory
            exact absurd directory free
          · rfl
        dsimp only at failed
        rw [ok] at failed
        cases failed

end Takes

end FileTree

end ValueClass
