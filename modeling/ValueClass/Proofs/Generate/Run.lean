import ValueClass.Generate
import ValueClass.Proofs.Edit.Plan
import ValueClass.Proofs.Member.Pending

/-! # Runs over a buffer

What a successful run goes through: it writes the members of the valid classes,
the user reviews the replacements, and the edits are planned from what is left.
Writing and reviewing touch only what is pending for a class.
-/

namespace ValueClass

/-- What a run gives from an interview, and the interview it leaves. -/
def Run.result {α : Type} (x : Run α) (before : Interview) : Except GenerateError α × Interview :=
  x.run.run before

/-- A run returns a value and leaves the interview as it then is. -/
def Run.Returns {α : Type} (x : Run α) (before : Interview) (a : α) (after : Interview) : Prop :=
  x.result before = (.ok a, after)

namespace Run

variable {α β : Type} {before after : Interview}

theorem result_pure (a : α) : (pure a : Run α).result before = (.ok a, before) := rfl

theorem result_throw (e : GenerateError) :
    (throw e : Run α).result before = (.error e, before) := rfl

theorem result_bind (x : Run α) (f : α → Run β) :
    (x >>= f).result before = match x.result before with
      | (.ok a, between) => (f a).result between
      | (.error e, between) => (.error e, between) := by
  simp only [result, bind, ExceptT.bind, ExceptT.mk, ExceptT.run, StateT.run, StateT.bind]
  cases x before with
  | mk result between => cases result <;> rfl

theorem result_tryCatch (x : Run α) (handle : GenerateError → Run α) :
    (tryCatch x handle).result before = match x.result before with
      | (.ok a, between) => (.ok a, between)
      | (.error e, between) => (handle e).result between := by
  simp only [result, tryCatch, tryCatchThe, MonadExceptOf.tryCatch, ExceptT.tryCatch, ExceptT.mk,
    bind, ExceptT.run, StateT.run, StateT.bind]
  cases x before with
  | mk result between => cases result <;> rfl

theorem returns_pure {a b : α} :
    (pure a : Run α).Returns before b after ↔ a = b ∧ before = after := by
  rw [Returns, result_pure, Prod.mk.injEq, Except.ok.injEq]

theorem returns_bind {x : Run α} {f : α → Run β} {b : β} :
    (x >>= f).Returns before b after ↔
      ∃ a between, x.Returns before a between ∧ (f a).Returns between b after := by
  simp only [Returns, result_bind]
  cases step : x.result before with
  | mk result between => cases result <;> simp

theorem returns_throw {e : GenerateError} {a : α} :
    ¬ (throw e : Run α).Returns before a after := by
  rw [Returns, result_throw]
  simp

theorem returns_lift {x : Except GenerateError α} {a : α} :
    (liftM x : Run α).Returns before a after ↔ x = .ok a ∧ before = after := by
  have run : (liftM x : Run α).result before = (x, before) := by cases x <;> rfl
  rw [Returns, run, Prod.mk.injEq]

theorem exists_returns {x : Run α} (h : (x.result before).1.isOk) :
    ∃ a after, x.Returns before a after := by
  simp only [Returns]
  cases step : x.result before with
  | mk result between =>
      cases result with
      | ok a => exact ⟨a, between, rfl⟩
      | error e => simp [step, Except.isOk, Except.toBool] at h

theorem returns_confirm_of_silent {question : Text} (silent : before.script = none) :
    (Run.confirm question).Returns before true before := by
  have asked : Interview.ask question before = (.accept, before) := by simp [Interview.ask, silent]
  simp only [Returns, Run.confirm, result_bind]
  have run : (liftM (Interview.ask question : StateM Interview Reply) : Run Reply).result before =
      (.ok .accept, before) := by
    show ((Except.ok <$> Interview.ask question : StateM Interview _) before) = _
    simp only [Functor.map, StateT.map, asked]
    rfl
  rw [run]
  rfl

end Run

namespace Dart

/-! ## Reviewing -/

/-- A draft after its review: some of its replacements are left. -/
def Draft.IsReviewOf (reviewed d : Draft) : Prop :=
  reviewed = { d with replacements := reviewed.replacements } ∧
    reviewed.replacements.Sublist d.replacements

section Review

variable {before after : Interview}

theorem reviewEach_sublist {className : Text} {replacements kept : List Replacement}
    (h : (reviewEach className replacements).Returns before kept after) :
    kept.Sublist replacements := by
  induction replacements generalizing before kept after with
  | nil =>
      obtain ⟨rfl, -⟩ := Run.returns_pure.mp h
      exact List.Sublist.refl _
  | cons r rest ih =>
      obtain ⟨accepted, between, -, h⟩ := Run.returns_bind.mp h
      obtain ⟨others, last, reviewed, h⟩ := Run.returns_bind.mp h
      obtain ⟨rfl, -⟩ := Run.returns_pure.mp h
      cases accepted with
      | true => exact (ih reviewed).cons_cons r
      | false => exact (ih reviewed).cons r

theorem reviewDraft_isReviewOf {each : Bool} {d reviewed : Draft}
    (h : (reviewDraft each d).Returns before reviewed after) : reviewed.IsReviewOf d := by
  rw [reviewDraft] at h
  split at h
  · obtain ⟨rfl, -⟩ := Run.returns_pure.mp h
    exact ⟨rfl, List.Sublist.refl _⟩
  · cases each with
    | true =>
        obtain ⟨kept, between, asked, h⟩ := Run.returns_bind.mp h
        obtain ⟨rfl, -⟩ := Run.returns_pure.mp h
        exact ⟨rfl, reviewEach_sublist asked⟩
    | false =>
        obtain ⟨accepted, between, -, h⟩ := Run.returns_bind.mp h
        cases accepted with
        | true =>
            obtain ⟨rfl, -⟩ := Run.returns_pure.mp h
            exact ⟨rfl, List.Sublist.refl _⟩
        | false =>
            obtain ⟨rfl, -⟩ := Run.returns_pure.mp h
            exact ⟨rfl, List.nil_sublist _⟩

theorem review_isReviewOf {each : Bool} {drafts reviewed : List Draft}
    (h : (review each drafts).Returns before reviewed after) :
    List.Forall₂ Draft.IsReviewOf reviewed drafts := by
  induction drafts generalizing before reviewed after with
  | nil =>
      obtain ⟨rfl, -⟩ := Run.returns_pure.mp h
      exact .nil
  | cons d rest ih =>
      obtain ⟨first, between, one, h⟩ := Run.returns_bind.mp h
      obtain ⟨others, last, more, h⟩ := Run.returns_bind.mp h
      obtain ⟨rfl, -⟩ := Run.returns_pure.mp h
      exact .cons (reviewDraft_isReviewOf one) (ih more)

theorem reviewEach_of_silent (silent : before.script = none) (className : Text)
    (replacements : List Replacement) :
    (reviewEach className replacements).Returns before replacements before := by
  induction replacements with
  | nil => exact Run.returns_pure.mpr ⟨rfl, rfl⟩
  | cons r rest ih =>
      refine Run.returns_bind.mpr ⟨true, before, Run.returns_confirm_of_silent silent, ?_⟩
      exact Run.returns_bind.mpr ⟨rest, before, ih, Run.returns_pure.mpr ⟨rfl, rfl⟩⟩

theorem review_of_silent (silent : before.script = none) (each : Bool) (drafts : List Draft) :
    (review each drafts).Returns before drafts before := by
  have one : ∀ d, (reviewDraft each d).Returns before d before := by
    intro d
    rw [reviewDraft]
    split
    · exact Run.returns_pure.mpr ⟨rfl, rfl⟩
    · cases each with
      | true => exact Run.returns_bind.mpr ⟨_, before, reviewEach_of_silent silent _ _,
          Run.returns_pure.mpr ⟨rfl, rfl⟩⟩
      | false =>
          exact Run.returns_bind.mpr ⟨true, before, Run.returns_confirm_of_silent silent,
            Run.returns_pure.mpr ⟨rfl, rfl⟩⟩
  induction drafts with
  | nil => exact Run.returns_pure.mpr ⟨rfl, rfl⟩
  | cons d rest ih =>
      refine Run.returns_bind.mpr ⟨d, before, one d, ?_⟩
      exact Run.returns_bind.mpr ⟨rest, before, ih, Run.returns_pure.mpr ⟨rfl, rfl⟩⟩

end Review

end Dart

/-! ## The whole run -/

namespace Request

open Dart

/-- The classes that a request names: all, or those of one name. -/
def named (request : Request) (c : ClassDecl) : Bool :=
  match request.className with
  | some name => c.header.name == some name
  | none => true

/-- The classes of a buffer that members are written for. -/
def targets (request : Request) (text : Text) : List ClassDecl :=
  ((scan text).filter request.named).filter fun c => c.isValid

def surroundings (request : Request) (text indent : Text) : Surroundings :=
  let read := Imports.ofText text request.project.packageName
  { style := request.style
    indent
    flutter := (request.project.resolve read.values).flavor == .flutter }

/-- What is pending once all members are written. -/
def pending (request : Request) (text indent : Text) : Imports × List Draft :=
  writeClasses (request.surroundings text indent) request.selector
    (Imports.ofText text request.project.packageName)
    ((request.targets text).map fun decl => { decl })

/-- A run up to the review: what is then left to be edited into the buffer. -/
def reviewed (request : Request) (text : Text) : Run (Imports × List Draft) := do
  if (request.targets text).isEmpty then throw .noClasses
  let indent ← request.style.indent?
  let (imports, drafts) := request.pending text indent
  return (imports, ← review request.style.reviewsEachMember drafts)

/-- What a run gives for a buffer that the given drafts and imports are pending for. -/
def finish (request : Request) (text : Text) (imports : Imports) (drafts : List Draft) :
    Generated :=
  let edits := planEdits drafts imports
  { code := LineEdit.applyAll edits text
    warnings := ((scan text).filter request.named).filterMap warning?
    edits
    flavor := (request.project.resolve
      (Imports.ofText text request.project.packageName).values).flavor
    classes := (request.targets text).map (·.name)
    selector := request.selector }

variable {request : Request} {text : Text} {before after : Interview}

theorem reviewed_returns {imports : Imports} {drafts : List Draft} :
    (request.reviewed text).Returns before (imports, drafts) after ↔
      request.targets text ≠ [] ∧ ∃ indent, request.style.indent? = .ok indent ∧
        imports = (request.pending text indent).1 ∧
        (review request.style.reviewsEachMember (request.pending text indent).2).Returns
          before drafts after := by
  rw [reviewed]
  split
  · rename_i none
    simp [List.isEmpty_iff.mp none, Run.returns_throw]
  · rename_i found
    rw [List.isEmpty_iff] at found
    simp only [Run.returns_bind, Run.returns_lift, Run.returns_pure]
    constructor
    · rintro ⟨indent, between, ⟨style, rfl⟩, kept, last, asked, same, rfl⟩
      cases same
      exact ⟨found, indent, style, rfl, asked⟩
    · rintro ⟨-, indent, style, rfl, asked⟩
      exact ⟨indent, before, ⟨style, rfl⟩, drafts, after, asked, rfl, rfl⟩

theorem generate_eq_reviewed (request : Request) (text : Text) :
    request.generate text = request.reviewed text >>= fun left =>
      pure (request.finish text left.1 left.2) := by
  rw [generate, reviewed]
  dsimp only
  change (if (request.targets text).isEmpty then _ else _) = _
  split
  · rfl
  · simp only [bind_assoc, pure_bind]
    rfl

theorem generate_returns {g : Generated} :
    (request.generate text).Returns before g after ↔
      ∃ imports drafts, (request.reviewed text).Returns before (imports, drafts) after ∧
        g = request.finish text imports drafts := by
  rw [generate_eq_reviewed, Run.returns_bind]
  constructor
  · rintro ⟨⟨imports, drafts⟩, between, left, done⟩
    obtain ⟨rfl, rfl⟩ := Run.returns_pure.mp done
    exact ⟨imports, drafts, left, rfl⟩
  · rintro ⟨imports, drafts, left, rfl⟩
    exact ⟨(imports, drafts), after, left, Run.returns_pure.mpr ⟨rfl, rfl⟩⟩

theorem targets_sublist : (request.targets text).Sublist (scan text) :=
  List.filter_sublist.trans List.filter_sublist

theorem pending_eq (indent : Text) :
    request.pending text indent =
      ((Imports.ofText text request.project.packageName).requireAll
          ((request.targets text).flatMap
            (needsFor (request.surroundings text indent) request.selector)),
        (request.targets text).map (draftFor (request.surroundings text indent) request.selector))
          := by
  apply writeClasses_eq
  intro c target
  exact (List.mem_filter.mp target).2

def unattended (request : Request) (text : Text) : Except GenerateError Generated :=
  ((request.generate text).result {}).1

/-- What a run that asks nobody gives: all that is pending, edited into the buffer. -/
def written (request : Request) (text indent : Text) : Generated :=
  request.finish text (request.pending text indent).1 (request.pending text indent).2

theorem returns_written {indent : Text} (found : request.targets text ≠ [])
    (style : request.style.indent? = .ok indent) :
    (request.generate text).Returns {} (request.written text indent) {} := by
  refine generate_returns.mpr ⟨_, _, reviewed_returns.mpr ⟨found, indent, style, rfl, ?_⟩, rfl⟩
  exact review_of_silent rfl _ _

theorem reviewed_of_silent {imports : Imports} {drafts : List Draft} {indent : Text}
    (left : (request.reviewed text).Returns {} (imports, drafts) after)
    (style : request.style.indent? = .ok indent) :
    imports = (request.pending text indent).1 ∧ drafts = (request.pending text indent).2 := by
  obtain ⟨-, own, own_style, rfl, asked⟩ := reviewed_returns.mp left
  obtain rfl : own = indent := Except.ok.inj (own_style.symm.trans style)
  have same := asked.symm.trans (review_of_silent rfl request.style.reviewsEachMember _)
  rw [Prod.mk.injEq, Except.ok.injEq] at same
  exact ⟨rfl, same.1⟩

theorem unattended_eq_ok {g : Generated} :
    request.unattended text = .ok g ↔
      request.targets text ≠ [] ∧ ∃ indent, request.style.indent? = .ok indent ∧
        g = request.written text indent := by
  constructor
  · intro ok
    have returned : (request.generate text).Returns {} g ((request.generate text).result {}).2 :=
      Prod.ext ok rfl
    obtain ⟨imports, drafts, left, rfl⟩ := generate_returns.mp returned
    obtain ⟨found, indent, style, -⟩ := reviewed_returns.mp left
    obtain ⟨rfl, rfl⟩ := reviewed_of_silent left style
    exact ⟨found, indent, style, rfl⟩
  · rintro ⟨found, indent, style, rfl⟩
    exact congrArg Prod.fst (returns_written found style)

theorem isOf_of_reviewed {imports : Imports} {drafts : List Draft}
    (h : (request.reviewed text).Returns before (imports, drafts) after) :
    List.Forall₂ Draft.IsOf drafts (request.targets text) ∧
      ∃ needs, imports = (Imports.ofText text request.project.packageName).requireAll needs := by
  obtain ⟨-, indent, -, rfl, asked⟩ := reviewed_returns.mp h
  rw [pending_eq] at asked
  refine ⟨?_, _, by rw [pending_eq]⟩
  refine (List.forall₂_map_right_iff.mp (review_isReviewOf asked)).imp fun d c left => ?_
  rw [Draft.IsOf, left.1]
  exact (alike_draftFor _ _ c).body

theorem each_reviewed {imports : Imports} {drafts : List Draft}
    (h : (request.reviewed text).Returns before (imports, drafts) after) :
    ∃ indent, request.style.indent? = .ok indent ∧ drafts.length = (request.targets text).length ∧
      ∀ d c, (d, c) ∈ drafts.zip (request.targets text) → c ∈ scan text ∧ c.isValid ∧ d.IsOf c ∧
        d.IsReviewOf (draftFor (request.surroundings text indent) request.selector c) := by
  obtain ⟨isOf, -⟩ := isOf_of_reviewed h
  obtain ⟨-, indent, styled, -, asked⟩ := reviewed_returns.mp h
  rw [pending_eq] at asked
  obtain ⟨size, reviewed⟩ :=
    List.forall₂_iff_zip.mp (List.forall₂_map_right_iff.mp (review_isReviewOf asked))
  refine ⟨indent, styled, size, fun d c pair => ?_⟩
  obtain ⟨-, target⟩ := List.of_mem_zip pair
  exact ⟨targets_sublist.subset target, (List.mem_filter.mp target).2,
    (List.forall₂_iff_zip.mp isOf).2 pair,
    reviewed pair⟩

end Request

end ValueClass
