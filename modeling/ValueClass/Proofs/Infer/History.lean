import ValueClass.Proofs.Infer.Inferred

/-! # Namers without history

A namer remembers its answers, and still nothing that it was used for shows in what it gives
later: a name, or the classes of a document, are those of a namer that was never used. The
memory is looked up under a key that belongs to one question, so each answer in it is what the
policy says.
-/

namespace ValueClass.Namer

/-- What a namer is used for. A document that is refused half way has asked for some names, and
    a sequence of uses may hold these as well. -/
inductive Use where
  | name (text : Text) (case : NameCase)
  /-- The classes of a document. -/
  | document (style : Style) (test : DateTest) (engine : TemplateEngine) (source : JsonSource)
    (rootName : Text)

inductive Gain where
  | name (name : Text)
  /-- The classes, or why there are none. -/
  | document (found : Except GenerateError (List Dart.ClassDecl))

def Use.perform : Use → StateM Namer Gain
  | .name text case => return .name (← nameFor text case)
  | .document style test engine source rootName => do
    return .document (← (Infer.classes style test engine source rootName).run)

/-- An action has an answer that does not depend on what a namer of this policy remembers. -/
def Steady {α : Type} (policy : NamePolicy) (action : StateM Namer α) : Prop :=
  ∃ answer, Answers policy action answer

section Steady

variable {α β : Type} {policy : NamePolicy}

theorem recalls_new (policy : NamePolicy) : Recalls { policy } := by
  intro text case name found
  cases found

theorem Steady.pure (a : α) : Steady policy (Pure.pure a) :=
  ⟨a, .pure a⟩

theorem Steady.bind {x : StateM Namer α} {f : α → StateM Namer β} (first : Steady policy x)
    (second : ∀ a, Steady policy (f a)) : Steady policy (x >>= f) := by
  obtain ⟨a, first⟩ := first
  obtain ⟨b, second⟩ := second a
  exact ⟨b, first.bind second⟩

theorem Steady.nameFor (text : Text) (case : NameCase) : Steady policy (nameFor text case) :=
  ⟨_, .nameFor text case⟩

theorem Steady.answers {action : StateM Namer α} (steady : Steady policy action) :
    Answers policy action (action { policy }).1 := by
  obtain ⟨answer, answers⟩ := steady
  have new := (answers { policy } rfl (recalls_new policy)).1
  rw [new]
  exact answers

theorem answers_mapM {f : α → StateM Namer β} (steady : ∀ a, Steady policy (f a)) (as : List α) :
    Answers policy (as.mapM f) (as.map fun a => (f a { policy }).1) := by
  induction as with
  | nil => exact .pure []
  | cons a rest ih =>
      rw [List.mapM_cons]
      exact (steady a).answers.bind (ih.bind (.pure _))

end Steady

section Infer

open Infer

variable {policy : NamePolicy}

theorem steady_typeText (type : TypeSketch) : Steady policy (typeText type) := by
  induction type with
  | word name => exact .pure name
  | object named => exact .nameFor named .pascal
  | list element ih => exact ih.bind fun _ => .pure _

theorem steady_fieldsFrom (line : Nat) (members : List (Text × TypeSketch)) :
    Steady policy (fieldsFrom line members) := by
  induction members generalizing line with
  | nil => exact .pure []
  | cons member rest ih =>
      apply (steady_typeText member.2).bind
      intro rawType
      apply (Steady.nameFor member.1 .preserve).bind
      intro name
      exact (ih (line + 1)).bind fun _ => .pure _

theorem steady_classOf (engine : TemplateEngine) (indent : Text) (sketch : ObjectSketch) :
    Steady policy (classOf engine indent sketch) := by
  apply (Steady.nameFor sketch.named .pascal).bind
  intro name
  exact (steady_fieldsFrom 2 sketch.members).bind fun _ => .pure _

theorem steady_classesOf (engine : TemplateEngine) (indent : Text) (sketches : List ObjectSketch) :
    Steady policy (classesOf engine indent sketches) := by
  induction sketches with
  | nil => exact .pure []
  | cons sketch rest ih =>
      exact (steady_classOf engine indent sketch).bind fun _ => ih.bind fun _ => .pure _

theorem steady_classes (style : Style) (test : DateTest) (engine : TemplateEngine)
    (source : JsonSource) (rootName : Text) :
    Steady policy (classes style test engine source rootName).run := by
  have refused : ∀ e,
      Steady policy (pure (.error e) : StateM Namer (Except GenerateError (List Dart.ClassDecl))) :=
    fun e => .pure _
  rw [classes]
  cases source.members with
  | error e => exact refused e
  | ok members =>
      rw [lift_ok_bind]
      cases style.indent? with
      | error e => exact refused e
      | ok indent =>
          have found : Steady policy
              (classesOf engine indent
                (ObjectSketch.ofDocument (dateRule style test) rootName members)) :=
            steady_classesOf engine indent _
          exact found.bind fun found => Steady.pure (Except.ok (dropRepeats [] found))

theorem Use.steady (use : Use) : Steady policy use.perform := by
  cases use with
  | name text case => exact (Steady.nameFor text case).bind fun name => Steady.pure (Gain.name name)
  | document style test engine source rootName =>
      exact (steady_classes style test engine source rootName).bind fun found =>
        Steady.pure (Gain.document found)

end Infer

/-- Whatever a namer is used for, one use after the other, each gives what it gives with a new
    namer of the same policy. -/
theorem perform_without_history (policy : NamePolicy) (uses : List Use) :
    (uses.mapM Use.perform { policy }).1 = uses.map fun use => (use.perform { policy }).1 :=
  (answers_mapM Use.steady uses { policy } rfl (recalls_new policy)).1

end ValueClass.Namer
