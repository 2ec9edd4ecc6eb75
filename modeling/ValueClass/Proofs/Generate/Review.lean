import ValueClass.Proofs.Generate.Run

/-! # The review of a run

A run asks about the replacements that it schedules, class by class. The review of all
classes comes down to one list of questions that are asked in order: either every one of
them is answered, and the answers decide which replacements are kept, or the run ends at
the first one that is cancelled.
-/

namespace ValueClass

/-! ## Questions in a row -/

/-- The reply to the question with a number. A script that has run out cancels. -/
def Reply.at (replies : List Reply) (k : Nat) : Reply :=
  replies[k]?.getD .cancel

def Reply.accepts : Reply → Bool
  | .accept => true
  | _ => false

namespace Run

variable {α : Type}

def confirmAll : List Text → Run (List Bool)
  | [] => return []
  | question :: rest => do
    let accepted ← confirm question
    return accepted :: (← confirmAll rest)

theorem confirmAll_append (questions more : List Text) (f : List Bool → Run α) :
    confirmAll (questions ++ more) >>= f =
      confirmAll questions >>= fun answers => confirmAll more >>= fun others =>
        f (answers ++ others) := by
  induction questions generalizing f with
  | nil => simp [confirmAll]
  | cons question rest ih =>
      simp only [List.cons_append, confirmAll, bind_assoc, pure_bind]
      congr 1
      funext accepted
      exact ih fun answers => f (accepted :: answers)

theorem confirmAll_congr (questions : List Text) {f g : List Bool → Run α}
    (same : ∀ answers, answers.length = questions.length → f answers = g answers) :
    confirmAll questions >>= f = confirmAll questions >>= g := by
  induction questions generalizing f g with
  | nil =>
      simp only [confirmAll, pure_bind]
      exact same [] rfl
  | cons question rest ih =>
      simp only [confirmAll, bind_assoc, pure_bind]
      congr 1
      funext accepted
      exact ih fun answers length => same (accepted :: answers)
        (by rw [List.length_cons, length, List.length_cons])

theorem result_confirm (question : Text) (replies : List Reply) (asked : List Text) :
    (confirm question).result { script := some replies, asked } =
      (match Reply.at replies 0 with
        | .accept => .ok true
        | .decline => .ok false
        | .cancel => .error (.cancelled question),
       { script := some replies.tail, asked := asked ++ [question] }) := by
  cases replies with
  | nil => rfl
  | cons reply rest => cases reply <;> rfl

/-- Questions that are all answered go on with the answers. -/
theorem result_confirmAll {questions : List Text} {replies : List Reply} (asked : List Text)
    (f : List Bool → Run α) (answered : ∀ k < questions.length, Reply.at replies k ≠ .cancel) :
    (confirmAll questions >>= f).result { script := some replies, asked } =
      (f ((replies.take questions.length).map Reply.accepts)).result
        { script := some (replies.drop questions.length), asked := asked ++ questions } := by
  induction questions generalizing replies asked f with
  | nil => simp [confirmAll]
  | cons question rest ih =>
      cases replies with
      | nil => exact absurd rfl (answered 0 (by simp))
      | cons reply others =>
          have later : ∀ k < rest.length, Reply.at others k ≠ .cancel := fun k bound =>
            answered (k + 1) (by simpa using bound)
          have step := result_confirm question (reply :: others) asked
          simp only [confirmAll, bind_assoc, pure_bind]
          rw [result_bind, step]
          cases reply with
          | cancel => exact absurd rfl (answered 0 (by simp))
          | accept =>
              simpa [Reply.at,
                Reply.accepts] using ih (asked ++ [question])
                  (fun answers => f (true :: answers)) later
          | decline =>
              simpa [Reply.at,
                Reply.accepts] using ih (asked ++ [question])
                  (fun answers => f (false :: answers)) later

/-- The first question that is cancelled is the last one. -/
theorem result_confirmAll_cancelled {questions : List Text} {replies : List Reply}
    (asked : List Text) (f : List Bool → Run α) {k : Nat} {question : Text}
    (here : questions[k]? = some question) (cancelled : Reply.at replies k = .cancel)
    (first : ∀ i < k, Reply.at replies i ≠ .cancel) :
    (confirmAll questions >>= f).result { script := some replies, asked } =
      (.error (.cancelled question),
        { script := some (replies.drop (k + 1)), asked := asked ++ questions.take (k + 1) }) := by
  obtain ⟨bound, rfl⟩ := List.getElem?_eq_some_iff.mp here
  have split : questions = questions.take k ++ questions[k] :: questions.drop (k + 1) := by
    rw [← List.drop_eq_getElem_cons bound, List.take_append_drop]
  have length : (questions.take k).length = k := List.length_take_of_le (Nat.le_of_lt bound)
  have rest : Reply.at (replies.drop k) 0 = .cancel := by
    rw [← cancelled]
    simp [Reply.at]
  have before : ∀ i < (questions.take k).length, Reply.at replies i ≠ .cancel := by rwa [length]
  have taken : questions.take (k + 1) = questions.take k ++ [questions[k]] :=
    List.take_succ_eq_append_getElem bound
  rw [taken]
  conv_lhs => rw [split]
  rw [confirmAll_append, result_confirmAll asked _ before, length]
  simp only [confirmAll, bind_assoc]
  rw [result_bind, result_confirm, rest, List.tail_drop, List.append_assoc]

end Run

namespace Dart

/-! ## The questions of a review -/

/-- The questions about the replacements of a class. -/
def questionsAbout (each : Bool) (className : Text) (scheduled : List Replacement) : List Text :=
  if each then scheduled.map fun r => memberQuestion r.name className
  else if scheduled.isEmpty then []
  else [classQuestion className]

/-- The replacements that are kept once the questions about them are answered. -/
def keptOf (each : Bool) (scheduled : List Replacement) (answers : List Bool) : List Replacement :=
  if each then ((scheduled.zip answers).filter (·.2)).map (·.1)
  else if answers.head? = some true then scheduled
  else []

namespace Draft

def questions (each : Bool) (d : Draft) : List Text :=
  questionsAbout each d.decl.name d.replacements

/-- A draft once its questions are answered. Nothing but its replacements is looked at again. -/
def answered (each : Bool) (d : Draft) (answers : List Bool) : Draft :=
  { d with replacements := keptOf each d.replacements answers }

end Draft

/-- Some drafts once their questions are answered, each one by its own answers. -/
def answeredAll (each : Bool) : List Draft → List Bool → List Draft
  | [], _ => []
  | d :: rest, answers =>
    d.answered each answers :: answeredAll each rest (answers.drop (d.questions each).length)

theorem keptOf_append (each : Bool) (className : Text) (scheduled : List Replacement)
    {answers : List Bool}
    (length : answers.length = (questionsAbout each className scheduled).length)
    (more : List Bool) :
    keptOf each scheduled (answers ++ more) = keptOf each scheduled answers := by
  cases each with
  | true =>
      have size : scheduled.length = answers.length := by simpa [questionsAbout] using length.symm
      simp only [keptOf, if_true]
      rw [← List.append_nil scheduled, List.zip_append size, List.append_nil]
      simp
  | false =>
      cases scheduled with
      | nil => simp [keptOf]
      | cons r rest =>
          cases answers with
          | nil => simp [questionsAbout] at length
          | cons answer others => simp [keptOf]

theorem reviewEach_eq (className : Text) (scheduled : List Replacement) :
    reviewEach className scheduled = Run.confirmAll (questionsAbout true className scheduled) >>=
      fun answers => pure (keptOf true scheduled answers) := by
  induction scheduled with
  | nil => simp [reviewEach, questionsAbout, Run.confirmAll, keptOf]
  | cons r rest ih =>
      simp only [questionsAbout, keptOf, if_true] at ih
      simp only [reviewEach, questionsAbout, keptOf, if_true, List.map_cons, Run.confirmAll, ih,
        bind_assoc, pure_bind]
      congr 1
      funext accepted
      cases accepted <;> simp

theorem reviewDraft_eq (each : Bool) (d : Draft) :
    reviewDraft each d = Run.confirmAll (d.questions each) >>= fun answers =>
      pure (d.answered each answers) := by
  rw [reviewDraft]
  by_cases none : d.replacements = []
  · have same : ∀ answers, d.answered each answers = d := by
      intro answers
      obtain ⟨decl, inserted, appended, replacements, headerChanged⟩ := d
      obtain rfl : replacements = [] := none
      cases each <;> simp [Draft.answered, keptOf]
    have quiet : d.questions each = [] := by
      cases each <;> simp [Draft.questions, questionsAbout, none]
    simp [none, quiet, Run.confirmAll, same]
  · cases each with
    | true =>
        simp only [List.isEmpty_iff, none, if_false, if_true, reviewEach_eq, bind_assoc, pure_bind]
        rfl
    | false =>
        have question : d.questions false = [classQuestion d.decl.name] := by
          simp [Draft.questions, questionsAbout, none]
        simp only [List.isEmpty_iff, none, if_false, Bool.false_eq_true, question, Run.confirmAll,
          bind_assoc, pure_bind]
        congr 1
        funext accepted
        cases accepted <;> rfl

theorem review_eq (each : Bool) (drafts : List Draft) :
    review each drafts = Run.confirmAll (drafts.flatMap (Draft.questions each)) >>=
      fun answers => pure (answeredAll each drafts answers) := by
  induction drafts with
  | nil => simp [review, Run.confirmAll, answeredAll]
  | cons d rest ih =>
      simp only [review, reviewDraft_eq, ih, List.flatMap_cons, Run.confirmAll_append, bind_assoc,
        pure_bind]
      refine Run.confirmAll_congr _ fun answers length => ?_
      congr 1
      funext others
      have own : d.answered each (answers ++ others) = d.answered each answers := by
        rw [Draft.answered, keptOf_append each d.decl.name d.replacements length]
        rfl
      rw [answeredAll, own, ← length, List.drop_left]

/-! ## The order of the replacements -/

theorem kindsFor_sublist (style : Style) (header : Header) (selector : Option MemberKind) :
    (kindsFor style header selector).Sublist MemberKind.all := by
  have allowed : (allowedKinds header).Sublist MemberKind.all := by
    have widget : [MemberKind.constructor].Sublist MemberKind.all := by decide
    simp only [allowedKinds]
    split <;> split
    · exact List.filter_sublist.trans widget
    · split
      · exact List.filter_sublist.trans List.filter_sublist
      · exact List.filter_sublist
    · exact widget
    · split
      · exact List.filter_sublist
      · exact List.Sublist.refl _
  cases selector with
  | none => exact List.filter_sublist.trans allowed
  | some kind =>
      simp only [kindsFor]
      split
      · rename_i member
        exact (List.singleton_sublist.mpr (List.contains_iff_mem.mp member)).trans allowed
      · exact List.nil_sublist _

theorem replacements_draftFor (s : Surroundings) (selector : Option MemberKind) (c : ClassDecl) :
    ((draftFor s selector c).replacements.map (·.name)).Sublist
    (MemberKind.all.map MemberKind.label) := by
  rw [(draftFor_pending s selector c).2.2]
  refine List.Sublist.trans ?_ ((kindsFor_sublist s.style c.header selector).map MemberKind.label)
  induction kindsFor s.style c.header selector with
  | nil => exact List.Sublist.refl _
  | cons kind rest ih =>
      cases here : replacementFor? s c kind with
      | none =>
          rw [List.filterMap_cons_none here]
          exact ih.cons _
      | some r =>
          rw [List.filterMap_cons_some here, List.map_cons, List.map_cons,
            (replacementFor?_eq_some here).2.1]
          exact ih.cons_cons _

end Dart

/-! ## The whole run -/

namespace Request

open Dart

variable {request : Request} {text indent : Text}

def drafts (request : Request) (text indent : Text) : List Draft :=
  (request.targets text).map (draftFor (request.surroundings text indent) request.selector)

def questions (request : Request) (text indent : Text) : List Text :=
  (request.drafts text indent).flatMap (Draft.questions request.style.reviewsEachMember)

theorem generate_eq_confirmAll (found : request.targets text ≠ [])
    (style : request.style.indent? = .ok indent) :
    request.generate text = Run.confirmAll (request.questions text indent) >>= fun answers =>
      pure (request.finish text (request.pending text indent).1
        (answeredAll request.style.reviewsEachMember (request.drafts text indent) answers)) := by
  have pending : (request.pending text indent).2 = request.drafts text indent := by
    rw [pending_eq]
    rfl
  have lifted : (liftM (Except.ok indent : Except GenerateError Text) : Run Text) = pure indent :=
    rfl
  rw [generate_eq_reviewed, reviewed, if_neg (by simpa using found), style, lifted]
  simp only [bind_assoc, pure_bind, pending, review_eq]
  rfl

theorem outcome_result (request : Request) (text : Text) (before : Interview) :
    (request.outcome text).result before = match (request.generate text).result before with
      | (.ok g, after) => (.ok (.ofGenerated g), after)
      | (.error e, after) => (if e.isReported then .ok (.failed e) else .error e, after) := by
  rw [outcome, Run.result_tryCatch, ← bind_pure_comp, Run.result_bind]
  cases (request.generate text).result before with
  | mk result after =>
      cases result with
      | ok g => rfl
      | error e => cases reported : e.isReported <;>
          simp [reported, Run.result_pure, Run.result_throw]

/-- The review protocol. The questions are asked class by class in source order, and about the
    members of a class in the order in which members are written. When each of them is
    answered, the run returns and edits what the answers leave; at the first one that is
    cancelled, the run fails and asks no more, and no code and no edits come of it. -/
theorem generate_review (found : request.targets text ≠ [])
    (style : request.style.indent? = .ok indent) (replies : List Reply) :
    let drafts := request.drafts text indent
    let questions := request.questions text indent
    let run := (request.generate text).result { script := some replies }
    let outcome := (request.outcome text).result { script := some replies }
    (request.targets text).Pairwise ClassDecl.Before ∧
      (∀ d ∈ drafts, (d.replacements.map (·.name)).Sublist (MemberKind.all.map MemberKind.label)) ∧
      ((∀ k < questions.length, Reply.at replies k ≠ .cancel) →
        let g := request.finish text (request.pending text indent).1
          (answeredAll request.style.reviewsEachMember drafts
            ((replies.take questions.length).map Reply.accepts))
        let after : Interview :=
          { script := some (replies.drop questions.length), asked := questions }
        run = (.ok g, after) ∧ outcome = (.ok (.ofGenerated g), after)) ∧
      ∀ k question, questions[k]? = some question → Reply.at replies k = .cancel →
        (∀ i < k, Reply.at replies i ≠ .cancel) →
        let after : Interview :=
          { script := some (replies.drop (k + 1)), asked := questions.take (k + 1) }
        run = (.error (.cancelled question), after) ∧ ∃ o, outcome = (.ok o, after) ∧
          o.failure = some (.cancelled question) ∧ o.isCancelled ∧ o.code = [] ∧ o.edits = [] := by
  intro drafts questions run outcome
  have protocol := generate_eq_confirmAll found style
  have reported : outcome = match run with
      | (.ok g, after) => (.ok (.ofGenerated g), after)
      | (.error e, after) => (if e.isReported then .ok (.failed e) else .error e, after) :=
    outcome_result request text _
  refine ⟨(scan_ordered text).sublist targets_sublist, ?_, ?_, ?_⟩
  · intro d drafted
    obtain ⟨c, -, rfl⟩ := List.mem_map.mp drafted
    exact replacements_draftFor _ _ c
  · intro answered g after
    have ran : run = (.ok g, after) := by
      simp only [run, protocol]
      exact Run.result_confirmAll [] _ answered
    exact ⟨ran, by rw [reported, ran]⟩
  · intro k question here cancelled first after
    have ran : run = (.error (.cancelled question), after) := by
      simp only [run, protocol]
      exact Run.result_confirmAll_cancelled [] _ here cancelled first
    exact ⟨ran, .failed (.cancelled question), by rw [reported, ran]; rfl, rfl, rfl, rfl, rfl⟩

/-- Two members are scheduled and reviewed one by one. The first one is left as it is, and the
    script ends before the second one. -/
theorem generate_review_cancelled :
    let request : Request := { style := { reviewsEachMember := true } }
    let text : Text := Text.unlines ["class A \x7b", "  final int x;", "", "  @override",
      "  String toString() => 'x';", "", "  A copyWith() \x7b", "    return this;",
        "  \x7d", "\x7d"]
    request.targets text ≠ [] ∧ request.style.indent? = .ok "  " ∧
      (request.generate text).result { script := some [.decline] } =
        (.error (.cancelled (memberQuestion "toString" "A")),
          { script := some [],
            asked := [memberQuestion "copyWith" "A", memberQuestion "toString" "A"] }) ∧
      ∃ o after, (request.outcome text).result { script := some [.decline] } = (.ok o, after) ∧
        o.isCancelled ∧ o.code = [] ∧ o.edits = [] := by
  intro request text
  obtain ⟨found, questions⟩ : request.targets text ≠ [] ∧
      request.questions text "  " = [memberQuestion "copyWith" "A",
        memberQuestion "toString" "A"] := by
    decide +kernel
  have style : request.style.indent? = .ok "  ".toList := rfl
  obtain ⟨-, -, -, cancelled⟩ := generate_review found style [.decline]
  rw [questions] at cancelled
  obtain ⟨ran, o, outcome, -, stopped, code, edits⟩ := cancelled 1 _ rfl rfl (by decide)
  exact ⟨found, style, ran, o, _, outcome, stopped, code, edits⟩

/-- Members that are reviewed one by one need not be asked about in the order in which they
    stand in the class, and a whole number that is out of range as an indentation ends the run
    before the first question. -/
theorem questions_not_in_source_order :
    let style : Style :=
      { reviewsEachMember := true, writesConstructor := false,
        writesToMap := false, writesFromMap := false,
        writesToJson := false, writesFromJson := false,
        writesEquality := false, writesHashCode := false }
    let request : Request := { style }
    let text : Text := Text.unlines ["class A \x7b", "  final int x;", "", "  @override",
      "  String toString() => 'x';", "", "  A copyWith() \x7b", "    return this;",
        "  \x7d", "\x7d"]
    let lines := (request.drafts text "  ").map fun d => d.replacements.map fun r =>
        (r.name, r.span.first)
    let wide : Request := { style := { style with indentation := .ofInt 0x8000000000000000 } }
    let run (request : Request) :=
      (request.generate text).result { script := some [.accept, .accept] }
    lines = [[("copyWith".toList, 7), ("toString".toList, 5)]] ∧
      (run request).2.asked = [memberQuestion "copyWith" "A", memberQuestion "toString" "A"] ∧
      run wide = (.error (.indent .outOfRange), { script := some [.accept, .accept] }) := by
  decide +kernel

end Request

end ValueClass
