import ValueClass.Proofs.Generate.Review
import ValueClass.Proofs.Workspace.Laid
import ValueClass.Workspace.WriteFiles

/-! # Writing files in their turns

Each file has its turn: a question if something stands in its place, then the file. Writing
takes some turns and ends in front of the files that are left: because there are none, because a
question was not answered with a yes, because the pause could not be made, or because something was
refused.
-/

namespace ValueClass

/-! ## Replies in order -/

namespace Interview

variable {i : Interview}

def reply (i : Interview) (k : Nat) : Reply :=
  match i.script with
  | none => .accept
  | some replies => .at replies k

/-- The interview once some questions are asked. -/
def after (i : Interview) (questions : List Text) : Interview :=
  match i.script with
  | none => i
  | some replies => { script := some (replies.drop questions.length), asked := i.asked ++
    questions }

theorem ask_eq (question : Text) (i : Interview) :
    ask question i = (i.reply 0, i.after [question]) := by
  rw [ask, reply, after]
  cases i.script with
  | none => rfl
  | some replies => cases replies <;> rfl

theorem after_nil (i : Interview) : i.after [] = i := by
  obtain ⟨script, asked⟩ := i
  cases script <;> simp [after]

theorem after_append (i : Interview) (questions more : List Text) :
    i.after (questions ++ more) = (i.after questions).after more := by
  obtain ⟨script, asked⟩ := i
  cases script <;> simp [after]

theorem reply_after (i : Interview) (questions : List Text) (k : Nat) :
    (i.after questions).reply k = i.reply (questions.length + k) := by
  obtain ⟨script, asked⟩ := i
  cases script <;> simp [after, reply, Reply.at]

end Interview

namespace Writing

open FileTree (Extends Wrote Laid Takes writeText)
open Package (resolve)

variable {directory path : Path} {delay : Json} {file : GeneratedFile}
  {files done rest : List GeneratedFile}
  {before between after w : Writing} {content : Text} {outcome : Except WriteError Unit}

/-! ## One turn -/

def target (directory : Path) (file : GeneratedFile) : Path :=
  directory.append (.ofText file.name)

/-- The question about a path, if something stands there. -/
def questionsAt (tree : FileTree) (path : Path) : List Text :=
  if tree.has path then [overwriteQuestion path] else []

theorem run_confirmOverwrite (path : Path) (w : Writing) :
    (confirmOverwrite path).run w = match w.tree.contains path with
      | .error e => (.error (.refused e), w)
      | .ok false => (.ok (), w)
      | .ok true =>
        (if w.interview.reply 0 = .accept then .ok () else .error (.stopped path),
          { w with interview := w.interview.after [overwriteQuestion path] }) := by
  change ((Except.mapError WriteError.refused (w.tree.contains path) :
    WriteRun Bool) >>= fun stands => do
    if stands then
      set { w with interview := (Interview.ask (overwriteQuestion path) w.interview).2 }
      if (Interview.ask (overwriteQuestion path) w.interview).1 !=
        .accept then throw (.stopped path)
        : WriteRun Unit).run w = _
  cases w.tree.contains path with
  | error e => rfl
  | ok stands =>
      cases stands with
      | false => rfl
      | true =>
          rw [run_bind, Interview.ask_eq]
          dsimp only
          cases w.interview.reply 0 <;> rfl

theorem run_writeOne (path : Path) (content : Text) (w : Writing) :
    (writeOne path content).run w = match (writeText path content).run w.tree with
      | (.error e, tree) => (.error (.refused e), { w with tree })
      | (.ok (), tree) => (.ok (), { w with tree, written := w.written ++ [path] }) := by
  change (match (writeText path content).run w.tree with
    | (.error e, tree) => do
      set { w with tree }
      throw (.refused e)
    | (.ok (), tree) => set { w with tree, written := w.written ++ [path] } :
        WriteRun Unit).run w = _
  cases (writeText path content).run w.tree with
  | mk result tree => cases result <;> rfl

theorem run_pause (delay : Json) (w : Writing) :
    (pause delay).run w = match isPause? delay with
      | .error e => (.error e, w)
      | .ok true =>
        if w.clock.pauses delay then (.ok (), { w with pauses := w.pauses ++ [delay] })
        else (.error .pauseRefused, w)
      | .ok false => (.ok (), w) := by
  rw [pause]
  cases isPause? delay with
  | error e => rfl
  | ok long =>
      cases long with
      | false => rfl
      | true =>
          change (if !w.clock.pauses delay then (throw .pauseRefused : WriteRun Unit) else
            modify fun w => { w with pauses := w.pauses ++ [delay] }).run w = _
          cases w.clock.pauses delay <;> rfl

/-- Before a file is written, its question is answered with a yes or there is none to ask. -/
theorem confirmOverwrite_cases (path : Path) (w : Writing) :
    ((w.tree.has path → w.interview.reply 0 = .accept) ∧
        (confirmOverwrite path).run w =
          (.ok (), { w with interview := w.interview.after (questionsAt w.tree path) })) ∨
      ((w.tree.has path ∧ w.interview.reply 0 ≠ .accept) ∧ (confirmOverwrite path).run w =
        (.error (.stopped path),
          { w with interview := w.interview.after [overwriteQuestion path] })) ∨
      ∃ e, ¬ path.Usable ∧ (confirmOverwrite path).run w = (.error (.refused e), w) := by
  rw [run_confirmOverwrite]
  cases looked : w.tree.contains path with
  | error e =>
      refine .inr (.inr ⟨e, fun usable => ?_, rfl⟩)
      rw [FileTree.contains_of_usable usable] at looked
      cases looked
  | ok stands =>
      have stands := FileTree.has_eq_of_contains looked
      subst stands
      rw [questionsAt]
      cases w.tree.has path with
      | false =>
          refine .inl ⟨fun stands => (nomatch stands), ?_⟩
          simp [Interview.after_nil]
      | true =>
          by_cases accepted : w.interview.reply 0 = .accept
          · refine .inl ⟨fun _ => accepted, ?_⟩
            simp [accepted]
          · refine .inr (.inl ⟨⟨rfl, accepted⟩, ?_⟩)
            simp [accepted]

structure Turn (directory : Path) (file : GeneratedFile) (before after : Writing) : Prop where
  /-- The file is written. -/
  wrote : (writeText (target directory file) file.content).run before.tree = (.ok (), after.tree)
  /-- If something stands in its place, this is asked about. -/
  asked : after.interview = before.interview.after (questionsAt before.tree (target directory file))
  /-- And answered with a yes. -/
  accepted : before.tree.has (target directory file) → before.interview.reply 0 = .accept
  /-- The path is noted. -/
  written : after.written = before.written ++ [target directory file]
  clock : after.clock = before.clock

/-- How writing ends in front of the files that are left. -/
inductive Ending (directory : Path) (delay : Json) (w : Writing) :
    List GeneratedFile → Except WriteError Unit → Writing → Prop
  /-- No file is left. -/
  | finished : Ending directory delay w [] (.ok ()) w
  /-- A question is not answered with a yes. -/
  | stopped {file : GeneratedFile} {rest : List GeneratedFile}
    (stands : w.tree.has (target directory file))
    (negative : w.interview.reply 0 ≠ .accept) :
      Ending directory delay w (file :: rest) (.error (.stopped (target directory file)))
        { w with interview := w.interview.after [overwriteQuestion (target directory file)] }
  /-- Something is in the way of a file; at most directories are made for it. -/
  | refused {file : GeneratedFile} {rest : List GeneratedFile} {e : FileError} {after : Writing}
      (blocked : ¬ w.tree.Takes [target directory file]) (written : after.written = w.written)
      (extended : Extends w.tree after.tree (w.tree.way (target directory file).parent)) :
      Ending directory delay w (file :: rest) (.error (.refused e)) after
  /-- The pause is not a number. -/
  | unpaused {file : GeneratedFile} {rest : List GeneratedFile} {e : WriteError}
      (wrong : isPause? delay = .error e) : Ending directory delay w (file :: rest) (.error e) w
  /-- The pause cannot be made. -/
  | unclocked {file : GeneratedFile} {rest : List GeneratedFile} (long : isPause? delay = .ok true)
      (refused : w.clock.pauses delay = false) :
      Ending directory delay w (file :: rest) (.error .pauseRefused) w

inductive Turns (directory : Path) : Writing → List GeneratedFile → Writing → Prop
  | none {w : Writing} : Turns directory w [] w
  /-- A file and those after it. -/
  | more {file : GeneratedFile} {rest : List GeneratedFile} {before between after : Writing} :
      Turn directory file before between → Turns directory between rest after →
        Turns directory before (file :: rest) after

def takeTurn (directory : Path) (file : GeneratedFile) : WriteRun Unit := do
  confirmOverwrite (target directory file)
  writeOne (target directory file) file.content

/-- A turn is taken, or writing ends in front of its file. -/
theorem takeTurn_cases (directory : Path) (delay : Json) (file : GeneratedFile) (before : Writing) :
    (∃ after, (takeTurn directory file).run before =
      (.ok (), after) ∧ Turn directory file before after) ∨
      ∃ e after, (takeTurn directory file).run before = (.error e, after) ∧ e ≠ .pauseRefused ∧
        ∀ rest, Ending directory delay before (file :: rest) (.error e) after := by
  rw [takeTurn, run_bind]
  rcases confirmOverwrite_cases (target directory file) before with
    ⟨accepted, run⟩ | ⟨⟨stands, negative⟩, run⟩ | ⟨e, unusable, run⟩ <;> rw [run]
  · dsimp only
    rw [run_writeOne]
    dsimp only
    rcases FileTree.writeText_cases (target directory file) file.content before.tree with
      ⟨tree, wrote, -⟩ | ⟨e, tree, failed, extended⟩
    · rw [wrote]
      exact .inl ⟨_, rfl, wrote, rfl, accepted, rfl, rfl⟩
    · have blocked : ¬ before.tree.Takes [target directory file] := by
        intro takes
        obtain ⟨_, wrote, -⟩ := takes.writes (List.mem_singleton_self _) file.content
        rw [wrote] at failed
        cases failed
      rw [failed]
      exact .inr ⟨_, _, rfl, nofun, fun rest => .refused blocked rfl extended⟩
  · exact .inr ⟨_, _, rfl, nofun, fun rest => .stopped stands negative⟩
  · have blocked : ¬ before.tree.Takes [target directory file] :=
      fun takes => unusable (takes.usable _ (List.mem_singleton_self _))
    exact .inr ⟨_, _, rfl, nofun, fun rest => .refused blocked rfl (.refl _ _)⟩

/-! ## All turns -/

/-- The pause before the files that are left, if there are any. -/
def pauseBefore (delay : Json) (rest : List GeneratedFile) : WriteRun Unit :=
  if rest.isEmpty then return () else pause delay

theorem pauseBefore_cases (directory : Path) (delay : Json) (rest : List GeneratedFile)
    (w : Writing) :
    (∃ pauses, (pauseBefore delay rest).run w = (.ok (), { w with pauses })) ∨
      ∃ e, (pauseBefore delay rest).run w = (.error e, w) ∧
        Ending directory delay w rest (.error e) w := by
  rw [pauseBefore]
  cases rest with
  | nil => exact .inl ⟨w.pauses, rfl⟩
  | cons file rest =>
      rw [if_neg (by simp), run_pause]
      cases length : isPause? delay with
      | error e => exact .inr ⟨e, rfl, .unpaused length⟩
      | ok long =>
          cases long with
          | false => exact .inl ⟨w.pauses, rfl⟩
          | true =>
              cases made : w.clock.pauses delay with
              | true => exact .inl ⟨w.pauses ++ [delay], rfl⟩
              | false => exact .inr ⟨.pauseRefused, rfl, .unclocked length made⟩

theorem writeAll_cons (directory : Path) (delay : Json) (file : GeneratedFile)
    (rest : List GeneratedFile) :
    writeAll directory delay (file :: rest) = (do
      takeTurn directory file
      pauseBefore delay rest
      writeAll directory delay rest) := by
  rw [writeAll, pauseBefore, takeTurn, bind_assoc]
  cases rest <;> rfl

/-- Writing takes the turns of some files and ends in front of the others; a pause is made behind
a file only. -/
theorem writeAll_turns (directory : Path) (delay : Json) (files : List GeneratedFile)
    (before : Writing) :
    ∃ done rest between outcome after, files = done ++ rest ∧ Turns directory before done between ∧
      Ending directory delay between rest outcome after ∧
      (outcome = .error .pauseRefused → done ≠ []) ∧
      (writeAll directory delay files).run before = (outcome, after) := by
  induction files generalizing before with
  | nil => exact ⟨[], [], before, .ok (), before, rfl, .none, .finished, nofun, rfl⟩
  | cons file rest ih =>
      rw [writeAll_cons, run_bind]
      rcases takeTurn_cases directory delay file before with
        ⟨next, run, turn⟩ | ⟨e, after, run, other, ending⟩ <;> rw [run]
      · dsimp only
        rw [run_bind]
        rcases pauseBefore_cases directory delay rest next with ⟨pauses, paused⟩ | ⟨e,
          failed, ending⟩
        · rw [paused]
          have turn : Turn directory file before { next with pauses } :=
            ⟨turn.wrote, turn.asked, turn.accepted, turn.written, turn.clock⟩
          obtain ⟨done, left, between, outcome, after, rfl, turns, ending, -, run⟩ :=
            ih { next with pauses }
          exact ⟨file :: done, left, between, outcome, after, rfl, .more turn turns, ending,
            fun _ => nofun, run⟩
        · rw [failed]
          exact ⟨[file], rest, next, _, _, rfl, .more turn .none, ending, fun _ => nofun, rfl⟩
      · refine ⟨[], file :: rest, before, _, _, rfl, .none, ending rest, fun refused => ?_, rfl⟩
        exact absurd (Except.error.inj refused) other

/-! ## What the turns come to -/

/-- A tree once some files are written to it in order. -/
def laid (directory : Path) (tree : FileTree) (files : List GeneratedFile) : FileTree :=
  files.foldl (fun tree file => ((writeText (target directory file) file.content).run tree).2) tree

/-- The questions about the files that stand in the place of some files when it is their turn. -/
def questions (directory : Path) (tree : FileTree) : List GeneratedFile → List Text
  | [] => []
  | file :: rest => questionsAt tree (target directory file) ++ questions directory
    (laid directory tree [file]) rest

/-- A file with the path that it is written to. -/
def placed (directory : Path) (file : GeneratedFile) : Path × Text :=
  (target directory file, file.content)

theorem Turn.tree (turn : Turn directory file before after) :
    after.tree = laid directory before.tree [file] := by
  rw [laid, List.foldl_cons, turn.wrote]
  rfl

theorem Turn.isWrote (turn : Turn directory file before after) :
    Wrote before.tree after.tree (target directory file) file.content := by
  rcases FileTree.writeText_cases (target directory file) file.content before.tree with
    ⟨tree, run, wrote⟩ | ⟨e, tree, run, -⟩
  · rw [turn.wrote] at run
    cases run
    exact wrote
  · rw [turn.wrote] at run
    cases run

namespace Turns

theorem written (turns : Turns directory before done after) :
    after.written = before.written ++ done.map (target directory) := by
  induction turns with
  | none => simp
  | more turn _ ih => simp [ih, turn.written]

theorem clock (turns : Turns directory before done after) : after.clock = before.clock := by
  induction turns with
  | none => rfl
  | more turn _ ih => rw [ih, turn.clock]

theorem tree (turns : Turns directory before done after) :
    after.tree = laid directory before.tree done := by
  induction turns with
  | none => rfl
  | more turn _ ih =>
      rw [ih, turn.tree]
      rfl

theorem asked (turns : Turns directory before done after) :
    after.interview = before.interview.after (questions directory before.tree done) := by
  induction turns with
  | none => exact (Interview.after_nil _).symm
  | more turn _ ih => rw [ih, questions, turn.asked, turn.tree, Interview.after_append]

/-- Every question was answered with a yes. -/
theorem accepted (turns : Turns directory before done after) :
    ∀ k < (questions directory before.tree done).length, before.interview.reply k = .accept := by
  induction turns with
  | none => exact fun k bound => absurd bound (Nat.not_lt_zero k)
  | @more file rest before between after turn _ ih =>
      intro k bound
      rw [questions, List.length_append] at bound
      by_cases first : k < (questionsAt before.tree (target directory file)).length
      · rw [questionsAt] at first
        split at first
        · rename_i stands
          rw [Nat.lt_one_iff.mp first]
          exact turn.accepted stands
        · exact absurd first (Nat.not_lt_zero k)
      · have later := ih (k - (questionsAt before.tree (target directory file)).length)
            (by rw [turn.tree]; omega)
        rw [turn.asked, Interview.reply_after] at later
        rw [← later]
        congr 1
        omega

theorem laid {made : List (List Text)} (turns : Turns directory before done after)
    (along : ∀ file ∈ done, before.tree.way (target directory file).parent ⊆ made) :
    Laid before.tree after.tree (done.map (placed directory)) made := by
  induction turns with
  | none => exact .of_extends (.refl _ _)
  | @more file rest before between after turn _ ih =>
      have wrote := turn.isWrote
      refine .cons wrote (ih fun other member => ?_) (along file List.mem_cons_self)
      rw [FileTree.way_congr wrote.cwd]
      exact along other (List.mem_cons_of_mem _ member)

theorem takes {paths : List Path} (turns : Turns directory before done after)
    (takes : before.tree.Takes paths) (inside : ∀ file ∈ done, target directory file ∈ paths) :
    after.tree.Takes paths := by
  induction turns with
  | none => exact takes
  | more turn _ ih =>
      apply ih (takes.wrote (inside _ List.mem_cons_self) turn.isWrote)
      exact fun other member => inside other (List.mem_cons_of_mem _ member)

end Turns

theorem Ending.extended (ending : Ending directory delay w rest outcome after) :
    Extends w.tree after.tree
      (rest.flatMap fun file => w.tree.way (target directory file).parent) := by
  cases ending with
  | finished | stopped | unpaused | unclocked => exact .refl _ _
  | refused _ _ extended => exact extended.mono (List.subset_append_left _ _)

theorem Ending.of_takes {positive : Bool} (ending : Ending directory delay w rest outcome after)
    (number : isPause? delay = .ok positive) (takes : w.tree.Takes (rest.map (target directory))) :
    (rest = [] ∧ outcome = .ok () ∧ after = w) ∨
      (∃ file more, rest = file :: more ∧ outcome = .error (.stopped (target directory file)) ∧
        w.tree.has (target directory file) ∧ w.interview.reply 0 ≠ .accept ∧
        after = { w with interview :=
          w.interview.after [overwriteQuestion (target directory file)] }) ∨
      rest ≠ [] ∧ outcome = .error .pauseRefused ∧ positive ∧ w.clock.pauses delay = false ∧
        after = w := by
  cases ending with
  | finished => exact .inl ⟨rfl, rfl, rfl⟩
  | stopped stands negative => exact .inr (.inl ⟨_, _, rfl, rfl, stands, negative, rfl⟩)
  | refused blocked _ _ => exact absurd (takes.mono (by simp)) blocked
  | unpaused wrong =>
      rw [number] at wrong
      cases wrong
  | unclocked long refused =>
      rw [number] at long
      exact .inr (.inr ⟨nofun, rfl, Except.ok.inj long, refused, rfl⟩)

/-- What was done once some of the files are written and the others are not. -/
structure Reached (directory : Path) (before after : Writing) (done rest : List GeneratedFile) :
    Prop where
  /-- The paths of these files are noted, in order. -/
  written : after.written = before.written ++ done.map (target directory)
  /-- The tree is what writing them in order makes of it. -/
  tree : after.tree = laid directory before.tree done
  /-- So each of them stands in its place, and everywhere else is what was there before. -/
  laid : Laid before.tree after.tree (done.map (placed directory))
    (done.flatMap fun file => before.tree.way (target directory file).parent)
  /-- No directory was made in the place of another file either. -/
  kept : ∀ file ∈ rest,
    (∀ other ∈ done, resolve before.tree (target directory file) ≠
      resolve before.tree (target directory other)) →
    after.tree.node? (resolve before.tree (target directory file)) =
      before.tree.node? (resolve before.tree (target directory file))
  /-- Every question about them was answered with a yes. -/
  accepted : ∀ k < (questions directory before.tree done).length, before.interview.reply k = .accept

theorem Turns.reached (turns : Turns directory before done after)
    (takes : before.tree.Takes ((done ++ rest).map (target directory))) :
    Reached directory before after done rest := by
  have laid : Laid before.tree after.tree (done.map (placed directory))
      (done.flatMap fun file => before.tree.way (target directory file).parent) :=
    turns.laid fun file member q along => List.mem_flatMap.mpr ⟨file, member, along⟩
  refine ⟨turns.written, turns.tree, laid, fun file member apart => ?_, turns.accepted⟩
  have elsewhere : ∀ f ∈ done.map (placed directory),
      resolve before.tree (target directory file) ≠ resolve before.tree f.1 := by
    intro f one
    obtain ⟨other, inside, rfl⟩ := List.mem_map.mp one
    exact apart other inside
  rcases laid.elsewhere _ elsewhere with same | ⟨-, -, along⟩
  · exact same
  · obtain ⟨other, inside, along⟩ := List.mem_flatMap.mp along
    have one := List.mem_map_of_mem (f := target directory) (List.mem_append_right done member)
    have two := List.mem_map_of_mem (f := target directory) (List.mem_append_left rest inside)
    exact absurd along (takes.apart _ one _ two)

/-- Files are written as a prefix: all of them, or those before the first one whose question is not
answered with a yes, or those before the first pause that the clock refuses. Exactly the files that
stand in the place of one in its turn are asked about. -/
theorem writeAll_inOrder {positive : Bool} (directory : Path) (delay : Json)
    (files : List GeneratedFile) (before : Writing) (number : isPause? delay = .ok positive)
    (takes : before.tree.Takes (files.map (target directory))) :
    ∃ done rest outcome after, files = done ++ rest ∧
      (writeAll directory delay files).run before = (outcome, after) ∧
        Reached directory before after done rest ∧
      ((rest = [] ∧ outcome = .ok () ∧
          after.interview = before.interview.after (questions directory before.tree done)) ∨
        (∃ file more, rest = file :: more ∧ outcome = .error (.stopped (target directory file)) ∧
          after.tree.has (target directory file) ∧
          before.interview.reply (questions directory before.tree done).length ≠ .accept ∧
          after.interview = before.interview.after
            (questions directory before.tree done ++ [overwriteQuestion (target directory file)])) ∨
        done ≠ [] ∧ rest ≠ [] ∧ outcome = .error .pauseRefused ∧
          positive ∧ before.clock.pauses delay = false ∧
          after.interview = before.interview.after (questions directory before.tree done)) := by
  obtain ⟨done, rest, between, outcome, after, rfl, turns, ending, behind, run⟩ :=
    writeAll_turns directory delay files before
  have reached := turns.reached takes
  have taken := turns.takes takes fun file member =>
    List.mem_map_of_mem (List.mem_append_left rest member)
  refine ⟨done, rest, outcome, after, rfl, run, ?_⟩
  rcases ending.of_takes number (taken.mono (by simp)) with
    ⟨last, ok, rfl⟩ | ⟨file, more, next, stopped, stands, negative, rfl⟩ |
      ⟨left, refused, long, short, rfl⟩
  · exact ⟨reached, .inl ⟨last, ok, turns.asked⟩⟩
  · refine ⟨⟨reached.written, reached.tree, reached.laid, reached.kept, reached.accepted⟩,
      .inr (.inl ⟨file, more, next, stopped, stands, ?_, ?_⟩)⟩
    · rwa [turns.asked, Interview.reply_after] at negative
    · rw [Interview.after_append, ← turns.asked]
  · exact ⟨reached, .inr (.inr
      ⟨behind refused, left, refused, long, turns.clock ▸ short, turns.asked⟩)⟩

/-- The second of two files exists, and the user does not want it to be overwritten. -/
theorem writeAll_inOrder_declined :
    let directory := Path.ofText "out"
    let files : List GeneratedFile :=
      [{ name := "a.dart", content := "new" }, { name := "b.dart", content := "new" }]
    let tree : FileTree :=
      { cwd := ["w"]
        nodes := [(["w"], .directory), (["w", "out"], .directory),
          (["w", "out", "b.dart"], .file (Utf8.encode "old"))] }
    let before : Writing := { tree, interview := { script := some [.decline] } }
    isPause? (.int 0) = .ok false ∧ tree.Takes (files.map (target directory)) ∧
      ∃ done rest after, files = done ++ rest ∧
        (writeAll directory (.int 0) files).run before =
          (.error (.stopped (.ofText "out/b.dart")), after) ∧
        Reached directory before after done rest ∧
          done.map (target directory) = [.ofText "out/a.dart"] ∧
        after.tree.read (.ofText "out/a.dart") = .ok (Utf8.encode "new") ∧
        after.tree.read (.ofText "out/b.dart") = .ok (Utf8.encode "old") := by
  intro directory files tree before
  have takes : tree.Takes (files.map (target directory)) := by decide +kernel
  obtain ⟨done, rest, outcome, after, split, run, reached, -⟩ :=
    writeAll_inOrder directory (.int 0) files before rfl takes
  have computed : ((writeAll directory (.int 0) files).run before).1 =
      .error (.stopped (.ofText "out/b.dart")) ∧
      ((writeAll directory (.int 0) files).run before).2.written = [.ofText "out/a.dart"] ∧
      ((writeAll directory (.int 0) files).run before).2.tree.read (.ofText "out/a.dart") =
        .ok (Utf8.encode "new") ∧
      ((writeAll directory (.int 0) files).run before).2.tree.read (.ofText "out/b.dart") =
        .ok (Utf8.encode "old") := by
    decide +kernel
  rw [run] at computed
  obtain ⟨rfl, written, new, old⟩ := computed
  exact ⟨rfl, takes, done, rest, after, split, run, reached,
    reached.written.symm.trans written, new, old⟩

/-- Without a question that is not answered with a yes writing may end before the last file:
    where the place of one file would be a directory of another one, and where the clock
    refuses the pause. -/
theorem writeAll_cut_short :
    let tree : FileTree := { cwd := ["w"], nodes := [(["w"], .directory)] }
    let below := (writeAll (.ofText "") (.int 0)
      [{ name := "x", content := "1" }, { name := "x/y", content := "2" }]).run { tree }
    let clock : Clock :=
      { pauses := fun delay => match delay with
          | .int n => n ≤ 9223372036
          | _ => true }
    let paused := (writeAll (.ofText "") (.int 10000000000)
      [{ name := "a.dart", content := "1" }, { name := "b.dart", content := "2" }]).run
        { tree, clock }
    (below.1 ≠ .ok () ∧ below.2.interview.asked = [] ∧ below.2.written = [.ofText "x"]) ∧
      paused.1 = .error .pauseRefused ∧ paused.2.interview.asked = [] ∧
        paused.2.written = [.ofText "a.dart"] ∧ paused.2.tree.has (.ofText "b.dart") = false := by
  decide +kernel

end Writing

end ValueClass
