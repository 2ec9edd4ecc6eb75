import ValueClass.Proofs.Command.Steps

/-! # What generating members does to the files

Members are generated for the text of one file. Unless a generation succeeds with edits, and is
to be written, every file stays as it is; and if it is, that file holds the edited text and no
other place changes.
-/

namespace ValueClass

namespace FileTree

open Package (resolve)

variable {tree before after : FileTree} {p : Path} {content text : Text} {bytes : List UInt8}

theorem readText_eq (tree : FileTree) (p : Path) :
    tree.readText p = match tree.contains p with
      | .error e => .error (.refused e)
      | .ok false => .error (.missing p.text)
      | .ok true => match tree.read p with
        | .error e => .error (.unreadable p.text e.message)
        | .ok bytes => match Utf8.decode bytes with
          | .error e => .error (.unreadable p.text e.message)
          | .ok raw => .ok (Utf8.normalizeLineEnds raw) := by
  rw [readText]
  cases tree.contains p with
  | error e => rfl
  | ok found =>
      cases found with
      | false => rfl
      | true =>
          cases tree.read p with
          | error e => rfl
          | ok bytes =>
              dsimp only
              change ((Utf8.decode bytes).mapError _ >>= _) = _
              cases Utf8.decode bytes <;> rfl

theorem file_of_readText (read : tree.readText p = .ok text) :
    ∃ bytes raw, tree.stat p = .ok (.file bytes) ∧ Utf8.decode bytes = .ok raw ∧
      text = Utf8.normalizeLineEnds raw := by
  rw [readText_eq] at read
  split at read
  · cases read
  · cases read
  · split at read
    · cases read
    · rename_i bytes found
      split at read
      · cases read
      · rename_i raw decoded
        exact ⟨bytes, raw, read_eq_ok.mp found, decoded, (Except.ok.inj read).symm⟩

theorem standing_of_stat (base : tree.node? tree.cwd = some .directory)
    (stands : tree.stat p = .ok (.file bytes)) :
    tree.node? (resolve tree p) = some (.file bytes) ∧ ∀ q ∈ tree.way p.parent,
      tree.node? q = some .directory := by
  obtain ⟨place, led, here⟩ := stat_eq_ok.mp stands
  obtain ⟨-, standing, rfl⟩ := locate_eq_ok.mp led
  refine ⟨here, ?_⟩
  have some : p.parts ≠ [] := by
    intro none
    have start : resolve tree p = tree.start p := by
      rw [resolve_eq, none]
      rfl
    rw [start, FileTree.start] at here
    split at here
    · rw [node?_root] at here
      cases here
    · rw [base] at here
      cases here
  rwa [← above_eq_way some]

theorem takes_of_stat (base : tree.node? tree.cwd = some .directory)
    (stands : tree.stat p = .ok (.file bytes)) :
    tree.Takes [p] := by
  obtain ⟨here, standing⟩ := standing_of_stat base stands
  obtain ⟨place, led, -⟩ := stat_eq_ok.mp stands
  refine ⟨?_, ?_, ?_, ?_⟩
  · simpa using (locate_eq_ok.mp led).1
  · simpa using fun q along => Or.inr (standing q along)
  · simp [here]
  · simp only [List.mem_singleton, forall_eq]
    intro along
    rw [standing _ along] at here
    cases here

/-- A file was written anew, and nothing else. -/
structure Edited (before after : FileTree) (p : Path) (content : Text) : Prop where
  /-- The current directory is the same. -/
  cwd : after.cwd = before.cwd
  /-- The file holds the content. -/
  read : after.read p = .ok (Utf8.encode content)
  /-- What stands elsewhere is what stood there before. -/
  elsewhere : ∀ q, q ≠ resolve before p → after.node? q = before.node? q

theorem writeText_edits (base : tree.node? tree.cwd = some .directory)
    (stands : tree.stat p = .ok (.file bytes)) (content : Text) :
    ∃ after, (writeText p content).run tree = (.ok (), after) ∧ Edited tree after p content := by
  obtain ⟨after, run, wrote⟩ :=
    (takes_of_stat base stands).writes (List.mem_singleton_self p) content
  refine ⟨after, run, wrote.cwd, read_eq_ok.mpr (stat_eq_ok.mpr ⟨_, wrote.leads, wrote.stands⟩),
    fun q apart => ?_⟩
  rcases wrote.elsewhere q apart with same | ⟨none, -, along⟩
  · exact same
  · rw [(standing_of_stat base stands).2 q along] at none
    cases none

end FileTree

namespace CommandRun

/-- The interview that a command goes through; with `assumeYes` nobody is asked. -/
def talk (assumeYes : Bool) (i : Interview) : Interview :=
  if assumeYes then {} else i

theorem run_talking_bind {α β : Type} (assumeYes : Bool) (run : Run α)
    (f : Except GenerateError α → CommandRun β) (t : Terminal) :
    (talking assumeYes run >>= f).run t = (f (run.result (talk assumeYes t.interview)).1).run
      { t with interview := if assumeYes then t.interview else (run.result t.interview).2 } := by
  rw [run_bind]
  cases assumeYes <;> rfl

theorem run_onFiles {work : FileRun Unit} {t : Terminal} {after : FileTree}
    (done : work.run t.tree = (.ok (), after)) :
    (onFiles work).run t = (.ok (), { t with tree := after }) := by
  rw [onFiles, run_get_bind, done]
  rfl

end CommandRun

namespace Command

open CommandRun
open FileTree (Edited)

theorem yields_reportFailure (e : GenerateError) (t : Terminal) :
    ∃ value, Yields (reportFailure e) t value := by
  cases e with
  | cancelled question => exact ⟨some (), yields_warn _ t⟩
  | noClasses | malformedJson | unsupportedShape => exact ⟨some (), yields_say _ t⟩
  | jsonLimit limit | indent fault => exact ⟨none, .throw _ t⟩

theorem reportFailure_fails (e : GenerateError) (t : Terminal) :
    ∃ result shown, (do reportFailure e; return 1 : CommandRun Nat).run t =
      (result, { t with shown }) ∧
      result.toOption ≠ some 0 := by
  obtain ⟨value, yields⟩ := yields_reportFailure e t
  rcases yields.cases fun _ => (return 1 : CommandRun Nat) with ⟨-, e, shown, run⟩ | ⟨_,
    shown, -, run⟩
  · exact ⟨.error e, shown, run, nofun⟩
  · exact ⟨.ok 1, shown, run, nofun⟩

variable {t : Terminal} {file : Text} {member : Option MemberKind} {className : Option Text}
  {options : CommonOptions}
  {g : Generated}

/-- What is asked of a generation for a file: its text, and a request that goes by the
    settings and the project. -/
def request? (tree : FileTree) (file : Text) (member : Option MemberKind) (className : Option Text)
    (options : CommonOptions) : Option (Text × Request) :=
  (tree.readText (.ofText file)).toOption.bind fun text =>
  (settings? tree options.config []).bind fun settings =>
  (project? tree options (some (.ofText file))).bind fun project =>
  some (text, { style := settings.style, project, selector := member, className })

/-- What is generated for a file, if nothing is wrong with the file, the settings, the project and
the classes, and the user does not cancel. -/
def generation? (t : Terminal) (file : Text) (member : Option MemberKind) (className : Option Text)
    (options : CommonOptions) : Option Generated :=
  (request? t.tree file member className options).bind fun (text, request) =>
    ((request.generate text).result (talk options.assumeYes t.interview)).1.toOption

/-- What a command that generates members leaves behind, and how it ends. -/
structure Generates (t : Terminal) (file : Text) (member : Option MemberKind)
    (className : Option Text) (options : CommonOptions) (done : Bool) (after : FileTree) :
    Prop where
  /-- Without a generation nothing is touched. -/
  failed : generation? t file member className options = none → done = false ∧ after = t.tree
  /-- Nor when there is nothing to edit; then the file holds the result already. -/
  upToDate : ∀ g, generation? t file member className options = some g → g.edits = [] →
    after = t.tree ∧ t.tree.readText (.ofText file) = .ok g.code
  /-- Nor when the result is only to be shown. -/
  shown : ∀ g, generation? t file member className options = some g → options.dryRun →
    after = t.tree
  /-- Else the file is written, and nothing but it, unless the console ends the command before. -/
  written : ∀ g, generation? t file member className options = some g → g.edits ≠ [] →
    options.dryRun = false → Edited t.tree after (.ofText file) g.code ∨
      done = false ∧ after = t.tree ∧ ¬ t.console.ShowsAll
  /-- Nothing but the console keeps a generation from success. -/
  succeeds : generation? t file member className options ≠ none → t.console.ShowsAll → done = true

def settle (path : Path) (options : CommonOptions) (g : Generated) : CommandRun Unit :=
  if g.edits.isEmpty then say "[green]✓[/green] Everything is up to date"
  else if options.dryRun then display (.listing g.code)
  else do
    onFiles (FileTree.writeText path g.code)
    say ("[green]✓[/green] Updated [cyan]" ++ path.text ++ "[/cyan] (" ++
      Text.ofNat g.edits.length ++ " edits)")

/-- What is done with the result of a generation. -/
def conclude (path : Path) (options : CommonOptions) :
    Except GenerateError Generated → CommandRun Nat
  | .error e => do
    reportFailure e
    return 1
  | .ok g => do
    report options.verbose g.metadata g.warnings
    settle path options g
    return 0

def prepare (file : Text) (member : Option MemberKind) (className : Option Text)
    (options : CommonOptions) :
    CommandRun (Text × Request) := do
  let text ← loaded ((← get).tree.readText (.ofText file))
  let settings ← settingsFor options.config []
  let project ← projectFor options (some (.ofText file))
  return (text, { style := settings.style, project, selector := member, className })

theorem yields_prepare (file : Text) (member : Option MemberKind) (className : Option Text)
    (options : CommonOptions) (t : Terminal) :
    Yields (prepare file member className options) t
      (request? t.tree file member className options) := by
  refine (yields_loaded _ t).bind fun text shown => ?_
  refine (yields_settingsFor _ _ _).bind fun settings shown => ?_
  exact (yields_projectFor _ _ _).bind fun project shown => .pure _ _

theorem runGenerate_eq (file : Text) (member : Option MemberKind) (className : Option Text)
    (options : CommonOptions) :
    runGenerate file member className options = (do
      let (text, request) ← prepare file member className options
      conclude (.ofText file) options (← talking options.assumeYes (request.generate text))) := by
  rw [runGenerate, prepare]
  simp only [bind_assoc, pure_bind]
  refine bind_congr fun t => bind_congr fun text => bind_congr fun settings =>
    bind_congr fun project =>
    bind_congr fun result => ?_
  cases result with
  | error e => rfl
  | ok g =>
      refine bind_congr fun _ => ?_
      rw [settle]
      split
      · rfl
      · split
        · rfl
        · exact (bind_assoc _ _ _).symm

theorem yields_settle (path : Path) (idle : g.edits = [] ∨ options.dryRun) (t : Terminal) :
    Yields (settle path options g) t (some ()) := by
  rw [settle]
  split
  · exact yields_say _ t
  · rename_i some
    rw [if_pos (idle.resolve_left (by simpa using some))]
    exact yields_display _ t

theorem yields_conclude (path : Path) (idle : g.edits = [] ∨ options.dryRun) (t : Terminal) :
    Yields (conclude path options (.ok g)) t (some 0) := by
  refine (yields_report options.verbose g.metadata g.warnings t).andThen fun shown => ?_
  exact (yields_settle path idle _).andThen fun shown => .pure 0 _

/-- Once the report is shown, the file is written. -/
theorem conclude_edits {path : Path} {bytes : List UInt8}
    (base : t.tree.node? t.tree.cwd = some .directory)
    (stands : t.tree.stat path = .ok (.file bytes)) (some : g.edits ≠ [])
    (wet : options.dryRun = false) :
    ∃ result after, (conclude path options (.ok g)).run t = (result, after) ∧
      (Edited t.tree after.tree path g.code ∨
        result.toOption = none ∧ after.tree = t.tree ∧ ¬ t.console.ShowsAll) ∧
      (t.console.ShowsAll → result.toOption = Option.some 0) := by
  obtain ⟨tree, written, edited⟩ := FileTree.writeText_edits base stands g.code
  have ran (shown : List ConsoleItem) :
      (onFiles (FileTree.writeText path g.code)).run { t with shown } =
      (.ok (), { t with shown, tree }) := run_onFiles written
  rcases (yields_report options.verbose g.metadata g.warnings t).cases
    (fun _ => settle path options g >>= fun _ => (return 0 : CommandRun Nat)) with
    ⟨none | refuses, e, shown, run⟩ | ⟨_, shown, -, run⟩
  · cases none
  · exact ⟨_, _, run, .inr ⟨rfl, rfl, refuses⟩, fun all => absurd all refuses⟩
  obtain ⟨result, last, ended, given⟩ : Yields (do
      say ("[green]✓[/green] Updated [cyan]" ++ path.text ++ "[/cyan] (" ++
        Text.ofNat g.edits.length ++ " edits)")
      return 0 : CommandRun Nat) { t with shown, tree } (Option.some 0) :=
    (yields_say _ _).andThen fun shown => .pure 0 _
  have settled : (settle path options g >>= fun _ => (return 0 : CommandRun Nat)).run
      { t with shown } =
      (result, { t with tree, shown := last }) := by
    rw [settle, if_neg (by simpa using some), if_neg (by simp [wet]), bind_assoc, run_bind, ran]
    exact ended
  refine ⟨result, _, run.trans settled, .inl edited, fun all => ?_⟩
  exact given.resolve_right fun refused => refused.2 all

theorem code_of_no_edits {request : Request} {text : Text} {before after : Interview}
    (returned : (request.generate text).Returns before g after) (none : g.edits = []) :
    g.code = text := by
  obtain ⟨imports, drafts, -, rfl⟩ := Request.generate_returns.mp returned
  have planned : Dart.planEdits drafts imports = [] := none
  rw [Request.finish, planned]
  exact Text.unlines_lines text

theorem text_of_request {text : Text} {request : Request}
    (asked : request? t.tree file member className options = some (text, request)) :
    t.tree.readText (.ofText file) = .ok text := by
  rw [request?] at asked
  obtain ⟨read, found, asked⟩ := Option.bind_eq_some_iff.mp asked
  obtain ⟨settings, -, asked⟩ := Option.bind_eq_some_iff.mp asked
  obtain ⟨project, -, asked⟩ := Option.bind_eq_some_iff.mp asked
  cases asked
  exact ok_of_toOption found

theorem returns_of_generation (generated : generation? t file member className options = some g) :
    ∃ (text : Text) (request : Request) (after : Interview),
      t.tree.readText (.ofText file) = .ok text ∧
      (request.generate text).Returns (talk options.assumeYes t.interview) g after := by
  obtain ⟨⟨text, request⟩, asked, result⟩ := Option.bind_eq_some_iff.mp generated
  exact ⟨text, request, _, text_of_request asked, Prod.ext (ok_of_toOption result) rfl⟩

/-- Up to the end of the generation nothing is touched. -/
theorem run_runGenerate (file : Text) (member : Option MemberKind) (className : Option Text)
    (options : CommonOptions) (t : Terminal) :
    ((generation? t file member className options = none ∨ ¬ t.console.ShowsAll) ∧ ∃ result after,
        (runGenerate file member className options).run t = (result, after) ∧
          result.toOption ≠ some 0 ∧
          after.tree = t.tree) ∨
      ∃ g between, generation? t file member className options = some g ∧ between.tree = t.tree ∧
        between.console = t.console ∧
        (runGenerate file member className options).run t =
          (conclude (.ofText file) options (.ok g)).run between := by
  rw [runGenerate_eq, generation?]
  rcases (yields_prepare file member className options t).cases _ with
    ⟨missing, e, shown, run⟩ | ⟨⟨text, request⟩, shown, asked, run⟩
  · exact .inl ⟨missing.imp_left fun missing => by rw [missing]; rfl, _, _, run, nofun, rfl⟩
  rw [asked]
  replace run := run.trans
    (run_talking_bind options.assumeYes (request.generate text) (conclude (.ofText file) options)
      { t with shown })
  dsimp only [Option.bind_some] at run ⊢
  cases result : ((request.generate text).result (talk options.assumeYes t.interview)).1 with
  | error e =>
      rw [result] at run
      obtain ⟨status, shown, ended, failed⟩ := reportFailure_fails e
        { t with interview := if options.assumeYes then t.interview else _, shown }
      exact .inl ⟨.inl rfl, _, _, run.trans ended, failed, rfl⟩
  | ok g =>
      rw [result] at run
      refine .inr ⟨g, _, rfl, ?_, ?_, run⟩ <;> rfl

theorem runGenerate_generates (file : Text) (member : Option MemberKind) (className : Option Text)
    (options : CommonOptions) (base : t.tree.node? t.tree.cwd = some .directory) :
    ∃ result after, (runGenerate file member className options).run t = (result, after) ∧
      Generates t file member className options (result.toOption == some 0) after.tree := by
  rcases run_runGenerate file member className options t with
    ⟨missing, result, after, run, failed, kept⟩ | ⟨g, between, generated, tree, console, run⟩
  · have ended : (result.toOption == some 0) = false := by simpa using failed
    refine ⟨result, after, run, fun _ => ⟨ended, kept⟩, fun g found none => ⟨kept, ?_⟩,
      fun _ _ _ => kept, fun g found _ _ => .inr ⟨ended, kept, missing.resolve_left ?_⟩,
      fun found all => absurd all (missing.resolve_left found)⟩
    · obtain ⟨text, request, last, read, returned⟩ := returns_of_generation found
      exact (code_of_no_edits returned none) ▸ read
    · simp [found]
  have some? : generation? t file member className options ≠ none := by simp [generated]
  have only {other : Generated} (found : generation? t file member className options = some other) :
      other = g := Option.some.inj (found.symm.trans generated)
  obtain ⟨text, request, last, read, returned⟩ := returns_of_generation generated
  by_cases idle : g.edits = [] ∨ options.dryRun
  · obtain ⟨result, shown, done, given⟩ := yields_conclude (.ofText file) idle between
    refine ⟨_, _, run.trans done, fun nothing => absurd nothing some?, fun other found none => ?_,
      fun _ _ _ => tree, fun other found edited wet => ?_, fun _ all => ?_⟩
    · rw [only found] at none ⊢
      exact ⟨tree, (code_of_no_edits returned none) ▸ read⟩
    · rw [only found] at edited
      rw [wet] at idle
      exact absurd (idle.resolve_right nofun) edited
    · simpa using given.resolve_right fun refused => refused.2 (console ▸ all)
  · obtain ⟨edits, wet⟩ := not_or.mp idle
    obtain ⟨bytes, raw, stands, -⟩ := FileTree.file_of_readText read
    rw [← tree] at base stands
    obtain ⟨result, after, done, edited, success⟩ :=
      conclude_edits base stands edits (by simpa using wet)
    rw [tree] at edited
    refine ⟨_, _, run.trans done, fun nothing => absurd nothing some?, fun other found none => ?_,
      fun _ _ dry => absurd dry wet, fun other found _ _ => ?_, fun _ all => ?_⟩
    · rw [only found] at none
      exact absurd none edits
    · rw [only found]
      exact edited.imp_right fun ⟨ended, kept, refuses⟩ =>
        ⟨by simp [ended], kept, console ▸ refuses⟩
    · simpa using success (console ▸ all)

end Command

end ValueClass
