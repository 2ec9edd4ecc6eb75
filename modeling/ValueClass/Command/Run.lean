import ValueClass.Command.Basic
import ValueClass.Settings.Check
import ValueClass.Workspace.Load
import ValueClass.Workspace.SettingsFile
import ValueClass.Workspace.WriteFiles

/-! # Running commands

A command as a function: it takes the files, the replies of the user and the
reply to a request, and gives the exit status, what is shown, and the files as
they are afterwards.
-/

namespace ValueClass

/-- Something that is shown to the user. -/
inductive ConsoleItem where
  /-- A line of text with its markup. -/
  | line (text : Text)
  | table (title : Text) (columns : List Text) (rows : List (List Text))
  | listing (code : Text)
  | panel (title code border : Text)
  deriving Repr, DecidableEq

/-- A console. It may refuse what holds markup that it cannot make sense of. -/
structure Console where
  /-- Whether something can be shown. -/
  shows : ConsoleItem → Bool := fun _ => true

structure Terminal where
  tree : FileTree
  /-- What shows things to the user. -/
  console : Console := {}
  clock : Clock := {}
  interview : Interview := {}
  shown : List ConsoleItem := []
  /-- The pauses that were made. -/
  pauses : List Json := []

/-- What comes from outside while a command runs. -/
structure Outside where
  http : HttpReply := .unreachable
  /-- How strings are tested for dates. -/
  dates : DateTest := .calendar
  /-- How declarations are written. -/
  engine : TemplateEngine := .plain

/-- A failure that no message is made for. -/
inductive Breakdown where
  /-- Settings of the wrong type. -/
  | settings (error : SettingsError)
  /-- A generation that settings of the wrong type break. -/
  | generation (error : GenerateError)
  /-- An address that cannot be taken apart, or an answer without its status. -/
  | loading (error : LoadError)
  /-- A pause that cannot be made. -/
  | writing (error : WriteError)
  /-- A path that the file system does not take. -/
  | path (error : FileError)
  /-- An option without its value. -/
  | valueless (key : Text)
  /-- Something that the console does not show. -/
  | markup (item : ConsoleItem)
  deriving Repr

inductive CommandError where
  | reported (message : Text)
  /-- The file system refused. -/
  | file (error : FileError)
  /-- A failure that no message is made for. -/
  | broken (cause : Breakdown)
  deriving Repr

/-- A running command. What it did outlives a failure. -/
abbrev CommandRun := ExceptT CommandError (StateM Terminal)

namespace CommandRun

def display (item : ConsoleItem) : CommandRun Unit := do
  if !(← get).console.shows item then throw (.broken (.markup item))
  modify fun t => { t with shown := t.shown ++ [item] }

def say (text : Text) : CommandRun Unit :=
  display (.line text)

def warn (text : Text) : CommandRun Unit :=
  say ("[yellow]⚠️  " ++ text ++ "[/yellow]")

/-- End because the file system refused something. -/
def refuse {α : Type} (e : FileError) : CommandRun α :=
  match e.fault with
  | .noEntry => throw (.reported e.message)
  | .zeroInPath => throw (.broken (.path e))
  | _ => throw (.file e)

/-- Go on with loaded text, or report why there is none. -/
def loaded {α : Type} : Except LoadError α → CommandRun α
  | .ok value => return value
  | .error (.refused e) => refuse e
  | .error (.malformedHost url) => throw (.broken (.loading (.malformedHost url)))
  | .error (.statusLost url) => throw (.broken (.loading (.statusLost url)))
  | .error e => throw (.reported e.message)

/-- Go on with settings, or report what is wrong with them. -/
def configured {α : Type} (heading : Text) : Except SettingsError α → CommandRun α
  | .ok value => return value
  | .error (.refused e) => refuse e
  | .error e =>
    if e.isReported then throw (.reported (heading ++ e.message)) else throw (.broken (.settings e))

def onFiles (work : FileRun Unit) : CommandRun Unit := do
  let t ← get
  let (result, tree) := work.run t.tree
  set { t with tree }
  match result with
  | .ok () => return ()
  | .error e => refuse e

/-- Let a generation talk with the user. With `assumeYes` nobody is asked. -/
def talking {α : Type} (assumeYes : Bool) (run : Run α) : CommandRun (Except GenerateError α) := do
  let t ← get
  if assumeYes then return (run.run {}).1
  let (result, interview) := run.run t.interview
  set { t with interview }
  return result

end CommandRun

namespace Command

open CommandRun

/-- The settings for a command; warnings about them are shown. -/
def settingsFor (file : Text) (overrides : List (Text × Json)) : CommandRun Settings := do
  let heading : Text := "Configuration error: "
  let settings ← configured heading ((← get).tree.loadSettings file overrides)
  (← configured heading settings.warnings).forM warn
  return settings

/-- The package that a command is run for: the given one, or that of a file. -/
def packageFor (options : CommonOptions) (anchor : Option Path) : CommandRun (Option Text) := do
  match options.packageName, anchor with
  | none, some path => loaded (Package.nameFor (← get).tree path)
  | packageName, _ => return packageName

/-- What is known about the project of a file. -/
def projectFor (options : CommonOptions) (anchor : Option Path) : CommandRun Project := do
  let packageName ← packageFor options anchor
  match options.flavor with
  | some flavor => return { packageName, flavor }
  | none => throw (.broken (.valueless "flavor"))

/-- A key as a heading: its words capitalised. -/
def heading (key : Text) : Text :=
  Text.join " " ((key.runs (· != '_')).map fun word =>
    match word with
    | [] => []
    | c :: rest => c.toUpper :: rest)

/-- Show the facts and the warnings of a generation. -/
def report (verbose : Bool) (metadata : List (Text × Json)) (warnings : List Text) :
    CommandRun Unit := do
  if verbose then
    display (.table "📊 Generation Metadata" ["Property", "Value"]
      (metadata.map fun (key, value) => [heading key, value.plain]))
  if !warnings.isEmpty then
    say "\n[yellow]⚠️  Warnings:[/yellow]"
    warnings.forM fun warning => say ("  [yellow]•[/yellow] " ++ warning)

def reportFailure : GenerateError → CommandRun Unit
  | .cancelled question => warn (GenerateError.cancelled question).message
  | e =>
    if e.isReported then say ("[red]✗[/red] " ++ e.message) else throw (.broken (.generation e))

/-- Write the members of the classes in a file. -/
def runGenerate (file : Text) (member : Option MemberKind) (className : Option Text)
    (options : CommonOptions) : CommandRun Nat := do
  let path := Path.ofText file
  let text ← loaded ((← get).tree.readText path)
  let settings ← settingsFor options.config []
  let project ← projectFor options (some path)
  let request : Request := { style := settings.style, project, selector := member, className }
  match ← talking options.assumeYes (request.generate text) with
  | .error e => do
    reportFailure e
    return 1
  | .ok generated => do
    report options.verbose generated.metadata generated.warnings
    if generated.edits.isEmpty then
      say "[green]✓[/green] Everything is up to date"
    else if options.dryRun then
      display (.listing generated.code)
    else
      onFiles (FileTree.writeText path generated.code)
      say ("[green]✓[/green] Updated [cyan]" ++ path.text ++ "[/cyan] (" ++
        Text.ofNat generated.edits.length ++ " edits)")
    return 0

def showWritten (written : List Path) : CommandRun Unit := do
  if !written.isEmpty then
    let numbered := written.zipIdx 1
    display (.table "📄 Generated Files" ["#", "File"]
      (numbered.map fun (path, n) => [Text.ofNat n, path.text]))

/-- Write generated files into a directory. -/
def writeFiles (directory : Path) (delay : Json) (assumeYes : Bool) (files : List GeneratedFile) :
    CommandRun Nat := do
  let t ← get
  let start : Writing :=
    { tree := t.tree
      clock := t.clock
      interview := if assumeYes then {} else t.interview }
  let (result, w) := (Writing.writeAll directory delay files).run start
  set { t with
    tree := w.tree
    interview := if assumeYes then t.interview else w.interview
    pauses := t.pauses ++ w.pauses }
  match result with
  | .ok () => do
    showWritten w.written
    return 0
  | .error (.stopped path) => do
    warn (WriteError.stopped path).message
    showWritten w.written
    return 1
  | .error (.refused e) => refuse e
  | .error .pauseNotNumber => throw (.broken (.writing .pauseNotNumber))
  | .error .pauseRefused => throw (.broken (.writing .pauseRefused))

/-- The entries that options of the command line override. -/
def overridesOf (separate : Option Text) (detectTimestamps : Bool) : List (Text × Json) :=
  (match separate with
    | some policy => [(Setting.jsonSeparate.name, .str policy)]
    | none => []) ++
  (if detectTimestamps then [(Setting.jsonDetectTimestamps.name, .bool true)] else [])

/-- The directory that generated files go to: the given one, the one of the
    input file, or the current one. -/
def outputDirectory (tree : FileTree) (outputDir file : Text) : Path :=
  if !outputDir.isEmpty then .ofText outputDir
  else if !file.isEmpty then (Path.ofText file).parent
  else { root := "/", parts := tree.cwd }

/-- What comes of a document for which the name has no value: only what is
    wrong with the document itself is reported. -/
def generateUnnamed (document : Text) : CommandRun (Except GenerateError GeneratedFiles) :=
  match (JsonSource.document document).members with
  | .error e => return .error e
  | .ok _ => throw (.broken (.valueless "name"))

/-- Write the classes of a JSON document. -/
def runFromJson (outside : Outside) (file url : Text) (name separate : Option Text)
    (outputDir : Text) (detectTimestamps : Bool) (options : CommonOptions) : CommandRun Nat := do
  let source ← loaded ((← get).tree.loadJson file url outside.http)
  say ("Loaded: " ++ source.source)
  let settings ← settingsFor options.config (overridesOf separate detectTimestamps)
  let project ← projectFor options (if file.isEmpty then none else some (.ofText file))
  let result ← match name with
    | none => generateUnnamed source.text
    | some rootName =>
      let request : JsonRequest :=
        { source := .document source.text
          rootName
          style := settings.style
          project
          dates := outside.dates
          engine := outside.engine }
      talking options.assumeYes request.generate
  match result with
  | .error e => do
    reportFailure e
    return 1
  | .ok generated => do
    report options.verbose generated.metadata generated.warnings
    if options.dryRun then
      generated.files.forM fun file =>
        display (.panel file.name file.content (if file.isCurrent then "green" else "blue"))
      return 0
    let directory := outputDirectory (← get).tree outputDir file
    writeFiles directory (settings.value .jsonWriteDelay) options.assumeYes generated.files

def exampleEntries : List (Text × Json) :=
  [(Setting.constructorDefaultValues.name, .bool true),
   (Setting.copyWithEnabled.name, .bool true),
   (Setting.fromMapDefaultValues.name, .bool true),
   (Setting.hashCodeStrategy.name, .str "combinator"),
   (Setting.jsonSeparate.name, .str "always"),
   (Setting.useEquatable.name, .bool false)]

def runConfig (file : Text) (fromExample : Bool) (output : Text) : CommandRun Nat := do
  let overrides := if fromExample then exampleEntries else []
  let settings ← configured "Configuration error: " ((← get).tree.loadSettings file overrides)
  let entries ← configured [] settings.entries
  display (.table "⚙️  Configuration" ["Setting", "Value"]
    (entries.map fun (name, value) => [name, value.plain]))
  if !output.isEmpty then
    let tree ← configured [] ((← get).tree.saveSettings settings (.ofText output))
    modify fun t => { t with tree }
    say ("[green]✓[/green] Configuration saved to [cyan]" ++ output ++ "[/cyan]")
  return 0

/-- Run a command; the result is its exit status. -/
def perform (outside : Outside) : Command → CommandRun Nat
  | .generate file member className options => runGenerate file member className options
  | .fromJson file url name separate outputDir detectTimestamps options =>
    runFromJson outside file url name separate outputDir detectTimestamps options
  | .config file fromExample output => runConfig file fromExample output
  | .nothing => return 1

def endWith (message : Text) (t : Terminal) : Except Breakdown Nat × Terminal :=
  if t.console.shows (.line message) then (.ok 1, { t with shown := t.shown ++ [.line message] })
  else (.error (.markup (.line message)), t)

/-- Run a command line: the exit status, or the failure that no message is
    made for, and the terminal afterwards. -/
def runLine (outside : Outside) (args : List Text) (t : Terminal) :
    Except Breakdown Nat × Terminal :=
  match ofArgs args with
  | .error .help => (.ok 0, t)
  | .error .misuse => (.ok 2, t)
  | .error (.valueless key) => (.error (.valueless key), t)
  | .ok command =>
    match (perform outside command).run t with
    | (.ok status, t) => (.ok status, t)
    | (.error (.reported message), t) => endWith ("[red]✗ Error:[/red] " ++ message) t
    | (.error (.file e), t) => endWith ("[red]✗ File error:[/red] " ++ e.message) t
    | (.error (.broken cause), t) => (.error cause, t)

end Command

end ValueClass
