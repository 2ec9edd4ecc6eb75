import ValueClass.Command.Run
import ValueClass.Proofs.Generate.Run
import ValueClass.Proofs.Workspace.WriteFiles

/-! # Steps of a command

Most steps of a command only look at the files and show something. What such a step goes on with
is a function of the files; it either goes on or ends the command, and nothing is touched. A console
that does not show everything may end the command instead.
-/

namespace ValueClass

theorem ok_of_toOption {ε α : Type} {x : Except ε α} {a : α} (some : x.toOption = some a) :
    x = .ok a := by
  cases x with
  | error e => cases some
  | ok b => exact congrArg Except.ok (Option.some.inj some)

/-- Whether a console shows whatever there is to be shown. -/
def Console.ShowsAll (console : Console) : Prop :=
  ∀ item, console.shows item

namespace CommandRun

open Command

variable {α β : Type} {x : CommandRun α} {f : α → CommandRun β} {t : Terminal}

theorem run_get_bind (f : Terminal → CommandRun β) (t : Terminal) :
    (get >>= f).run t = (f t).run t := rfl

/-- A step that touches nothing goes on with a value, if there is one and the console lets it. -/
def Yields (x : CommandRun α) (t : Terminal) (value : Option α) : Prop :=
  ∃ result shown, x.run t = (result, { t with shown }) ∧
    (result.toOption = value ∨ result.toOption = none ∧ ¬ t.console.ShowsAll)

theorem Yields.pure (a : α) (t : Terminal) : Yields (Pure.pure a) t (some a) :=
  ⟨.ok a, t.shown, rfl, .inl rfl⟩

theorem Yields.throw (e : CommandError) (t : Terminal) :
    Yields (MonadExcept.throw e : CommandRun α) t none :=
  ⟨.error e, t.shown, rfl, .inl rfl⟩

theorem Yields.cases {value : Option α} (first : Yields x t value) (f : α → CommandRun β) :
    ((value = none ∨ ¬ t.console.ShowsAll) ∧
        ∃ e shown, (x >>= f).run t = (.error e, { t with shown })) ∨
      ∃ a shown, value = some a ∧ (x >>= f).run t = (f a).run { t with shown } := by
  obtain ⟨result, shown, run, given⟩ := first
  rw [run_bind, run]
  cases result with
  | error e => exact .inl ⟨given.imp Eq.symm And.right, e, shown, rfl⟩
  | ok a => exact .inr ⟨a, shown, (given.resolve_right nofun).symm, rfl⟩

theorem Yields.bind {value : Option α} {next : α → Option β} (first : Yields x t value)
    (second : ∀ a shown, Yields (f a) { t with shown } (next a)) :
    Yields (x >>= f) t (value.bind next) := by
  rcases first.cases f with ⟨rfl | refuses, e, shown, run⟩ | ⟨a, shown, rfl, run⟩
  · exact ⟨.error e, shown, run, .inl rfl⟩
  · exact ⟨.error e, shown, run, .inr ⟨rfl, refuses⟩⟩
  · obtain ⟨result, shown, last, given⟩ := second a shown
    exact ⟨result, shown, run.trans last, given⟩

theorem Yields.andThen {a : α} {value : Option β} (first : Yields x t (some a))
    (second : ∀ shown, Yields (f a) { t with shown } value) : Yields (x >>= f) t value := by
  rcases first.cases f with ⟨none | refuses, e, shown, run⟩ | ⟨b, shown, same, run⟩
  · cases none
  · exact ⟨.error e, shown, run, .inr ⟨rfl, refuses⟩⟩
  · cases same
    obtain ⟨result, shown, last, given⟩ := second shown
    exact ⟨result, shown, run.trans last, given⟩

theorem yields_display (item : ConsoleItem) (t : Terminal) : Yields (display item) t (some ()) := by
  have run : (display item).run t = if t.console.shows item then
      (.ok (), { t with shown := t.shown ++ [item] })
        else (.error (.broken (.markup item)), t) := by
    change (if !t.console.shows item then (throw (.broken (.markup item)) : CommandRun Unit) else
      modify fun t => { t with shown := t.shown ++ [item] }).run t = _
    cases t.console.shows item <;> rfl
  by_cases shows : t.console.shows item
  · exact ⟨.ok (), t.shown ++ [item], by rw [run, if_pos shows], .inl rfl⟩
  · exact ⟨.error _, t.shown, by rw [run, if_neg shows], .inr ⟨rfl, fun all => shows (all item)⟩⟩

theorem yields_say (text : Text) (t : Terminal) : Yields (say text) t (some ()) :=
  yields_display _ t

theorem yields_warn (text : Text) (t : Terminal) : Yields (warn text) t (some ()) :=
  yields_say _ t

theorem yields_forM {α : Type} (items : List α) {show? : α → CommandRun PUnit}
    (each : ∀ item t, Yields (show? item) t (some ())) (t : Terminal) :
    Yields (items.forM show?) t (some ()) := by
  induction items generalizing t with
  | nil => exact .pure () t
  | cons item rest ih => exact (each item t).andThen fun shown => ih { t with shown }

theorem yields_refuse (e : FileError) (t : Terminal) : Yields (refuse e : CommandRun α) t none := by
  rw [refuse]
  split <;> exact .throw _ t

theorem yields_loaded (result : Except LoadError α) (t : Terminal) :
    Yields (loaded result) t result.toOption := by
  cases result with
  | ok a => exact .pure a t
  | error e => cases e <;> first | exact .throw _ t | exact yields_refuse _ t

theorem yields_configured (heading : Text) (result : Except SettingsError α) (t : Terminal) :
    Yields (configured heading result) t result.toOption := by
  cases result with
  | ok a => exact .pure a t
  | error e =>
      rw [configured.eq_def]
      split
      · rename_i same
        cases same
      · exact yields_refuse _ t
      · split <;> exact .throw _ t

end CommandRun

namespace Command

open CommandRun

variable {t : Terminal}

def settings? (tree : FileTree) (file : Text) (overrides : List (Text × Json)) : Option Settings :=
  (tree.loadSettings file overrides).toOption.bind fun settings =>
    settings.warnings.toOption.bind fun _ => some settings

/-- What a command goes on with about the project of a file. -/
def project? (tree : FileTree) (options : CommonOptions) (anchor : Option Path) : Option Project :=
  (match options.packageName, anchor with
    | none, some path => (Package.nameFor tree path).toOption
    | packageName, _ => some packageName).bind fun packageName =>
  options.flavor.bind fun flavor => some { packageName, flavor }

theorem yields_settingsFor (file : Text) (overrides : List (Text × Json)) (t : Terminal) :
    Yields (settingsFor file overrides) t (settings? t.tree file overrides) := by
  refine (yields_configured _ _ t).bind fun settings shown => ?_
  refine (yields_configured _ _ _).bind fun warnings shown => ?_
  exact (yields_forM warnings yields_warn _).andThen fun shown => .pure settings _

theorem yields_packageFor (options : CommonOptions) (anchor : Option Path) (t : Terminal) :
    Yields (packageFor options anchor) t (match options.packageName, anchor with
      | none, some path => (Package.nameFor t.tree path).toOption
      | packageName, _ => some packageName) := by
  unfold packageFor
  cases options.packageName with
  | some name => exact .pure _ t
  | none =>
      cases anchor with
      | none => exact .pure _ t
      | some path => exact yields_loaded _ t

theorem yields_projectFor (options : CommonOptions) (anchor : Option Path) (t : Terminal) :
    Yields (projectFor options anchor) t (project? t.tree options anchor) := by
  refine (yields_packageFor options anchor t).bind fun packageName shown => ?_
  cases options.flavor with
  | some flavor => exact .pure _ _
  | none => exact .throw _ _

theorem yields_report (verbose : Bool) (metadata : List (Text × Json)) (warnings : List Text)
    (t : Terminal) :
    Yields (report verbose metadata warnings) t (some ()) := by
  have list : ∀ t, Yields (do
      if !warnings.isEmpty then
        say "\n[yellow]⚠️  Warnings:[/yellow]"
        warnings.forM fun warning => say ("  [yellow]•[/yellow] " ++ warning)) t (some ()) := by
    intro t
    split
    · exact (yields_say _ t).andThen fun shown => yields_forM warnings (fun _ => yields_say _) _
    · exact .pure () t
  rw [report]
  split
  · exact (yields_display _ t).andThen fun shown => list _
  · exact list t

end Command

end ValueClass
