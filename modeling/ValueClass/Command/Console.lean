import ValueClass.Command.Run

/-! # The console as plain text

How what a command shows is written on a terminal without colours: marks such
as `[red]` and `[/red]` are left out, tables have one row to a line and
listings are written as they are.
-/

namespace ValueClass

namespace Markup

def styles : List Text :=
  ["red", "green", "yellow", "cyan"]

/-- The marks that switch a style on or off. -/
def marks : List Text :=
  styles.flatMap fun style => ["[" ++ style ++ "]", "[/" ++ style ++ "]"]

def strip (t : Text) : Text :=
  marks.foldl (fun t mark => Text.replaceAll mark [] t) t

end Markup

namespace ConsoleItem

/-- The cells of a row, with blanks between them. -/
def rowText (cells : List Text) : Text :=
  Text.join "  " cells

def plainText : ConsoleItem → Text
  | .line text => Markup.strip text
  | .table title columns rows => Text.unlines (title :: (columns :: rows).map rowText)
  | .listing code => code
  | .panel title code _ => Text.unlines [title, code]

end ConsoleItem

namespace Command

/-- How an option is written in the overview of a command. -/
def optionUsage (spec : OptionSpec) : Text :=
  let spelling := (spec.spellings.head?).getD []
  let value : Text := match spec.choices with
    | none => []
    | some [] => " VALUE"
    | some choices => " " ++ Text.join "|" choices
  "[" ++ spelling ++ value ++ "]"

def commandUsage (name : Text) (grammar : Grammar) : Text :=
  let operand := (grammar.operand.map fun operand => [operand.key]).getD []
  Text.join " " (name :: (operand ++ grammar.options.map optionUsage))

def usage : Text :=
  Text.unlines
    ["usage: " ++ commandUsage "dart-data-class" mainGrammar ++ " COMMAND",
     "  " ++ commandUsage "generate" generateGrammar,
     "  " ++ commandUsage "from-json" fromJsonGrammar,
     "  " ++ commandUsage "config" configGrammar]

end Command

end ValueClass
