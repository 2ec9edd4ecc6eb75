import ValueClass.Text.Digit

/-! # Reading arguments

Options and operands of a command. Every argument is first told to be an
option or a word, then the tokens are read in order. A long option may be
shortened as long as it stays unambiguous, its value may follow in the same
argument, and one-letter options may share an argument.
-/

namespace ValueClass

inductive Stop where
  | help
  /-- The arguments are wrong. -/
  | misuse
  /-- An option that must have a value was given without one. -/
  | valueless (key : Text)
  deriving Repr, DecidableEq

structure OptionSpec where
  /-- The name under which it is recorded. -/
  key : Text
  spellings : List Text
  /-- `none` for a switch; else the values it can have, where an empty list
      stands for any. -/
  choices : Option (List Text) := none
  deriving Repr, DecidableEq

structure Operand where
  /-- The name under which it is recorded. -/
  key : Text
  /-- Whether it may be left out. -/
  isOptional : Bool := false
  deriving Repr, DecidableEq

structure Grammar where
  /-- Its options, beside the one that asks for help. -/
  options : List OptionSpec
  operand : Option Operand := none
  /-- Names of which at most one may be given. -/
  exclusive : List Text := []
  deriving Repr, DecidableEq

def helpOption : OptionSpec where
  key := "help"
  spellings := ["-h", "--help"]

/-- The mark behind which there are words only. -/
def wordsMark : Text := "--"

inductive ArgToken where
  /-- An option, whether it is a long one, and what was written with it. -/
  | option (spec : OptionSpec) (long : Bool) (attached : Option Text)
  /-- Something like an option that the command does not have. -/
  | unknown
  | word (text : Text)
  /-- The mark behind which there are words only. -/
  | marker
  deriving Repr, DecidableEq

namespace ArgToken

/-- Whether an argument is written like a long option. -/
def isLong (arg : Text) : Bool :=
  arg.startsWith "--"

/-- Whether a text is a number without a sign: decimal digits, or some behind
    a point. -/
def isNumber (t : Text) : Bool :=
  let whole := t.takeWhile isDecimalChar
  match t.drop whole.length with
  | [] => !whole.isEmpty
  | '.' :: fraction => !fraction.isEmpty && fraction.all isDecimalChar
  | _ => false

/-- Whether an argument is a negative number. A line end behind it does not
    count. -/
def isNegativeNumber (arg : Text) : Bool :=
  arg.head? == some '-' &&
    isNumber (if arg.getLast? == some '\n' then (arg.drop 1).dropLast else arg.drop 1)

/-- The option with exactly this spelling. -/
def spelled? (options : List OptionSpec) (spelling : Text) : Option OptionSpec :=
  options.find? fun spec => spec.spellings.contains spelling

/-- The options that an argument may be short for. -/
def candidates (options : List OptionSpec) (arg : Text) : List ArgToken :=
  let spelled := options.flatMap fun spec => spec.spellings.map fun s => (spec, s)
  if isLong arg then
    let (name, attached) := match Text.cut? "=" arg with
      | some (name, value) => (name, some value)
      | none => (arg, none)
    (spelled.filter fun (_, s) => s.startsWith name).map fun (spec, _) => .option spec true attached
  else
    spelled.filterMap fun (spec, s) =>
      if s == arg.take 2 then some (.option spec false (some (arg.drop 2))) else none

/-- Understand an argument that starts with a dash. -/
def ofDashed (options : List OptionSpec) (arg : Text) : Except Stop ArgToken :=
  match spelled? options arg with
  | some spec => .ok (.option spec (isLong arg) none)
  | none =>
    let attached := (Text.cut? "=" arg).bind fun (name, value) =>
      (spelled? options name).map fun spec => ArgToken.option spec (isLong arg) (some value)
    match attached with
    | some token => .ok token
    | none =>
      match candidates options arg with
      | [token] => .ok token
      | _ :: _ => .error .misuse
      | [] => .ok (if isNegativeNumber arg || arg.contains ' ' then .word arg else .unknown)

def ofArg (options : List OptionSpec) (arg : Text) : Except Stop ArgToken :=
  if arg.startsWith "-" && 1 < arg.length then ofDashed options arg else .ok (.word arg)

def ofArgs (options : List OptionSpec) : List Text → Except Stop (List ArgToken)
  | [] => .ok []
  | arg :: rest =>
    if arg = wordsMark then .ok (.marker :: rest.map .word)
    else do
      let token ← ofArg options arg
      return token :: (← ofArgs options rest)

def skipMarkers : List ArgToken → List ArgToken
  | .marker :: rest => skipMarkers rest
  | tokens => tokens

/-- The word that comes next, and what follows it. -/
def nextWord? (tokens : List ArgToken) : Option (Text × List ArgToken) :=
  match skipMarkers tokens with
  | .word text :: rest => some (text, skipMarkers rest)
  | _ => none

/-- The word that stands right here, and what follows it. The value of an
    option is such a word. -/
def valueHere? : List ArgToken → Option (Text × List ArgToken)
  | .word text :: rest => some (text, rest)
  | _ => none

/-- The one-letter options in a run of letters, where `hasNext` tells whether
    a word follows the run. An option that takes a value takes what is left of
    the run, or that word. -/
def letters (options : List OptionSpec) (hasNext : Bool) : Text → Except Stop (List ArgToken)
  | [] => .ok []
  | c :: rest =>
    match spelled? options ['-', c] with
    | none => .error .misuse
    | some spec =>
      match spec.choices, rest with
      | none, _ => do return .option spec false none :: (← letters options hasNext rest)
      | some _, [] => if hasNext then .ok [.option spec false none] else .error .misuse
      | some _, _ :: _ => .ok [.option spec false (some rest)]

end ArgToken

structure ReadArgs where
  /-- What was given by name, with its value. A switch has none, nor has an
      option with the mark for words in the place of its value. -/
  values : List (Text × Option Text) := []
  /-- Whether the operand is still to come. -/
  awaitsOperand : Bool := true
  /-- Whether there were arguments that the command does not take. -/
  hasLeftovers : Bool := false
  deriving Repr, DecidableEq

namespace ReadArgs

/-- What was given under a name; the last one counts. -/
def given? (r : ReadArgs) (key : Text) : Option (Option Text) :=
  r.values.reverse.lookup key

/-- Whether something was given under a name. -/
def isGiven (r : ReadArgs) (key : Text) : Bool :=
  (r.given? key).isSome

def value? (r : ReadArgs) (key : Text) : Option Text :=
  (r.given? key).join

/-- The value given under a name, empty when there is none. -/
def text (r : ReadArgs) (key : Text) : Text :=
  (r.value? key).getD []

end ReadArgs

namespace Grammar

/-- All options, the one for help included. -/
def allOptions (g : Grammar) : List OptionSpec :=
  helpOption :: g.options

/-- Record a value, unless it excludes another one. -/
def record (g : Grammar) (r : ReadArgs) (key : Text) (value : Option Text) :
    Except Stop ReadArgs :=
  let clashes := g.exclusive.contains key &&
    r.values.any fun (other, _) => other != key && g.exclusive.contains other
  if clashes then .error .misuse else .ok { r with values := r.values ++ [(key, value)] }

/-- Record the value of an option, if it is one of its choices. -/
def recordChoice (g : Grammar) (r : ReadArgs) (spec : OptionSpec) (choices : List Text)
    (value : Text) : Except Stop ReadArgs :=
  if value = wordsMark then g.record r spec.key none
  else if choices.isEmpty || choices.contains value then g.record r spec.key (some value)
  else .error .misuse

/-- Read tokens in order. Every step passes at least one token or takes a run
    of letters apart, so twice the number of characters bounds the steps. -/
def readTokens (g : Grammar) : Nat → List ArgToken → ReadArgs → Except Stop ReadArgs
  | 0, _, r => .ok r
  | _ + 1, [], r => .ok r
  | fuel + 1, .unknown :: rest, r => g.readTokens fuel rest { r with hasLeftovers := true }
  | fuel + 1, .option spec long attached :: rest, r => do
    match spec.choices, attached with
    | none, none =>
      if spec.key == helpOption.key then throw .help
      g.readTokens fuel rest (← g.record r spec.key none)
    | none, some text =>
      if long || text.isEmpty then throw .misuse
      let more ← ArgToken.letters g.allOptions (ArgToken.valueHere? rest).isSome text
      g.readTokens fuel (.option spec false none :: (more ++ rest)) r
    | some choices, some value => g.readTokens fuel rest (← g.recordChoice r spec choices value)
    | some choices, none =>
      match ArgToken.valueHere? rest with
      | none => throw .misuse
      | some (value, after) => g.readTokens fuel after (← g.recordChoice r spec choices value)
  | fuel + 1, token :: rest, r => do
    match g.operand, r.awaitsOperand, ArgToken.nextWord? (token :: rest) with
    | some operand, true, some (value, after) =>
      g.readTokens fuel after
        { (← g.record r operand.key (some value)) with awaitsOperand := false }
    | some operand, true, none =>
      g.readTokens fuel (ArgToken.skipMarkers rest)
        { r with
          awaitsOperand := !operand.isOptional
          hasLeftovers := r.hasLeftovers || !operand.isOptional }
    | _, _, _ => g.readTokens fuel rest { r with hasLeftovers := true }

/-- A bound on the steps that reading some arguments takes. -/
def stepsFor (args : List Text) : Nat :=
  args.foldl (fun steps arg => steps + 2 * (arg.length + 1)) 1

def read (g : Grammar) (args : List Text) : Except Stop ReadArgs := do
  let tokens ← ArgToken.ofArgs g.allOptions args
  g.readTokens (stepsFor args) tokens {}

end Grammar

end ValueClass
