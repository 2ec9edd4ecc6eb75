import ValueClass.Dart.ClassDecl

/-! # Constructor parameters

What an existing constructor takes: by position, by name, or by position with
an optional group at the end. Parameters that bind a field are told apart from
all others.
-/

namespace ValueClass.Dart

/-- The bracket inside the parentheses of a parameter list. -/
inductive ParamStyle where
  /-- `(a, b)`, perhaps with a group at the end. -/
  | positional
  /-- All parameters are named. -/
  | named
  | optional
  deriving Repr, DecidableEq

inductive GroupStyle where
  /-- Named parameters in braces. -/
  | named
  /-- Optional parameters in square brackets. -/
  | optional
  deriving Repr, DecidableEq

/-- The characters that open and close a group. -/
def GroupStyle.brackets : GroupStyle → Text × Text
  | .named => ("\x7b", "\x7d")
  | .optional => ("[", "]")

/-- A constructor, cut at its parameter list. -/
structure CtorParts where
  /-- What stands before the class name. -/
  lead : Text
  /-- The bracket of the parameter list. -/
  style : ParamStyle
  inner : Text
  /-- What follows the parameter list. -/
  rest : Text
  deriving Repr, DecidableEq

namespace CtorParts

/-- Whether a character opens a bracket of a parameter list. -/
def opens (c : Char) : Bool :=
  c == '(' || c == '[' || c == '\x7b'

/-- Whether a character closes a bracket of a parameter list. -/
def closes (c : Char) : Bool :=
  c == ')' || c == ']' || c == '\x7d'

/-- The text up to the bracket that closes the last of the open ones, and the
    text behind it. -/
def cutAtClose : Nat → Text → Option (Text × Text)
  | _, [] => none
  | depth, c :: rest =>
    if opens c then (cutAtClose (depth + 1) rest).map fun (inner, after) => (c :: inner, after)
    else if closes c then
      if depth ≤ 1 then some ([], rest)
      else (cutAtClose (depth - 1) rest).map fun (inner, after) => (c :: inner, after)
    else (cutAtClose depth rest).map fun (inner, after) => (c :: inner, after)

/-- The text without its first and last character. -/
def unwrap (t : Text) : Text :=
  (t.drop 1).dropLast

/-- Cut a constructor at its parameter list. A list that is not closed ends
    before the last character. -/
def ofText (text className : Text) : CtorParts :=
  match Text.cut? (className ++ "(") text with
  | none => ⟨[], .positional, [], []⟩
  | some (lead, after) =>
    let (inner, rest) := (cutAtClose 1 after).getD (after.dropLast, [])
    let inner := Text.trim inner
    if inner.startsWith "\x7b" && inner.endsWith "\x7d" then
      ⟨lead.trim, .named, unwrap inner, rest.trim⟩
    else if inner.startsWith "[" && inner.endsWith "]" then
      ⟨lead.trim, .optional, unwrap inner, rest.trim⟩
    else ⟨lead.trim, .positional, inner, rest.trim⟩

/-- The style of a parameter that is a group. -/
def groupStyle? (param : Text) : Option GroupStyle :=
  if param.startsWith "\x7b" && param.endsWith "\x7d" then some .named
  else if param.startsWith "[" && param.endsWith "]" then some .optional
  else none

/-- The parameters before a group at the end, and the group. -/
def splitGroup (params : List Text) : List Text × Option (GroupStyle × List Text) :=
  match params.getLast? with
  | none => (params, none)
  | some last =>
    match groupStyle? last with
    | none => (params, none)
    | some style => (params.dropLast, some (style, Text.splitTopLevel ',' (unwrap last)))

/-- The plain parameters of a constructor and its group. Only a list without
    a bracket of its own has a group. -/
def params (parts : CtorParts) : List Text × Option (GroupStyle × List Text) :=
  let all := Text.splitTopLevel ',' parts.inner
  match parts.style with
  | .positional => splitGroup all
  | _ => (all, none)

end CtorParts

/-- A parameter that binds a field: the name of the field, and the default
    value if there is one. -/
structure FieldParam where
  field : Text
  default? : Option Text
  deriving Repr, DecidableEq

namespace FieldParam

/-- The parameter without a mark that requires it. -/
def withoutMark (param : Text) : Text :=
  let word := (Text.dropStart? "@" param).getD param
  match Text.dropStart? "required" word with
  | some (c :: rest) => if isBlank c then Text.trimStart rest else param
  | _ => param

/-- Read a parameter that binds a field. A default value must stand on one
    line. -/
def ofText? (param : Text) : Option FieldParam :=
  match Text.dropStart? "this." (withoutMark param) with
  | none => none
  | some bound =>
    let field := bound.takeWhile isWordChar
    if field.isEmpty then none
    else
      match Text.trimStart (bound.drop field.length) with
      | [] => some ⟨field, none⟩
      | '=' :: value =>
        match Text.trimStart value with
        | [] => none
        | expression => if expression.contains '\n' then none else some ⟨field, some expression⟩
      | _ => none

end FieldParam

/-- The fields that the existing constructor takes by name. -/
def ClassDecl.namedFields (c : ClassDecl) : List Text :=
  match c.ctor with
  | none => c.fieldNames
  | some ctor =>
    if c.hasNamedConstructor then c.fieldNames
    else
      match (CtorParts.ofText ctor.text c.name).params with
      | (_, some (.named, group)) => (group.filterMap FieldParam.ofText?).map (·.field)
      | _ => []

end ValueClass.Dart
