import ValueClass.Member.Parameters
import ValueClass.Dart.Libraries
import ValueClass.Style

/-! # The constructor

The text of the unnamed constructor. An existing one keeps its bracket, its
group, its default values, its other parameters and what follows the
parameter list; every field gets one parameter.
-/

namespace ValueClass.Dart

/-- What a new constructor takes over from an existing one. -/
structure KeptParams where
  /-- What stands before the class name. -/
  lead : Text := []
  /-- The bracket of the parameter list. -/
  style : ParamStyle := .named
  /-- Parameters that bind no field, outside the group. -/
  extras : List Text := []
  /-- The bracket of the group. -/
  group : Option GroupStyle := none
  /-- Parameters that bind no field, inside the group. -/
  groupExtras : List Text := []
  /-- The default values of bound fields; the last parameter of a field
      decides. -/
  defaults : List (Text × Option Text) := []
  /-- The fields bound inside the group. -/
  groupFields : List Text := []
  /-- What follows the parameter list. -/
  rest : Text := ";"
  deriving Repr, DecidableEq

namespace KeptParams

def extrasOf (params : List Text) : List Text :=
  params.filter fun p => (FieldParam.ofText? p).isNone

/-- The parameters that bind one of the given fields. -/
def boundOf (fieldNames params : List Text) : List FieldParam :=
  (params.filterMap FieldParam.ofText?).filter fun p => fieldNames.contains p.field

/-- What is kept of an existing constructor of a class. -/
def ofConstructor (c : ClassDecl) (ctor : Constructor) : KeptParams :=
  let parts := CtorParts.ofText ctor.text c.name
  let (params, group) := parts.params
  let grouped := (group.map (·.2)).getD []
  let bound := boundOf c.fieldNames (params ++ grouped)
  { lead := parts.lead
    style := parts.style
    extras := extrasOf params
    group := group.map (·.1)
    groupExtras := extrasOf grouped
    defaults := (bound.map fun p => (p.field, p.default?)).reverse
    groupFields := (boundOf c.fieldNames grouped).map (·.field)
    rest := parts.rest }

/-- Pass a widget's key on to its superclass, unless the constructor does. -/
def withKey (kept : KeptParams) : KeptParams :=
  let takesKey := fun (p : Text) => p.words.contains "key"
  let extras :=
    if (kept.extras ++ kept.groupExtras).any takesKey then kept.extras
    else "Key? key" :: kept.extras
  let passesKey := (extras ++ kept.groupExtras).any fun p => p.endsWith "super.key"
  let rest : Text :=
    if kept.rest.has "super(" || passesKey then kept.rest else ": super(key: key);"
  { kept with extras, rest }

/-- What a class's constructor takes over. -/
def ofClass (c : ClassDecl) : KeptParams :=
  let kept := match c.ctor with
    | some ctor => if ctor.lastLine.isSome then ofConstructor c ctor else {}
    | none => {}
  if c.header.isWidget then kept.withKey else kept

end KeptParams

/-- The form of a parameter that binds a field. -/
inductive ParamForm where
  | withDefault (expression : Text)
  | bare
  | required
  | annotated
  deriving Repr, DecidableEq

namespace ParamForm

/-- The form that a style chooses. Only a named parameter of a field that
    does not admit null has to be given. -/
def choose (style : Style) (named : Bool) (f : Field) : Option Text → ParamForm
  | some expression => .withDefault expression
  | none =>
    if !named || f.isNullable then .bare
    else if style.constructorDefaults && f.type.text != "dynamic" &&
        (f.type.isPrimitive || f.isCollection) then
      .withDefault f.type.defaultValue
    else
      match style.requiredMark with
      | .keyword => .required
      | .annotated => .annotated
      | .unmarked => .bare

def text (name : Text) : ParamForm → Text
  | .withDefault expression => "this." ++ name ++ " = " ++ expression
  | .bare => "this." ++ name
  | .required => "required this." ++ name
  | .annotated => "@required this." ++ name

end ParamForm

/-- The constructor that is written for a class. -/
structure ConstructorPlan where
  kept : KeptParams
  /-- The forms of the parameters outside the group, by field name. -/
  plain : List (Text × ParamForm)
  /-- The forms of the parameters inside the group, by field name. -/
  grouped : List (Text × ParamForm)
  deriving Repr, DecidableEq

namespace ConstructorPlan

def ofClass (style : Style) (c : ClassDecl) : ConstructorPlan :=
  let kept := KeptParams.ofClass c
  let form := fun (named : Bool) (f : Field) =>
    (f.name, ParamForm.choose style named f ((kept.defaults.lookup f.name).getD none))
  let inGroup := fun (f : Field) => kept.groupFields.contains f.name
  { kept
    plain := (c.fields.filter fun f => !inGroup f).map (form (kept.style == .named))
    grouped := (c.fields.filter inGroup).map (form (kept.group == some .named)) }

/-- Whether a parameter carries the annotation. -/
def needsMeta (plan : ConstructorPlan) : Bool :=
  (plan.plain ++ plan.grouped).any fun (_, form) => form == .annotated

def paramLines (indent : Text) (params : List Text) : List Text :=
  params.map fun p => indent ++ p ++ ","

def plainTexts (plan : ConstructorPlan) : List Text :=
  plan.kept.extras ++ plan.plain.map fun (name, form) => form.text name

def groupTexts (plan : ConstructorPlan) : List Text :=
  plan.kept.groupExtras ++ plan.grouped.map fun (name, form) => form.text name

/-- The brackets around a parameter list without group. -/
def styleBrackets : ParamStyle → Text × Text
  | .positional => ("(", ")")
  | .named => ("(\x7b", "\x7d)")
  | .optional => ("([", "])")

/-- Lines with something added to the last of them. -/
def addToLast (addition : Text) : List Text → List Text
  | [] => []
  | [line] => [line ++ addition]
  | line :: rest => line :: addToLast addition rest

/-- The parameter list. A group opens on the last line before it, or with the
    parentheses when nothing comes before it. -/
def listText (plan : ConstructorPlan) (indent : Text) : Text :=
  let plain := paramLines indent plan.plainTexts
  match plan.kept.group with
  | some group =>
    let (opening, closing) := group.brackets
    let opener : Text := if plain.isEmpty then "(" ++ opening else "("
    let lines := addToLast (" " ++ opening) plain ++ paramLines indent plan.groupTexts
    opener ++ "\n" ++ Text.unlines lines ++ "\n" ++ closing ++ ")"
  | none =>
    if plain.isEmpty then "()"
    else
      let (opening, closing) := styleBrackets plan.kept.style
      opening ++ "\n" ++ Text.unlines plain ++ "\n" ++ closing

def text (plan : ConstructorPlan) (indent className : Text) : Text :=
  let kept := plan.kept
  Text.when (!kept.lead.isEmpty) (kept.lead ++ " ") ++ className ++ plan.listText indent ++
    Text.when (!(kept.rest.isEmpty || kept.rest.startsWith ";")) " " ++ kept.rest

end ConstructorPlan

end ValueClass.Dart
