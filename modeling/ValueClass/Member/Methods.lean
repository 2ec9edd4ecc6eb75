import ValueClass.Member.Parameters
import ValueClass.Dart.Codec
import ValueClass.Dart.Libraries
import ValueClass.Style

/-! # The methods

The text of every member but the constructor. Classes with at most three
fields get the short form of a member where it has one.
-/

namespace ValueClass.Dart.Method

/-- The mark of a member that takes the place of an inherited one. -/
def overrideMark : Text := "@override\n"

def block (indent signature : Text) (body : List Text) : Text :=
  let inner := body.map fun line => if line.isEmpty then line else indent ++ line
  Text.unlines ((signature ++ " \x7b") :: (inner ++ ["\x7d".toList]))

/-- Lines that each end in a comma, one level in. -/
def items (indent : Text) (texts : List Text) : List Text :=
  texts.map fun t => indent ++ t ++ ","

/-- Lines between a first and a last one. -/
def enclosed (first : Text) (lines : List Text) (last : Text) : List Text :=
  first :: (lines ++ [last])

/-- An argument, by name where the constructor takes it so. -/
def argument (named : List Text) (name value : Text) : Text :=
  if named.contains name then name ++ ": " ++ value else value

/-- The type of a parameter that may be left out. -/
def optionalType (f : Field) : Text :=
  if f.isNullable || f.type.text = "dynamic" then f.rawType else f.rawType ++ "?"

/-- `copyWith`: a copy with some fields changed. -/
def copyWith (indent : Text) (c : ClassDecl) : Text :=
  let params := c.fields.map fun f => optionalType f ++ " " ++ f.name
  let args := c.fields.map fun f =>
    argument c.namedFields f.name (f.name ++ " ?? this." ++ f.name)
  c.type ++ " copyWith(\x7b\n" ++ Text.unlines (items indent params) ++ "\n\x7d) \x7b\n" ++
    indent ++ "return " ++ c.name ++ "(\n" ++
    Text.unlines ((items indent args).map fun a => indent ++ a) ++ "\n" ++ indent ++ ");\n\x7d"

def toMap (indent : Text) (fromJson : Bool) (c : ClassDecl) : Text :=
  let entries := c.fields.map fun f =>
    "'" ++ f.key ++ "': " ++ Codec.encode fromJson f f.name
  block indent "Map<String, dynamic> toMap()"
    (enclosed "return \x7b" (items indent entries) "\x7d;")

/-- The value of a field in a map. A missing value of a field that admits null
    stays null; other missing values get defaults where the style asks for
    them. -/
def decoded (mapDefaults fromJson : Bool) (f : Field) : Text :=
  let value : Text := "map['" ++ f.key ++ "']"
  let withDefaults := mapDefaults && !f.isNullable
  if withDefaults && f.isCollection then
    Codec.decode fromJson f ("(" ++ value ++ " ?? " ++ f.type.defaultValue ++ ")")
  else
    let expression := Codec.decode fromJson f value
    if f.isNullable then
      if expression == value || expression.startsWith (value ++ "?.") then expression
      else value ++ " != null ? " ++ expression ++ " : null"
    else if withDefaults && f.needsDefault then expression ++ " ?? " ++ f.type.defaultValue
    else expression

def fromMap (indent : Text) (mapDefaults fromJson : Bool) (c : ClassDecl) : Text :=
  let args := c.fields.map fun f => argument c.namedFields f.name (decoded mapDefaults fromJson f)
  block indent ("factory " ++ c.name ++ ".fromMap(Map<String, dynamic> map)")
    (enclosed ("return " ++ c.name ++ "(") (items indent args) ");")

def toJson : Text := "String toJson() => json.encode(toMap());"

/-- `fromJson`: an instance from JSON text. -/
def fromJson (c : ClassDecl) : Text :=
  "factory " ++ c.name ++ ".fromJson(String source) => " ++ c.name ++
    ".fromMap(json.decode(source) as Map<String, dynamic>);"

/-- `toString`: the name of the class and the values of its fields. -/
def toString (indent : Text) (c : ClassDecl) : Text :=
  let values := Text.join ", " (c.fieldNames.map fun name => name ++ ": $" ++ name)
  let text : Text := "'" ++ c.name ++ "(" ++ values ++ ")'"
  overrideMark ++
    (if c.hasFewFields then "String toString() => " ++ text ++ ";"
      else block indent "String toString()" ["return " ++ text ++ ";"])

/-- Lines with a separator behind each and a semicolon behind the last. -/
def chain (separator : Text) : List Text → List Text
  | [] => []
  | [last] => [last ++ ";"]
  | line :: rest => (line ++ separator) :: chain separator rest

/-- `operator ==`: all fields are equal, collections by their elements. -/
def equality (indent : Text) (helper : Option EqualityHelper) (c : ClassDecl) : Text :=
  let comparisons := c.fields.map fun f =>
    match helper with
    | some h =>
      if f.isCollection then h.function ++ "(other." ++ f.name ++ ", " ++ f.name ++ ")"
      else "other." ++ f.name ++ " == " ++ f.name
    | none => "other." ++ f.name ++ " == " ++ f.name
  let declaration := ((helper.bind (·.declaration)).map fun line => [line]).getD []
  let body : List Text :=
    "if (identical(this, other)) return true;".toList :: declaration ++ [[]] ++
      (("return other is " ++ c.type ++ " &&") ::
        (chain " &&" comparisons).map fun line => indent ++ line)
  overrideMark ++ block indent "bool operator ==(Object other)" body

/-- `hashCode` by the library's combinator. -/
def hashAll (indent : Text) (c : ClassDecl) : Text :=
  if c.hasFewFields then
    "int get hashCode => Object.hashAll([" ++ Text.join ", " c.fieldNames ++ "]);"
  else
    block indent "int get hashCode"
      (enclosed "return Object.hashAll([" (items indent c.fieldNames) "]);")

def hashXor (indent : Text) (c : ClassDecl) : Text :=
  let codes : List Text := c.fields.map fun f => f.name ++ ".hashCode"
  if c.hasFewFields then "int get hashCode => " ++ Text.join " ^ " codes ++ ";"
  else
    match chain " ^" codes with
    | [] => []
    | first :: rest =>
      block indent "int get hashCode" (("return " ++ first) :: rest.map fun line => indent ++ line)

/-- `hashCode`: the hash codes of all fields, combined. -/
def hashCode (indent : Text) (strategy : HashStrategy) (c : ClassDecl) : Text :=
  overrideMark ++
    match strategy with
    | .combinator => hashAll indent c
    | .xor => hashXor indent c

/-- `props`: the fields that the equatable package compares. -/
def props (indent : Text) (c : ClassDecl) : Text :=
  overrideMark ++
    (if c.hasFewFields then
      "List<Object?> get props => [" ++ Text.join ", " c.fieldNames ++ "];"
    else
      block indent "List<Object?> get props"
        (enclosed "return [" (items indent c.fieldNames) "];"))

/-- The start of the signature that a member is found by. -/
def finder (c : ClassDecl) : MemberKind → Text
  | .constructor => []
  | .copyWith => c.type ++ " copyWith("
  | .toMap => "Map<String, dynamic> toMap()"
  | .fromMap => "factory " ++ c.name ++ ".fromMap("
  | .toJson => "String toJson()"
  | .fromJson => "factory " ++ c.name ++ ".fromJson("
  | .toString => "String toString()"
  | .equality => "bool operator =="
  | .hashCode => "int get hashCode"
  | .props => "List<Object?> get props"

end ValueClass.Dart.Method
