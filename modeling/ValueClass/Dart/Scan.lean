import ValueClass.Dart.ClassDecl
import ValueClass.Dart.Line

/-! # Finding the classes of a buffer

One pass over the lines. A header opens a class, and the class is closed when
its braces balance again; a header inside an open class ends the search in
that class. Fields are read where one brace and no parenthesis is open.
-/

namespace ValueClass.Dart

structure OpenClass where
  decl : ClassDecl
  braces : Int := 0
  parens : Int := 0
  /-- Whether a brace was opened at all. -/
  opened : Bool := false
  deriving Repr, DecidableEq

namespace OpenClass

def start (lineNo : Nat) (line : Text) : OpenClass :=
  { decl := { header := .parse line, firstLine := lineNo } }

/-- Count the brackets of a line, strings apart, and keep the line. -/
def count (o : OpenClass) (line : Text) : OpenClass :=
  let code := Line.blankStrings line
  { decl := { o.decl with lines := o.decl.lines ++ [line] }
    braces := o.braces + Line.braces code
    parens := o.parens + Line.parens code
    opened := o.opened || code.contains '\x7b' }

/-- Whether the constructor is being read. -/
def inConstructor (o : OpenClass) : Bool :=
  (o.decl.ctor.map fun ctor => ctor.lastLine.isNone).getD false

/-- Start the constructor where a line of the body opens it. `depth` is the
    number of braces that were open before the line. -/
def startConstructor (o : OpenClass) (depth : Int) (lineNo : Nat) (line : Text) : OpenClass :=
  if o.decl.ctor.isNone && depth == 1 && Line.opensConstructor line o.decl.name then
    { o with decl := { o.decl with ctor := some { text := [], firstLine := lineNo } } }
  else o

/-- Add a line to the constructor, which ends with its parentheses. -/
def extendConstructor (o : OpenClass) (lineNo : Nat) (line : Text) : OpenClass :=
  match o.decl.ctor with
  | none => o
  | some ctor =>
    let grown : Constructor :=
      { ctor with
        text := if ctor.text.isEmpty then line else ctor.text ++ "\n" ++ line
        lastLine := if o.parens == 0 then some lineNo else none }
    { o with decl := { o.decl with ctor := some grown } }

def addField (o : OpenClass) (lineNo : Nat) (previous line : Text) : OpenClass :=
  if o.braces == 1 && o.parens == 0 && Line.isField line o.decl.name then
    match Line.field? line lineNo previous with
    | some field => { o with decl := { o.decl with fields := o.decl.fields ++ [field] } }
    | none => o
  else o

def readLine (o : OpenClass) (lineNo : Nat) (previous line : Text) : OpenClass :=
  let next := (o.count line).startConstructor o.braces lineNo line
  if next.inConstructor then next.extendConstructor lineNo line
  else next.addField lineNo previous line

def isClosed (o : OpenClass) : Bool :=
  o.opened && o.braces == 0

/-- The class, closed by the given line. -/
def close (o : OpenClass) (lineNo : Nat) : ClassDecl :=
  { o.decl with lastLine := some lineNo }

end OpenClass

/-- The class as a list; the state of a widget is read but not reported. -/
def report (c : ClassDecl) : List ClassDecl :=
  if c.header.isState then [] else [c]

/-- The classes from a line on, given the class that is open and the line
    before. -/
def scanFrom : Nat → Text → Option OpenClass → List Text → List ClassDecl
  | _, _, none, [] => []
  | _, _, some o, [] => report o.decl
  | lineNo, previous, open?, line :: rest =>
    if Header.isHeader line then
      let started := (OpenClass.start lineNo line).count line
      let interrupted := (open?.map fun o => report o.decl).getD []
      interrupted ++
        (if started.isClosed then
          report (started.close lineNo) ++ scanFrom (lineNo + 1) line none rest
        else scanFrom (lineNo + 1) line (some started) rest)
    else
      match open? with
      | none => scanFrom (lineNo + 1) line none rest
      | some o =>
        let next := o.readLine lineNo previous line
        if next.isClosed then report (next.close lineNo) ++ scanFrom (lineNo + 1) line none rest
        else scanFrom (lineNo + 1) line (some next) rest

/-- The classes of a buffer, in the order of their headers. -/
def scan (text : Text) : List ClassDecl :=
  scanFrom 1 [] none text.lines

end ValueClass.Dart
