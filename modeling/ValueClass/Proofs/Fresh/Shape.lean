import ValueClass.Proofs.Dart.Reading
import ValueClass.Proofs.Fresh.Sheet

/-! # The shape of a class

A fresh class and the class that is written for it have one shape: a header, the
fields, a constructor and some methods, of which the last two may be missing. A
class of that shape is read back as it was written.
-/

namespace ValueClass

namespace Dart.Line

theorem announcesEnum_eq_false {line : Text} (h : '/' ∉ line) : announcesEnum line = false := by
  unfold announcesEnum
  split
  · rename_i rest same
    exact absurd (Text.mem_of_mem_trim (by rw [same]; simp)) h
  · rfl

end Dart.Line

namespace Fresh

open Dart Dart.Line

/-! ## Fields -/

def placed : Nat → List FieldText → List Field
  | _, [] => []
  | lineNo, f :: rest => f.field lineNo :: placed (lineNo + 1) rest

/-- The fields of some rows on consecutive lines. -/
def numbered : Nat → List FieldRow → List Field
  | _, [] => []
  | lineNo, f :: rest => f.field lineNo :: numbered (lineNo + 1) rest

theorem numbered_map_row (fields : List FieldText) (lineNo : Nat) :
    numbered lineNo (fields.map FieldText.row) = placed lineNo fields := by
  induction fields generalizing lineNo with
  | nil => rfl
  | cons f rest ih =>
      rw [List.map_cons, numbered, ih]
      rfl

theorem placed_map {α : Type} {g : Field → α}
    (level : ∀ (f : FieldText) (n : Nat), g (f.field n) = g (f.field 1)) (fields : List FieldText)
    (lineNo : Nat) :
    (placed lineNo fields).map g = (fields.map (·.field 1)).map g := by
  induction fields generalizing lineNo with
  | nil => rfl
  | cons f rest ih => rw [placed, List.map_cons, ih, List.map_cons, List.map_cons, level]

theorem length_placed (fields : List FieldText) (lineNo : Nat) :
    (placed lineNo fields).length = fields.length := by
  induction fields generalizing lineNo with
  | nil => rfl
  | cons f rest ih => rw [placed, List.length_cons, ih, List.length_cons]

theorem getLast?_placed {fields : List FieldText} (nonempty : fields ≠ []) (lineNo : Nat) :
    (placed (lineNo + 1) fields).getLast?.map (·.line) = some (lineNo + fields.length) := by
  induction fields generalizing lineNo with
  | nil => exact absurd rfl nonempty
  | cons f rest ih =>
      cases rest with
      | nil => rfl
      | cons next more =>
          rw [placed, placed, List.getLast?_cons_cons, ← placed, ih (by simp)]
          simp only [List.length_cons, Option.some.injEq]
          omega

def listing (o : OpenClass) (ls : List Text) (fields : List Field) : OpenClass :=
  { o with decl := { o.decl with lines := o.decl.lines ++ ls, fields := o.decl.fields ++ fields } }

section Fields

variable {o : OpenClass} {lineNo : Nat} {previous : Text}

theorem FieldRow.opensConstructor_line (f : FieldRow) {className : Text}
    (name : ∀ d ∈ className, isWordChar d) :
    opensConstructor f.line className = false := by
  have split : f.line =
      f.indent ++ ("final".toList ++ ' ' :: (f.type.text ++ (' ' :: (f.name ++ [';'])))) := by
    rw [FieldRow.line, f.declaration_eq]
    rfl
  rw [split]
  exact opensConstructor_eq_false f.blank name (by decide) (by decide) (by decide)
    (by decide) (by decide)

theorem readLine_field (f : FieldRow) {className : Text} (name : IsIdentifier className)
    (other : className.head? ≠ some 'f') (named : o.decl.name = className) (braces : o.braces = 1)
    (parens : o.parens = 0) (missing : o.decl.ctor = none)
    (plain : announcesEnum previous = false) :
    o.readLine lineNo previous f.line = listing o [f.line] [f.field lineNo] := by
  have code : blankStrings f.line = f.line := blankStrings_eq_self f.unquoted_line
  have level : Line.braces f.line = 0 := (snippet_light f.light_line).raw
  have closed : '\x7b' ∉ f.line := f.notMem_line (by decide) (by decide)
  have counted : o.count f.line = listing o [f.line] [] := by
    simp [OpenClass.count, listing, code, level, f.parens_line, closed]
  have started : (o.count f.line).startConstructor o.braces lineNo f.line = o.count f.line := by
    rw [OpenClass.startConstructor, if_neg]
    rw [show (o.count f.line).decl.name = className from named,
      f.opensConstructor_line name.wordChars]
    simp
  have complete : (o.count f.line).inConstructor = false := by
    simp [OpenClass.inConstructor, counted, listing, missing]
  have field : (o.count f.line).addField lineNo previous f.line =
      listing o [f.line] [f.field lineNo] := by
    rw [counted, OpenClass.addField, if_pos]
    · rw [f.field?_line lineNo plain]
      simp [listing]
    · rw [show (listing o [f.line] []).decl.name = className from named,
        f.isField_line name.ne_nil other]
      simp [listing, braces, parens]
  rw [OpenClass.readLine, started, complete]
  simpa using field

theorem reads_rows {rows : List FieldRow} {className : Text} (name : IsIdentifier className)
    (other : className.head? ≠ some 'f') (named : o.decl.name = className) (braces : o.braces = 1)
    (parens : o.parens = 0) (missing : o.decl.ctor = none)
    (plain : announcesEnum previous = false) :
    o.Reads lineNo previous (rows.map (·.line))
      (listing o (rows.map (·.line)) (numbered lineNo rows)) := by
  induction rows generalizing o lineNo previous with
  | nil => simpa [listing, numbered] using OpenClass.reads_nil o lineNo previous
  | cons f rest ih =>
      have step : o.Reads lineNo previous [f.line] (listing o [f.line] [f.field lineNo]) := by
        refine OpenClass.reads_line f.isHeader_line
          (readLine_field f name other named braces parens missing plain) ?_
        rw [OpenClass.isClosed, Bool.and_eq_false_iff]
        exact .inr (by simp [listing, braces])
      have next : announcesEnum f.line = false :=
        announcesEnum_eq_false (f.notMem_line (by decide) (by decide))
      have more : (listing o [f.line] [f.field lineNo]).Reads (lineNo + 1) f.line
          (rest.map (·.line))
          (listing (listing o [f.line] [f.field lineNo]) (rest.map (·.line))
            (numbered (lineNo + 1) rest)) :=
        ih named braces parens missing next
      have whole := step.append more
      simpa [listing, numbered] using whole

theorem reads_fields {fields : List FieldText} {className : Text} (name : IsIdentifier className)
    (upper : ∃ c rest, className = c :: rest ∧ c.isUpper) (named : o.decl.name = className)
    (braces : o.braces = 1) (parens : o.parens = 0) (missing : o.decl.ctor = none)
    (plain : announcesEnum previous = false) :
    o.Reads lineNo previous (fields.map (·.line))
      (listing o (fields.map (·.line)) (placed lineNo fields)) := by
  have other : className.head? ≠ some 'f' := by
    obtain ⟨c, rest, rfl, upper⟩ := upper
    rintro ⟨⟩
    exact absurd upper (by decide)
  have lines : (fields.map FieldText.row).map (·.line) = fields.map (·.line) := by
    rw [List.map_map]
    exact List.map_congr_left fun f _ => f.line_row
  have rows : o.Reads lineNo previous ((fields.map FieldText.row).map (·.line)) _ :=
    reads_rows name other named braces parens missing plain
  rwa [lines, numbered_map_row] at rows

end Fields

/-! ## Classes -/

def headed (name : Text) (extended : Bool) (lineNo : Nat) : OpenClass where
  decl :=
    { header := headerParts name extended, firstLine := lineNo
      lines := [headerLine name extended] }
  braces := 1
  opened := true

section Header

variable {name : Text} {extended : Bool} {lineNo : Nat} {o : OpenClass}

theorem start_headerLine (h : IsIdentifier name) (extended : Bool) (lineNo : Nat) :
    (OpenClass.start lineNo (headerLine name extended)).count (headerLine name extended) =
      headed name extended lineNo := by
  have unquoted := blankStrings_eq_self (unquoted_headerLine h extended)
  have weighs := (weighs_headerLine h extended).raw
  have opens : (headerLine name extended).contains '\x7b' = true := by
    rw [List.contains_iff_mem]
    unfold headerLine
    simp only [List.mem_append]
    exact .inr (.inr (.inr (by decide)))
  simp only [OpenClass.count, OpenClass.start, unquoted, weighs, parens_headerLine h, opens,
    parse_headerLine h]
  rfl

theorem scanFrom_headerLine (h : IsIdentifier name) (extended : Bool) (lineNo : Nat)
    (previous : Text) (rest : List Text) :
    scanFrom lineNo previous none (headerLine name extended :: rest) =
      scanFrom (lineNo + 1) (headerLine name extended)
        (some (headed name extended lineNo)) rest := by
  rw [scanFrom, if_pos (isHeader_headerLine h extended), start_headerLine h]
  dsimp only
  rw [if_neg (by simp [OpenClass.isClosed, headed])]
  rfl

theorem announcesEnum_headerLine (h : IsIdentifier name) (extended : Bool) :
    announcesEnum (headerLine name extended) = false :=
  announcesEnum_eq_false (notMem_headerLine h extended (by decide) (by decide))

theorem isState_headerParts (name : Text) (extended : Bool) :
    (headerParts name extended).isState = false := by
  cases extended <;> rfl

theorem opensConstructor_brace (className : Text) : opensConstructor "\x7d" className = false := by
  show List.isPrefixOf (className ++ ['(']) ['\x7d'] = false
  cases className with
  | nil => rfl
  | cons c rest => cases rest <;> simp [List.isPrefixOf]

theorem scanFrom_brace (braces : o.braces = 1) (complete : o.inConstructor = false)
    (opened : o.opened) (lineNo : Nat) (previous : Text) (rest : List Text) :
    scanFrom lineNo previous (some o) ("\x7d".toList :: rest) =
      report { o.decl with lines := o.decl.lines ++ ["\x7d".toList], lastLine := some lineNo } ++
        scanFrom (lineNo + 1) "\x7d".toList none rest := by
  have level : o.braces + Line.braces "\x7d".toList = 0 := by
    rw [braces]
    decide
  have read : o.readLine lineNo previous "\x7d".toList =
      o.grown ["\x7d".toList] (o.braces + Line.braces "\x7d".toList)
      (o.parens + Line.parens (blankStrings "\x7d".toList)) :=
    OpenClass.readLine_mute written_brace.hides (fun _ => opensConstructor_brace o.decl.name)
      (fun inside => absurd (level.symm.trans inside) (by decide)) rfl complete opened
  rw [level] at read
  rw [OpenClass.scanFrom_close (by decide) read
    (by simp [OpenClass.isClosed, OpenClass.grown, opened])]
  rfl

theorem scanFrom_class (h : IsIdentifier name) {body : List Text}
    (reads : (headed name extended lineNo).Reads (lineNo + 1) (headerLine name extended) body o)
    (header : o.decl.header = headerParts name extended) (braces : o.braces = 1)
    (complete : o.inConstructor = false) (opened : o.opened) (previous : Text) (rest : List Text) :
    scanFrom lineNo previous none (headerLine name extended :: (body ++ "\x7d".toList :: rest)) =
      { o.decl with lines :=
        o.decl.lines ++ ["\x7d".toList], lastLine := some (lineNo + 1 + body.length) } ::
        scanFrom (lineNo + 1 + body.length + 1) "\x7d".toList none rest := by
  have shown : o.decl.header.isState = false := header ▸ isState_headerParts name extended
  rw [scanFrom_headerLine h, reads, scanFrom_brace braces complete opened, report,
    if_neg (by simp [shown])]
  rfl

/-- A class of some fields is read back from its text. -/
theorem scan_rows (h : IsIdentifier name) (other : name.head? ≠ some 'f') (rows : List FieldRow) :
    let lines := headerLine name false :: (rows.map (·.line) ++ ["\x7d".toList])
    scan (Text.unlines lines) =
      [{ header := headerParts name false, firstLine := 1, lastLine := some lines.length, lines,
         fields := numbered 2 rows }] := by
  intro lines
  have noFeed : ∀ line ∈ lines, '\n' ∉ line := by
    intro line member
    rcases List.mem_cons.mp member with rfl | member
    · exact notMem_headerLine h false (by decide) (by decide)
    · rcases List.mem_append.mp member with member | member
      · obtain ⟨f, -, rfl⟩ := List.mem_map.mp member
        exact f.notMem_line (by decide) (by decide)
      · rw [List.mem_singleton.mp member]
        decide
  have reads : (headed name false 1).Reads 2 (headerLine name false) (rows.map (·.line)) _ :=
    reads_rows h other rfl rfl rfl rfl (announcesEnum_headerLine h false)
  have count : 1 + 1 + (rows.map (·.line)).length = lines.length := by
    simp only [lines, List.length_cons, List.length_append, List.length_nil]
    omega
  rw [scan, Text.lines_unlines (List.cons_ne_nil _ _) noFeed,
    scanFrom_class h reads rfl rfl rfl rfl, count]
  rfl

end Header

/-- The lines of a constructor below the fields; nothing for none. -/
def ctorPart : Option (List Text) → List Text
  | none => []
  | some ls => [] :: ls

def readCtor (lineNo : Nat) : Option (List Text) → Option Constructor
  | none => none
  | some ls => some
      { text := Text.unlines ls, firstLine := lineNo + 2,
        lastLine := some (lineNo + 1 + ls.length) }

/-- Lines that are read as the constructor of a class. -/
def IsCtor (className : Text) (ls : List Text) : Prop :=
  ∃ first params last, ls = first :: (params ++ [last]) ∧ opensConstructor first className ∧
    OpenClass.CtorLine 1 1 first ∧ (∀ line ∈ params, OpenClass.CtorLine 0 0 line) ∧
    OpenClass.CtorLine (-1) (-1) last

namespace ClassText

variable (c : ClassText)

/-- The lines of a class with a constructor and methods. -/
def shape (extended : Bool) (ctor : Option (List Text)) (methods : List Text) : List Text :=
  headerLine c.name extended ::
    (c.fields.map (·.line) ++ (ctorPart ctor ++ (methods ++ ["\x7d".toList])))

def read (extended : Bool) (ctor : Option (List Text)) (methods : List Text) (lineNo : Nat) :
    ClassDecl where
  header := headerParts c.name extended
  firstLine := lineNo
  lastLine := some (lineNo + (c.shape extended ctor methods).length - 1)
  lines := c.shape extended ctor methods
  fields := placed (lineNo + 1) c.fields
  ctor := readCtor (lineNo + c.fields.length) ctor

theorem opensConstructor_blank {line : Text} (blank : line.trim = []) :
    opensConstructor line c.name = false := by
  obtain ⟨e, more, same, -⟩ := c.upper
  rw [opensConstructor, blank]
  show List.isPrefixOf (c.name ++ "(".toList) [] = false
  rw [same]
  rfl

/-- The blank line and the constructor below the fields. -/
theorem reads_ctor {ctor : Option (List Text)} (ctorLines : ∀ ls, ctor = some ls → IsCtor c.name ls)
    {o : OpenClass} (named : o.decl.name = c.name) (braces : o.braces = 1) (parens : o.parens = 0)
    (missing : o.decl.ctor = none) (opened : o.opened) (lineNo : Nat) (previous : Text) :
    o.Reads (lineNo + 1) previous (ctorPart ctor) { o with
      decl := { o.decl with lines := o.decl.lines ++ ctorPart ctor, ctor := readCtor lineNo ctor } }
        := by
  cases ctor with
  | none =>
      have := OpenClass.reads_nil o (lineNo + 1) previous
      rw [ctorPart, readCtor, List.append_nil, ← missing]
      exact this
  | some ls =>
      obtain ⟨first, params, last, rfl, opens, opening, inside, closing⟩ := ctorLines ls rfl
      have blank : o.readLine (lineNo + 1) previous [] = o.grown [[]] o.braces o.parens := by
        have complete : o.inConstructor = false := by simp [OpenClass.inConstructor, missing]
        have read : o.readLine (lineNo + 1) previous [] = o.grown [[]] (o.braces + Line.braces [])
            (o.parens + Line.parens (Line.blankStrings [])) :=
          OpenClass.readLine_mute (snippet_light (t := []) rfl).hides
            (fun _ => c.opensConstructor_blank rfl)
            (fun _ => not_showsField (isField_eq_false_of_blank rfl c.name)) named complete opened
        simpa [Line.braces, Line.parens] using read
      have gap : o.Reads (lineNo + 1) previous [[]] (o.grown [[]] o.braces o.parens) := by
        refine OpenClass.reads_line (by decide) blank ?_
        rw [OpenClass.isClosed, Bool.and_eq_false_iff]
        exact .inr (by simp [OpenClass.grown, braces])
      have begins : opensConstructor first (o.grown [[]] o.braces o.parens).decl.name := by
        rw [show (o.grown [[]] o.braces o.parens).decl.name = c.name from named]
        exact opens
      have body : (o.grown [[]] o.braces o.parens).Reads (lineNo + 1 + 1) []
          (first :: (params ++ [last])) _ :=
        OpenClass.reads_constructor missing braces parens opened begins opening inside closing
      have whole := gap.append body
      have count : lineNo + 1 + 1 + params.length + 1 =
          lineNo + 1 + (first :: (params ++ [last])).length := by
        simp only [List.length_cons, List.length_append, List.length_nil]
        omega
      rw [count] at whole
      simpa [OpenClass.grown, OpenClass.building, ctorPart, readCtor, braces, parens] using whole

def behindCtor (extended : Bool) (ctor : Option (List Text)) (lineNo : Nat) : OpenClass where
  decl :=
    { header := headerParts c.name extended
      firstLine := lineNo
      lines := headerLine c.name extended :: (c.fields.map (·.line) ++ ctorPart ctor)
      fields := placed (lineNo + 1) c.fields
      ctor := readCtor (lineNo + c.fields.length) ctor }
  braces := 1
  opened := true

theorem reads_behindCtor {extended : Bool} {ctor : Option (List Text)}
    (ctorLines : ∀ ls, ctor = some ls → IsCtor c.name ls) (lineNo : Nat) :
    (headed c.name extended lineNo).Reads (lineNo + 1) (headerLine c.name extended)
      (c.fields.map (·.line) ++ ctorPart ctor) (c.behindCtor extended ctor lineNo) := by
  have plain := announcesEnum_headerLine c.isIdentifier extended
  have fields : (headed c.name extended lineNo).Reads (lineNo + 1) (headerLine c.name extended)
      (c.fields.map (·.line)) _ := reads_fields c.isIdentifier c.upper rfl rfl rfl rfl plain
  have count : lineNo + 1 + (c.fields.map (·.line)).length = lineNo + c.fields.length + 1 := by
    rw [List.length_map]
    omega
  have ctorReads := c.reads_ctor ctorLines
    (o := listing (headed c.name extended lineNo) (c.fields.map (·.line))
      (placed (lineNo + 1) c.fields)) rfl rfl rfl rfl
    rfl (lineNo + c.fields.length) ((c.fields.map (·.line)).getLast?.getD (headerLine
      c.name extended))
  rw [← count] at ctorReads
  have whole := fields.append ctorReads
  simpa [listing, headed, behindCtor] using whole

theorem scanFrom_behindCtor {extended : Bool} {ctor : Option (List Text)}
    (ctorLines : ∀ ls, ctor = some ls → IsCtor c.name ls) (lineNo : Nat) (previous : Text)
    (rest : List Text) :
    scanFrom lineNo previous none (headerLine c.name extended
      :: (c.fields.map (·.line) ++ ctorPart ctor) ++ rest) =
      scanFrom (lineNo + 1 + (c.fields.map (·.line) ++ ctorPart ctor).length)
        ((c.fields.map (·.line) ++ ctorPart ctor).getLast?.getD (headerLine c.name extended))
        (some (c.behindCtor extended ctor lineNo)) rest := by
  rw [List.cons_append, scanFrom_headerLine c.isIdentifier, c.reads_behindCtor ctorLines]

theorem complete_behindCtor (extended : Bool) (ctor : Option (List Text)) (lineNo : Nat) :
    (c.behindCtor extended ctor lineNo).inConstructor = false := by
  cases ctor <;> rfl

/-- A class of the shape is read back as it was written. -/
theorem scanFrom_shape {extended : Bool} {ctor : Option (List Text)} {methods : List Text}
    (ctorLines : ∀ ls, ctor = some ls → IsCtor c.name ls) (quiet : Quiet c.name 1 methods 1)
    (lineNo : Nat) (previous : Text) (rest : List Text) :
    scanFrom lineNo previous none (c.shape extended ctor methods ++ rest) =
      c.read extended ctor methods lineNo ::
        scanFrom (lineNo + (c.shape extended ctor methods).length) "\x7d".toList none rest := by
  have front : (headed c.name extended lineNo).Reads (lineNo + 1) (headerLine c.name extended)
      (c.fields.map (·.line) ++ ctorPart ctor) (c.behindCtor extended ctor lineNo) :=
    c.reads_behindCtor ctorLines lineNo
  have back : ∃ parens, (c.behindCtor extended ctor lineNo).Reads
      (lineNo + 1 + (c.fields.map (·.line) ++ ctorPart ctor).length)
      ((c.fields.map (·.line) ++ ctorPart ctor).getLast?.getD (headerLine c.name extended)) methods
      ((c.behindCtor extended ctor lineNo).grown methods 1 parens) :=
    OpenClass.reads_quiet quiet rfl (c.complete_behindCtor extended ctor lineNo) rfl
  obtain ⟨parens, back⟩ := back
  have body := front.append back
  have whole : c.shape extended ctor methods ++ rest =
      headerLine c.name extended ::
        ((c.fields.map (·.line) ++ ctorPart ctor ++ methods) ++ ("\x7d".toList :: rest)) := by
    unfold shape
    simp only [List.append_assoc, List.cons_append, List.nil_append]
  have lines : headerLine c.name extended :: (c.fields.map (·.line) ++ ctorPart ctor) ++ methods ++
      ["\x7d".toList] = c.shape extended ctor methods := by
    simp only [shape, List.append_assoc, List.cons_append]
  have count : lineNo + 1 + (c.fields.map (·.line) ++ ctorPart ctor ++ methods).length + 1 =
      lineNo + (c.shape extended ctor methods).length := by
    simp only [shape, List.length_append, List.length_cons, List.length_nil]
    omega
  have complete :
      ((c.behindCtor extended ctor lineNo).grown methods 1 parens).inConstructor = false :=
    c.complete_behindCtor extended ctor lineNo
  rw [whole, scanFrom_class c.isIdentifier body rfl rfl complete rfl, ← count]
  simp only [OpenClass.grown, behindCtor, read, lines, ← count, Nat.add_sub_cancel]

end ClassText

end Fresh

end ValueClass
