import ValueClass.Proofs.Dart.Expression
import ValueClass.Proofs.Dart.OneLine
import ValueClass.Proofs.Text.Only

/-! # Values on one line

Where no text of a type holds a line feed, what reads a value of the type from a map and
what writes it there holds none either. A scanned field is declared on one line.
-/

namespace ValueClass.Dart

open Text

namespace TypeExpr

variable {p q : Text → Prop} {type : TypeExpr}

theorem AllTexts.imp (h : type.AllTexts p) (weaker : ∀ t, p t → q t) : type.AllTexts q := by
  induction type with
  | scalar text nullable => exact weaker text h
  | map text nullable => exact weaker text h
  | list text nullable type ih | set text nullable type ih => exact ⟨weaker text h.1, ih h.2⟩

theorem AllTexts.text (h : type.AllTexts p) : p type.text := by
  cases type with
  | scalar | map => exact h
  | list | set => exact h.1

end TypeExpr

/-! ## Values -/

namespace Codec

variable {fromJson : Bool} {value : Text}

theorem oneLine_guard (nullable : Bool) : OneLine (guard nullable) := by
  cases nullable <;> decide

theorem oneLine_encodeLeaf (nullable : Bool) (inner : value.OneLine) (leaf : Leaf) :
    OneLine (encodeLeaf fromJson nullable value leaf) := by
  have guarded := inner.append (oneLine_guard nullable)
  cases leaf with
  | date =>
      cases fromJson with
      | false => exact guarded.append (by decide : OneLine ".millisecondsSinceEpoch")
      | true => exact guarded.append (by decide : OneLine ".toIso8601String()")
  | color => exact guarded.append (by decide : OneLine ".value")
  | icon => exact guarded.append (by decide : OneLine ".codePoint")
  | same => exact inner
  | nested => exact guarded.append (by decide : OneLine ".toMap()")

theorem oneLine_encodeType {type : TypeExpr} (inner : value.OneLine) :
    OneLine (encodeType fromJson type value) := by
  have start : OneLine ".map((x) => " := by decide
  have finish : OneLine ").toList()" := by decide
  have element : OneLine "x" := by decide
  induction type generalizing value with
  | scalar text nullable => exact oneLine_encodeLeaf nullable inner _
  | map text nullable => exact inner
  | list text nullable type ih =>
      rw [encodeType]
      split
      · exact inner
      · exact (((inner.append (oneLine_guard nullable)).append start).append (ih element)).append
          finish
  | set text nullable type ih =>
      rw [encodeType]
      split
      · exact (inner.append (oneLine_guard nullable)).append (by decide : OneLine ".toList()")
      · exact (((inner.append (oneLine_guard nullable)).append start).append (ih element)).append
          finish

theorem oneLine_decodeLeaf {text : Text} (whole : text.OneLine) (inner : value.OneLine)
    (leaf : Leaf) :
    OneLine (decodeLeaf fromJson text value leaf) := by
  have close : OneLine ")" := by decide
  cases leaf with
  | date =>
      cases fromJson with
      | false => exact ((by decide : OneLine "DateTime.fromMillisecondsSinceEpoch(").append
          inner).append close
      | true => exact ((by decide : OneLine "DateTime.parse(").append inner).append close
  | color => exact ((by decide : OneLine "Color(").append inner).append close
  | icon =>
      exact ((by decide : OneLine "IconData(").append inner).append
        (by decide : OneLine ", fontFamily: 'MaterialIcons')")
  | same =>
      show OneLine (if fromJson && text = "double" then value ++ "?.toDouble()".toList
        else if fromJson && text = "int" then value ++ "?.toInt()".toList else value)
      split
      · exact inner.append (by decide : OneLine "?.toDouble()")
      · split
        · exact inner.append (by decide : OneLine "?.toInt()")
        · exact inner
  | nested => exact ((whole.append (by decide : OneLine ".fromMap(")).append inner).append close

theorem oneLine_decodeType {type : TypeExpr} (texts : type.AllTexts OneLine)
    (inner : value.OneLine) :
    OneLine (decodeType fromJson type value) := by
  have start : OneLine ".from(" := by decide
  have close : OneLine ")" := by decide
  have element : OneLine "x" := by decide
  induction type generalizing value with
  | scalar text nullable => exact oneLine_decodeLeaf texts inner _
  | map text nullable => exact ((Only.append texts start).append inner).append close
  | list text nullable type ih | set text nullable type ih =>
      have opened := (texts.1.append start).append inner
      rw [decodeType]
      split
      · exact opened.append close
      · exact ((opened.append (by decide : OneLine ".map((x) => ")).append
          (ih texts.2 element)).append
          (by decide : OneLine "))")

end Codec

theorem oneLine_defaultValue {type : TypeExpr} (texts : type.AllTexts OneLine) :
    type.defaultValue.OneLine := by
  cases type with
  | scalar text nullable =>
      show OneLine (TypeExpr.scalarDefault text)
      unfold TypeExpr.scalarDefault
      repeat' split
      · decide
      · decide
      · decide
      · decide
      · decide
      · exact Only.append texts (by decide : OneLine "()")
  | list => exact (by decide : OneLine "const []")
  | map | set => exact (by decide : OneLine "const \x7b\x7d")

theorem Method.oneLine_decoded {f : Field} (texts : f.type.AllTexts OneLine) (key : f.key.OneLine)
    (mapDefaults fromJson : Bool) :
    OneLine (Method.decoded mapDefaults fromJson f) := by
  have value : OneLine ("map['".toList ++ f.key ++ "']".toList) :=
    ((by decide : OneLine "map['").append key).append (by decide : OneLine "']")
  have read : ∀ {t : Text}, t.OneLine → OneLine (Codec.decode fromJson f t) := by
    intro t inner
    rw [Codec.decode]
    split
    · exact ((texts.text.append (by decide : OneLine ".values[")).append inner).append
        (by decide : OneLine "]")
    · exact Codec.oneLine_decodeType texts inner
  have other := oneLine_defaultValue texts
  have or_ : OneLine " ?? " := by decide
  unfold Method.decoded
  dsimp only
  split
  · exact read ((((by decide : OneLine "(").append value).append or_).append other |>.append
      (by decide : OneLine ")"))
  · split
    · split
      · exact read value
      · exact ((value.append (by decide : OneLine " != null ? ")).append (read value)).append
          (by decide : OneLine " : null")
    · split
      · exact ((read value).append or_).append other
      · exact read value

/-! ## Fields -/

theorem Line.subset_of_splitDeclaration {tokens types : List Text} {name : Text}
    (split : splitDeclaration tokens = some (types, name)) : types ⊆ tokens := by
  induction tokens generalizing types with
  | nil => cases split
  | cons token rest ih =>
      rw [splitDeclaration] at split
      split at split
      · cases split
        exact List.nil_subset _
      · split at split
        · cases split
          exact List.nil_subset _
        · split at split
          · cases split
            exact List.nil_subset _
          · obtain ⟨⟨below, found⟩, split, same⟩ := Option.map_eq_some_iff.mp split
            cases same
            exact List.cons_subset_cons _ (ih split)

theorem Line.oneLine_field? {line : Text} (whole : line.OneLine) {lineNo : Nat} {previous : Text}
    {f : Field} (read : field? line lineNo previous = some f) :
    f.name.OneLine ∧ f.key.OneLine ∧ f.rawType.OneLine := by
  have named : f.name.OneLine := fun c member => whole c ((name_field? read).2 member)
  have tokens : ∀ token ∈ Text.tokens (withoutComment line).trim, token.OneLine := by
    intro token inside c here
    have code : c ∈ withoutComment line :=
      Text.mem_of_mem_trim (Text.subset_of_mem_tokens inside here)
    rw [withoutComment] at code
    split at code
    · exact whole c code
    · exact whole c (dropComment_subset line code)
  simp only [field?] at read
  split at read
  · rename_i type types c name split
    cases read
    refine ⟨named, named, Only.join (by decide) fun token member => ?_⟩
    exact tokens token (List.mem_filter.mp (subset_of_splitDeclaration split member)).1
  · cases read

theorem oneLine_of_mem_scan {text : Text} {c : ClassDecl} (member : c ∈ scan text) :
    ∀ f ∈ c.fields, f.name.OneLine ∧ f.key.OneLine ∧ f.rawType.OneLine := by
  intro f field
  obtain ⟨line, inside, lineNo, previous, read⟩ := exists_field?_of_mem_scan member f field
  exact Line.oneLine_field? (oneLine_iff.mpr (Text.notMem_of_mem_lines inside)) read

theorem TypeExpr.oneLine_parse {raw : Text} (whole : raw.OneLine) :
    (TypeExpr.parse raw).AllTexts OneLine := by
  have all : raw.all (· != '\n') := List.all_eq_true.mpr whole
  exact (TypeExpr.allTexts_parse (by decide) all).imp fun t h => List.all_eq_true.mp h

end ValueClass.Dart
