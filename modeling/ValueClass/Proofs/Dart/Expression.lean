import ValueClass.Dart.Codec
import ValueClass.Member.Methods
import ValueClass.Proofs.Dart.Weight

/-! # Expressions that are written

An expression that converts a value is made of type texts, the value and fixed
parts, level by level of the type. If the type texts are light, so that nothing in
them is weighed, the whole expression weighs nothing.
-/

namespace ValueClass.Dart

/-- Every text in a type expression has a property. -/
def TypeExpr.AllTexts (p : Text → Prop) : TypeExpr → Prop
  | .scalar text _ => p text
  | .map text _ => p text
  | .list text _ element => p text ∧ element.AllTexts p
  | .set text _ element => p text ∧ element.AllTexts p

/-- The texts that a type is taken apart to are made of its own characters. -/
theorem TypeExpr.allTexts_parse {keep : Char → Bool} (dynamic : "dynamic".toList.all keep)
    {raw : Text} (h : raw.all keep) : (TypeExpr.parse raw).AllTexts fun text => text.all keep := by
  have bare : ∀ raw : Text, raw.all keep → (TypeExpr.bare raw).all keep := by
    intro raw h
    rw [TypeExpr.bare]
    split
    · rw [List.all_eq_true] at h ⊢
      exact fun c member => h c (List.dropLast_subset _ member)
    · exact h
  have argument : ∀ (n : Nat) (raw : Text), raw.all keep →
      (TypeExpr.argument n (TypeExpr.bare raw)).all keep := by
    intro n raw h
    have inside := bare raw h
    rw [List.all_eq_true] at inside ⊢
    intro c member
    apply inside
    have : c ∈ ((TypeExpr.bare raw).drop (n + 1)).dropLast := by
      rw [TypeExpr.argument, Text.trim, Text.trimEnd, List.mem_reverse] at member
      have := (List.dropWhile_suffix _).subset member
      rw [List.mem_reverse] at this
      exact (List.dropWhile_suffix _).subset this
    exact List.mem_of_mem_drop (List.dropLast_subset _ this)
  fun_induction TypeExpr.parse raw with
  | case1 => rfl
  | case2 raw | case3 raw => exact ⟨bare raw h, dynamic⟩
  | case4 raw _ _ _ _ _ ih => exact ⟨bare raw h, ih (argument 4 raw h)⟩
  | case5 raw _ _ _ _ _ _ ih => exact ⟨bare raw h, ih (argument 3 raw h)⟩
  | case6 raw | case7 raw => exact bare raw h

namespace Codec

open Line

theorem snippet_guard (nullable : Bool) : Snippet 0 (guard nullable) := by
  cases nullable
  · exact snippet_light rfl
  · exact snippet_light (by decide)

section

variable (fromJson : Bool) {value : Text}

theorem snippet_encodeLeaf (nullable : Bool) (inner : Snippet 0 value) (leaf : Leaf) :
    Snippet 0 (encodeLeaf fromJson nullable value leaf) := by
  have guarded := inner.append (snippet_guard nullable)
  cases leaf with
  | date =>
      cases fromJson
      · exact guarded.append (snippet_light (t := ".millisecondsSinceEpoch") (by decide))
      · exact guarded.append (snippet_light (t := ".toIso8601String()") (by decide))
  | color => exact guarded.append (snippet_light (t := ".value") (by decide))
  | icon => exact guarded.append (snippet_light (t := ".codePoint") (by decide))
  | same => exact inner
  | nested => exact guarded.append (snippet_light (t := ".toMap()") (by decide))

theorem snippet_decodeLeaf {text : Text} (light : text.all isLight) (inner : Snippet 0 value)
    (leaf : Leaf) : Snippet 0 (decodeLeaf fromJson text value leaf) := by
  have close := snippet_light (t := ")") (by decide)
  cases leaf with
  | date =>
      cases fromJson
      · exact ((snippet_light (t := "DateTime.fromMillisecondsSinceEpoch(") (by decide)).append
          inner).append close
      · exact ((snippet_light (t := "DateTime.parse(") (by decide)).append inner).append close
  | color => exact ((snippet_light (t := "Color(") (by decide)).append inner).append close
  | icon =>
      have family : ", fontFamily: 'MaterialIcons')".toList =
          ", fontFamily: ".toList ++ '\'' :: ("MaterialIcons".toList ++ ['\'']) ++ ")".toList := by
        simp
      have named := ((snippet_light (t := ", fontFamily: ") (by decide)).append
        (snippet_literal (s := "MaterialIcons") (by decide))).append close
      rw [← family] at named
      exact ((snippet_light (t := "IconData(") (by decide)).append inner).append named
  | same =>
      show Snippet 0 (if fromJson && text = "double" then value ++ "?.toDouble()".toList
        else if fromJson && text = "int" then value ++ "?.toInt()".toList else value)
      split
      · exact inner.append (snippet_light (t := "?.toDouble()") (by decide))
      · split
        · exact inner.append (snippet_light (t := "?.toInt()") (by decide))
        · exact inner
  | nested =>
      exact (((snippet_light light).append (snippet_light (t := ".fromMap(") (by decide))).append
        inner).append close

theorem snippet_encodeType {type : TypeExpr} (inner : Snippet 0 value) :
    Snippet 0 (encodeType fromJson type value) := by
  have element := snippet_light (t := "x") (by decide)
  have start := snippet_light (t := ".map((x) => ") (by decide)
  have finish := snippet_light (t := ").toList()") (by decide)
  induction type generalizing value with
  | scalar text nullable => exact snippet_encodeLeaf fromJson nullable inner _
  | map text nullable => exact inner
  | list text nullable type ih =>
      show Snippet 0 (if type.isPrimitive then value else
        value ++ guard nullable ++ ".map((x) => ".toList ++ encodeType fromJson type "x" ++
          ").toList()".toList)
      split
      · exact inner
      · exact (((inner.append (snippet_guard nullable)).append start).append (ih element)).append
          finish
  | set text nullable type ih =>
      show Snippet 0 (if type.isPrimitive then value ++ guard nullable ++ ".toList()".toList else
        value ++ guard nullable ++ ".map((x) => ".toList ++ encodeType fromJson type "x" ++
          ").toList()".toList)
      split
      · exact (inner.append (snippet_guard nullable)).append (snippet_light (by decide))
      · exact (((inner.append (snippet_guard nullable)).append start).append (ih element)).append
          finish

theorem snippet_from {text : Text} (light : text.all isLight) (inner : Snippet 0 value) :
    Snippet 0 (text ++ ".from(".toList ++ value ++ ")".toList) :=
  (((snippet_light light).append (snippet_light (by decide))).append inner).append
    (snippet_light (by decide))

theorem snippet_fromEach {text expression : Text} (light : text.all isLight)
    (inner : Snippet 0 value) (converted : Snippet 0 expression) :
    Snippet 0 (text ++ ".from(".toList ++ value ++ ".map((x) => ".toList ++ expression ++
      "))".toList) :=
  (((((snippet_light light).append (snippet_light (by decide))).append inner).append
    (snippet_light (by decide))).append converted).append (snippet_light (by decide))

theorem snippet_decodeType {type : TypeExpr} (light : type.AllTexts fun text => text.all isLight)
    (inner : Snippet 0 value) : Snippet 0 (decodeType fromJson type value) := by
  have element := snippet_light (t := "x") (by decide)
  induction type generalizing value with
  | scalar text nullable => exact snippet_decodeLeaf fromJson light inner _
  | map text nullable => exact snippet_from light inner
  | list text nullable type ih | set text nullable type ih =>
      show Snippet 0 (if type.isPrimitive then text ++ ".from(".toList ++ value ++ ")".toList else
        text ++ ".from(".toList ++ value ++ ".map((x) => ".toList ++ decodeType fromJson type "x" ++
          "))".toList)
      split
      · exact snippet_from light.1 inner
      · exact snippet_fromEach light.1 inner (ih light.2 element)

end

end Codec

open Line

theorem snippet_defaultValue {type : TypeExpr}
    (light : type.AllTexts fun text => text.all isLight) :
    Snippet 0 type.defaultValue := by
  have literal : Snippet 0 "''".toList := snippet_literal (s := []) rfl
  have braces : Snippet 0 "const \x7b\x7d".toList := snippet_of_unquoted (by decide) (by decide)
  cases type with
  | scalar text nullable =>
      show Snippet 0 (TypeExpr.scalarDefault text)
      unfold TypeExpr.scalarDefault
      split
      · exact literal
      · split
        · exact snippet_light (by decide)
        · split
          · exact snippet_light (by decide)
          · split
            · exact snippet_light (by decide)
            · split
              · exact snippet_light (by decide)
              · exact (snippet_light light).append (snippet_light (by decide))
  | map | set => exact braces
  | list => exact snippet_light (t := "const []") (by decide)

namespace Method

theorem snippet_encoded (fromJson : Bool) {f : Field} (plain : f.isEnum = false)
    (name : f.name.all isLight) : Snippet 0 (Codec.encode fromJson f f.name) := by
  rw [Codec.encode, plain]
  exact Codec.snippet_encodeType fromJson (snippet_light name)

theorem snippet_decoded (mapDefaults fromJson : Bool) {f : Field} (plain : f.isEnum = false)
    (type : f.rawType.all isLight) (key : f.key.all isLight) :
    Snippet 0 (decoded mapDefaults fromJson f) := by
  have light : f.type.AllTexts fun text => text.all isLight :=
    TypeExpr.allTexts_parse (by decide) type
  have value : Snippet 0 ("map['".toList ++ f.key ++ "']".toList) := by
    have quoted := ((snippet_light (t := "map[") (by decide)).append (snippet_literal key)).append
      (snippet_light (t := "]") (by decide))
    have same : "map['".toList ++ f.key ++ "']".toList =
        "map[".toList ++ '\'' :: (f.key ++ ['\'']) ++ "]".toList := by simp
    rw [same]
    exact quoted
  have decoded_ : ∀ {t : Text}, Snippet 0 t → Snippet 0 (Codec.decode fromJson f t) := by
    intro t inner
    rw [Codec.decode, plain]
    exact Codec.snippet_decodeType fromJson light inner
  have default_ := snippet_defaultValue light
  have or_ := snippet_light (t := " ?? ") (by decide)
  unfold decoded
  dsimp only
  split
  · exact decoded_ ((((snippet_light (t := "(") (by decide)).append value).append or_).append
      default_ |>.append (snippet_light (t := ")") (by decide)))
  · split
    · split
      · exact decoded_ value
      · exact (((value.append (snippet_light (t := " != null ? ") (by decide))).append
          (decoded_ value)).append (snippet_light (t := " : null") (by decide)))
    · split
      · exact ((decoded_ value).append or_).append default_
      · exact decoded_ value

end Method

end ValueClass.Dart
