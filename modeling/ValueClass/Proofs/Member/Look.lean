import Mathlib.Tactic.Common
import ValueClass.Member.Write

/-! # What members look at

A method is written from the name of a class, its type, its fields and the arguments
that its constructor takes by name. Where the fields stand in the buffer makes no
difference, and neither do the other clauses of the header.
-/

namespace ValueClass.Dart

def methodText (s : Surroundings) (c : ClassDecl) : MemberKind → Text
  | .constructor => []
  | .copyWith => Method.copyWith s.indent c
  | .toMap => Method.toMap s.indent s.fromJson c
  | .fromMap => Method.fromMap s.indent s.style.mapDefaults s.fromJson c
  | .toJson => Method.toJson
  | .fromJson => Method.fromJson c
  | .toString => Method.toString s.indent c
  | .equality => Method.equality s.indent (EqualityHelper.forFields c.fields s.flutter) c
  | .hashCode => Method.hashCode s.indent s.style.hashStrategy c
  | .props => Method.props s.indent c

def Field.unplaced (f : Field) : Field :=
  { f with line := 1 }

/-- Two classes that look alike to their methods. -/
structure ClassDecl.LooksLike (a b : ClassDecl) : Prop where
  name : a.name = b.name
  type : a.type = b.type
  fields : a.fields.map Field.unplaced = b.fields.map Field.unplaced
  namedFields : a.namedFields = b.namedFields

theorem Field.map_of_unplaced {as bs : List Field} (same : as.map unplaced = bs.map unplaced)
    {α : Type} {g : Field → α} (level : ∀ f, g f.unplaced = g f) : as.map g = bs.map g := by
  have through : ∀ fields : List Field, fields.map g = (fields.map unplaced).map g := by
    intro fields
    rw [List.map_map]
    exact List.map_congr_left fun f _ => (level f).symm
  rw [through, same, ← through]

theorem EqualityHelper.forFields_congr {as bs : List Field}
    (same : as.map Field.unplaced = bs.map Field.unplaced) (flutter : Bool) :
    forFields as flutter = forFields bs flutter := by
  have kinds : ∀ fields : List Field, fields.filterMap (fun f => f.type.collection?) =
      (fields.map fun f => f.type.collection?).filterMap id := by
    intro fields
    rw [List.filterMap_map]
    rfl
  rw [forFields, forFields, kinds, kinds, Field.map_of_unplaced same fun _ => rfl]

namespace ClassDecl.LooksLike

variable {a b : ClassDecl}

theorem map_fields (h : a.LooksLike b) {α : Type} {g : Field → α}
    (level : ∀ f, g f.unplaced = g f) :
    a.fields.map g = b.fields.map g :=
  Field.map_of_unplaced h.fields level

theorem fieldNames (h : a.LooksLike b) : a.fieldNames = b.fieldNames :=
  h.map_fields fun _ => rfl

theorem hasFewFields (h : a.LooksLike b) : a.hasFewFields = b.hasFewFields := by
  have count := congrArg List.length h.fields
  rw [List.length_map, List.length_map] at count
  rw [ClassDecl.hasFewFields, ClassDecl.hasFewFields, count]

/-- Classes that look alike get the same methods. -/
theorem methodText (h : a.LooksLike b) (s : Surroundings) (kind : MemberKind) :
    methodText s a kind = methodText s b kind := by
  cases kind with
  | constructor => rfl
  | copyWith =>
      show Method.copyWith s.indent a = Method.copyWith s.indent b
      unfold Method.copyWith
      dsimp only
      rw [h.namedFields,
        h.map_fields (g := fun f => Method.optionalType f ++ " ".toList ++ f.name) fun _ => rfl,
        h.map_fields (g :=
          fun f => Method.argument b.namedFields f.name (f.name ++ " ?? this.".toList ++ f.name))
            fun _ => rfl,
        h.type, h.name]
  | toMap =>
      show Method.toMap s.indent s.fromJson a = Method.toMap s.indent s.fromJson b
      unfold Method.toMap
      dsimp only
      rw [h.map_fields (g :=
        fun f => "'".toList ++ f.key ++ "': ".toList ++ Codec.encode s.fromJson f f.name)
          fun _ => rfl]
  | fromMap =>
      show Method.fromMap s.indent s.style.mapDefaults s.fromJson a =
        Method.fromMap s.indent s.style.mapDefaults s.fromJson b
      unfold Method.fromMap
      dsimp only
      rw [h.namedFields, h.map_fields (g := fun f => Method.argument b.namedFields f.name
        (Method.decoded s.style.mapDefaults s.fromJson f)) fun _ => rfl, h.name]
  | toJson => rfl
  | fromJson =>
      show Method.fromJson a = Method.fromJson b
      unfold Method.fromJson
      rw [h.name]
  | toString =>
      show Method.toString s.indent a = Method.toString s.indent b
      rw [Method.toString, Method.toString, h.fieldNames, h.hasFewFields, h.name]
  | equality =>
      show Method.equality s.indent (EqualityHelper.forFields a.fields s.flutter) a =
        Method.equality s.indent (EqualityHelper.forFields b.fields s.flutter) b
      rw [EqualityHelper.forFields_congr h.fields]
      generalize EqualityHelper.forFields b.fields s.flutter = helper
      unfold Method.equality
      dsimp only
      cases helper with
      | none =>
          rw [h.type,
            h.map_fields (g := fun f => "other.".toList ++ f.name ++ " == ".toList ++ f.name)
              fun _ => rfl]
      | some helper =>
          rw [h.type,
            h.map_fields (g :=
              fun f => if f.isCollection then helper.function ++ "(other.".toList ++ f.name ++
                ", ".toList ++ f.name ++ ")".toList
                  else "other.".toList ++ f.name ++ " == ".toList ++ f.name) fun _ => rfl]
  | hashCode =>
      have all : Method.hashAll s.indent a = Method.hashAll s.indent b := by
        rw [Method.hashAll, Method.hashAll, h.fieldNames, h.hasFewFields]
      have xor : Method.hashXor s.indent a = Method.hashXor s.indent b := by
        unfold Method.hashXor
        dsimp only
        rw [h.hasFewFields, h.map_fields (g := fun f => f.name ++ ".hashCode".toList) fun _ => rfl]
      show Method.hashCode s.indent s.style.hashStrategy a =
          Method.hashCode s.indent s.style.hashStrategy b
      cases s.style.hashStrategy with
      | combinator => exact congrArg (Method.overrideMark ++ ·) all
      | xor => exact congrArg (Method.overrideMark ++ ·) xor
  | props =>
      show Method.props s.indent a = Method.props s.indent b
      rw [Method.props, Method.props, h.fieldNames, h.hasFewFields]

theorem finder (h : a.LooksLike b) (kind : MemberKind) :
    Method.finder a kind = Method.finder b kind := by
  cases kind with
  | copyWith => exact congrArg (fun type => type ++ _) h.type
  | fromMap => exact congrArg (fun name => _ ++ name ++ _) h.name
  | fromJson => exact congrArg (fun name => _ ++ name ++ _) h.name
  | _ => rfl

end ClassDecl.LooksLike

end ValueClass.Dart
