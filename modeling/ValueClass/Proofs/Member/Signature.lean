import ValueClass.Proofs.Dart.OneLine
import ValueClass.Proofs.Member.Layout

/-! # The first lines of methods

Every method has a signature of its own: the first line of `copyWith` alone ends in the
opening of a parameter list, and those of the others start each with words of their own.
-/

namespace ValueClass

namespace Text

/-- Nothing is replaced before a character that the replaced text lacks. -/
theorem replaceAll_append {old front rest : Text} {feed c : Char} (new : Text) (inside : feed ∈ old)
    (whole : feed ∉ front) (lacks : c ∉ old) :
    replaceAll old new (front ++ c :: rest) = front ++ c :: replaceAll old new rest := by
  have filled : old.isEmpty = false := by
    cases old with
    | nil => simp at inside
    | cons => rfl
  rw [replaceAll, replaceAll, if_neg (by simp [filled]), if_neg (by simp [filled])]
  induction front with
  | nil =>
      have apart : old.isPrefixOf (c :: rest) = false := by
        rw [Bool.eq_false_iff, ne_eq, List.isPrefixOf_iff_prefix]
        intro starts
        cases old with
        | nil => simp at inside
        | cons d tail =>
            obtain ⟨rfl, -⟩ := List.cons_prefix_cons.mp starts
            exact lacks (by simp)
      rw [List.nil_append, replaceGo, if_neg (by simp [apart])]
      rfl
  | cons d tail ih =>
      have apart : old.isPrefixOf (d :: tail ++ c :: rest) = false := by
        rw [Bool.eq_false_iff, ne_eq, List.isPrefixOf_iff_prefix]
        intro starts
        rcases List.prefix_or_prefix_of_prefix starts (List.prefix_append _ _) with within | around
        · exact whole (within.subset inside)
        · obtain ⟨more, rfl⟩ := around
          rw [List.prefix_append_right_inj] at starts
          cases more with
          | nil => exact whole (by simpa using inside)
          | cons e others =>
              obtain ⟨rfl, -⟩ := List.cons_prefix_cons.mp starts
              exact lacks (by simp)
      rw [List.cons_append] at apart ⊢
      rw [replaceGo, if_neg (by simp [apart]),
        ih fun member => whole (List.mem_cons_of_mem _ member)]
      rfl

end Text

namespace Dart

/-! ## First lines -/

def FirstLine (line t : Text) : Prop :=
  '\n' ∉ line ∧ (t = line ∨ ∃ rest, t = line ++ '\n' :: rest)

theorem FirstLine.isPrefix {line t : Text} (first : FirstLine line t) : line <+: t := by
  rcases first.2 with rfl | ⟨rest, rfl⟩
  · exact List.prefix_refl _
  · exact List.prefix_append _ _

theorem FirstLine.takeWhile {line t : Text} (first : FirstLine line t) :
    t.takeWhile (· != '\n') = line := by
  have stays : ∀ c ∈ line, (c != '\n') = true := by
    intro c member
    rw [bne_iff_ne]
    rintro rfl
    exact first.1 member
  rcases first.2 with rfl | ⟨rest, rfl⟩
  · have whole : (t ++ []).takeWhile (· != '\n') = t ++ [].takeWhile (· !=
      '\n') := List.takeWhile_append_of_pos stays
    simpa using whole
  · rw [List.takeWhile_append_of_pos stays]
    simp

theorem replaceAll_marked (marked : Bool) (t : Text) :
    Text.replaceAll Method.overrideMark [] ((if marked then Method.overrideMark else []) ++ t) =
      Text.replaceAll Method.overrideMark [] t := by
  cases marked with
  | false => rfl
  | true =>
      have here : Method.overrideMark.isPrefixOf (Method.overrideMark ++ t) :=
        List.isPrefixOf_iff_prefix.mpr ⟨t, rfl⟩
      show Text.replaceGo _ _ 0 _ = Text.replaceGo _ _ 0 _
      rw [if_pos rfl]
      rw [overrideMark_eq, List.cons_append] at here ⊢
      rw [Text.replaceGo, if_pos here]
      exact Text.replaceGo_skip _ _ "override\n".toList _

theorem FirstLine.unmarked {front t : Text} {stop : Char} (first : FirstLine (front ++ [stop]) t)
    (lacks : stop ∉ Method.overrideMark) (marked : Bool) :
    FirstLine (front ++ [stop])
      (Text.replaceAll Method.overrideMark [] ((if marked then
        Method.overrideMark else []) ++ t)) := by
  obtain ⟨whole, behind⟩ := first
  have upper : '\n' ∉ front := fun feed => whole (List.mem_append_left _ feed)
  refine ⟨whole, ?_⟩
  rw [replaceAll_marked]
  rcases behind with rfl | ⟨rest, rfl⟩
  · rw [Text.replaceAll_append [] (by decide) upper lacks]
    exact .inl rfl
  · refine .inr ⟨Text.replaceAll Method.overrideMark [] rest, ?_⟩
    rw [List.append_assoc, List.singleton_append, Text.replaceAll_append [] (by decide) upper lacks,
      List.append_assoc, List.singleton_append]
    rfl

theorem firstLine_block (indent : Text) {signature : Text} (body : List Text)
    (whole : '\n' ∉ signature) :
    FirstLine (signature ++ " \x7b".toList) (Method.block indent signature body) := by
  refine ⟨?_, .inr ?_⟩
  · rw [List.mem_append, not_or]
    exact ⟨whole, by decide⟩
  · rw [Method.block, Text.unlines_cons (by simp)]
    exact ⟨_, rfl⟩

/-! ## Signatures -/

variable {text : Text} {c : ClassDecl}

/-- What the first line of a method starts with. -/
def methodStart (c : ClassDecl) : MemberKind → Text
  | .constructor => []
  | .copyWith => c.type ++ " copyWith("
  | .toMap => "Map<"
  | .fromMap => "factory " ++ c.name ++ ".fromMap("
  | .toJson => "String toJson("
  | .fromJson => "factory " ++ c.name ++ ".fromJson("
  | .toString => "String toString("
  | .equality => "bool "
  | .hashCode => "int "
  | .props => "List<"

/-- The first line of a method: how it starts, and that it opens a list just when the method
    is `copyWith`. -/
structure IsSignature (c : ClassDecl) (kind : MemberKind) (line : Text) : Prop where
  starts : methodStart c kind <+: line
  list : "(\x7b".toList <:+ line ↔ kind = .copyWith
  ends : ∃ front stop, line = front ++ [stop] ∧ stop ∉ Method.overrideMark

theorem isSignature_of_ending {line ending : Text} {kind : MemberKind}
    (known : ending = " \x7b" ∨ ending = ";") (other : kind ≠ .copyWith)
    (starts : methodStart c kind <+: line) (ends : ending <:+ line) : IsSignature c kind line := by
  obtain ⟨front, rfl⟩ := ends
  refine ⟨starts, iff_of_false ?_ other, ?_⟩
  · have brace : "(\x7b".toList ≠ " \x7b".toList := by decide
    rintro ⟨before, same⟩
    rcases known with rfl | rfl
    · exact brace (List.append_inj' same rfl).2
    · have last := congrArg List.getLast? same
      rw [show "(\x7b".toList = ['('] ++ ['\x7b'] from rfl, show ";".toList = [';'] from rfl,
        ← List.append_assoc, List.getLast?_concat, List.getLast?_concat] at last
      exact absurd last (by decide)
  · rcases known with rfl | rfl
    · exact ⟨front ++ [' '], '\x7b', by simp, by decide⟩
    · exact ⟨front, ';', rfl, by decide⟩

/-- The letter that the first line of a method starts with, where the class does not decide it. -/
def methodLetter : MemberKind → Option Char
  | .constructor | .copyWith => none
  | .toMap => some 'M'
  | .fromMap | .fromJson => some 'f'
  | .toJson | .toString => some 'S'
  | .equality => some 'b'
  | .hashCode => some 'i'
  | .props => some 'L'

theorem IsSignature.letter {line : Text} {kind : MemberKind} (signature : IsSignature c kind line)
    (method : kind ≠ .constructor) (other : kind ≠ .copyWith) :
    methodLetter kind ≠ none ∧ methodLetter kind = line.head? := by
  obtain ⟨rest, rfl⟩ := signature.starts
  cases kind <;> first
    | exact absurd rfl method | exact absurd rfl other | exact ⟨Option.some_ne_none _, rfl⟩

theorem eq_of_methodLetter {a b : MemberKind} (same : methodLetter a = methodLetter b)
    (some : methodLetter a ≠ none) :
    a = b ∨ (a = .fromMap ∧ b = .fromJson) ∨ (a = .fromJson ∧ b = .fromMap) ∨
      (a = .toJson ∧ b = .toString) ∨
      (a = .toString ∧ b = .toJson) := by
  revert same some
  cases a <;> cases b <;> decide

theorem not_fromMap_fromJson {line : Text} (map : methodStart c .fromMap <+: line)
    (json : methodStart c .fromJson <+: line) : False := by
  have apart : ¬ ".fromMap(".toList <+: ".fromJson(".toList ∧
      ¬ ".fromJson(".toList <+: ".fromMap(".toList := by decide
  rcases List.prefix_or_prefix_of_prefix map json with within | within
  · exact apart.1 ((List.prefix_append_right_inj ("factory ".toList ++ c.name)).mp within)
  · exact apart.2 ((List.prefix_append_right_inj ("factory ".toList ++ c.name)).mp within)

theorem not_toJson_toString {line : Text} (json : methodStart c .toJson <+: line)
    (string : methodStart c .toString <+: line) : False := by
  have apart : ¬ "String toJson(".toList <+: "String toString(".toList ∧
      ¬ "String toString(".toList <+: "String toJson(".toList := by decide
  rcases List.prefix_or_prefix_of_prefix json string with within | within
  · exact apart.1 within
  · exact apart.2 within

theorem IsSignature.unique {line : Text} {a b : MemberKind} (first : IsSignature c a line)
    (second : IsSignature c b line) (left : a ≠ .constructor) (right : b ≠ .constructor) :
    a = b := by
  by_cases copies : a = .copyWith
  · rw [copies, second.list.mp (first.list.mpr copies)]
  · have other : b ≠ .copyWith := fun same => copies (first.list.mp (second.list.mpr same))
    obtain ⟨some, here⟩ := first.letter left copies
    have same := here.trans (second.letter right other).2.symm
    rcases eq_of_methodLetter same some with same | ⟨rfl, rfl⟩ | ⟨rfl, rfl⟩ | ⟨rfl,
      rfl⟩ | ⟨rfl, rfl⟩
    · exact same
    · exact (not_fromMap_fromJson first.starts second.starts).elim
    · exact (not_fromMap_fromJson second.starts first.starts).elim
    · exact (not_toJson_toString first.starts second.starts).elim
    · exact (not_toJson_toString second.starts first.starts).elim

/-! ## Methods -/

/-- The text of a method below its mark, with its signature. -/
def HasSignature (c : ClassDecl) (kind : MemberKind) (t : Text) : Prop :=
  ∃ line, FirstLine line t ∧ IsSignature c kind line

theorem hasSignature_block {signature : Text} {kind : MemberKind} (indent : Text)
    (body : List Text) (whole : '\n' ∉ signature) (other : kind ≠ .copyWith)
    (starts : methodStart c kind <+: signature) :
    HasSignature c kind (Method.block indent signature body) :=
  ⟨_, firstLine_block indent body whole,
    isSignature_of_ending (.inl rfl) other (starts.trans (List.prefix_append _ _))
      (List.suffix_append _ _)⟩

theorem hasSignature_line {front middle ending : Text} {kind : MemberKind}
    (other : kind ≠ .copyWith) (starts : methodStart c kind <+: front)
    (ends : ";".toList <:+ ending) (first : '\n' ∉ front) (inner : '\n' ∉ middle)
    (last : '\n' ∉ ending) : HasSignature c kind (front ++ middle ++ ending) := by
  refine ⟨_, ⟨?_, .inl rfl⟩,
    isSignature_of_ending (.inr rfl) other ?_ (ends.trans (List.suffix_append _ _))⟩
  · simp only [List.mem_append, not_or]
    exact ⟨⟨first, inner⟩, last⟩
  · rw [List.append_assoc]
    exact starts.trans (List.prefix_append _ _)

theorem hasSignature_copyWith (indent : Text) (type : '\n' ∉ c.type) :
    HasSignature c .copyWith (Method.copyWith indent c) := by
  have opens : " copyWith(\x7b\n".toList = " copyWith".toList ++ ("(\x7b".toList ++ ['\n']) := by
    decide
  have starts : " copyWith(".toList <+: " copyWith".toList ++ "(\x7b".toList := by decide
  refine ⟨c.type ++ " copyWith".toList ++ "(\x7b".toList, ⟨?_, .inr ?_⟩, ⟨?_, ?_, ?_⟩⟩
  · simp only [List.mem_append, not_or]
    exact ⟨⟨type, by decide⟩, by decide⟩
  · simp only [Method.copyWith, opens, List.append_assoc, List.singleton_append]
    exact ⟨_, rfl⟩
  · rw [List.append_assoc]
    exact (List.prefix_append_right_inj c.type).mpr starts
  · exact iff_of_true (List.suffix_append _ _) rfl
  · exact ⟨c.type ++ " copyWith".toList ++ ['('], '\x7b', by simp, by decide⟩

theorem hasSignature_fromMap (indent : Text) (mapDefaults fromJson : Bool) (name : '\n' ∉ c.name) :
    HasSignature c .fromMap (Method.fromMap indent mapDefaults fromJson c) := by
  have starts : ".fromMap(".toList <+: ".fromMap(Map<String, dynamic> map)".toList := by decide
  refine hasSignature_block indent _ ?_ (by decide) ?_
  · simp only [List.mem_append, not_or]
    exact ⟨⟨by decide, name⟩, by decide⟩
  · exact (List.prefix_append_right_inj ("factory ".toList ++ c.name)).mpr starts

theorem hasSignature_fromJson (name : '\n' ∉ c.name) :
    HasSignature c .fromJson (Method.fromJson c) := by
  have starts : ".fromJson(".toList <+: ".fromJson(String source) => ".toList := by decide
  unfold Method.fromJson
  refine hasSignature_line (by decide) ?_ (by decide) ?_ name (by decide)
  · exact (List.prefix_append_right_inj ("factory ".toList ++ c.name)).mpr starts
  · simp only [List.mem_append, not_or]
    exact ⟨⟨by decide, name⟩, by decide⟩

theorem hasSignature_toString (indent : Text) (name : '\n' ∉ c.name)
    (fields : ∀ f ∈ c.fieldNames, '\n' ∉ f) :
    ∃ t, Method.toString indent c = Method.overrideMark ++ t ∧ HasSignature c .toString t := by
  refine ⟨_, rfl, ?_⟩
  split
  · have starts : "String toString(".toList <+: "String toString() => ".toList := by decide
    refine hasSignature_line (by decide) starts (by decide) (by decide) ?_ (by decide)
    simp only [List.mem_append, not_or]
    refine ⟨⟨⟨⟨by decide, name⟩, by decide⟩, Header.notMem_join (by decide) ?_⟩, by decide⟩
    intro t member
    obtain ⟨f, field, rfl⟩ := List.mem_map.mp member
    simp only [List.mem_append, not_or]
    exact ⟨⟨fields f field, by decide⟩, fields f field⟩
  · have starts : "String toString(".toList <+: "String toString()".toList := by decide
    exact hasSignature_block indent _ (by decide) (by decide) starts

theorem hasSignature_hashAll (indent : Text) (fields : ∀ f ∈ c.fieldNames, '\n' ∉ f) :
    HasSignature c .hashCode (Method.hashAll indent c) := by
  rw [Method.hashAll]
  split
  · have starts : "int ".toList <+: "int get hashCode => Object.hashAll([".toList := by decide
    exact hasSignature_line (by decide) starts (by decide) (by decide)
      (Header.notMem_join (by decide) fields) (by decide)
  · have starts : "int ".toList <+: "int get hashCode".toList := by decide
    exact hasSignature_block indent _ (by decide) (by decide) starts

theorem hasSignature_hashXor (indent : Text) (fields : ∀ f ∈ c.fieldNames, '\n' ∉ f) :
    HasSignature c .hashCode (Method.hashXor indent c) := by
  simp only [Method.hashXor]
  split
  · have starts : "int ".toList <+: "int get hashCode => ".toList := by decide
    refine hasSignature_line (by decide) starts (by decide) (by decide)
      (Header.notMem_join (by decide) ?_) (by decide)
    intro t member
    obtain ⟨f, field, rfl⟩ := List.mem_map.mp member
    rw [List.mem_append, not_or]
    exact ⟨fields f.name (List.mem_map_of_mem field), by decide⟩
  · rename_i many
    split
    · rename_i none
      -- More than three fields leave something to be combined.
      simp only [ClassDecl.hasFewFields, decide_eq_true_eq] at many
      cases fields : c.fields with
      | nil => simp [fields] at many
      | cons f rest => cases rest <;> simp [fields, Method.chain] at none
    · have starts : "int ".toList <+: "int get hashCode".toList := by decide
      exact hasSignature_block indent _ (by decide) (by decide) starts

theorem hasSignature_props (indent : Text) (fields : ∀ f ∈ c.fieldNames, '\n' ∉ f) :
    ∃ t, Method.props indent c = Method.overrideMark ++ t ∧ HasSignature c .props t := by
  refine ⟨_, rfl, ?_⟩
  split
  · have starts : "List<".toList <+: "List<Object?> get props => [".toList := by decide
    exact hasSignature_line (by decide) starts (by decide) (by decide)
      (Header.notMem_join (by decide) fields) (by decide)
  · have starts : "List<".toList <+: "List<Object?> get props".toList := by decide
    exact hasSignature_block indent _ (by decide) (by decide) starts

/-- Below its mark, the text of a method starts with its signature. -/
theorem exists_hasSignature (member : c ∈ scan text) (s : Surroundings) {kind : MemberKind}
    (method : kind ≠ .constructor) :
    ∃ (marked : Bool) (t : Text), methodText s c kind = (if marked then Method.overrideMark
      else []) ++ t ∧
      HasSignature c kind t := by
  have name : '\n' ∉ c.name := (isLabel_of_mem_scan member).1
  have fields := notMem_fieldName member
  cases kind with
  | constructor => exact absurd rfl method
  | copyWith => exact ⟨false, _, rfl, hasSignature_copyWith s.indent (notMem_type member)⟩
  | toMap =>
      have starts : methodStart c .toMap <+: "Map<String, dynamic> toMap()".toList :=
        show "Map<".toList <+: _ from by decide
      exact ⟨false, Method.toMap s.indent s.fromJson c, rfl,
        hasSignature_block s.indent _ (by decide) (by decide) starts⟩
  | fromMap => exact ⟨false, _, rfl,
      hasSignature_fromMap s.indent s.style.mapDefaults s.fromJson name⟩
  | toJson =>
      have starts : methodStart c .toJson <+: "String toJson() => ".toList :=
        show "String toJson(".toList <+: _ from by decide
      have split : Method.toJson = "String toJson() => ".toList ++ "json.encode(toMap())".toList ++
          ";".toList := by decide
      refine ⟨false, Method.toJson, rfl, ?_⟩
      rw [split]
      exact hasSignature_line (by decide) starts (by decide) (by decide) (by decide) (by decide)
  | fromJson => exact ⟨false, _, rfl, hasSignature_fromJson name⟩
  | toString => exact ⟨true, hasSignature_toString s.indent name fields⟩
  | equality =>
      have starts : methodStart c .equality <+: "bool operator ==(Object other)".toList :=
        show "bool ".toList <+: _ from by decide
      exact ⟨true, _, rfl, hasSignature_block s.indent _ (by decide) (by decide) starts⟩
  | hashCode =>
      refine ⟨true, _, rfl, ?_⟩
      cases s.style.hashStrategy with
      | combinator => exact hasSignature_hashAll s.indent fields
      | xor => exact hasSignature_hashXor s.indent fields
  | props => exact ⟨true, hasSignature_props s.indent fields⟩

end Dart

end ValueClass
