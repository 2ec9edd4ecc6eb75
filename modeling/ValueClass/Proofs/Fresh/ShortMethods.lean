import ValueClass.Proofs.Fresh.Methods

/-! # The short methods of a fresh class

The methods that have a form of one line.
-/

namespace ValueClass

theorem Text.all_join {keep : Char → Bool} {sep : Text} (gap : sep.all keep) {ts : List Text}
    (each : ∀ t ∈ ts, t.all keep) : (Text.join sep ts).all keep := by
  induction ts with
  | nil => rfl
  | cons t rest ih =>
      cases rest with
      | nil => exact each t (by simp)
      | cons next more =>
          have behind := ih fun u member => each u (by simp [member])
          rw [Text.join, List.all_append, List.all_append, each t (by simp), gap, behind]
          rfl

namespace Fresh

open Dart Dart.Line

section Lines

variable {c : ClassText} {indent : Text} {kind : MemberKind}

theorem sheet_expression (ind : IsIndent indent) {text w rest v : Text} {d : Char}
    (lines : text = (if isMarked kind then Method.overrideMark else []) ++
      (w ++ d :: rest ++ "=>".toList ++ (v ++ [';'])))
    (light : (w ++ d :: rest).all isLight) (snippet : Snippet 0 v) (word : ∀ e ∈ w, isWordChar e)
    (nonempty : w ≠ []) (stop : isWordChar d = false) (other : d ≠ '(') (plain : w ≠ "const")
    (opener : w ∉ Header.openers) (like : Like c.name kind (w ++ d :: rest)) :
    ∃ first, Sheet c indent text kind first [] := by
  have whole : w ++ d :: rest ++ "=>".toList ++ (v ++ [';']) =
      w ++ d :: (rest ++ ("=>".toList ++ (v ++ [';']))) := by
    simp only [List.append_assoc, List.cons_append]
  have solid : Snippet 0 (w ++ d :: rest ++ "=>".toList ++ (v ++ [';'])) :=
    ((snippet_light light).append (snippet_light (by decide))).append
      (snippet.append (snippet_light (by decide)))
  rw [whole] at lines solid
  refine ⟨_, sheet_line ind lines (written_word solid word nonempty stop (.inl opener)) word
    nonempty stop other
    plain whole.symm (unquoted_of_light light) ?_⟩
  rw [← whole, List.append_assoc, Like, Text.ink_append]
  exact like.trans (List.prefix_append _ _)

end Lines

/-! ## JSON text -/

namespace ClassText

variable (c : ClassText) {indent : Text}

theorem toJson_sheet (ind : IsIndent indent) :
    ∃ first, Sheet c indent Method.toJson .toJson first [] := by
  have like : "StringtoJson".toList ++ "()".toList <+:
      Text.ink ("String".toList ++ ' ' :: "toJson() ".toList) :=
    ⟨_, rfl⟩
  exact sheet_expression ind (v := " json.encode(toMap())".toList) rfl (by decide)
    (snippet_light (by decide)) (by decide) (by decide) (by decide) (by decide) (by decide)
      (by decide) like

theorem fromJson_eq : Method.fromJson c.plain =
    "factory".toList ++ ' ' :: (c.name ++ ".fromJson(String source) ".toList) ++ "=>".toList ++
      (' ' :: (c.name ++ ".fromMap(json.decode(source) as Map<String, dynamic>)".toList) ++
        [';']) := by
  have front : "factory ".toList = "factory".toList ++ [' '] := rfl
  have arrow : ".fromJson(String source) => ".toList =
      ".fromJson(String source) ".toList ++ ("=>".toList ++ [' ']) := by simp
  have ending : ".fromMap(json.decode(source) as Map<String, dynamic>);".toList =
      ".fromMap(json.decode(source) as Map<String, dynamic>)".toList ++ [';'] := by simp
  unfold Method.fromJson
  rw [plain_name, front, arrow, ending]
  simp only [List.append_assoc, List.cons_append, List.nil_append]

theorem fromJson_sheet (ind : IsIndent indent) :
    ∃ first, Sheet c indent (Method.fromJson c.plain) .fromJson first [] := by
  have front : Text.ink "factory".toList = "factory".toList := rfl
  have signature : Text.ink ".fromJson(String source) ".toList =
      ".fromJson(".toList ++ "Stringsource)".toList := rfl
  have light : ("factory".toList ++ ' ' :: (c.name ++ ".fromJson(String source) ".toList)).all
      isLight := by
    rw [List.all_append, List.all_cons, List.all_append, c.light_name]
    decide
  have value : (' ' ::
    (c.name ++ ".fromMap(json.decode(source) as Map<String, dynamic>)".toList)).all isLight := by
    rw [List.all_cons, List.all_append, c.light_name]
    rfl
  refine sheet_expression ind c.fromJson_eq light (snippet_light value) (by decide)
    (by decide) (by decide)
    (by decide) (by decide) (by decide) ?_
  unfold Like
  rw [Text.ink_append, Text.ink_cons_of_blank (by decide), Text.ink_append, c.isIdentifier.ink,
    front, signature]
  show "factory".toList ++ c.name ++ ".fromJson(".toList <+: _
  simp only [List.append_assoc, List.prefix_append_right_inj]
  exact List.prefix_append _ _

end ClassText

/-! ## Texts and hash codes -/

theorem mem_chain {sep line : Text} {ts : List Text} (member : line ∈ Method.chain sep ts) :
    ∃ t ∈ ts, line = t ++ sep ∨ line = t ++ [';'] := by
  induction ts with
  | nil => simp [Method.chain] at member
  | cons t rest ih =>
      cases rest with
      | nil =>
          rw [Method.chain, List.mem_singleton] at member
          exact ⟨t, by simp, .inr member⟩
      | cons next more =>
          rw [Method.chain, List.mem_cons] at member
          rcases member with rfl | member
          · exact ⟨t, by simp, .inl rfl⟩
          · obtain ⟨u, inside, same⟩ := ih member
            exact ⟨u, by simp [inside], same⟩
          · simp

theorem chain_ne_nil {sep : Text} {ts : List Text} (some : ts ≠ []) : Method.chain sep ts ≠ [] := by
  fun_cases Method.chain sep ts <;> simp_all

theorem mem_dropLast_chain {sep line : Text} {ts : List Text}
    (member : line ∈ (Method.chain sep ts).dropLast) :
    ∃ t ∈ ts, line = t ++ sep := by
  induction ts with
  | nil => simp [Method.chain] at member
  | cons t rest ih =>
      cases rest with
      | nil => simp [Method.chain] at member
      | cons next more =>
          rw [Method.chain] at member
          · rw [List.dropLast_cons_of_ne_nil (chain_ne_nil (by simp)), List.mem_cons] at member
            rcases member with rfl | member
            · exact ⟨t, by simp, rfl⟩
            · obtain ⟨u, inside, same⟩ := ih member
              exact ⟨u, by simp [inside], same⟩
          · simp

section Hash

variable {c : ClassText} {indent : Text}

theorem likeHashCode {name : Text} :
    Like name .hashCode ("int".toList ++ ' ' :: "get hashCode ".toList) :=
  (⟨_, rfl⟩ : "intgethashCode".toList ++ [] <+: Text.ink
    ("int".toList ++ ' ' :: "get hashCode ".toList))

theorem sheet_hashArrow (ind : IsIndent indent) {text v : Text}
    (lines : text = Method.overrideMark ++
      ("int".toList ++ ' ' :: "get hashCode ".toList ++ "=>".toList ++ (v ++ [';'])))
    (light : v.all isLight) : ∃ first, Sheet c indent text .hashCode first [] :=
  sheet_expression ind lines (by decide) (snippet_light light) (by decide) (by decide)
    (by decide) (by decide)
    (by decide) (by decide) likeHashCode

theorem sheet_hashBlock (ind : IsIndent indent) {text : Text} {body : List Text}
    (lines : text = Method.overrideMark ++ Method.block indent "int get hashCode".toList body)
    (each : ∀ line ∈ body, Written 0 line)
    (unlike : ∀ line ∈ body, ∀ later, later ≠ .constructor → later ≠ .hashCode →
      ¬ Like c.name later line)
    (on : ∀ line ∈ body.dropLast, GoesOn line) :
    Sheet c indent text .hashCode ("int".toList ++ ' ' :: "get hashCode \x7b".toList)
      (bodyLines indent body ++ ["\x7d".toList]) := by
  have like : "intgethashCode".toList ++ [] <+: Text.ink
      ("int".toList ++ ' ' :: "get hashCode \x7b".toList) :=
    ⟨_, rfl⟩
  have first : Written 1 ("int".toList ++ ' ' :: "get hashCode \x7b".toList) :=
    written_word (snippet_of_unquoted (by decide) (by decide)) (by decide) (by decide) (by decide)
      (.inl (by decide))
  refine sheet_level ind lines (by rfl) first (by decide) (by decide) (by decide)
    (by decide) (by decide)
    (.inl (by decide)) each like ?_ (calm_bodyLines ind each on)
  intro line member later method differ _
  exact unlike line member later method differ

end Hash

namespace ClassText

variable (c : ClassText) {indent : Text}

theorem light_names {sep : Text} (gap : sep.all isLight) {g : Text → Text}
    (each : ∀ f ∈ c.fields, (g f.name).all isLight) :
    (Text.join sep (c.fields.map fun f => g f.name)).all isLight := by
  refine Text.all_join gap ?_
  intro t member
  obtain ⟨f, inside, rfl⟩ := List.mem_map.mp member
  exact each f inside

def literal : Text :=
  c.name ++ ("(".toList ++
    (Text.join ", ".toList (c.fields.map fun f => f.name ++ ": $".toList ++ f.name) ++
    ")".toList))

theorem snippet_quoted : Snippet 0 ('\'' :: (c.literal ++ ['\''])) := by
  have each : ∀ f ∈ c.fields, (f.name ++ ": $".toList ++ f.name).all isLight := by
    intro f _
    rw [List.all_append, List.all_append, f.isIdentifier.light]
    decide
  apply snippet_literal
  unfold literal
  rw [List.all_append, List.all_append, List.all_append, c.light_name,
    c.light_names (g := fun name => name ++ ": $".toList ++ name) (by decide) each]
  decide

theorem toString_eq : Method.toString indent c.plain = Method.overrideMark ++
    if c.plain.hasFewFields then
      "String".toList ++ ' ' :: "toString() ".toList ++ "=>".toList ++
        (' ' :: ('\'' :: (c.literal ++ ['\''])) ++ [';'])
    else Method.block indent "String toString()".toList
      ["return".toList ++ ' ' :: ('\'' :: (c.literal ++ ['\'']) ++ [';'])] := by
  have values : (c.plain.fieldNames.map fun name => name ++ ": $".toList ++ name) =
      c.fields.map fun f => f.name ++ ": $".toList ++ f.name := by
    rw [plain_fieldNames, List.map_map]
    rfl
  have quoted : "'".toList ++ c.name ++ "(".toList ++
      Text.join ", ".toList (c.fields.map fun f => f.name ++ ": $".toList ++ f.name) ++
        ")'".toList =
      '\'' :: (c.literal ++ ['\'']) := by
    have ending : ")'".toList = ")".toList ++ ['\''] := by decide
    unfold literal
    rw [ending]
    simp only [List.append_assoc]
    rfl
  have short : "String toString() => ".toList = "String".toList ++ ' ' :: "toString() ".toList ++
      "=>".toList ++ [' '] :=
    rfl
  have long : "return ".toList = "return".toList ++ [' '] := by decide
  unfold Method.toString
  dsimp only
  rw [values, plain_name, quoted, short, long]
  simp only [List.append_assoc, List.cons_append, List.nil_append]
  rfl

theorem toString_sheet (ind : IsIndent indent) :
    ∃ first more, Sheet c indent (Method.toString indent c.plain) .toString first more := by
  have like : "StringtoString".toList ++ "()".toList <+:
      Text.ink ("String".toList ++ ' ' :: "toString() ".toList) := ⟨_, rfl⟩
  have equation := @toString_eq c indent
  by_cases few : c.plain.hasFewFields
  · rw [if_pos few] at equation
    have snippet := (snippet_light (t := " ".toList) (by decide)).append c.snippet_quoted
    have sheet : ∃ first, Sheet c indent (Method.toString indent c.plain) .toString first [] :=
      sheet_expression ind equation (by decide) snippet (by decide) (by decide) (by decide)
        (by decide) (by decide)
        (by decide) like
    obtain ⟨first, sheet⟩ := sheet
    exact ⟨first, [], sheet⟩
  · rw [if_neg few] at equation
    have like : "StringtoString".toList ++ "()".toList <+:
        Text.ink ("String".toList ++ ' ' :: "toString() \x7b".toList) := ⟨_, rfl⟩
    have first : Written 1 ("String".toList ++ ' ' :: "toString() \x7b".toList) :=
      written_word (snippet_of_unquoted (by decide) (by decide)) (by decide) (by decide) (by decide)
        (.inl (by decide))
    have written : ∀ line ∈ ["return".toList ++ ' ' :: ('\'' :: (c.literal ++ ['\'']) ++ [';'])],
        Written 0 line := by
      intro line member
      rw [List.mem_singleton.mp member]
      exact written_return (c.snippet_quoted.append (snippet_light (t := ";".toList) (by decide)))
    refine ⟨_, _, sheet_level ind equation (by rfl) first (by decide) (by decide)
      (by decide) (by decide)
      (by decide) (.inl (by decide)) written like ?_ (calm_bodyLines ind written nofun)⟩
    · intro line member later method _ _
      rw [List.mem_singleton.mp member]
      exact unlike_return method

theorem mem_names {open_ close_ line : Text}
    (member : line ∈ Method.enclosed open_ (Method.items indent c.plain.fieldNames) close_) :
    line = open_ ∨ (∃ f ∈ c.fields, line = indent ++ f.nameLine ',' []) ∨ line = close_ := by
  rcases mem_enclosed member with rfl | member | rfl
  · exact .inl rfl
  · obtain ⟨name, known, rfl⟩ := mem_items member
    rw [plain_fieldNames] at known
    obtain ⟨f, inside, rfl⟩ := List.mem_map.mp known
    exact .inr (.inl ⟨f, inside, rfl⟩)
  · exact .inr (.inr rfl)

theorem written_names (ind : IsIndent indent) {rest : Text} (open_ : rest.all isLight) {d : Char}
    {close_ : Text} (last : Written 0 (d :: close_)) :
    ∀ line ∈ Method.enclosed ("return".toList ++ ' ' :: rest)
      (Method.items indent c.plain.fieldNames) (d :: close_),
      Written 0 line := by
  intro line member
  rcases c.mem_names member with rfl | ⟨f, -, rfl⟩ | rfl
  · exact written_return (snippet_light open_)
  · exact (f.written_nameLine (snippet_light (by decide)) (by decide) (by decide)).indent
      ind.blank ind.light
  · exact last

theorem unlike_names (ind : IsIndent indent) {rest close_ : Text} {d : Char}
    (low : d.isUpper = false) (foreign : d ∉ ['f', 'b', 'i']) (solid : isBlank d = false)
    {kind : MemberKind} (method : kind ≠ .constructor)
    (apart : kind = .hashCode → ¬ c.hashLikeName) :
    ∀ line ∈ Method.enclosed ("return".toList ++ ' ' :: rest)
      (Method.items indent c.plain.fieldNames) (d :: close_),
      ¬ Like c.name kind line := by
  intro line member
  rcases c.mem_names member with rfl | ⟨f, inside, rfl⟩ | rfl
  · exact unlike_return method
  · rw [like_indent ind]
    exact f.unlike_nameLine method (by decide) (by decide) (by decide)
      fun hash starts => apart hash ⟨f, inside, starts⟩
  · exact unlike_of_head c.upper method low foreign solid

theorem names_goesOn {open_ close_ : Text} (first : GoesOn open_) :
    ∀ line ∈ (Method.enclosed open_ (Method.items indent c.plain.fieldNames) close_).dropLast,
      GoesOn line := by
  intro line member
  rw [dropLast_enclosed] at member
  rcases List.mem_cons.mp member with rfl | member
  · exact first
  · obtain ⟨name, -, rfl⟩ := mem_items member
    exact (goesOn_concat (by decide) (by decide)).append indent

theorem light_plainNames : (Text.join ", ".toList c.plain.fieldNames).all isLight := by
  rw [plain_fieldNames]
  exact c.light_names (g := fun name => name) (by decide) fun f _ => f.isIdentifier.light

theorem props_sheet (ind : IsIndent indent) :
    ∃ first more, Sheet c indent (Method.props indent c.plain) .props first more := by
  by_cases few : c.plain.hasFewFields
  · have split : "List<Object?> get props => [".toList =
        "List".toList ++ '<' :: "Object?> get props ".toList ++ "=>".toList ++ " [".toList := by
          simp
    have ending : "];".toList = "]".toList ++ [';'] := by decide
    have equation : Method.props indent c.plain = Method.overrideMark ++
        ("List".toList ++ '<' :: "Object?> get props ".toList ++ "=>".toList ++
          (" [".toList ++ Text.join ", ".toList c.plain.fieldNames ++ "]".toList ++ [';'])) := by
      unfold Method.props
      rw [if_pos few, split, ending]
      simp only [List.append_assoc]
    have like : "List".toList ++ "<Object?>getprops".toList <+:
        Text.ink ("List".toList ++ '<' :: "Object?> get props ".toList) := ⟨_, rfl⟩
    have value : (" [".toList ++ Text.join ", ".toList c.plain.fieldNames ++ "]".toList).all
        isLight := by
      rw [List.all_append, List.all_append, c.light_plainNames]
      decide
    have sheet : ∃ first, Sheet c indent (Method.props indent c.plain) .props first [] :=
      sheet_expression ind equation (by decide) (snippet_light value) (by decide) (by decide)
        (by decide) (by decide)
        (by decide) (by decide) like
    obtain ⟨first, sheet⟩ := sheet
    exact ⟨first, [], sheet⟩
  · have equation : Method.props indent c.plain = Method.overrideMark ++
        Method.block indent "List<Object?> get props".toList
          (Method.enclosed ("return".toList ++ ' ' :: "[".toList)
            (Method.items indent c.plain.fieldNames)
            "];".toList) := by
      have first : "return [".toList = "return".toList ++ ' ' :: "[".toList := by decide
      unfold Method.props
      rw [if_neg few, first]
    have like : "List".toList ++ "<Object?>getprops".toList <+:
        Text.ink ("List".toList ++ '<' :: "Object?> get props \x7b".toList) := ⟨_, rfl⟩
    have first : Written 1 ("List".toList ++ '<' :: "Object?> get props \x7b".toList) :=
      written_word (snippet_of_unquoted (by decide) (by decide)) (by decide) (by decide) (by decide)
        (.inl (by decide))
    have last : Written 0 "];".toList :=
      written_mark (snippet_light (by decide)) (by decide) (by decide) (by decide)
    refine ⟨_, _, sheet_level ind equation (by rfl) first (by decide) (by decide)
      (by decide) (by decide)
      (by decide) (.inr (by decide)) (c.written_names ind (by decide) last) like ?_
      (calm_bodyLines ind (c.written_names ind (by decide) last)
        (c.names_goesOn (goesOn_concat (a := "return ".toList) (by decide) (by decide))))⟩
    intro line member later method _ apart
    exact c.unlike_names ind (by decide) (by decide) (by decide) method apart line member

theorem hashAll_sheet (ind : IsIndent indent) :
    ∃ first more, Sheet c indent (Method.overrideMark ++ Method.hashAll indent c.plain) .hashCode
      first more := by
  by_cases few : c.plain.hasFewFields
  · have split : "int get hashCode => Object.hashAll([".toList =
        "int".toList ++ ' ' :: "get hashCode ".toList ++ "=>".toList ++
          " Object.hashAll([".toList := by simp
    have ending : "]);".toList = "])".toList ++ [';'] := by decide
    have equation : Method.overrideMark ++ Method.hashAll indent c.plain = Method.overrideMark ++
        ("int".toList ++ ' ' :: "get hashCode ".toList ++ "=>".toList ++
          (" Object.hashAll([".toList ++ Text.join ", ".toList c.plain.fieldNames ++ "])".toList ++
            [';'])) := by
      unfold Method.hashAll
      rw [if_pos few, split, ending]
      simp only [List.append_assoc]
    have value : (" Object.hashAll([".toList ++ Text.join ", ".toList c.plain.fieldNames ++
        "])".toList).all isLight := by
      rw [List.all_append, List.all_append, c.light_plainNames]
      decide
    obtain ⟨first, sheet⟩ := sheet_hashArrow ind equation value
    exact ⟨first, [], sheet⟩
  · have equation : Method.overrideMark ++ Method.hashAll indent c.plain = Method.overrideMark ++
        Method.block indent "int get hashCode".toList
          (Method.enclosed ("return".toList ++ ' ' :: "Object.hashAll([".toList)
            (Method.items indent c.plain.fieldNames) "]);".toList) := by
      have first : "return Object.hashAll([".toList = "return".toList ++ ' ' ::
          "Object.hashAll([".toList :=
        rfl
      unfold Method.hashAll
      rw [if_neg few, first]
    have last : Written 0 "]);".toList :=
      written_mark (snippet_light (by decide)) (by decide) (by decide) (by decide)
    refine ⟨_, _, sheet_hashBlock ind equation (c.written_names ind (by decide) last) ?_
      (c.names_goesOn (goesOn_concat (a := "return Object.hashAll(".toList) (by decide)
        (by decide)))⟩
    intro line member later method differ
    exact c.unlike_names ind (by decide) (by decide) (by decide) method
      (fun same => absurd same differ) line member

/-- The hash code of a field, and what follows it. -/
def hashLine (f : FieldText) (behind : Text) : Text :=
  f.nameLine '.' ("hashCode".toList ++ behind)

theorem written_hashLine (f : FieldText) {behind : Text} (light : behind.all isLight) :
    Written 0 (hashLine f behind) := by
  apply f.written_nameLine _ (by decide) (by decide)
  apply snippet_light
  rw [List.all_cons, List.all_append, light]
  decide

-- Only a factory goes on with a dot behind a word, and with another letter behind it.
theorem unlike_hashLine (f : FieldText) (behind : Text) {kind : MemberKind}
    (method : kind ≠ .constructor) (differ : kind ≠ .hashCode) :
    ¬ Like c.name kind (hashLine f behind) := by
  have ink : (f.nameLine '.' ("hashCode".toList ++ behind)).ink =
      f.name ++ '.' :: Text.ink ("hashCode".toList ++ behind) := f.ink_nameLine (by decide)
  rw [hashLine, like_iff c.plainName method differ f.isIdentifier.plain (by decide) ink]
  rintro ⟨-, starts⟩
  have second : Text.ink ("hashCode".toList ++ behind) =
      'h' :: Text.ink ("ashCode".toList ++ behind) :=
    Text.ink_cons (c := 'h') (by decide) _
  rw [second] at starts
  cases kind with
  | constructor => exact method rfl
  | hashCode => exact differ rfl
  | fromMap | fromJson =>
      have : 'f' = 'h' := (List.cons_prefix_cons.mp (List.cons_prefix_cons.mp starts).2).1
      exact absurd this (by decide)
  | copyWith | toMap | toJson | toString | equality | props =>
      have := (List.cons_prefix_cons.mp starts).1
      exact absurd this (by decide)

theorem mem_codes {behind line : Text}
    (member : line ∈ Method.chain behind
      (c.plain.fields.map fun f => f.name ++ ".hashCode".toList)) :
    ∃ f ∈ c.fields, line = hashLine f behind ∨ line = hashLine f [';'] := by
  obtain ⟨t, known, same⟩ := mem_chain member
  rw [plain_fields, List.map_map] at known
  obtain ⟨f, inside, rfl⟩ := List.mem_map.mp known
  refine ⟨f, inside, ?_⟩
  have text : ∀ more : Text, (f.field 1).name ++ ".hashCode".toList ++ more = hashLine f more := by
    intro more
    rw [List.append_assoc]
    rfl
  rcases same with rfl | rfl
  · exact .inl (text _)
  · exact .inr (text _)

theorem light_codes :
    (Text.join " ^ ".toList (c.plain.fields.map fun f => f.name ++ ".hashCode".toList)).all
    isLight := by
  rw [plain_fields, List.map_map]
  refine c.light_names (g := fun name => name ++ ".hashCode".toList) (by decide) ?_
  intro f _
  rw [List.all_append, f.isIdentifier.light]
  decide

theorem goesOn_returned {first : Text} {rest : List Text}
    (on : ∀ line ∈ (first :: rest).dropLast, GoesOn line) :
    ∀ line ∈ (("return".toList ++ ' ' :: first) :: rest.map fun line => indent ++ line).dropLast,
      GoesOn line := by
  intro line member
  cases rest with
  | nil => simp at member
  | cons next more =>
      rw [List.map_cons, List.dropLast_cons_cons, List.mem_cons, ← List.map_cons,
        ← List.map_dropLast] at member
      rw [List.dropLast_cons_cons] at on
      rcases member with rfl | member
      · exact (on first (by simp)).append "return ".toList
      · obtain ⟨old, inside, rfl⟩ := List.mem_map.mp member
        exact (on old (List.mem_cons_of_mem _ inside)).append indent

/-- With few fields the codes stand on one line, behind an arrow. -/
theorem hashXor_sheet_arrow (ind : IsIndent indent) (few : c.plain.hasFewFields) :
    ∃ first more, Sheet c indent (Method.overrideMark ++ Method.hashXor indent c.plain) .hashCode
      first more := by
  have split : "int get hashCode => ".toList =
      "int".toList ++ ' ' :: "get hashCode ".toList ++ "=>".toList ++ " ".toList := by simp
  have equation : Method.overrideMark ++ Method.hashXor indent c.plain = Method.overrideMark ++
      ("int".toList ++ ' ' :: "get hashCode ".toList ++ "=>".toList ++
        (" ".toList ++ Text.join " ^ ".toList
          (c.plain.fields.map fun f => f.name ++ ".hashCode".toList) ++
          [';'])) := by
    unfold Method.hashXor
    dsimp only
    rw [if_pos few, split]
    simp only [List.append_assoc]
    rfl
  have value : (" ".toList ++
      Text.join " ^ ".toList (c.plain.fields.map fun f => f.name ++ ".hashCode".toList)).all
        isLight := by
    rw [List.all_append, c.light_codes]
    decide
  obtain ⟨first, sheet⟩ := sheet_hashArrow ind equation value
  exact ⟨first, [], sheet⟩

/-- With more fields every code stands on a line of its own. -/
theorem hashXor_sheet_block (ind : IsIndent indent) (few : ¬ c.plain.hasFewFields) :
    ∃ first more, Sheet c indent (Method.overrideMark ++ Method.hashXor indent c.plain) .hashCode
      first more := by
  have some : (c.plain.fields.map fun f => f.name ++ ".hashCode".toList) ≠ [] := by
    rw [plain_fields, List.map_map]
    exact c.map_fields_ne_nil _
  have chained : Method.chain " ^".toList
      (c.plain.fields.map fun f => f.name ++ ".hashCode".toList) ≠ [] :=
    chain_ne_nil some
  obtain ⟨first, rest, codes⟩ := List.exists_cons_of_ne_nil chained
  have each : ∀ line ∈ first :: rest, ∃ f ∈ c.fields, line = hashLine f " ^".toList ∨
      line = hashLine f [';'] := by
    intro line member
    rw [← codes] at member
    exact c.mem_codes member
  have equation : Method.overrideMark ++ Method.hashXor indent c.plain = Method.overrideMark ++
      Method.block indent "int get hashCode".toList
        (("return".toList ++ ' ' :: first) :: rest.map fun line => indent ++ line) := by
    have word : "return ".toList = "return".toList ++ [' '] := by decide
    unfold Method.hashXor
    dsimp only
    rw [if_neg few, codes, word]
    simp only [List.append_assoc, List.singleton_append]
  have written : ∀ line ∈ first :: rest, Written 0 line := by
    intro line member
    obtain ⟨f, -, rfl | rfl⟩ := each line member
    · exact written_hashLine f (by decide)
    · exact written_hashLine f (by decide)
  have on : ∀ line ∈ (first :: rest).dropLast, GoesOn line := by
    intro line member
    rw [← codes] at member
    obtain ⟨t, -, rfl⟩ := mem_dropLast_chain member
    exact (goesOn_concat (a := " ".toList) (by decide) (by decide)).append t
  refine ⟨_, _, sheet_hashBlock ind equation ?_ ?_ (goesOn_returned on)⟩
  · intro line member
    rcases List.mem_cons.mp member with rfl | member
    · exact written_return (written first (by simp)).toSnippet
    · obtain ⟨old, inside, rfl⟩ := List.mem_map.mp member
      exact (written old (by simp [inside])).indent ind.blank ind.light
  · intro line member later method differ
    rcases List.mem_cons.mp member with rfl | member
    · exact unlike_return method
    · obtain ⟨old, inside, rfl⟩ := List.mem_map.mp member
      rw [like_indent ind]
      obtain ⟨f, -, rfl | rfl⟩ := each old (by simp [inside])
      · exact c.unlike_hashLine f _ method differ
      · exact c.unlike_hashLine f _ method differ

theorem hashXor_sheet (ind : IsIndent indent) :
    ∃ first more, Sheet c indent (Method.overrideMark ++ Method.hashXor indent c.plain) .hashCode
      first more := by
  by_cases few : c.plain.hasFewFields
  · exact c.hashXor_sheet_arrow ind few
  · exact c.hashXor_sheet_block ind few

theorem hashCode_sheet (ind : IsIndent indent) (strategy : HashStrategy) :
    ∃ first more, Sheet c indent (Method.hashCode indent strategy c.plain) .hashCode
      first more := by
  cases strategy with
  | combinator => exact c.hashAll_sheet ind
  | xor => exact c.hashXor_sheet ind

end ClassText

end Fresh

end ValueClass
