import ValueClass.Proofs.Member.FieldParam
import ValueClass.Proofs.Member.NamedStyle

/-! # Parameter lists

A parameter list is laid out as parameters with commas between them, and perhaps a
bracket with more parameters at the end. Where all brackets of the parameters are
properly nested, the list that is read is the list that was laid out, whatever blanks
stand in it.
-/

namespace ValueClass

namespace Text

/-! ## Listed items -/

inductive CommaEnded : List Text → Text → Prop
  /-- There is no item. -/
  | nil : CommaEnded [] []
  /-- An item, its comma, and the items behind it. -/
  | cons {item before after rest : Text} {items : List Text} : before.isBlankText →
    after.isBlankText →
      CommaEnded items rest → CommaEnded (item :: items) (before ++ item ++ after ++ ',' :: rest)

theorem CommaEnded.lists {first second : List Text} {t rest : Text} (ended : CommaEnded first t)
    (listed : Lists second rest) :
    Lists (first ++ second) (t ++ rest) := by
  induction ended with
  | nil => exact listed
  | cons left right _ ih =>
      rw [List.append_assoc, List.cons_append]
      exact .cons left right ih

theorem CommaEnded.reindents {items : List Text} {t t' : Text} (h : Reindents t t')
    (ended : CommaEnded items t) :
    ∃ items', List.Forall₂ Reindents items items' ∧ CommaEnded items' t' := by
  induction ended generalizing t' with
  | nil =>
      cases h
      exact ⟨[], .nil, .nil⟩
  | @cons item before after rest items left right _ ih =>
      obtain ⟨front, later', rfl, inside, behind⟩ := h.of_append
      obtain ⟨front', after', rfl, most, trailing⟩ := inside.of_append
      obtain ⟨before', item', rfl, leading, here⟩ := most.of_append
      obtain ⟨comma, rest', rfl, same, later⟩ := Reindents.of_append (a := [',']) (b := rest) behind
      obtain ⟨items', each, ended'⟩ := ih later
      rw [same.eq_of_notMem (by decide)]
      exact ⟨item' :: items', .cons here each,
        .cons (leading.isBlankText left) (trailing.isBlankText right) ended'⟩

theorem IsItem.trimStart {item : Text} (h : IsItem item) {before : Text}
    (blank : before.isBlankText) (rest : Text) :
    Text.trimStart (before ++ item ++ rest) = item ++ rest := by
  obtain ⟨c, more, rfl⟩ := List.exists_cons_of_ne_nil h.filled
  rw [List.append_assoc, trimStart_append_of_blank blank]
  exact trimStart_cons (first_of_trimmed h.trimmed c more rfl) _

theorem IsItem.trimEnd {item : Text} (h : IsItem item) {after : Text} (blank : after.isBlankText)
    (before : Text) :
    Text.trimEnd (before ++ item ++ after) = before ++ item := by
  obtain ⟨start, c, split⟩ := (List.eq_nil_or_concat item).resolve_left h.filled
  rw [List.concat_eq_append] at split
  rw [trimEnd_append_of_blank blank, split, ← List.append_assoc]
  exact trimEnd_concat (last_of_trimmed h.trimmed c start split) _

/-- The blanks around a list are no part of it. -/
theorem Lists.trim {items : List Text} {t : Text} (listed : Lists items t)
    (each : ∀ item ∈ items, IsItem item) :
    Lists items t.trim := by
  have none : ∀ {blanks : Text}, blanks.isBlankText → Text.trimStart blanks = [] ∧
      Text.trimEnd blanks = [] := by
    intro blanks blank
    have front := trimStart_append_of_blank blank []
    rw [List.append_nil] at front
    exact ⟨front, trimEnd_append_of_blank blank []⟩
  have front : Lists items t.trimStart := by
    cases listed with
    | nil blank =>
        rw [(none blank).1]
        exact .nil rfl
    | @last item before after left right =>
        rw [(each item (by simp)).trimStart left]
        exact @Lists.last item [] after rfl right
    | @cons item before after rest items left right later =>
        rw [List.append_assoc, (each item (by simp)).trimStart left, ← List.append_assoc]
        exact @Lists.cons item [] after rest items rfl right later
  rw [Text.trim]
  generalize t.trimStart = t at front
  clear listed
  induction front with
  | nil blank =>
      rw [(none blank).2]
      exact .nil rfl
  | @last item before after left right =>
      rw [(each item (by simp)).trimEnd right, ← List.append_nil (before ++ item)]
      exact .last left rfl
  | cons left right _ ih =>
      rw [trimEnd_append_cons (by decide)]
      exact .cons left right (ih fun item member => each item (List.mem_cons_of_mem _ member))

theorem Lists.head {item : Text} {items : List Text} {t : Text} (listed : Lists (item :: items) t)
    (isItem : IsItem item) :
    ∃ rest, t.trimStart = item ++ rest := by
  cases listed with
  | last left right => exact ⟨_, isItem.trimStart left _⟩
  | cons left right later => exact ⟨_, by rw [List.append_assoc, isItem.trimStart left]⟩

end Text

namespace Dart.CtorParts

open Text (Lists CommaEnded IsItem)
open FieldParam (IsParam)

/-! ## Layouts -/

/-- How a parameter list can be laid out: parameters, and perhaps a bracket behind the
    last comma with more parameters in it. -/
inductive LaysOut : List Text → Option (GroupStyle × List Text) → Text → Prop
  /-- There is no bracket. -/
  | plain {outside : List Text} {t : Text} : Lists outside t → LaysOut outside none t
  /-- A bracket behind the parameters outside of it. -/
  | bracket {outside inside : List Text} {group : GroupStyle} {front content before after : Text} :
      CommaEnded outside front → before.isBlankText → after.isBlankText → Lists inside content →
      LaysOut outside (some (group, inside))
        (front ++ (before ++ (group.brackets.1 ++ content ++ group.brackets.2) ++ after))

/-- A layout is indented parameter by parameter. -/
theorem LaysOut.reindents {outside : List Text} {group : Option (GroupStyle × List Text)}
    {t t' : Text} (h : Text.Reindents t t') (laid : LaysOut outside group t) :
    ∃ outside' group', List.Forall₂ Text.Reindents outside outside' ∧
      Option.Rel (fun a b => a.1 = b.1 ∧ List.Forall₂ Text.Reindents a.2 b.2) group group' ∧
      LaysOut outside' group' t' := by
  cases laid with
  | plain listed =>
      obtain ⟨outside', each, listed'⟩ := h.lists listed
      exact ⟨outside', none, each, .none, .plain listed'⟩
  | @bracket inside group front content before after ended left right listed =>
      obtain ⟨front', rest', rfl, first, second⟩ := h.of_append
      obtain ⟨most', after', rfl, third, trailing⟩ := second.of_append
      obtain ⟨before', bracket', rfl, leading, around⟩ := third.of_append
      obtain ⟨opened', closing', rfl, opened, closing⟩ := around.of_append
      obtain ⟨opening', content', rfl, opening, inner⟩ := opened.of_append
      obtain ⟨outside', each, ended'⟩ := ended.reindents first
      obtain ⟨inside', grouped, listed'⟩ := inner.lists listed
      have marks : '\n' ∉ group.brackets.1 ∧ '\n' ∉ group.brackets.2 := by cases group <;> decide
      rw [opening.eq_of_notMem marks.1, closing.eq_of_notMem marks.2]
      exact ⟨outside', some (group, inside'), each, .some ⟨rfl, grouped⟩,
        .bracket ended' (leading.isBlankText left) (trailing.isBlankText right) listed'⟩

/-! ## Reading -/

theorem closed_of_lists {P : Text → Prop} (plain : ∀ t : Text, (∀ c ∈ t, bracketStep c = 0) → P t)
    (append : ∀ a b, P a → P b → P (a ++ b)) {items : List Text} {t : Text} (listed : Lists items t)
    (each : ∀ item ∈ items, P item) : P t := by
  induction listed with
  | nil blank => exact plain _ (Text.bracketStep_of_isBlankText blank)
  | last left right =>
      exact append _ _ (append _ _ (plain _ (Text.bracketStep_of_isBlankText left))
        (each _ (by simp)))
        (plain _ (Text.bracketStep_of_isBlankText right))
  | @cons item before after rest items left right _ ih =>
      have front := append _ _
          (append _ _ (plain _ (Text.bracketStep_of_isBlankText left)) (each item (by simp)))
        (plain _ (Text.bracketStep_of_isBlankText right))
      have comma := plain [','] (by decide)
      exact append _ _ front
        (append _ _ comma (ih fun item member => each item (List.mem_cons_of_mem _ member)))

theorem balanced_of_plain {t : Text} (plain : ∀ c ∈ t, bracketStep c = 0) (depth : Nat) :
    Balanced depth t depth :=
  balanced_of_forall (fun c member => brackets_of_plain (plain c member)) depth

theorem balanced_of_lists {items : List Text} {t : Text} (listed : Lists items t) {depth : Nat}
    (each : ∀ item ∈ items, Balanced depth item depth) : Balanced depth t depth :=
  closed_of_lists (fun _ plain => balanced_of_plain plain depth)
    (fun _ _ first second => first.append second) listed each

theorem balanced_of_isParam {param : Text} (h : IsParam param) {depth : Nat} (open_ : 1 ≤ depth) :
    Balanced depth param depth :=
  balanced_of_nestedFrom h.nested open_

theorem passes_of_lists {items : List Text} {t : Text} (listed : Lists items t)
    (each : ∀ item ∈ items, IsParam item) :
    Text.Passes bracketStep (· == ',') 1 t 1 := by
  refine closed_of_lists (P := fun t => Text.Passes bracketStep (· == ',') 1 t 1) ?_
    (fun _ _ first second => first.append second) listed ?_
  · intro t plain
    induction t with
    | nil => rfl
    | cons c rest ih =>
        have level := plain c (by simp)
        refine ⟨fun _ => by omega, ?_⟩
        rw [level]
        exact ih fun d member => plain d (List.mem_cons_of_mem _ member)
  · intro item member
    exact Text.passes_of_nestedFrom (each item member).nested (Int.le_refl 1)

section Bracket

variable {group : GroupStyle} {content : Text}

theorem isItem_bracket (passed : Text.Passes bracketStep (· == ',') 1 content 1) :
    IsItem (group.brackets.1 ++ content ++ group.brackets.2) := by
  have marks : ∃ opening closing, group.brackets = ([opening], [closing]) ∧
      isBlank opening = false ∧
      isBlank closing = false ∧ bracketStep opening = 1 ∧ bracketStep closing = -1 := by
    cases group
    · exact ⟨'\x7b', '\x7d', rfl, by decide⟩
    · exact ⟨'[', ']', rfl, by decide⟩
  obtain ⟨opening, closing, brackets, first, last, up, down⟩ := marks
  rw [brackets]
  refine ⟨by simp, Text.trim_eq_self ?_ ?_, ?_⟩
  · intro c rest same
    obtain ⟨rfl, -⟩ := List.cons.inj same
    exact first
  · intro c start same
    obtain ⟨-, rfl⟩ := List.append_singleton_inj.mp same
    exact last
  · have opened : Text.Passes bracketStep (· == ',') 0 [opening] 1 :=
      ⟨fun _ => by omega, by rw [up]; rfl⟩
    have closed : Text.Passes bracketStep (· == ',') 1 [closing] 0 := by
      refine ⟨?_, by rw [down]; rfl⟩
      intro comma
      rw [beq_iff_eq] at comma
      rw [comma] at down
      cases down
    exact (opened.append passed).append closed

theorem balanced_bracket {depth : Nat} (open_ : 1 ≤ depth)
    (balanced : Balanced (depth + 1) content (depth + 1)) :
    Balanced depth (group.brackets.1 ++ content ++ group.brackets.2) depth := by
  have closed : Balanced (depth + 1) (content ++ group.brackets.2) depth := by
    refine balanced.append ?_
    cases group <;> exact ⟨by omega, rfl⟩
  rw [List.append_assoc]
  cases group <;> exact closed

theorem unwrap_bracket : unwrap (group.brackets.1 ++ content ++ group.brackets.2) = content := by
  cases group <;> exact List.dropLast_concat

def opensGroup (param : Text) : Bool :=
  param.startsWith "\x7b" || param.startsWith "["

theorem opensGroup_reindents {param param' : Text} (h : Text.Reindents param param') :
    opensGroup param' = opensGroup param := by
  cases h with
  | nil => rfl
  | cons _ _ _ => simp [opensGroup, Text.startsWith, List.isPrefixOf]

theorem groupStyle?_eq_none {param : Text} (other : opensGroup param = false) :
    groupStyle? param = none := by
  rw [opensGroup, Bool.or_eq_false_iff] at other
  rw [groupStyle?, other.1, other.2]
  rfl

theorem endsWith_concat (start : Text) (c : Char) : Text.endsWith (start ++ [c]) [c] := by
  rw [Text.endsWith, List.isSuffixOf_iff_suffix]
  exact List.suffix_append _ _

theorem groupStyle?_bracket :
    groupStyle? (group.brackets.1 ++ content ++ group.brackets.2) = some group := by
  cases group with
  | named =>
      have ends : Text.endsWith ('\x7b' :: content ++ ['\x7d']) ['\x7d'] := endsWith_concat _ _
      show (if true && Text.endsWith ('\x7b' :: content ++ ['\x7d']) ['\x7d'] then _ else _) = _
      rw [ends]
      rfl
  | optional =>
      have ends : Text.endsWith ('[' :: content ++ [']']) [']'] := endsWith_concat _ _
      show (if false && _ then _
        else if true && Text.endsWith ('[' :: content ++ [']']) [']'] then _ else _) = _
      rw [ends]
      rfl

end Bracket

/-- The style of a list that is all in one bracket. -/
def listStyle : GroupStyle → ParamStyle
  | .named => .named
  | .optional => .optional

/-- What is read of a layout: the style of the list and its parameters. -/
def readOf (outside : List Text) :
    Option (GroupStyle × List Text) → ParamStyle × List Text × Option (GroupStyle × List Text)
  | none => (.positional, outside, none)
  | some (group, inside) =>
    if outside.isEmpty then (listStyle group, inside, none)
      else (.positional, outside, some (group, inside))

section Read

variable {name lead inner rest : Text} {outside : List Text}
  {group : Option (GroupStyle × List Text)}

theorem ofText_of_balanced (isLead : IsLead lead) (label : IsLabel name)
    (balanced : Balanced 1 inner 1) :
    ofText (lead ++ (name ++ '(' :: (inner ++ ')' :: rest))) name =
      match groupStyle? inner.trim with
      | none => ⟨lead.trim, .positional, inner.trim, rest.trim⟩
      | some group => ⟨lead.trim, listStyle group, unwrap inner.trim, rest.trim⟩ := by
  have cut : cutAtClose 1 (inner ++ ')' :: rest) = some (inner, rest) := by
    rw [cutAtClose_append balanced, show cutAtClose 1 (')' :: rest) = some ([], rest) from rfl]
    simp
  rw [ofText, cut?_ctor isLead label]
  dsimp only
  rw [cut, Option.getD_some, groupStyle?]
  dsimp only
  split
  · rfl
  · split <;> rfl

theorem opensGroup_trim {param : Text} {params : List Text} (listed : Lists (param :: params) inner)
    (isItem : IsItem param) : opensGroup inner.trim = opensGroup param := by
  obtain ⟨behind, front⟩ := listed.head isItem
  obtain ⟨c, more, rfl⟩ := List.exists_cons_of_ne_nil isItem.filled
  have solid := Text.first_of_trimmed isItem.trimmed c more rfl
  have kept : Text.trimEnd (c :: (more ++ behind)) = c :: Text.trimEnd (more ++ behind) :=
    Text.trimEnd_append_cons solid [] _
  rw [Text.trim, front, List.cons_append, kept]
  simp [opensGroup, Text.startsWith, List.isPrefixOf]

theorem splitGroup_of_plain (plain : ∀ param ∈ outside, opensGroup param = false) :
    splitGroup outside = (outside, none) := by
  rw [splitGroup]
  cases last : outside.getLast? with
  | none => rfl
  | some param =>
      dsimp only
      rw [groupStyle?_eq_none (plain param (List.mem_of_getLast? last))]

theorem splitGroup_bracket {g : GroupStyle} {inside : List Text} {content : Text}
    (listed : Lists inside content) (each : ∀ param ∈ inside, IsParam param) :
    splitGroup (outside ++ [g.brackets.1 ++ content ++ g.brackets.2]) =
      (outside, some (g, inside)) := by
  rw [splitGroup, List.getLast?_concat]
  dsimp only
  rw [groupStyle?_bracket, unwrap_bracket, List.dropLast_concat,
    Text.splitTopLevel_of_lists listed fun param member => (each param member).toIsItem]

/-- A list without a bracket at its end is read as it is. -/
theorem ofText_of_lists (isLead : IsLead lead) (label : IsLabel name) (listed : Lists outside inner)
    (plain : ∀ param ∈ outside, IsParam param ∧ opensGroup param = false) :
    let parts := ofText (lead ++ (name ++ '(' :: (inner ++ ')' :: rest))) name
    parts.lead = lead.trim ∧ (parts.style, parts.params) = readOf outside none ∧
      parts.rest = rest.trim := by
  intro parts
  have balanced := balanced_of_lists listed fun param member =>
      balanced_of_isParam (plain param member).1 (Nat.le_refl 1)
  have other : opensGroup inner.trim = false := by
    cases outside with
    | nil =>
        cases listed with
        | nil blank =>
            rw [Text.trim_of_isBlankText blank]
            rfl
    | cons param more =>
        obtain ⟨isParam, other⟩ := plain param (by simp)
        rw [opensGroup_trim listed isParam.toIsItem, other]
  have items : ∀ param ∈ outside, IsItem param :=
    fun param member => (plain param member).1.toIsItem
  have read : parts = ⟨lead.trim, .positional, inner.trim, rest.trim⟩ := by
    show ofText _ _ = _
    rw [ofText_of_balanced isLead label balanced, groupStyle?_eq_none other]
  rw [read]
  refine ⟨rfl, ?_, rfl⟩
  rw [params]
  dsimp only
  rw [Text.splitTopLevel_of_lists (listed.trim items) items,
    splitGroup_of_plain fun param member => (plain param member).2]
  rfl

theorem ofText_of_bracket (isLead : IsLead lead) (label : IsLabel name) {g : GroupStyle}
    {inside : List Text} {content before after : Text} (left : before.isBlankText)
    (right : after.isBlankText)
    (balanced : Balanced 1 (before ++ (g.brackets.1 ++ content ++ g.brackets.2) ++ after) 1)
    (listed : Lists inside content) (each : ∀ param ∈ inside, IsParam param) :
    let parts := ofText
      (lead ++ (name ++ '(' ::
        (before ++ (g.brackets.1 ++ content ++ g.brackets.2) ++ after ++ ')' :: rest)))
      name
    parts.lead = lead.trim ∧ (parts.style, parts.params) = readOf [] (some (g, inside)) ∧
      parts.rest = rest.trim := by
  intro parts
  have bracket : IsItem (g.brackets.1 ++ content ++ g.brackets.2) :=
    isItem_bracket (passes_of_lists listed each)
  have read : parts = ⟨lead.trim, listStyle g, content, rest.trim⟩ := by
    show ofText _ _ = _
    rw [ofText_of_balanced isLead label balanced, Text.trim_around left right bracket.trimmed,
      groupStyle?_bracket]
    dsimp only
    rw [unwrap_bracket]
  rw [read]
  refine ⟨rfl, ?_, rfl⟩
  have pieces := Text.splitTopLevel_of_lists listed fun param member => (each param member).toIsItem
  cases g <;> simp only [params, listStyle, pieces, readOf, List.isEmpty_nil, ↓reduceIte]

/-- A list with a bracket behind other parameters is positional, and the bracket is its last
    item. -/
theorem ofText_of_group (isLead : IsLead lead) (label : IsLabel name) {g : GroupStyle}
    {inside more : List Text} {param content : Text} (isParam : IsParam param)
    (other : opensGroup param = false)
    (whole : Lists (param :: more ++ [g.brackets.1 ++ content ++ g.brackets.2]) inner)
    (balanced : Balanced 1 inner 1)
    (items : ∀ item ∈ param :: more ++ [g.brackets.1 ++ content ++ g.brackets.2], IsItem item)
    (listed : Lists inside content) (each : ∀ param ∈ inside, IsParam param) :
    let parts := ofText (lead ++ (name ++ '(' :: (inner ++ ')' :: rest))) name
    parts.lead = lead.trim ∧
      (parts.style, parts.params) = readOf (param :: more) (some (g, inside)) ∧
      parts.rest = rest.trim := by
  intro parts
  have none := opensGroup_trim whole isParam.toIsItem
  rw [other] at none
  have read : parts = ⟨lead.trim, .positional, inner.trim, rest.trim⟩ := by
    show ofText _ _ = _
    rw [ofText_of_balanced isLead label balanced, groupStyle?_eq_none none]
  rw [read]
  refine ⟨rfl, ?_, rfl⟩
  rw [params]
  dsimp only
  rw [Text.splitTopLevel_of_lists (whole.trim items) items, splitGroup_bracket listed each]
  rfl

/-- The list that was laid out is the list that is read. -/
theorem ofText_laysOut (isLead : IsLead lead) (label : IsLabel name)
    (laid : LaysOut outside group inner)
    (plain : ∀ param ∈ outside, IsParam param ∧ opensGroup param = false)
    (grouped : ∀ g ∈ group, ∀ param ∈ g.2, IsParam param) :
    let parts := ofText (lead ++ (name ++ '(' :: (inner ++ ')' :: rest))) name
    parts.lead = lead.trim ∧ (parts.style, parts.params) = readOf outside group ∧
      parts.rest = rest.trim := by
  cases laid with
  | plain listed => exact ofText_of_lists isLead label listed plain
  | @bracket inside g front content before after ended left right listed =>
      have each : ∀ param ∈ inside, IsParam param := grouped (g, inside) rfl
      have inner := balanced_of_lists listed fun param member =>
          balanced_of_isParam (each param member) (Nat.le_succ 1)
      have whole := ended.lists
        (Lists.last left right : Lists [g.brackets.1 ++ content ++ g.brackets.2] _)
      have balanced := balanced_of_lists whole fun param member => by
        rcases List.mem_append.mp member with member | member
        · exact balanced_of_isParam (plain param member).1 (Nat.le_refl 1)
        · rw [List.mem_singleton.mp member]
          exact balanced_bracket (Nat.le_refl 1) inner
      cases outside with
      | nil =>
          cases ended
          exact ofText_of_bracket isLead label left right balanced listed each
      | cons param more =>
          obtain ⟨isParam, other⟩ := plain param (by simp)
          refine ofText_of_group isLead label isParam other whole balanced ?_ listed each
          intro item member
          rcases List.mem_append.mp member with member | member
          · exact (plain item member).1.toIsItem
          · rw [List.mem_singleton.mp member]
            exact isItem_bracket (passes_of_lists listed each)

end Read

/-! ## Writing -/

open ConstructorPlan (rows listOf)

theorem commaEnded_rows {indent : Text} (blank : indent.isBlankText) (params : List Text) :
    CommaEnded params (rows indent params) := by
  induction params with
  | nil => exact .nil
  | cons param rest ih =>
      have before : Text.isBlankText ('\n' :: indent) := by
        rw [Text.isBlankText, List.all_cons]
        exact blank
      have row : rows indent (param :: rest) = '\n' :: indent ++ param ++ [] ++ ',' ::
          rows indent rest := by
        simp [rows, ConstructorPlan.paramLines]
      rw [row]
      exact .cons before rfl ih

theorem laysOut_listOf {indent : Text} (blank : indent.isBlankText) (outside : List Text)
    (group : Option (GroupStyle × List Text)) :
    ∃ inner, listOf indent outside group = '(' :: (inner ++ [')']) ∧
      LaysOut outside group inner := by
  have listed : ∀ params, Lists params (rows indent params ++ ['\n']) := by
    intro params
    have whole := (commaEnded_rows blank params).lists (Lists.nil rfl : Lists [] ['\n'])
    rwa [List.append_nil] at whole
  cases group with
  | none => exact ⟨rows indent outside ++ ['\n'], by simp [listOf], .plain (listed outside)⟩
  | some g =>
      obtain ⟨g, inside⟩ := g
      have gap : Text.isBlankText (Text.when (!outside.isEmpty) " ") := by
        cases outside <;> rfl
      refine ⟨_, ?_, .bracket (commaEnded_rows blank outside) gap (show Text.isBlankText [] from
        rfl) (listed inside)⟩
      simp [listOf]

theorem ink_rows {indent : Text} {params params' : List Text}
    (each : List.Forall₂ Text.Reindents params params') :
    (rows indent params').ink = (rows indent params).ink := by
  induction each with
  | nil => rfl
  | @cons param param' rest rest' here _ ih =>
      have row : ∀ p ps, (rows indent (p :: ps)).ink = Text.ink ('\n' :: indent) ++ p.ink ++
          Text.ink [','] ++ (rows indent ps).ink := by
        intro p ps
        rw [← Text.ink_append, ← Text.ink_append, ← Text.ink_append]
        simp [rows, ConstructorPlan.paramLines]
      rw [row, row, here.ink_eq, ih]

theorem ink_listOf {indent : Text} {outside outside' : List Text}
    {group group' : Option (GroupStyle × List Text)}
    (plain : List.Forall₂ Text.Reindents outside outside')
    (grouped : Option.Rel (fun a b => a.1 = b.1 ∧ List.Forall₂ Text.Reindents a.2 b.2)
      group group') :
    (listOf indent outside' group').ink = (listOf indent outside group).ink := by
  cases grouped with
  | none => rw [listOf, listOf, Text.ink_append, Text.ink_append, Text.ink_append, Text.ink_append,
      ink_rows plain]
  | @some a b same =>
      obtain ⟨g, inside⟩ := a
      obtain ⟨g', inside'⟩ := b
      obtain ⟨rfl, grouped⟩ := same
      have gap : ∀ ps : List Text, Text.ink (Text.when (!ps.isEmpty) " ") = [] := by
        intro ps
        cases ps <;> rfl
      simp only [listOf, Text.ink_append, ink_rows plain, ink_rows grouped, gap]

end Dart.CtorParts

end ValueClass
