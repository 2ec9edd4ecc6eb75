import ValueClass.Proofs.Fresh.Reflowed
import ValueClass.Proofs.Fresh.Settled

/-! # Other layouts of a method

Once a run has written its members, the blanks of a method can change and it still needs
no edit, as long as its lines are broken where the line-based search can follow: then it
stands as a method again, and nothing else on the page has moved.
-/

namespace ValueClass.Fresh

open Dart Dart.Line Dart.Imports

section Lines

variable {s : Surroundings} {c : ClassText} {kind : MemberKind}

theorem ink_markLines (ind : IsIndent s.indent) (kind : MemberKind) :
    ((markLines s kind).map Text.ink).filter (fun ink => !ink.isEmpty) = if isMarked kind then
    [markLine] else [] := by
  have ink : Text.ink (s.indent ++ markLine) = markLine := by
    rw [Text.ink_append, Text.ink_of_isBlankText ind.blank]
    rfl
  rw [markLines]
  split
  · rw [List.map_singleton, ink]
    rfl
  · rfl

theorem noSlash_memberText (ind : IsIndent s.indent) (method : kind ≠ .constructor) :
    '/' ∉ memberText s c.plain kind := by
  obtain ⟨first, more, sheet⟩ := c.exists_sheet s ind method
  have text : memberText s c.plain kind = Text.unlines
      ((first :: more).map (indented s.indent)) := by
    rw [← sheet.layout.memberText, memberText_of_method s _ method]
  rw [text]
  refine Layout.notMem_unlines (by decide) fun line member => ?_
  obtain ⟨old, own, rfl⟩ := List.mem_map.mp member
  rw [indented]
  split
  · exact sheet.noSlash old own
  · rw [List.mem_append, not_or]
    exact ⟨noSlash_of_light ind.light, sheet.noSlash old own⟩

end Lines

namespace Stage

variable {s : Surroundings} {c : ClassText} (st : Stage s c)

/-- The methods stand as runs have written them, set off by one blank line. -/
def AsWritten : Prop :=
  st.methods = c.appendedLines s st.kinds

theorem asWritten_of_start {st : Stage s c} (start : ∃ ind unhashed, st = c.start ind unhashed) :
    st.AsWritten := by
  obtain ⟨ind, unhashed, rfl⟩ := start
  rfl

theorem asWritten_run {st : Stage s c} (start : ∃ ind unhashed, st = c.start ind unhashed)
    (selector : Option MemberKind) :
    (st.run selector).AsWritten := by
  obtain ⟨ind, unhashed, rfl⟩ := start
  rfl

/-- The class with other lines for its methods. -/
def relaid {methods : List Text} (stands : Stands s c st.kinds methods) : Stage s c :=
  { st with methods, stands }

/-- Where a method that was written stands, and what else can stand there. -/
theorem AsWritten.place {st : Stage s c} (written : st.AsWritten) {kind : MemberKind}
    (member : kind ∈ st.kinds) (lineNo : Nat) :
    ∃ before after span, st.methods = before ++ (c.methodLines s kind ++ after) ∧
      present? (st.decl lineNo) kind = some span ∧
      span.first = lineNo + st.frame.front.length + before.length + (markLines s kind).length ∧
      span.last + 1 = lineNo + st.frame.front.length + before.length +
        (c.methodLines s kind).length ∧
      ∀ above first more, Respaced (c.methodLines s kind) (above ++ first :: more) →
        Reflowed c.name kind above first more →
          Stands s c st.kinds (before ++ (above ++ first :: more ++ after)) := by
  have method := st.stands.method member
  have each : ∀ other ∈ st.kinds, other ≠ .constructor := fun other => st.stands.method
  obtain ⟨earlier, later, kinds⟩ := List.append_of_mem member
  have once := st.stands.nodup
  rw [kinds] at once each
  obtain ⟨onceEarlier, onceLater, apart⟩ := List.nodup_append.mp once
  have above : Stands s c earlier ([] :: earlier.flatMap (c.methodLines s)) :=
    .blank (stands_flatMap st.isIndent st.unhashed onceEarlier fun k inside =>
      each k (List.mem_append_left _ inside))
  have below : Stands s c later (later.flatMap (c.methodLines s)) :=
    stands_flatMap st.isIndent st.unhashed (List.nodup_cons.mp onceLater).2 fun k inside =>
      each k (List.mem_append_right _ (List.mem_cons_of_mem _ inside))
  have first : kind ∉ earlier := fun inside => apart kind inside kind (by simp) rfl
  obtain ⟨line, more, lines, standing⟩ := standing_methodLines st.isIndent st.unhashed method
  have methods : st.methods = [] :: earlier.flatMap (c.methodLines s) ++
      (c.methodLines s kind ++ later.flatMap (c.methodLines s)) := by
    have shape : ∀ ks : List MemberKind, ks ≠ [] →
        c.appendedLines s ks = [] :: ks.flatMap (c.methodLines s) := by
      intro ks some
      cases ks with
      | nil => exact absurd rfl some
      | cons k rest => rfl
    rw [written, kinds, shape _ (by simp), List.flatMap_append, List.flatMap_cons, List.cons_append]
  have unlike : ∀ l ∈ ([] :: earlier.flatMap (c.methodLines s) : List Text),
      ¬ (Method.finder (st.decl lineNo) kind).ink <+: l.ink := by
    intro l inside
    rw [st.ink_finder_decl]
    exact above.unlike method first l inside
  -- the search passes the methods above and takes the lines of this one
  have found := standing.findFrom (@ink_finder_decl s c st kind lineNo)
    (lineNo + st.frame.front.length + ([] :: earlier.flatMap (c.methodLines s) : List Text).length)
    (later.flatMap (c.methodLines s) ++ ["\x7d".toList])
  rw [← lines, ← List.append_assoc, ← above.quiet.depthBehind, ← ClassDecl.findFrom_append unlike,
    ← List.append_assoc, ← methods, ← st.present?_eq method] at found
  refine ⟨_, _, _, methods, found, rfl, ?_, ?_⟩
  · rw [lines]
    simp only [List.length_append, List.length_cons]
    omega
  · intro above' first' more' spaced reflowed
    rw [lines] at spaced
    have new := standing.reflowed (ink_markLines st.isIndent kind)
        (noSlash_memberText st.isIndent method) c.plainName c.upper
      spaced reflowed
    rw [kinds]
    exact above.append (.cons new (List.nodup_cons.mp onceLater).1 below) fun k inside other =>
      apart k inside k other rfl

end Stage

theorem Row.asWritten_run {s : Surroundings} {row : Row s} (start : row.IsStart)
    (request : Request) :
    (row.run request).stage.AsWritten := by
  by_cases named : request.named row.cls.plain
  · rw [Row.run, if_pos named]
    exact Stage.asWritten_run start request.selector
  · rw [Row.run, if_neg named]
    exact Stage.asWritten_of_start start

namespace Page

variable {s : Surroundings} {packageName : Option Text} (p : Page s packageName) {request : Request}

/-- The page with other lines for the methods of one of its rows. -/
theorem relaid (settled : p.Settled request) {above below : List (Row s)} {row : Row s}
    (rows : p.rows = above ++ row :: below) {methods : List Text}
    (stands : Stands s row.cls row.stage.kinds methods) :
    ∃ q : Page s packageName, q.Settled request ∧ q.classes = p.classes ∧
      q.lines = topLines packageName p.libs p.gap ++ (rowLines above ++
        (row.stage.frame.front ++ (methods ++ ["\x7d".toList] ++ row.gap) ++ rowLines below)) := by
  let new : Row s := { row with stage := row.stage.relaid stands }
  refine ⟨{ p with rows := above ++ new :: below, nonempty := by simp },
    ⟨?_, ?_⟩, by simp [classes, rows, new], ?_⟩
  · intro other member named
    rcases List.mem_append.mp member with member | member
    · exact settled.rows other (by simp [rows, member]) named
    · rcases List.mem_cons.mp member with rfl | member
      · obtain ⟨methods, ctor, props⟩ := settled.rows row (by simp [rows]) named
        exact ⟨methods, ctor, props⟩
      · exact settled.rows other (by simp [rows, member]) named
  · have libs := settled.libs
    rw [Page.needs, rows] at libs
    simp only [Page.needs, List.flatMap_append, List.flatMap_cons] at libs ⊢
    exact libs
  · show _ ++ rowLines (above ++ new :: below) = _
    rw [rowLines, List.flatMap_append, List.flatMap_cons, ← rowLines, ← rowLines]
    show _ ++ (rowLines above ++
      (row.stage.frame.front ++ (methods ++ ["\x7d".toList]) ++ row.gap ++ rowLines below)) = _
    simp only [List.append_assoc]

/-- The page with another layout of one method that was written. -/
theorem exists_relaid (settled : p.Settled request)
    (written : ∀ row ∈ p.rows, row.stage.AsWritten) {code : Text} (here : code.lines = p.lines)
    {c : ClassDecl} (listed : c ∈ scan code) {kind : MemberKind} (method : kind ≠ .constructor)
    {span : Span} (found : present? c kind = some span) {before old after : List Text}
    (lines : code.lines = before ++ (old ++ after))
    (start : before.length + (if isMarked kind then 1 else 0) + 1 = span.first)
    (stop : before.length + old.length = span.last) {above more : List Text} {first : Text}
    (spaced : Respaced old (above ++ first :: more))
    (reflowed : Reflowed c.name kind above first more) :
    ∃ q : Page s packageName, q.Settled request ∧ q.classes = p.classes ∧
      before ++ (above ++ first :: more ++ after) = q.lines := by
  rw [p.scan_eq here] at listed
  obtain ⟨rowsAbove, row, rowsBelow, rows, rfl⟩ := exists_row_of_mem listed
  have member : kind ∈ row.stage.kinds := by
    by_contra missing
    rw [row.stage.present?_of_notMem method missing] at found
    cases found
  obtain ⟨methodsAbove, methodsBelow, _, methods, there, first', last', swap⟩ :=
    (written row (by simp [rows])).place member
      ((topLines packageName p.libs p.gap).length + 1 + (rowLines rowsAbove).length)
  cases found.symm.trans there
  -- the lines that are given are those that the method was written on
  have marks : (markLines s kind).length = if isMarked kind then 1 else 0 := by
    rw [markLines]
    split <;> rfl
  rw [marks] at first'
  have whole : code.lines = topLines packageName p.libs p.gap ++
      (rowLines rowsAbove ++ (row.stage.frame.front ++ methodsAbove)) ++
      (row.cls.methodLines s kind ++
        (methodsBelow ++ ["\x7d".toList] ++ row.gap ++ rowLines rowsBelow)) := by
    rw [here, Page.lines, rows, rowLines, List.flatMap_append, List.flatMap_cons, ← rowLines,
      ← rowLines, Row.lines, Stage.lines, methods]
    simp only [List.append_assoc]
  rw [whole] at lines
  obtain ⟨same, others⟩ := List.append_inj lines (by
    simp only [List.length_append]
    omega)
  obtain ⟨own, rest⟩ := List.append_inj others (by omega)
  obtain ⟨q, settled', classes, page⟩ :=
    p.relaid settled rows (swap above first more (own ▸ spaced) reflowed)
  refine ⟨q, settled', classes, ?_⟩
  rw [page, ← same, ← rest]
  simp only [List.append_assoc]

end Page

/-- A method of which only the blanks have changed needs no edit, as long as its lines are
    broken where the search can follow. The lines of the method, with its mark, are those
    between `before` and `after`. -/
theorem unattended_relaid (b : Buffer) (unhashed : ∀ part ∈ b.classes, part.2.Unhashed)
    (request : Request) {g : Generated} (ok : request.unattended b.text = .ok g) {c : ClassDecl}
    (listed : c ∈ scan g.code) {kind : MemberKind} (method : kind ≠ .constructor) {span : Span}
    (found : present? c kind = some span) (before old after : List Text)
    (lines : g.code.lines = before ++ (old ++ after))
    (start : before.length + (if isMarked kind then 1 else 0) + 1 = span.first)
    (stop : before.length + old.length = span.last) (above : List Text) (first : Text)
    (more : List Text) (spaced : Respaced old (above ++ first :: more))
    (reflowed : Reflowed c.name kind above first more) {text : Text}
    (relaid : text.lines = before ++ (above ++ first :: more ++ after)) :
    ∃ again, request.unattended text = .ok again ∧ again.edits = [] ∧ again.code = text := by
  obtain ⟨s, p, fits, starts, code, named⟩ := b.exists_run unhashed ok
  have written : ∀ row ∈ (p.run request).rows, row.stage.AsWritten := by
    intro row member
    obtain ⟨fresh, inside, rfl⟩ := List.mem_map.mp member
    exact Row.asWritten_run (starts fresh inside) request
  obtain ⟨q, settled, classes, page⟩ :=
    (p.run request).exists_relaid p.settled_run written code listed method found lines start stop
      spaced reflowed
  exact q.unattended_settled (relaid.trans page) fits (classes.symm ▸ named) settled

/-- The comparison of the sample with all conditions on one line, and its hash code broken
    behind the arrow. -/
theorem unattended_relaid_sample :
    let request : Request :=
      { style := { writesConstructor := false, writesCopyWith := false, writesToMap := false
                   writesFromMap := false, writesToJson := false, writesFromJson := false
                   writesToString := false } }
    let top : List Text := ["class A \x7b", "  final int x;", []]
    let equality : List Text :=
      ["  @override", "  bool operator ==(Object other) \x7b",
        "    if (identical(this, other)) return true;", [],
        "    return other is A &&", "      other.x == x;", "  \x7d"]
    let hashCode : List Text := ["  @override", "  int get hashCode => x.hashCode;"]
    let ending : List Text := ["\x7d", []]
    let compared : List Text :=
      ["  @override", [], "  bool operator ==(Object other) \x7b",
        "    if (identical(this, other)) return true;",
        "    return other is A && other.x==x;", "  \x7d"]
    let hashed : List Text := ["  @override", "  int get hashCode =>", "      x.hashCode;"]
    (∃ g, request.unattended sampleBuffer.text = .ok g ∧
      g.code = Text.unlines (top ++ (equality ++ (hashCode ++ ending)))) ∧
      ∀ text ∈ [Text.unlines (top ++ (compared ++ (hashCode ++ ending))),
        Text.unlines (top ++ equality ++ (hashed ++ ending))],
        ∃ again, request.unattended text = .ok again ∧ again.edits = [] ∧ again.code = text := by
  intro request top equality hashCode ending compared hashed
  obtain ⟨targets, code, found⟩ : request.targets sampleBuffer.text ≠ [] ∧
      (request.written sampleBuffer.text "  ").code =
        Text.unlines (top ++ (equality ++ (hashCode ++ ending))) ∧
      ((scan (request.written sampleBuffer.text "  ").code).any fun c => c.name == "A".toList &&
        ((present? c .equality).any fun span => span.first == 5 && span.last == 10) &&
        (present? c .hashCode).any fun span => span.first == 12 && span.last == 12) := by
    decide +kernel
  have ok : request.unattended sampleBuffer.text = .ok (request.written sampleBuffer.text "  ") :=
    Request.unattended_eq_ok.mpr ⟨targets, _, rfl, rfl⟩
  obtain ⟨c, listed, found⟩ := List.any_eq_true.mp found
  simp only [Bool.and_eq_true, beq_iff_eq, Option.any_eq_true] at found
  obtain ⟨⟨named, first, equalityHere, start, stop⟩, second, hashHere, start', stop'⟩ := found
  have all : ∀ other, other ∈ MemberKind.all := by
    intro other
    cases other <;> decide
  have lines : ∀ ls ∈ [top ++ (equality ++ (hashCode ++ ending)),
    top ++ (compared ++ (hashCode ++ ending)),
      top ++ equality ++ (hashed ++ ending)], (Text.unlines ls).lines = ls := by
    decide +kernel
  have own : (request.written sampleBuffer.text "  ").code.lines =
      top ++ (equality ++ (hashCode ++ ending)) := by
    rw [code, lines _ (by simp)]
  refine ⟨⟨_, ok, code⟩, ?_⟩
  rw [List.forall_mem_cons, List.forall_mem_singleton]
  constructor
  · have block : IsBlock "A" "  bool operator ==(Object other) \x7b"
        ["    if (identical(this, other)) return true;", "    return other is A && other.x==x;",
          "  \x7d"] :=
      ⟨by decide +kernel, by decide +kernel, by decide +kernel, by decide +kernel⟩
    have unlike : ∀ line ∈ compared.drop 3, ∀ other ∈ MemberKind.all, other ≠ .constructor →
        other ≠ .equality →
        ¬ Like "A" other line := by
      decide +kernel
    exact unattended_relaid sampleBuffer unhashed_sampleBuffer request ok listed
      (by decide) equalityHere top equality _
      own start.symm stop.symm ["  @override", []] _ _ ⟨by decide +kernel, by decide +kernel⟩
      ⟨by decide +kernel, .inl (named ▸ block), by decide +kernel,
        fun line member other => named ▸ unlike line member other (all other)⟩ (lines _ (by simp))
  · have expression : IsArrow "A" "  int get hashCode =>" ["      x.hashCode;"] :=
      ⟨by decide +kernel, by decide +kernel,
        ⟨["  int get hashCode =>"], "      x.hashCode;", rfl, by decide +kernel, by decide +kernel⟩,
        by decide +kernel⟩
    have unlike : ∀ line ∈ hashed.drop 2, ∀ other ∈ MemberKind.all, other ≠ .constructor →
        other ≠ .hashCode →
        ¬ Like "A" other line := by
      decide +kernel
    exact unattended_relaid sampleBuffer unhashed_sampleBuffer request ok listed
      (by decide) hashHere (top ++ equality)
      hashCode _ (by rw [own, List.append_assoc]) start'.symm stop'.symm ["  @override"] _ _
      ⟨by decide +kernel, by decide +kernel⟩
      ⟨by decide +kernel, .inr (named ▸ expression), by decide +kernel,
        fun line member other => named ▸ unlike line member other (all other)⟩ (lines _ (by simp))

end ValueClass.Fresh
