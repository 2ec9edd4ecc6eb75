import ValueClass.Proofs.Dart.Held
import ValueClass.Proofs.Member.Pending
import ValueClass.Proofs.Member.Search

/-! # Counting braces twice

The scanner counts the braces of a line with its string literals emptied, the search
for a member counts all of them. So behind every line of a class the two counts differ
by the braces inside the literals read so far, and they agree behind every line exactly
when the literals of each line are balanced. Where they agree, a block member that the
scanner saw open is found again, as long as the depth comes back to one behind some
line below.
-/

namespace ValueClass.Dart

/-! ## What literals hold -/

namespace Line

/-- What the string literals of a text hold, each with the quote that closes it. -/
def literals (t : Text) : Text :=
  match t with
  | [] => []
  | c :: rest =>
    if isQuote c then
      match _h : afterLiteral? c rest with
      | some after => rest.take (rest.length - after.length) ++ literals after
      | none => literals rest
    else literals rest
termination_by t.length
decreasing_by
  all_goals
    first
      | have := length_afterLiteral?_lt _h; simp; omega
      | simp

theorem literals_literal {c : Char} (quote : isQuote c) {inner after : Text}
    (found : afterLiteral? c (inner ++ after) = some after) :
    literals (c :: (inner ++ after)) = inner ++ literals after := by
  have held : (inner ++ after).take ((inner ++ after).length - after.length) = inner := by
    rw [List.length_append, Nat.add_sub_cancel, List.take_left]
  rw [literals, if_pos quote]
  split
  · rename_i after' found'
    rw [found] at found'
    cases found'
    rw [held]
  · rename_i none
    rw [found] at none
    cases none

theorem literals_cons {c : Char} {rest : Text} (opens : isQuote c → afterLiteral? c rest = none) :
    literals (c :: rest) = literals rest := by
  rw [literals]
  split
  · rename_i quote
    have none := opens quote
    split
    · rename_i after found
      rw [none] at found
      cases found
    · rfl
  · rfl

theorem braces_cons (c : Char) (t : Text) : braces (c :: t) = braces [c] + braces t :=
  braces_append [c] t

theorem braces_quote {c : Char} (quote : isQuote c) : braces [c] = 0 := by
  simp only [isQuote, Bool.or_eq_true, beq_iff_eq] at quote
  rcases quote with rfl | rfl <;> rfl

theorem braces_eq (t : Text) : braces t = braces (blankStrings t) + braces (literals t) := by
  fun_induction blankStrings t with
  | case1 =>
      rw [literals]
      rfl
  | case2 c rest quote after found ih =>
      obtain ⟨inner, rfl⟩ := afterLiteral?_suffix found
      have outside : braces ('\'' :: '\'' :: blankStrings after) = braces (blankStrings after) := by
        rw [braces_cons, braces_cons _ (blankStrings after), braces_quote (by decide)]
        omega
      rw [literals_literal quote found, outside, braces_append, braces_cons, braces_quote quote,
        braces_append]
      omega
  | case3 c rest quote none ih =>
      rw [literals_cons fun _ => none, braces_cons, braces_cons c (blankStrings rest), ih]
      omega
  | case4 c rest other ih =>
      rw [literals_cons fun quote => absurd quote other, braces_cons,
        braces_cons c (blankStrings rest), ih]
      omega

end Line

/-! ## Sums over lines -/

theorem depthBehind_add (depth by_ : Int) (ls : List Text) :
    depthBehind (depth + by_) ls = depthBehind depth ls + by_ := by
  induction ls generalizing depth with
  | nil => rfl
  | cons line rest ih =>
      rw [depthBehind_cons, depthBehind_cons, ← ih]
      congr 1
      omega

theorem depthBehind_eq (depth : Int) (ls : List Text) :
    depthBehind depth ls =
      depthBehind depth (ls.map Line.blankStrings) + depthBehind 0 (ls.map Line.literals) := by
  induction ls generalizing depth with
  | nil => simp
  | cons line rest ih =>
      have inside := depthBehind_add 0 (Line.braces (Line.literals line)) (rest.map Line.literals)
      rw [List.map_cons, List.map_cons, depthBehind_cons, depthBehind_cons, depthBehind_cons,
        inside, ih, Line.braces_eq line, ← Int.add_assoc, depthBehind_add]
      omega

/-- The depth stays the same behind every line exactly when every line is balanced. -/
theorem depthBehind_take_eq_iff (ls : List Text) (depth : Int) :
    (∀ k < ls.length, depthBehind depth (ls.take (k + 1)) = depth) ↔
      ∀ line ∈ ls, Line.braces line = 0 := by
  induction ls with
  | nil => simp
  | cons line rest ih =>
      constructor
      · intro same
        have first : depth + Line.braces line = depth := same 0 (by simp)
        have balanced : Line.braces line = 0 := by omega
        rw [List.forall_mem_cons]
        refine ⟨balanced, ih.mp fun k within => ?_⟩
        have later := same (k + 1) (by simpa using within)
        rwa [List.take_succ_cons, depthBehind_cons, first] at later
      · intro balanced k within
        obtain ⟨first, others⟩ := List.forall_mem_cons.mp balanced
        rw [List.take_succ_cons, depthBehind_cons, first, Int.add_zero]
        cases k with
        | zero => rfl
        | succ k => exact ih.mpr others k (by simpa using within)

/-- The scanner holds a class at a depth of braces behind a line of a text. -/
def LeftAt (text : Text) (lineNo : Nat) (depth : Int) : Prop :=
  ∃ o, Held text.lines lineNo o ∧ o.braces = depth

theorem LeftAt.unique {text : Text} {lineNo : Nat} {a b : Int} (first : LeftAt text lineNo a)
    (second : LeftAt text lineNo b) : a = b := by
  obtain ⟨o, held, rfl⟩ := first
  obtain ⟨p, held', rfl⟩ := second
  rw [held.unique held']

@[simp] theorem OpenClass.readLine_braces (o : OpenClass) (lineNo : Nat) (previous line : Text) :
    (o.readLine lineNo previous line).braces = o.braces + Line.braces (Line.blankStrings line) := by
  have started : ((o.count line).startConstructor o.braces lineNo line).braces =
      o.braces + Line.braces (Line.blankStrings line) := by
    rw [startConstructor]
    split <;> rfl
  rw [readLine]
  split
  · rw [← started, extendConstructor]
    split <;> rfl
  · rw [← started, addField]
    split
    · split <;> rfl
    · rfl

theorem Held.braces {buffer : List Text} {n : Nat} {o : OpenClass} (held : Held buffer n o) :
    o.braces = depthBehind 0 (o.decl.lines.map Line.blankStrings) := by
  induction held with
  | header => rfl
  | body _ _ _ _ ih =>
      rw [OpenClass.readLine_braces, OpenClass.readLine_lines, List.map_append, depthBehind_append,
        ← ih]
      rfl

theorem leftAt_of_mem_scan {text : Text} {c : ClassDecl} (member : c ∈ scan text) {k : Nat}
    (within : k < c.lines.length) :
    LeftAt text (c.firstLine + k)
      (depthBehind 0 ((c.lines.take (k + 1)).map Line.blankStrings)) := by
  obtain ⟨o, held, -, -, lines⟩ := held_behind member within
  exact ⟨o, held, by rw [held.braces, lines]⟩

theorem leftAt_iff {text : Text} {c : ClassDecl} (member : c ∈ scan text) {k : Nat}
    (within : k < c.lines.length) (depth : Int) :
    LeftAt text (c.firstLine + k) depth ↔
      depthBehind 0 (c.lines.take (k + 1)) = depth +
        depthBehind 0 ((c.lines.map Line.literals).take (k + 1)) := by
  have left := leftAt_of_mem_scan member within
  rw [depthBehind_eq, ← List.map_take]
  constructor
  · intro given
    rw [left.unique given]
  · intro same
    rwa [show depth = depthBehind 0 ((c.lines.take (k + 1)).map Line.blankStrings) by omega]

/-- Behind every line of a class the search for a member and the scanner count the same
    braces. -/
def ClassDecl.CountsAlike (text : Text) (c : ClassDecl) : Prop :=
  ∀ k < c.lines.length, LeftAt text (c.firstLine + k) (depthBehind 0 (c.lines.take (k + 1)))

theorem countsAlike_iff {text : Text} {c : ClassDecl} (member : c ∈ scan text) :
    c.CountsAlike text ↔ ∀ line ∈ c.lines, Line.braces (Line.literals line) = 0 := by
  have balanced := depthBehind_take_eq_iff (c.lines.map Line.literals) 0
  rw [List.length_map, List.forall_mem_map] at balanced
  rw [← balanced]
  refine forall₂_congr fun k within => ?_
  rw [leftAt_iff member within]
  omega

/-! ## What the search finds -/

namespace ClassDecl

variable {target : Text}

/-- A line that the search stops at, the depth behind it being given. -/
def Stops (target : Text) (depth : Int) (line : Text) : Prop :=
  (Text.signature line).startsWith target ∧ (depth = 2 ∨ line.has "=>")

instance (target : Text) (depth : Int) (line : Text) : Decidable (Stops target depth line) :=
  inferInstanceAs (Decidable (_ ∧ _))

theorem findFrom_of_stops {depth : Int} {lineNo : Nat} {line : Text} {rest : List Text}
    (stops : Stops target (depth + Line.braces line) line) :
    findFrom target depth lineNo (line :: rest) =
      (takeMember (line.has "=>") depth lineNo (line :: rest)).map fun (last, ls) =>
        { first := lineNo, last, text := Text.unlines ls } := by
  obtain ⟨like, signs⟩ := stops
  have signs : (depth + Line.braces line == 2 || line.has "=>") = true := by simpa using signs
  rw [findFrom]
  dsimp only
  rw [like, signs]
  rfl

/-- The search passes the lines that it does not stop at. -/
theorem findFrom_passes {ls : List Text} {depth : Int}
    (passes : ∀ k line, ls[k]? = some line →
      ¬ Stops target (depthBehind depth (ls.take (k + 1))) line)
    (lineNo : Nat) (rest : List Text) :
    findFrom target depth lineNo (ls ++ rest) =
      findFrom target (depthBehind depth ls) (lineNo + ls.length) rest := by
  induction ls generalizing depth lineNo with
  | nil => rfl
  | cons line more ih =>
      have here : ¬ Stops target (depth + Line.braces line) line := passes 0 line rfl
      have goes : ((Text.signature line).startsWith target &&
          (depth + Line.braces line == 2 || line.has "=>")) = false := by
        rw [Bool.eq_false_iff]
        intro stops
        rw [Bool.and_eq_true, Bool.or_eq_true, beq_iff_eq] at stops
        exact here stops
      rw [List.cons_append, findFrom]
      simp only [goes, Bool.false_eq_true, ↓reduceIte]
      rw [ih, List.length_cons, depthBehind_cons,
        show lineNo + 1 + more.length = lineNo + (more.length + 1) by omega]
      intro k other found
      exact passes (k + 1) other found

/-- A block ends where one brace is open behind a line. -/
theorem takeMember_block_isSome {lines : List Text} (depth : Int) (lineNo : Nat) :
    (takeMember false depth lineNo lines).isSome ↔
      ∃ j < lines.length, depthBehind depth (lines.take (j + 1)) = 1 := by
  induction lines generalizing depth lineNo with
  | nil => simp [takeMember]
  | cons line rest ih =>
      rw [takeMember]
      dsimp only
      by_cases ends : depth + Line.braces line = 1
      · have closes : endsMember false (depth + Line.braces line) line = true := by
          simp [endsMember, ends]
        rw [if_pos closes]
        exact ⟨fun _ => ⟨0, by simp, ends⟩, fun _ => rfl⟩
      · have goes : ¬ endsMember false (depth + Line.braces line) line = true := by
          simp [endsMember, ends]
        rw [if_neg goes, Option.isSome_map, ih]
        constructor
        · rintro ⟨j, within, back⟩
          exact ⟨j + 1, by simpa using within, back⟩
        · rintro ⟨j, within, back⟩
          cases j with
          | zero => exact absurd back ends
          | succ j => exact ⟨j, by simpa using within, back⟩

variable {c : ClassDecl} {finder : Text} {i : Nat} {line : Text}

/-- The search for a member comes to the first line that it stops at. -/
theorem find?_of_first (found : c.lines[i]? = some line)
    (stops : Stops (Text.signature finder) (depthBehind 0 (c.lines.take (i + 1))) line)
    (first : ∀ k < i, ∀ other, c.lines[k]? = some other →
      ¬ Stops (Text.signature finder) (depthBehind 0 (c.lines.take (k + 1))) other) :
    c.find? finder = (takeMember (line.has "=>") (depthBehind 0 (c.lines.take i)) (c.firstLine + i)
        (c.lines.drop i)).map fun (last, ls) =>
          { first := c.firstLine + i, last, text := Text.unlines ls } := by
  obtain ⟨within, same⟩ := List.getElem?_eq_some_iff.mp found
  have below : c.lines.drop i = line :: c.lines.drop (i + 1) := by
    rw [List.drop_eq_getElem_cons within, same]
  have size : (c.lines.take i).length = i := List.length_take_of_le (by omega)
  have unlike : ∀ k other, (c.lines.take i)[k]? = some other →
      ¬ Stops (Text.signature finder) (depthBehind 0 ((c.lines.take i).take (k + 1))) other := by
    intro k other here
    obtain ⟨short, -⟩ := List.getElem?_eq_some_iff.mp here
    rw [size] at short
    rw [List.getElem?_take_of_lt short] at here
    rw [List.take_take, Nat.min_eq_left (by omega)]
    exact first k short other here
  have passed := findFrom_passes unlike c.firstLine (c.lines.drop i)
  rw [List.take_append_drop, size] at passed
  rw [find?, passed, below]
  refine findFrom_of_stops ?_
  rwa [List.take_add_one, found, Option.toList_some, depthBehind_append] at stops

theorem takeMember_drop_isSome (lines : List Text) (i lineNo : Nat) :
    (takeMember false (depthBehind 0 (lines.take i)) lineNo (lines.drop i)).isSome ↔
      ∃ j, i ≤ j ∧ j < lines.length ∧ depthBehind 0 (lines.take (j + 1)) = 1 := by
  have behind : ∀ m, depthBehind (depthBehind 0 (lines.take i)) ((lines.drop i).take (m + 1)) =
      depthBehind 0 (lines.take (i + m + 1)) := by
    intro m
    rw [← depthBehind_append, ← List.take_add, Nat.add_assoc]
  rw [takeMember_block_isSome, List.length_drop]
  constructor
  · rintro ⟨m, within, back⟩
    exact ⟨i + m, by omega, by omega, by rw [← behind, back]⟩
  · rintro ⟨j, low, high, back⟩
    refine ⟨j - i, by omega, ?_⟩
    rw [behind, show i + (j - i) + 1 = j + 1 by omega, back]

end ClassDecl

theorem appended_writeMember (s : Surroundings) (d : Draft) {kind : MemberKind}
    (method : kind ≠ .constructor) :
    (writeMember s d kind).appended = d.appended ++
      if d.decl.find? (Method.finder d.decl kind) = none then
        "\n" ++ Text.indentBlock s.indent (methodText s d.decl kind)
      else [] := by
  rw [writeMember_eq s d kind fun same => absurd same method]
  show (headerFor d [kind]).appended ++ appendedFor s d.decl kind = _
  rw [(headerFor_pending d [kind]).2.1, appendedFor, present?_of_method d.decl method]
  simp only [ne_eq, method, not_false_eq_true, true_and]

/-! ## Members that were seen open -/

namespace ClassDecl

def StartsLike (c : ClassDecl) (finder : Text) (i : Nat) (line : Text) : Prop :=
  c.lines[i]? = some line ∧ (Text.signature line).startsWith (Text.signature finder)

/-- A line opens a block member: it starts like the member, it holds no arrow, and the
    scanner left it with two braces open. -/
structure OpensBlock (text : Text) (c : ClassDecl) (finder : Text) (i : Nat) : Prop where
  signature : ∃ line, c.StartsLike finder i line ∧ line.has "=>" = false
  depth : LeftAt text (c.firstLine + i) 2

/-- The class comes back to one open brace behind some line below the given one. -/
def ClosesBelow (text : Text) (c : ClassDecl) (i : Nat) : Prop :=
  ∃ j, i < j ∧ j < c.lines.length ∧ LeftAt text (c.firstLine + j) 1

section Search

variable {text : Text} {c : ClassDecl} {finder : Text} {i : Nat}

theorem CountsAlike.leftAt_iff (alike : c.CountsAlike text) {k : Nat}
    (within : k < c.lines.length) (depth : Int) :
    LeftAt text (c.firstLine + k) depth ↔ depthBehind 0 (c.lines.take (k + 1)) = depth :=
  ⟨fun left => (alike k within).unique left, fun same => same ▸ alike k within⟩

/-- A block member that is the first thing the search stops at is found exactly when
    its braces close behind a line of their own. -/
theorem CountsAlike.find?_isSome_iff (alike : c.CountsAlike text)
    (opens : c.OpensBlock text finder i)
    (first : ∀ k < i, ∀ line, c.StartsLike finder k line →
      ¬ LeftAt text (c.firstLine + k) 2 ∧ line.has "=>" = false) :
    ((c.find? finder).isSome ↔ c.ClosesBelow text i) ∧
      ∀ span, c.find? finder = some span → span.first = c.firstLine + i := by
  obtain ⟨⟨line, ⟨found, like⟩, noArrow⟩, depth⟩ := opens
  obtain ⟨within, -⟩ := List.getElem?_eq_some_iff.mp found
  have two := (alike.leftAt_iff within 2).mp depth
  have unlike : ∀ k < i, ∀ other, c.lines[k]? = some other →
      ¬ Stops (Text.signature finder) (depthBehind 0 (c.lines.take (k + 1))) other := by
    rintro k above other here ⟨like, signs⟩
    obtain ⟨depth, noArrow⟩ := first k above other ⟨here, like⟩
    rw [alike.leftAt_iff (by omega)] at depth
    rcases signs with two | arrow
    · exact depth two
    · rw [noArrow] at arrow
      cases arrow
  have search := find?_of_first found ⟨like, .inl two⟩ unlike
  refine ⟨?_, ?_⟩
  · rw [search, Option.isSome_map, noArrow, takeMember_drop_isSome]
    constructor
    · rintro ⟨j, low, high, one⟩
      have other : i ≠ j := by
        rintro rfl
        omega
      exact ⟨j, by omega, high, (alike.leftAt_iff high 1).mpr one⟩
    · rintro ⟨j, low, high, one⟩
      exact ⟨j, by omega, high, (alike.leftAt_iff high 1).mp one⟩
  · intro span taken
    rw [search, Option.map_eq_some_iff] at taken
    obtain ⟨-, -, rfl⟩ := taken
    rfl

/-- A block member without an arrow member of the same start above it is found, or
    another one above it, when its braces close behind a line below. -/
theorem CountsAlike.exists_find? (alike : c.CountsAlike text) (opens : c.OpensBlock text finder i)
    (noArrow : ∀ k < i, ∀ line, c.StartsLike finder k line → line.has "=>" = false)
    (closes : c.ClosesBelow text i) :
    ∃ span, c.find? finder = some span ∧ span.first ≤ c.firstLine + i := by
  -- the search stops at the first of the lines that open such a block
  induction i using Nat.strongRecOn with
  | _ i ih =>
      by_cases earlier : ∃ k < i, c.OpensBlock text finder k
      · obtain ⟨k, above, opens⟩ := earlier
        obtain ⟨j, low, high, one⟩ := closes
        obtain ⟨span, found, place⟩ := ih k above opens (fun m lower => noArrow m (by omega))
          ⟨j, by omega, high, one⟩
        exact ⟨span, found, by omega⟩
      · obtain ⟨found, place⟩ := alike.find?_isSome_iff opens (by
          intro k above line like
          refine ⟨fun two => earlier ⟨k, above, ⟨line, like, noArrow k above line like⟩, two⟩, ?_⟩
          exact noArrow k above line like)
        obtain ⟨span, taken⟩ := Option.isSome_iff_exists.mp (found.mpr closes)
        exact ⟨span, taken, Nat.le_of_eq (place span taken)⟩

end Search

end ClassDecl

/-- The scanner and the search for a member count the same braces behind every line of
    a class exactly when the string literals of each line are balanced. Then a block
    member that the scanner saw open is found and not written a second time, if its
    braces close behind a line below and no arrow member that starts like it stands
    above; and the first such member is not found, and is written a second time, if
    they do not. -/
theorem countsAlike_find? (text : Text) : ∀ c ∈ scan text,
    (c.CountsAlike text ↔ ∀ line ∈ c.lines, Line.braces (Line.literals line) = 0) ∧
      (c.CountsAlike text → ∀ kind, kind ≠ .constructor →
        ∀ i, c.OpensBlock text (Method.finder c kind) i →
        (∀ k < i, ∀ line, c.StartsLike (Method.finder c kind) k line → line.has "=>" = false) →
        (c.ClosesBelow text i →
          (∃ span, c.find? (Method.finder c kind) = some span ∧ span.first ≤ c.firstLine + i) ∧
            ∀ s d, d.decl = c → (writeMember s d kind).appended = d.appended) ∧
        ((∀ k < i, ¬ c.OpensBlock text (Method.finder c kind) k) → ¬ c.ClosesBelow text i →
          c.find? (Method.finder c kind) = none ∧
            ∀ s d, d.decl = c → (writeMember s d kind).appended ≠ d.appended)) := by
  intro c member
  refine ⟨countsAlike_iff member, ?_⟩
  intro alike kind method i opens noArrow
  refine ⟨?_, ?_⟩
  · intro closes
    obtain ⟨span, found, place⟩ := alike.exists_find? opens noArrow closes
    refine ⟨⟨span, found, place⟩, ?_⟩
    rintro s d rfl
    rw [appended_writeMember s d method, found, if_neg (by simp), List.append_nil]
  · intro first stays
    obtain ⟨found, -⟩ := alike.find?_isSome_iff opens (by
      intro k above line like
      refine ⟨fun two => first k above ⟨⟨line, like, noArrow k above line like⟩, two⟩, ?_⟩
      exact noArrow k above line like)
    have none : c.find? (Method.finder c kind) = none := by
      rw [← Option.not_isSome_iff_eq_none, found]
      exact stays
    refine ⟨none, ?_⟩
    rintro s d rfl
    rw [appended_writeMember s d method, if_pos none]
    simp

/-- A pair of braces in a literal leaves the member below it where it is; a single one sets
    the two counts apart, and the member is not found although it stands open for the
    scanner. -/
theorem countsAlike_find?_quoted :
    let text (held : Text) : Text :=
      "class A \x7b\n String s = '" ++ held ++ "';\n String toString() \x7b\n \x7d\n\x7d"
    let c (held : Text) : ClassDecl :=
      { header := .parse "class A \x7b", firstLine := 1, lastLine := some 5,
        lines := (text held).lines
        fields := [{ rawType := "String", key := "s", name := "s", line := 2, isFinal := false }] }
    let finder := Method.finder (c []) .toString
    (c "\x7b\x7d" ∈ scan (text "\x7b\x7d") ∧ (c "\x7b\x7d").isValid ∧
      (c "\x7b\x7d").CountsAlike (text "\x7b\x7d") ∧ ((c "\x7b\x7d").find? finder).isSome) ∧
    (c "\x7b" ∈ scan (text "\x7b") ∧ (c "\x7b").isValid ∧
      (c "\x7b").OpensBlock (text "\x7b") finder 2 ∧
      (c "\x7b").ClosesBelow (text "\x7b") 2 ∧ (c "\x7b").find? finder = none ∧
      ¬ (c "\x7b").CountsAlike (text "\x7b")) := by
  intro text c finder
  let member : Text := " String toString() \x7b"
  obtain ⟨shared, ⟨level, plain⟩, missing, slanted⟩ :
      (∀ held ∈ ["\x7b\x7d".toList, "\x7b".toList], c held ∈ scan (text held) ∧ (c held).isValid ∧
        (text held).lines.length = 5 ∧ (text held).lines[2]? = some member ∧
        ((Text.signature member).startsWith (Text.signature finder) ∧ member.has "=>" = false) ∧
        depthBehind 0 (((text held).lines.take 3).map Line.blankStrings) = 2 ∧
        depthBehind 0 (((text held).lines.take 4).map Line.blankStrings) = 1) ∧
      ((∀ line ∈ (c "\x7b\x7d").lines, Line.braces (Line.literals line) = 0) ∧
        ∀ line ∈ (c "\x7b\x7d").lines, line.has "=>" = false) ∧
      (c "\x7b").find? finder = none ∧ ¬ ∀ line ∈ (c "\x7b").lines,
        Line.braces (Line.literals line) = 0 := by
    decide +kernel
  have opens : ∀ held ∈ ["\x7b\x7d".toList, "\x7b".toList],
      (c held).OpensBlock (text held) finder 2 ∧ (c held).ClosesBelow (text held) 2 := by
    intro held one
    obtain ⟨found, -, size, line, ⟨like, noArrow⟩, behind, below⟩ := shared held one
    have opened := leftAt_of_mem_scan found (k := 2) (by rw [size]; omega)
    have closed := leftAt_of_mem_scan found (k := 3) (by rw [size]; omega)
    exact ⟨⟨⟨member, ⟨line, like⟩, noArrow⟩, behind ▸ opened⟩,
      ⟨3, by omega, by rw [size]; omega, below ▸ closed⟩⟩
  obtain ⟨paired, valid, -⟩ := shared _ List.mem_cons_self
  obtain ⟨single, valid', -⟩ := shared "\x7b".toList (List.mem_cons_of_mem _ List.mem_cons_self)
  refine ⟨⟨paired, valid, ?_⟩, single, valid', ?_⟩
  · obtain ⟨balanced, found⟩ := countsAlike_find? _ _ paired
    have alike := balanced.mpr level
    obtain ⟨opened, closes⟩ := opens _ List.mem_cons_self
    obtain ⟨⟨span, found, -⟩, -⟩ := (found alike .toString (by simp) 2 opened
      fun _ _ line like => plain line (List.mem_of_getElem? like.1)).1 closes
    exact ⟨alike, Option.isSome_iff_exists.mpr ⟨span, found⟩⟩
  · obtain ⟨opened, closes⟩ := opens "\x7b".toList (List.mem_cons_of_mem _ List.mem_cons_self)
    refine ⟨opened, closes, missing, ?_⟩
    intro alike
    exact slanted ((countsAlike_find? _ _ single).1.mp alike)

end ValueClass.Dart
