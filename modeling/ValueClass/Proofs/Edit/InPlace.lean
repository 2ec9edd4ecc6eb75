import Mathlib.Data.List.Nodup
import Mathlib.Data.List.Perm.Subperm
import Mathlib.Data.Nat.Find
import ValueClass.Proofs.Edit.Body

/-! # Every change in its place

A class is to be written back with each pending change once and where it belongs. That
fails where the lines of one replacement lie in others, whose texts stand there, and
where a replacement takes the last line, before which the added members go. It fails
nowhere else: no change is lost without the text getting shorter.
-/

namespace ValueClass

namespace Text

/-- What some lines take up in a text, their ends included. -/
def room : List Text → Nat
  | [] => 0
  | t :: ts => t.length + 1 + room ts

@[simp] theorem room_nil : room [] = 0 := rfl

@[simp] theorem room_cons (t : Text) (ts : List Text) :
    room (t :: ts) = t.length + 1 + room ts := rfl

@[simp] theorem room_append (ts us : List Text) : room (ts ++ us) = room ts + room us := by
  induction ts with
  | nil => simp
  | cons t rest ih =>
      rw [List.cons_append, room_cons, room_cons, ih]
      omega

theorem room_perm {ts us : List Text} (perm : ts.Perm us) : room ts = room us := by
  induction perm with
  | nil => rfl
  | cons t _ ih => rw [room_cons, room_cons, ih]
  | swap t u rest =>
      simp only [room_cons]
      omega
  | trans _ _ first second => exact first.trans second

theorem room_eq_zero_iff {ts : List Text} : room ts = 0 ↔ ts = [] := by
  cases ts with
  | nil => simp
  | cons t rest =>
      rw [room_cons]
      simp

theorem length_unlines {ts : List Text} (filled : ts ≠ []) : (unlines ts).length + 1 = room ts := by
  induction ts with
  | nil => exact absurd rfl filled
  | cons t rest ih =>
      cases rest with
      | nil => rfl
      | cons next more =>
          have below := ih (by simp)
          rw [unlines_cons_cons, List.length_append, List.length_cons, room_cons]
          omega

theorem room_subperm {ts us : List Text} (sub : ts.Subperm us) :
    room ts ≤ room us ∧ (room us ≤ room ts → us ⊆ ts) := by
  obtain ⟨between, perm, sublist⟩ := sub
  obtain ⟨rest, split⟩ := sublist.exists_perm_append
  have whole : room us = room ts + room rest := by
    rw [room_perm split, room_append, room_perm perm]
  refine ⟨by omega, fun least => ?_⟩
  have none : rest = [] := room_eq_zero_iff.mp (by omega)
  rw [none, List.append_nil] at split
  exact (split.trans perm).subset

end Text

namespace Dart

namespace Draft

/-- What stands for a line of the body when every change is in its place: before the last
    line the added members, then the line itself unless it is replaced, the replacements
    whose home it is, and behind the last field the constructor. -/
def lineLayout (d : Draft) (home : Replacement → Nat) (lastField closing lineNo : Nat)
    (line : Text) : List Text :=
  (if lineNo = closing then shown d.appended else []) ++
    ((if (d.replacementAt? lineNo).isSome then [] else [line]) ++
      ((d.replacements.filter fun r => home r = lineNo).map (·.text) ++
        (if lineNo = lastField then shown d.inserted else [])))

/-- The lines of the body, counted from a line on, with every change in its place. -/
def bodyLayout (d : Draft) (home : Replacement → Nat) (lastField closing lineNo : Nat)
    (body : List Text) : List Text :=
  (body.zipIdx lineNo).flatMap fun (line, lineNo) => d.lineLayout home lastField closing lineNo line

/-- A class is written back with every change once and in its place, each replacement at
    one of the lines that it replaces. -/
def InPlace (d : Draft) (lastField closing : Nat) : Prop :=
  ∃ header body home, d.decl.lines = header :: body ∧
    (∀ r ∈ d.replacements, d.decl.firstLine < home r ∧ home r ≤ closing ∧ r.span.covers (home r)) ∧
    d.render = Text.unlines ((if d.headerChanged then d.decl.header.render header else header) ::
      d.bodyLayout home lastField closing (d.decl.firstLine + 1) body)

/-- Each replacement has a line of the body that none before it replaces, and the last line
    is left alone when members go before it. -/
structure HasRoom (d : Draft) (closing : Nat) : Prop where
  last : d.appended ≠ [] → d.replacementAt? closing = none
  own : ∀ r ∈ d.replacements, ∃ n, d.decl.firstLine < n ∧ n ≤ closing ∧ d.replacementAt? n = some r

instance (d : Draft) (closing : Nat) : Decidable (d.HasRoom closing) :=
  decidable_of_iff ((d.appended ≠ [] → d.replacementAt? closing = none) ∧
      ∀ r ∈ d.replacements, ∃ n < closing + 1, d.decl.firstLine < n ∧ d.replacementAt? n = some r)
    ⟨fun h => ⟨h.1, fun r member => by
        obtain ⟨n, high, low, found⟩ := h.2 r member
        exact ⟨n, low, Nat.le_of_lt_succ high, found⟩⟩,
      fun h => ⟨h.last, fun r member => by
        obtain ⟨n, low, high, found⟩ := h.own r member
        exact ⟨n, Nat.lt_succ_of_le high, low, found⟩⟩⟩

variable {d : Draft} {home : Replacement → Nat} {lastField closing lineNo : Nat}
  {written body : List Text} {line : Text}
  {r : Replacement}

theorem render_eq_of_lines (last : d.decl.lastFieldLine? = some lastField)
    (inside : d.decl.firstLine ≠ lastField) {header : Text}
    (lines : d.decl.lines = header :: body) :
    d.render = Text.unlines ((if d.headerChanged then d.decl.header.render header else header) ::
      d.bodyTexts [] (d.decl.firstLine + 1) body) := by
  rw [render, lines]
  dsimp only
  rw [insertedAfter_eq last, if_neg inside, List.nil_append]

theorem isEmpty_eq_decide {rest : List Text} (size : lineNo + (rest.length + 1) = closing + 1) :
    rest.isEmpty = decide (lineNo = closing) := by
  rw [Bool.eq_iff_iff, List.isEmpty_iff_length_eq_zero, decide_eq_true_eq]
  omega

/-! ## What is lost -/

/-- The added members that are not written, since the last line is replaced. -/
def lost (d : Draft) (closing : Nat) : List Text :=
  if (d.replacementAt? closing).isSome then shown d.appended else []

theorem lost_eq_nil_iff :
    d.lost closing = [] ↔ (d.appended ≠ [] → d.replacementAt? closing = none) := by
  rw [lost]
  cases d.replacementAt? closing <;> simp [shown_eq_nil_iff]

/-- The texts of replacements that are written by the end of some lines. -/
def writtenBy (d : Draft) (closing : Nat) : List Text → Nat → List Text → List Text
  | written, _, [] => written
  | written, lineNo, line :: rest =>
    d.writtenBy closing (d.lineTexts written lineNo (lineNo = closing) line).2 (lineNo + 1) rest

theorem lineTexts_written (d : Draft) (written : List Text) (lineNo : Nat) (isLast : Bool)
    (line : Text) :
    (d.lineTexts written lineNo isLast line).2 = written ∨ ∃ r, d.replacementAt? lineNo = some r ∧
    r.text ∉ written ∧
      (d.lineTexts written lineNo isLast line).2 = r.text :: written := by
  rw [lineTexts]
  cases d.replacementAt? lineNo with
  | none => exact .inl rfl
  | some r =>
      by_cases old : r.text ∈ written
      · exact .inl (by simp [old])
      · exact .inr ⟨r, rfl, old, by simp [old]⟩

theorem nodup_writtenBy (once : written.Nodup) :
    (d.writtenBy closing written lineNo body).Nodup := by
  induction body generalizing written lineNo with
  | nil => exact once
  | cons line rest ih =>
      rw [writtenBy]
      apply ih
      rcases d.lineTexts_written written lineNo (lineNo = closing) line with same | ⟨r,
        -, new, same⟩
      · rw [same]
        exact once
      · rw [same]
        exact List.nodup_cons.mpr ⟨new, once⟩

theorem mem_writtenBy {t : Text} (member : t ∈ d.writtenBy closing written lineNo body) :
    t ∈ written ∨ ∃ n r, lineNo ≤ n ∧ n < lineNo + body.length ∧ d.replacementAt? n = some r ∧
      r.text = t := by
  induction body generalizing written lineNo with
  | nil => exact .inl member
  | cons line rest ih =>
      rcases ih member with early | ⟨n, r, low, high, found, text⟩
      · rcases d.lineTexts_written written lineNo (lineNo = closing) line with same | ⟨r,
          found, -, same⟩
        · exact .inl (same ▸ early)
        · rw [same] at early
          rcases List.mem_cons.mp early with rfl | early
          · exact .inr ⟨lineNo, r, Nat.le_refl _, by simp, found, rfl⟩
          · exact .inl early
      · exact .inr ⟨n, r, by omega, by simp only [List.length_cons]; omega, found, text⟩

/-- What is written for a line falls short of its layout by the texts that were written
    before, and by the added members where the last line is replaced. -/
theorem room_lineTexts (d : Draft) (written : List Text) (lineNo closing : Nat) (line : Text) :
    Text.room (d.lineTexts written lineNo (lineNo = closing) line).1 + Text.room written +
        Text.room (if lineNo = closing then d.lost closing else []) =
      Text.room (if lineNo = closing then shown d.appended else []) +
        Text.room (if (d.replacementAt? lineNo).isSome then [] else [line]) +
        Text.room (d.lineTexts written lineNo (lineNo = closing) line).2 := by
  by_cases last : lineNo = closing
  · subst last
    rw [lineTexts, lost]
    cases d.replacementAt? lineNo with
    | none => cases d.appended <;> simp [shown]
    | some r =>
        by_cases old : r.text ∈ written
        · simp [old, Nat.add_comm]
        · simp only [old, List.contains_eq_mem, decide_false, Bool.false_eq_true, ↓reduceIte,
            Option.isSome_some, Text.room_cons, Text.room_nil]
          omega
  · rw [lineTexts]
    cases d.replacementAt? lineNo with
    | none =>
        simp only [last, decide_false, Option.isSome_none, Bool.false_eq_true, ↓reduceIte]
        simp
    | some r => by_cases old : r.text ∈ written <;> simp [old, last]

theorem room_home (home : Replacement → Nat) (lineNo : Nat) (rs : List Replacement) :
    Text.room ((rs.filter fun r => lineNo ≤ home r).map (·.text)) =
      Text.room ((rs.filter fun r => home r = lineNo).map (·.text)) +
        Text.room ((rs.filter fun r => lineNo + 1 ≤ home r).map (·.text)) := by
  induction rs with
  | nil => rfl
  | cons r rest ih =>
      simp only [List.filter_cons, decide_eq_true_eq]
      rcases Nat.lt_trichotomy (home r) lineNo with above | here | below
      · rw [if_neg (by omega), if_neg (by omega), if_neg (by omega), ih]
      · rw [if_pos (by omega), if_pos here, if_neg (by omega), List.map_cons, List.map_cons,
          Text.room_cons, Text.room_cons, ih]
        omega
      · rw [if_pos (by omega), if_neg (by omega), if_pos (by omega), List.map_cons, List.map_cons,
          Text.room_cons, Text.room_cons, ih]
        omega

theorem bodyLayout_cons (d : Draft) (home : Replacement → Nat) (lastField closing lineNo : Nat)
    (line : Text) (rest : List Text) : d.bodyLayout home lastField closing lineNo (line :: rest) =
      d.lineLayout home lastField closing lineNo line ++ d.bodyLayout home lastField closing
        (lineNo + 1) rest := by
  simp [bodyLayout]

-- The induction is on the body. The homes above a line play no part below it, so both sides
-- count the replacements that are at home from that line on.
/-- What is written for the body falls short of its layout by the replacements that are not
    written, and by the added members where the last line is replaced. -/
theorem room_bodyTexts (home : Replacement → Nat) (written : List Text)
    (last : d.decl.lastFieldLine? = some lastField) (size : lineNo + body.length = closing + 1)
    (inside : ∀ r ∈ d.replacements, home r ≤ closing) :
    Text.room (d.bodyTexts written lineNo body) + Text.room written +
      Text.room (if lineNo ≤ closing then d.lost closing else []) +
        Text.room ((d.replacements.filter fun r => lineNo ≤ home r).map (·.text)) =
      Text.room (d.bodyLayout home lastField closing lineNo body) +
        Text.room (d.writtenBy closing written lineNo body) := by
  induction body generalizing written lineNo with
  | nil =>
      have none : d.replacements.filter (fun r => lineNo ≤ home r) = [] := by
        rw [List.filter_eq_nil_iff]
        intro r member
        have := inside r member
        rw [List.length_nil] at size
        simp only [decide_eq_true_eq]
        omega
      rw [none]
      rw [List.length_nil] at size
      simp [bodyTexts, bodyLayout, writtenBy, show ¬ lineNo ≤ closing by omega]
  | cons line rest ih =>
      rw [List.length_cons] at size
      have step := d.room_lineTexts written lineNo closing line
      have below := ih (d.lineTexts written lineNo (lineNo = closing) line).2
        (show lineNo + 1 + rest.length = closing + 1 by omega)
      have lost : Text.room (if lineNo = closing then d.lost closing else []) +
          Text.room (if lineNo + 1 ≤ closing then d.lost closing else []) =
            Text.room (d.lost closing) := by
        by_cases same : lineNo = closing
        · simp [same, show ¬ closing + 1 ≤ closing by omega]
        · simp [same, show lineNo + 1 ≤ closing by omega]
      have homes := room_home home lineNo d.replacements
      rw [bodyTexts, isEmpty_eq_decide size]
      dsimp only
      rw [insertedAfter_eq last, bodyLayout_cons, lineLayout, writtenBy,
        if_pos (show lineNo ≤ closing by omega)]
      simp only [Text.room_append]
      omega

/-! ## Every change in its place -/

-- Nothing but its length tells what stands where in the text of a class, but that is enough:
-- what is lost makes it shorter than the layout, whatever homes the layout gives.
/-- When no change is lost, every replacement comes first at one of its lines, and the last
    line is left alone where members go before it. -/
theorem InPlace.hasRoom (last : d.decl.lastFieldLine? = some lastField)
    (low : d.decl.firstLine < lastField) (high : lastField < closing)
    (size : d.decl.firstLine + d.decl.lines.length = closing + 1)
    (distinct : (d.replacements.map (·.text)).Nodup) (inPlace : d.InPlace lastField closing) :
    d.HasRoom closing := by
  obtain ⟨header, body, home, lines, homes, written⟩ := inPlace
  rw [lines, List.length_cons] at size
  have same : Text.room (d.bodyTexts [] (d.decl.firstLine + 1) body) =
      Text.room (d.bodyLayout home lastField closing (d.decl.firstLine + 1) body) := by
    rw [render_eq_of_lines last (by omega) lines] at written
    generalize (if d.headerChanged then d.decl.header.render header else header) = first at written
    have lengths : (Text.unlines (first :: d.bodyTexts [] (d.decl.firstLine + 1) body)).length + 1 =
        _ :=
      Text.length_unlines (by simp)
    rw [written, Text.length_unlines (by simp), Text.room_cons, Text.room_cons] at lengths
    omega
  have counted := room_bodyTexts home [] last
    (show d.decl.firstLine + 1 + body.length = closing + 1 by omega) fun r member =>
      (homes r member).2.1
  have whole : (d.replacements.filter fun r => d.decl.firstLine + 1 ≤ home r) = d.replacements :=
    List.filter_eq_self.mpr fun r member => decide_eq_true (homes r member).1
  rw [whole, if_pos (by omega), Text.room_nil] at counted
  -- the texts that are written are those of replacements that come first somewhere
  have come : ∀ t ∈ d.writtenBy closing [] (d.decl.firstLine + 1) body,
      ∃ n r, d.decl.firstLine < n ∧ n ≤ closing ∧ d.replacementAt? n = some r ∧ r.text = t := by
    intro t member
    rcases mem_writtenBy member with none | ⟨n, r, low, high, found, text⟩
    · cases none
    · exact ⟨n, r, low, by omega, found, text⟩
  have sub : (d.writtenBy closing [] (d.decl.firstLine + 1) body).Subperm
      (d.replacements.map (·.text)) := by
    refine List.subperm_of_subset (nodup_writtenBy List.nodup_nil) fun t member => ?_
    obtain ⟨n, r, -, -, found, rfl⟩ := come t member
    exact List.mem_map_of_mem (covers_of_replacementAt? found).1
  obtain ⟨least, all⟩ := Text.room_subperm sub
  refine ⟨lost_eq_nil_iff.mp (Text.room_eq_zero_iff.mp (by omega)), ?_⟩
  intro r member
  obtain ⟨n, x, low, high, found, text⟩ := come r.text (all (by omega) (List.mem_map_of_mem member))
  obtain rfl := List.inj_on_of_nodup_map distinct (covers_of_replacementAt? found).1 member text
  exact ⟨n, low, high, found⟩

/-- The first line where a replacement comes first. -/
structure IsHome (d : Draft) (home : Replacement → Nat) (closing : Nat) (r : Replacement) :
    Prop where
  low : d.decl.firstLine < home r
  high : home r ≤ closing
  here : d.replacementAt? (home r) = some r
  first : ∀ n, d.decl.firstLine < n → d.replacementAt? n = some r → home r ≤ n

theorem HasRoom.exists_home (room : d.HasRoom closing) :
    ∃ home, ∀ r ∈ d.replacements, d.IsHome home closing r := by
  have each : ∀ r ∈ d.replacements, ∃ n, d.decl.firstLine < n ∧ n ≤ closing ∧
      d.replacementAt? n = some r ∧
      ∀ m, d.decl.firstLine < m → d.replacementAt? m = some r → n ≤ m := by
    intro r member
    obtain ⟨n, low, high, found⟩ := room.own r member
    have some : ∃ n, d.decl.firstLine < n ∧ d.replacementAt? n = Option.some r := ⟨n, low, found⟩
    obtain ⟨least, here⟩ := Nat.find_spec some
    exact ⟨Nat.find some, least, Nat.le_trans (Nat.find_min' some ⟨low, found⟩) high, here,
      fun m below there => Nat.find_min' some ⟨below, there⟩⟩
  choose! home here using each
  refine ⟨home, fun r member => ?_⟩
  obtain ⟨low, high, found, first⟩ := here r member
  exact ⟨low, high, found, first⟩

section Home

variable (homes : ∀ r ∈ d.replacements, d.IsHome home closing r)

include homes in
theorem home_eq_iff (found : d.replacementAt? lineNo = some r) {x : Replacement}
    (member : x ∈ d.replacements) :
    home x = lineNo ↔ x = r ∧ home r = lineNo := by
  constructor
  · rintro rfl
    obtain rfl := Option.some.inj ((homes x member).here.symm.trans found)
    exact ⟨rfl, rfl⟩
  · rintro ⟨rfl, same⟩
    exact same

include homes in
theorem filter_home (once : d.replacements.Nodup) (found : d.replacementAt? lineNo = some r) :
    d.replacements.filter (fun x => home x = lineNo) = if home r = lineNo then [r] else [] := by
  split
  · rename_i own
    rw [← List.perm_singleton, List.perm_ext_iff_of_nodup (once.filter _) (List.nodup_singleton r)]
    intro x
    rw [List.mem_filter, decide_eq_true_eq, List.mem_singleton]
    constructor
    · rintro ⟨member, here⟩
      exact ((home_eq_iff homes found member).mp here).1
    · rintro rfl
      exact ⟨(covers_of_replacementAt? found).1, own⟩
  · rename_i other
    rw [List.filter_eq_nil_iff]
    intro x member
    rw [decide_eq_true_eq, home_eq_iff homes found member]
    exact fun here => other here.2

include homes in
/-- A line is written with every change in its place, and the texts written by then are
    those of the homes that have been passed. -/
theorem lineTexts_inPlace (last : d.decl.lastFieldLine? = some lastField)
    (below : d.decl.firstLine < lineNo) (distinct : (d.replacements.map (·.text)).Nodup)
    (free : d.appended ≠ [] → d.replacementAt? closing = none)
    (passed : ∀ r ∈ d.replacements, r.text ∈ written ↔ home r < lineNo) (line : Text) :
    (d.lineTexts written lineNo (lineNo = closing) line).1 ++ d.insertedAfter lineNo =
        d.lineLayout home lastField closing lineNo line ∧
      ∀ r ∈ d.replacements, r.text ∈ (d.lineTexts written lineNo (lineNo = closing) line).2 ↔
        home r < lineNo + 1 := by
  rw [lineLayout, insertedAfter_eq last]
  cases found : d.replacementAt? lineNo with
  | none =>
      have away : ∀ r ∈ d.replacements, home r ≠ lineNo := by
        rintro r member rfl
        rw [(homes r member).here] at found
        cases found
      have none : d.replacements.filter (fun r => home r = lineNo) = [] :=
        List.filter_eq_nil_iff.mpr fun r member => by simpa using away r member
      rw [lineTexts, found, none]
      refine ⟨?_, fun r member => ?_⟩
      · by_cases final : lineNo = closing <;> cases d.appended <;> simp [final, shown]
      · have := away r member
        rw [passed r member]
        omega
  | some r =>
      have member := (covers_of_replacementAt? found).1
      have nothing : (if lineNo = closing then shown d.appended else []) = [] := by
        split
        · rename_i final
          rw [shown_eq_nil_iff]
          by_contra some
          rw [final, free some] at found
          cases found
        · rfl
      have reached : home r ≤ lineNo := (homes r member).first lineNo below found
      rw [filter_home homes distinct.of_map found, nothing, lineTexts, found]
      by_cases old : home r = lineNo
      · have new : r.text ∉ written :=
          fun inside => Nat.lt_irrefl lineNo (old ▸ (passed r member).mp inside)
        refine ⟨by simp [new, old], fun x other => ?_⟩
        have same : x.text = r.text ↔ home x = lineNo := by
          rw [home_eq_iff homes found other]
          exact ⟨fun text => ⟨List.inj_on_of_nodup_map distinct other member text, old⟩,
            fun own => own.1 ▸ rfl⟩
        simp only [new, List.contains_eq_mem, decide_false, Bool.false_eq_true, ↓reduceIte,
          List.mem_cons, same, passed x other]
        omega
      · have present : r.text ∈ written := (passed r member).mpr (by omega)
        refine ⟨by simp [present, old], fun x other => ?_⟩
        have := home_eq_iff homes found other
        simp only [present, List.contains_eq_mem, decide_true, ↓reduceIte, passed x other]
        omega

include homes in
theorem bodyTexts_eq_bodyLayout (last : d.decl.lastFieldLine? = some lastField)
    (below : d.decl.firstLine < lineNo) (size : lineNo + body.length = closing + 1)
    (distinct : (d.replacements.map (·.text)).Nodup)
    (free : d.appended ≠ [] → d.replacementAt? closing = none)
    (passed : ∀ r ∈ d.replacements, r.text ∈ written ↔ home r < lineNo) :
    d.bodyTexts written lineNo body = d.bodyLayout home lastField closing lineNo body := by
  induction body generalizing written lineNo with
  | nil => simp [bodyTexts, bodyLayout]
  | cons line rest ih =>
      rw [List.length_cons] at size
      obtain ⟨here, passed⟩ := lineTexts_inPlace homes last below distinct free passed line
      rw [bodyTexts, bodyLayout_cons, isEmpty_eq_decide size]
      dsimp only
      rw [here, ih (by omega) (by omega) passed]

end Home

theorem inPlace_iff (last : d.decl.lastFieldLine? = some lastField)
    (low : d.decl.firstLine < lastField) (high : lastField < closing)
    (size : d.decl.firstLine + d.decl.lines.length = closing + 1)
    (distinct : (d.replacements.map (·.text)).Nodup) :
    d.InPlace lastField closing ↔ d.HasRoom closing := by
  refine ⟨InPlace.hasRoom last low high size distinct, fun room => ?_⟩
  obtain ⟨home, homes⟩ := room.exists_home
  obtain ⟨header, body, lines⟩ : ∃ header body, d.decl.lines = header :: body :=
    List.exists_cons_of_ne_nil fun none => by rw [none, List.length_nil] at size; omega
  refine ⟨header, body, home, lines, fun r member => ?_, ?_⟩
  · obtain ⟨low, high, here, -⟩ := homes r member
    exact ⟨low, high, by simpa [Span.covers] using (covers_of_replacementAt? here).2⟩
  · rw [lines, List.length_cons] at size
    have passed : ∀ r ∈ d.replacements, r.text ∈ ([] : List Text) ↔
        home r < d.decl.firstLine + 1 := by
      intro r member
      have := (homes r member).low
      simp only [List.not_mem_nil, false_iff]
      omega
    rw [render_eq_of_lines last (by omega) lines,
      bodyTexts_eq_bodyLayout homes last (by omega) (by omega) distinct room.last passed]

/-! ## What is in its place -/

theorem lineLayout_subset_bodyLayout {n : Nat} (low : lineNo ≤ n)
    (high : n < lineNo + body.length) :
    ∃ line, d.lineLayout home lastField closing n line ⊆
      d.bodyLayout home lastField closing lineNo body := by
  refine ⟨body[n - lineNo],
    fun t member => List.mem_flatMap.mpr ⟨(body[n - lineNo], n), ?_, member⟩⟩
  rw [List.mk_mem_zipIdx_iff_le_and_getElem?_sub]
  exact ⟨low, List.getElem?_eq_getElem _⟩

/-- Every change that is in its place is among the lines of the class. -/
theorem InPlace.lines_infix (inPlace : d.InPlace lastField closing)
    (low : d.decl.firstLine < lastField) (high : lastField < closing)
    (size : d.decl.firstLine + d.decl.lines.length = closing + 1) {t : Text}
    (pending : t ∈ shown d.appended ∨ t ∈ shown d.inserted ∨ ∃ r ∈ d.replacements, r.text = t) :
    t.lines <:+: d.render.lines := by
  obtain ⟨header, body, home, lines, homes, written⟩ := inPlace
  rw [lines, List.length_cons] at size
  have each : ∀ n, d.decl.firstLine < n → n ≤ closing →
      ∃ line, d.lineLayout home lastField closing n line ⊆
      d.bodyLayout home lastField closing (d.decl.firstLine + 1) body := fun n below above =>
    lineLayout_subset_bodyLayout (by omega) (by omega)
  have inside : t ∈ d.bodyLayout home lastField closing (d.decl.firstLine + 1) body := by
    rcases pending with appended | inserted | ⟨r, member, rfl⟩
    · obtain ⟨line, all⟩ := each closing (by omega) (Nat.le_refl _)
      exact all (by rw [lineLayout, if_pos rfl]; exact List.mem_append_left _ appended)
    · obtain ⟨line, all⟩ := each lastField low (by omega)
      exact all (by rw [lineLayout, if_pos (rfl : lastField = lastField)]; simp [inserted])
    · obtain ⟨below, above, -⟩ := homes r member
      obtain ⟨line, all⟩ := each (home r) below above
      refine all ?_
      simp only [lineLayout, List.mem_append, List.mem_map, List.mem_filter, decide_eq_true_eq]
      exact .inr (.inr (.inl ⟨r, ⟨member, rfl⟩, rfl⟩))
  rw [written]
  exact Text.lines_infix_unlines (List.mem_cons_of_mem _ inside)

end Draft

end Dart

end ValueClass
