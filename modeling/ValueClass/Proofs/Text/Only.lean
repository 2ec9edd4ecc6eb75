import Mathlib.Data.List.Basic
import ValueClass.Text.Blank

/-! # Texts of some characters only

Texts that have no other characters than allowed ones are put together from such texts,
and taken apart into such texts.
-/

namespace ValueClass.Text

def Only (allowed : Char → Bool) (t : Text) : Prop :=
  ∀ c ∈ t, allowed c

instance (allowed : Char → Bool) (t : Text) : Decidable (t.Only allowed) :=
  List.decidableBAll (fun c => allowed c) t

theorem mem_consFirst {c : Char} {pieces : List Text} {piece : Text}
    (h : piece ∈ consFirst c pieces) :
    piece ∈ pieces ∨ ∃ tail, (tail ∈ pieces ∨ tail = []) ∧ piece = c :: tail := by
  cases pieces with
  | nil => exact .inr ⟨[], .inr rfl, List.mem_singleton.mp h⟩
  | cons first rest =>
      rcases List.mem_cons.mp h with rfl | h
      · exact .inr ⟨first, .inl List.mem_cons_self, rfl⟩
      · exact .inl (List.mem_cons_of_mem _ h)

theorem forall_of_mem_splitWhere {cuts : Char → Bool} {t piece : Text}
    (h : piece ∈ splitWhere cuts t) : ∀ c ∈ piece, c ∈ t ∧ cuts c = false := by
  induction t generalizing piece with
  | nil =>
      obtain rfl : piece = [] := by simpa [splitWhere] using h
      simp
  | cons d rest ih =>
      have later : piece ∈ splitWhere cuts rest → ∀ c ∈ piece, c ∈ d :: rest ∧ cuts c = false :=
        fun inside c member => ⟨List.mem_cons_of_mem _ (ih inside c member).1,
          (ih inside c member).2⟩
      rw [splitWhere] at h
      split at h
      · rcases List.mem_cons.mp h with rfl | h
        · simp
        · exact later h
      · rename_i kept
        rcases mem_consFirst h with h | ⟨tail, known, rfl⟩
        · exact later h
        · intro c member
          rcases List.mem_cons.mp member with rfl | member
          · exact ⟨List.mem_cons_self, by simpa using kept⟩
          · rcases known with inside | rfl
            · exact ⟨List.mem_cons_of_mem _ (ih inside c member).1, (ih inside c member).2⟩
            · cases member

namespace Only

variable {allowed more : Char → Bool} {a b t : Text} {c : Char}

theorem nil : Only allowed [] :=
  fun _ member => nomatch member

theorem cons (first : allowed c) (rest : t.Only allowed) : Only allowed (c :: t) := by
  intro d member
  rcases List.mem_cons.mp member with rfl | member
  · exact first
  · exact rest d member

theorem tail (h : Only allowed (c :: t)) : t.Only allowed :=
  fun d member => h d (List.mem_cons_of_mem _ member)

theorem append (first : a.Only allowed) (second : b.Only allowed) : (a ++ b).Only allowed :=
  fun c member => (List.mem_append.mp member).elim (first c) (second c)

theorem flatMap {α : Type} {f : α → Text} {items : List α}
    (h : ∀ item ∈ items, (f item).Only allowed) :
    Only allowed (items.flatMap f) := by
  intro c member
  obtain ⟨item, listed, member⟩ := List.mem_flatMap.mp member
  exact h item listed c member

theorem join {parts : List Text} (between : t.Only allowed)
    (h : ∀ part ∈ parts, part.Only allowed) :
    (Text.join t parts).Only allowed := by
  fun_induction Text.join t parts with
  | case1 => exact nil
  | case2 part => exact h part List.mem_cons_self
  | case3 part next rest ih =>
      exact ((h part List.mem_cons_self).append between).append
        (ih fun p member => h p (List.mem_cons_of_mem _ member))

theorem mono (h : t.Only allowed) (wider : ∀ c, allowed c → more c) : t.Only more :=
  fun c member => wider c (h c member)

theorem notMem (h : t.Only allowed) (other : allowed c = false) : c ∉ t := by
  intro member
  rw [h c member] at other
  cases other

theorem of_mem_runs (h : a ∈ t.runs allowed) : a.Only allowed := by
  intro c member
  simpa using (forall_of_mem_splitWhere (List.mem_filter.mp h).1 c member).2

theorem run (h : t.Only allowed) {keep : Char → Bool} (listed : a ∈ t.runs keep) : a.Only allowed :=
  fun c member => h c (forall_of_mem_splitWhere (List.mem_filter.mp listed).1 c member).1

end Only

abbrev OneLine (t : Text) : Prop :=
  t.Only (· != '\n')

theorem OneLine.notMem_feed {t : Text} (h : t.OneLine) : '\n' ∉ t :=
  h.notMem (by decide)

theorem oneLine_iff {t : Text} : t.OneLine ↔ '\n' ∉ t :=
  ⟨fun h => h.notMem_feed, fun h _ member => bne_iff_ne.mpr fun feed => h (feed ▸ member)⟩

end ValueClass.Text
