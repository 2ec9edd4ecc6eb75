import ValueClass.Proofs.Json.Members
import ValueClass.Settings.Basic

/-! # Entries and the names they are filed under

A setting can be written in four ways: under its name or in the editor's spelling, and with
the editor's scope in front or without. Every entry is filed under one name before two layers
of entries are merged, and so the merged layers hold under a name what the last overriding
entry about it gives, else the last one of the file.
-/

namespace ValueClass

namespace Setting

variable {s t : Setting} {key name : Text}

theorem mem_all (s : Setting) : s ∈ all := by
  cases s <;> decide

/-- The spellings of a setting: no two settings share one, none is the name of the custom
    settings, and none has the editor's scope in front. -/
structure IsApart (s : Setting) : Prop where
  name : ∀ t ∈ all, s.name = t.name → s = t
  editorName : ∀ t ∈ all, s.editorName?.isSome → s.editorName? = t.editorName? → s = t
  mixed : ∀ t ∈ all, s.editorName? ≠ some t.name
  custom : s.name ≠ Settings.customName ∧ s.editorName? ≠ some Settings.customName
  scope : ∀ key ∈ s.name :: s.editorName?.toList, ¬ Settings.editorScope <+: key

theorem isApart (s : Setting) : s.IsApart := by
  -- one evaluation for all settings, so that the list is gone through once
  have listed : ∀ s ∈ all, (∀ t ∈ all, (s.name = t.name → s = t) ∧
      (s.editorName?.isSome → s.editorName? = t.editorName? → s = t) ∧
        s.editorName? ≠ some t.name) ∧
      (s.name ≠ Settings.customName ∧ s.editorName? ≠ some Settings.customName) ∧
      ∀ key ∈ s.name :: s.editorName?.toList, ¬ Settings.editorScope <+: key := by
    decide +kernel
  obtain ⟨others, custom, scope⟩ := listed s (mem_all s)
  exact ⟨fun t member => (others t member).1, fun t member => (others t member).2.1,
    fun t member => (others t member).2.2,
    custom, scope⟩

theorem name_injective (same : s.name = t.name) : s = t :=
  s.isApart.name t (mem_all t) same

theorem editorName?_injective (first : s.editorName? = some key)
    (second : t.editorName? = some key) : s = t :=
  s.isApart.editorName t (mem_all t) (by rw [first]; rfl) (first.trans second.symm)

theorem editorName?_ne_name (s t : Setting) : s.editorName? ≠ some t.name :=
  s.isApart.mixed t (mem_all t)

theorem ofEditorName?_eq_some_iff : ofEditorName? key = some s ↔ s.editorName? = some key := by
  constructor
  · intro found
    rw [ofEditorName?] at found
    simpa using List.find?_some found
  · intro spelled
    obtain ⟨t, found⟩ : ∃ t, ofEditorName? key = some t := by
      rw [← Option.isSome_iff_exists, ofEditorName?, List.find?_isSome]
      exact ⟨s, mem_all s, beq_iff_eq.mpr spelled⟩
    have other : t.editorName? = some key := by
      rw [ofEditorName?] at found
      simpa using List.find?_some found
    rw [found, editorName?_injective other spelled]

theorem ofName?_eq_none_iff : ofName? name = none ↔ ∀ s : Setting, s.name ≠ name := by
  rw [ofName?, List.find?_eq_none]
  constructor
  · intro none s same
    exact none s (mem_all s) (beq_iff_eq.mpr same)
  · intro none s _ same
    exact none s (beq_iff_eq.mp same)

end Setting

namespace Settings

/-! ## What an entry is about -/

/-- An entry gives a known setting a value. Under the setting's name the value stands for
    itself, in the editor's spelling it is taken in the editor's sense. -/
inductive Gives (s : Setting) : Text × Json → Json → Prop where
  | name {v : Json} : Gives s (s.name, v) v
  | nameInScope {v : Json} : Gives s (editorScope ++ s.name, v) v
  | editor {key : Text} {v : Json} (spelled : s.editorName? = some key) :
    Gives s (key, v) (s.ofEditorValue v)
  | editorInScope {key : Text} {v : Json} (spelled : s.editorName? = some key) :
      Gives s (editorScope ++ key, v) (s.ofEditorValue v)

/-- An entry gives a name a value as it stands: the key is the name, once the editor's scope
    in front of it is dropped. -/
inductive Files (name : Text) : Text × Json → Json → Prop where
  | bare {v : Json} (unscoped : ¬ editorScope <+: name) : Files name (name, v) v
  | inScope {v : Json} : Files name (editorScope ++ name, v) v

/-- No setting has this name, in any spelling, and it is not the name of the custom entries. -/
structure IsForeign (name : Text) : Prop where
  noName : ∀ s : Setting, s.name ≠ name
  noEditorName : ∀ s : Setting, s.editorName? ≠ some name
  noCustom : name ≠ customName

/-- The last of some entries that gives a value. -/
inductive LastGiven (gives : Text × Json → Json → Prop) : List (Text × Json) → Json → Prop where
  | here {e : Text × Json} {v : Json} {rest : List (Text × Json)} (given : gives e v)
      (silent : ∀ later ∈ rest, ∀ w, ¬ gives later w) : LastGiven gives (e :: rest) v
  | later {e : Text × Json} {v : Json} {rest : List (Text × Json)} (last : LastGiven gives rest v) :
      LastGiven gives (e :: rest) v

theorem LastGiven.exists_mem {gives : Text × Json → Json → Prop} {entries : List (Text × Json)}
    {v : Json} (last : LastGiven gives entries v) : ∃ e ∈ entries, gives e v := by
  induction last with
  | here given => exact ⟨_, List.mem_cons_self, given⟩
  | later _ ih =>
      obtain ⟨e, listed, given⟩ := ih
      exact ⟨e, List.mem_cons_of_mem _ listed, given⟩

theorem LastGiven.unique {gives : Text × Json → Json → Prop}
    (single : ∀ e v w, gives e v → gives e w → v = w) {entries : List (Text × Json)} {v w : Json}
    (first : LastGiven gives entries v) (second : LastGiven gives entries w) :
    v = w := by
  induction first with
  | here given silent =>
      cases second with
      | here given' => exact single _ _ _ given given'
      | later last =>
          obtain ⟨e, listed, given'⟩ := last.exists_mem
          exact absurd given' (silent e listed _)
  | later last ih =>
      cases second with
      | here _ silent =>
          obtain ⟨e, listed, given⟩ := last.exists_mem
          exact absurd given (silent e listed _)
      | later last' => exact ih last'

/-- What two layers give: the last overriding entry decides, else the last one of the file. -/
inductive Prevails (gives : Text × Json → Json → Prop) (file overrides : List (Text × Json)) :
    Option Json → Prop where
  | override {v : Json} (last : LastGiven gives overrides v) :
    Prevails gives file overrides (some v)
  | file {v : Json} (silent : ∀ e ∈ overrides, ∀ w, ¬ gives e w) (last : LastGiven gives file v) :
      Prevails gives file overrides (some v)
  | unset (noOverride : ∀ e ∈ overrides, ∀ w, ¬ gives e w) (noFile : ∀ e ∈ file, ∀ w, ¬ gives e w) :
      Prevails gives file overrides none

theorem Prevails.exists_mem {gives : Text × Json → Json → Prop}
    {file overrides : List (Text × Json)} {v : Json}
    (prevails : Prevails gives file overrides (some v)) : ∃ e ∈ file ++ overrides, gives e v := by
  cases prevails with
  | override last =>
      obtain ⟨e, listed, given⟩ := last.exists_mem
      exact ⟨e, List.mem_append_right _ listed, given⟩
  | file _ last =>
      obtain ⟨e, listed, given⟩ := last.exists_mem
      exact ⟨e, List.mem_append_left _ listed, given⟩

theorem Prevails.unique {gives : Text × Json → Json → Prop}
    (single : ∀ e v w, gives e v → gives e w → v = w) {file overrides : List (Text × Json)}
    {v w : Option Json} (first : Prevails gives file overrides v)
    (second : Prevails gives file overrides w) : v = w := by
  -- a layer that gives a value is not silent
  have clash : ∀ {entries u} {p : Prop}, LastGiven gives entries u →
      (∀ e ∈ entries, ∀ w, ¬ gives e w) → p := by
    intro entries u p last silent
    obtain ⟨e, listed, given⟩ := last.exists_mem
    exact absurd given (silent e listed u)
  cases first with
  | override last =>
      cases second with
      | override last' => rw [last.unique single last']
      | file silent _ => exact clash last silent
      | unset silent _ => exact clash last silent
  | file silent last =>
      cases second with
      | override last' => exact clash last' silent
      | file _ last' => rw [last.unique single last']
      | unset _ silent' => exact clash last silent'
  | unset silent silent' =>
      cases second with
      | override last' => exact clash last' silent
      | file _ last' => exact clash last' silent'
      | unset => rfl

/-! ## Where an entry is filed -/

section Filing

variable {s : Setting} {key name : Text} {e : Text × Json} {v w : Json}

theorem unscoped_name (s : Setting) : ¬ editorScope <+: s.name :=
  s.isApart.scope _ List.mem_cons_self

theorem unscoped_editorName (spelled : s.editorName? = some key) : ¬ editorScope <+: key :=
  s.isApart.scope key (List.mem_cons_of_mem _ (Option.mem_toList.mpr spelled))

theorem isForeign_customName (s : Setting) :
    s.name ≠ customName ∧ s.editorName? ≠ some customName :=
  s.isApart.custom

def unscoped (key : Text) : Text :=
  (Text.dropStart? editorScope key).getD key

theorem unscoped_eq_iff :
    unscoped key = name ↔ key = editorScope ++ name ∨ (key = name ∧ ¬ editorScope <+: name) := by
  rw [unscoped, Text.dropStart?]
  by_cases inScope : editorScope <+: key
  · rw [if_pos (List.isPrefixOf_iff_prefix.mpr inScope), Option.getD_some]
    obtain ⟨rest, rfl⟩ := inScope
    rw [List.drop_left, List.append_cancel_left_eq]
    refine ⟨.inl, fun cases => cases.resolve_right ?_⟩
    rintro ⟨rfl, bare⟩
    exact bare (List.prefix_append _ _)
  · rw [if_neg (by simpa using inScope), Option.getD_none]
    refine ⟨fun same => .inr ⟨same, same ▸ inScope⟩, fun cases => ?_⟩
    rcases cases with rfl | ⟨same, -⟩
    · exact absurd (List.prefix_append _ _) inScope
    · exact same

/-- An entry is filed under the setting that its key spells for editors, and otherwise under
    its key. -/
theorem fileEntry_eq_iff : fileEntry (key, v) = (name, w) ↔
    (∃ t : Setting, t.editorName? = some (unscoped key) ∧ t.name = name ∧ t.ofEditorValue v = w) ∨
      ((∀ t : Setting, t.editorName? ≠ some (unscoped key)) ∧ unscoped key = name ∧ v = w) := by
  cases found : Setting.ofEditorName? (unscoped key) with
  | some t =>
      have spelled := Setting.ofEditorName?_eq_some_iff.mp found
      have filed : fileEntry (key, v) = (t.name, t.ofEditorValue v) := by
        rw [fileEntry, ← unscoped, found]
      rw [filed, Prod.mk.injEq]
      constructor
      · rintro ⟨same, value⟩
        exact .inl ⟨t, spelled, same, value⟩
      · rintro (⟨t', spelled', same, value⟩ | ⟨none, -⟩)
        · obtain rfl := Setting.editorName?_injective spelled spelled'
          exact ⟨same, value⟩
        · exact absurd spelled (none t)
  | none =>
      have unspelled : ∀ t : Setting, t.editorName? ≠ some (unscoped key) := by
        intro t spelled
        rw [Setting.ofEditorName?_eq_some_iff.mpr spelled] at found
        cases found
      have filed : fileEntry (key, v) = (unscoped key, v) := by
        rw [fileEntry, ← unscoped, found]
      rw [filed, Prod.mk.injEq]
      constructor
      · rintro ⟨same, value⟩
        exact .inr ⟨unspelled, same, value⟩
      · rintro (⟨t, spelled, -⟩ | ⟨-, same, value⟩)
        · exact absurd spelled (unspelled t)
        · exact ⟨same, value⟩

/-- What gives a setting a value is filed under its name. -/
theorem gives_iff : Gives s e v ↔ fileEntry e = (s.name, v) := by
  obtain ⟨key, value⟩ := e
  rw [fileEntry_eq_iff]
  constructor
  · intro given
    cases given with
    | name =>
        have bare : unscoped s.name = s.name := unscoped_eq_iff.mpr (.inr ⟨rfl, unscoped_name s⟩)
        exact .inr ⟨fun t => by rw [bare]; exact Setting.editorName?_ne_name t s, bare, rfl⟩
    | nameInScope =>
        have bare : unscoped (editorScope ++ s.name) = s.name := unscoped_eq_iff.mpr (.inl rfl)
        exact .inr ⟨fun t => by rw [bare]; exact Setting.editorName?_ne_name t s, bare, rfl⟩
    | editor spelled =>
        have bare : unscoped key = key :=
          unscoped_eq_iff.mpr (.inr ⟨rfl, unscoped_editorName spelled⟩)
        exact .inl ⟨s, bare.symm ▸ spelled, rfl, rfl⟩
    | editorInScope spelled =>
        rename_i key
        have bare : unscoped (editorScope ++ key) = key := unscoped_eq_iff.mpr (.inl rfl)
        exact .inl ⟨s, bare.symm ▸ spelled, rfl, rfl⟩
  · rintro (⟨t, spelled, same, rfl⟩ | ⟨-, same, rfl⟩)
    · obtain rfl := Setting.name_injective same
      have own : unscoped key = unscoped key := rfl
      rcases unscoped_eq_iff.mp own with inScope | ⟨bare, -⟩
      · rw [inScope]
        exact .editorInScope spelled
      · rw [bare]
        exact .editor spelled
    · rcases unscoped_eq_iff.mp same with rfl | ⟨rfl, -⟩
      · exact .nameInScope
      · exact .name

theorem gives_unique (e : Text × Json) (v w : Json) (first : Gives s e v) (second : Gives s e w) :
    v = w := by
  have same := (gives_iff.mp first).symm.trans (gives_iff.mp second)
  exact congrArg Prod.snd same

theorem files_iff (noName : ∀ s : Setting, s.name ≠ name)
    (noEditorName : ∀ s : Setting, s.editorName? ≠ some name) :
    Files name e v ↔ fileEntry e = (name, v) := by
  obtain ⟨key, value⟩ := e
  rw [fileEntry_eq_iff]
  constructor
  · intro filed
    cases filed with
    | bare free =>
        have bare : unscoped name = name := unscoped_eq_iff.mpr (.inr ⟨rfl, free⟩)
        exact .inr ⟨fun t => by rw [bare]; exact noEditorName t, bare, rfl⟩
    | inScope =>
        have bare : unscoped (editorScope ++ name) = name := unscoped_eq_iff.mpr (.inl rfl)
        exact .inr ⟨fun t => by rw [bare]; exact noEditorName t, bare, rfl⟩
  · rintro (⟨t, -, same, -⟩ | ⟨-, same, rfl⟩)
    · exact absurd same (noName t)
    · rcases unscoped_eq_iff.mp same with rfl | ⟨rfl, free⟩
      · exact .inScope
      · exact .bare free

theorem IsForeign.files_iff (foreign : IsForeign name) : Files name e v ↔ fileEntry e = (name, v) :=
  Settings.files_iff foreign.noName foreign.noEditorName

theorem files_customName_iff : Files customName e v ↔ fileEntry e = (customName, v) :=
  files_iff (fun s => (isForeign_customName s).1) fun s => (isForeign_customName s).2

theorem fileEntry_ne_editorName (spelled : s.editorName? = some name) : (fileEntry e).1 ≠ name := by
  obtain ⟨key, value⟩ := e
  intro same
  rcases fileEntry_eq_iff.mp (Prod.ext same rfl : fileEntry (key, value) = (name, _)) with ⟨t, -,
    listed, -⟩ | ⟨none, rfl, -⟩
  · exact Setting.editorName?_ne_name s t (listed ▸ spelled)
  · exact none s spelled

end Filing

/-! ## Merged layers -/

section Merging

variable {gives : Text × Json → Json → Prop} {name : Text}

theorem lookup_filed (filed : ∀ e v, gives e v ↔ fileEntry e = (name, v))
    (entries : List (Text × Json)) :
    (∀ v, (entries.map fileEntry).reverse.lookup name = some v → LastGiven gives entries v) ∧
      ((entries.map fileEntry).reverse.lookup name = none → ∀ e ∈ entries, ∀ w, ¬ gives e w) := by
  induction entries with
  | nil =>
      refine ⟨fun v found => ?_, fun _ => by simp⟩
      cases found
  | cons e rest ih =>
      obtain ⟨found, silent⟩ := ih
      have step : ((e :: rest).map fileEntry).reverse.lookup name =
          ((rest.map fileEntry).reverse.lookup name).or
            (if name = (fileEntry e).1 then some (fileEntry e).2 else none) := by
        rw [List.map_cons, List.reverse_cons, List.lookup_append, lookup_member]
        rfl
      rw [step]
      cases below : (rest.map fileEntry).reverse.lookup name with
      | some w =>
          refine ⟨fun v same => ?_, fun none => by cases none⟩
          obtain rfl : w = v := Option.some.inj same
          exact .later (found w below)
      | none =>
          rw [Option.none_or]
          by_cases same : name = (fileEntry e).1
          · rw [if_pos same]
            refine ⟨fun v value => ?_, fun none => by cases none⟩
            exact .here ((filed e v).mpr (Prod.ext same.symm (Option.some.inj value)))
              (silent below)
          · rw [if_neg same]
            refine ⟨fun v value => (by cases value), fun _ => ?_⟩
            refine List.forall_mem_cons.mpr ⟨fun w given => same ?_, silent below⟩
            exact (congrArg Prod.fst ((filed e w).mp given)).symm

theorem prevails_merge (filed : ∀ e v, gives e v ↔ fileEntry e = (name, v))
    (file overrides : List (Text × Json)) :
    Prevails gives file overrides ((merge file overrides).lookup name) := by
  rw [merge, lookup_setMembers, lookup_setMembers, List.lookup_nil, Option.or_none]
  obtain ⟨overridden, noOverride⟩ := lookup_filed filed overrides
  obtain ⟨found, noFile⟩ := lookup_filed filed file
  cases upper : (overrides.map fileEntry).reverse.lookup name with
  | some v => exact .override (overridden v upper)
  | none =>
      rw [Option.none_or]
      cases lower : (file.map fileEntry).reverse.lookup name with
      | some v => exact .file (noOverride upper) (found v lower)
      | none => exact .unset (noOverride upper) (noFile lower)

theorem nodup_keys_merge (file overrides : List (Text × Json)) :
    ((merge file overrides).map (·.1)).Nodup := by
  have none : (([] : List (Text × Json)).map (·.1)).Nodup := List.nodup_nil
  exact nodup_keys_setMembers (nodup_keys_setMembers none _) _

end Merging

end Settings

end ValueClass
