import ValueClass.Proofs.Settings.Filing

/-! # Which entry decides a setting

Settings that are loaded have the value that prevails in the two layers, and the default
where nothing does. Entries that are about no setting are custom entries, by the same rule.
Only the values that prevail are checked, so an illegal one that is overridden does no harm.
-/

namespace ValueClass

namespace Setting

/-- The settings that are restricted to some values. -/
def restricted : List Setting :=
  [.constructorRequiredStyle, .hashCodeStrategy, .jsonSeparate]

/-- Whether a restricted setting can have a value. -/
def IsLegal (s : Setting) (v : Json) : Prop :=
  ∃ word ∈ s.legalValues, v = .str word

end Setting

namespace Settings

variable {file overrides : List (Text × Json)} {settings : Settings}

/-! ## Checking -/

section Checking

variable {value : Setting → Json} {s : Setting}

theorem checkLegal_of_legal (legal : s.IsLegal (value s)) : checkLegal value s = .ok () := by
  obtain ⟨word, listed, same⟩ := legal
  rw [checkLegal, same]
  exact if_pos (by simpa using listed)

theorem checkLegal_of_illegal (illegal : ¬ s.IsLegal (value s)) :
    checkLegal value s = .error (.illegalValue s (value s)) := by
  rw [checkLegal]
  cases given : value s with
  | str word =>
      have unlisted : word ∉ s.legalValues := fun listed => illegal ⟨word, listed, given⟩
      exact if_neg (by simpa using unlisted)
  | null | bool | int | float | arr | obj => rfl

end Checking

def valueIn (merged : List (Text × Json)) (s : Setting) : Json :=
  (merged.lookup s.name).getD s.default

/-- Loading fails just when a restricted setting has an illegal value, and names the first one. -/
theorem load_cases {custom : Json} (given : customOf (merge file overrides) = .ok custom) :
    ((∀ s ∈ Setting.restricted, s.IsLegal (valueIn (merge file overrides) s)) ∧
        load file overrides = .ok { value := valueIn (merge file overrides), custom }) ∨
      ∃ s ∈ Setting.restricted, ¬ s.IsLegal (valueIn (merge file overrides) s) ∧
        load file overrides = .error (.illegalValue s (valueIn (merge file overrides) s)) := by
  have steps : load file overrides = (do
      checkLegal (valueIn (merge file overrides)) .constructorRequiredStyle
      checkLegal (valueIn (merge file overrides)) .hashCodeStrategy
      checkLegal (valueIn (merge file overrides)) .jsonSeparate
      return { value := valueIn (merge file overrides), custom }) := by
    rw [load, given]
    rfl
  rw [steps]
  by_cases first : Setting.constructorRequiredStyle.IsLegal
    (valueIn (merge file overrides) .constructorRequiredStyle)
  · rw [checkLegal_of_legal first]
    by_cases second : Setting.hashCodeStrategy.IsLegal
      (valueIn (merge file overrides) .hashCodeStrategy)
    · rw [checkLegal_of_legal second]
      by_cases third : Setting.jsonSeparate.IsLegal (valueIn (merge file overrides) .jsonSeparate)
      · rw [checkLegal_of_legal third]
        exact .inl ⟨by simp [Setting.restricted, first, second, third], rfl⟩
      · rw [checkLegal_of_illegal third]
        exact .inr ⟨_, by decide, third, rfl⟩
    · rw [checkLegal_of_illegal second]
      exact .inr ⟨_, by decide, second, rfl⟩
  · rw [checkLegal_of_illegal first]
    exact .inr ⟨_, by decide, first, rfl⟩

/-! ## Custom entries -/

section Custom

variable {name : Text}

theorem lookup_merge_editorName {s : Setting} (spelled : s.editorName? = some name) :
    (merge file overrides).lookup name = none := by
  have nothing : ∀ e v, False ↔ fileEntry e = (name, v) := fun e v =>
    ⟨False.elim, fun same => fileEntry_ne_editorName spelled (congrArg Prod.fst same)⟩
  have prevails := prevails_merge nothing file overrides
  cases found : (merge file overrides).lookup name with
  | none => rfl
  | some v =>
      rw [found] at prevails
      obtain ⟨-, -, given⟩ := prevails.exists_mem
      exact given.elim

theorem isUnknown_iff : isUnknown name ↔ (∀ s : Setting, s.name ≠ name) ∧ name ≠ customName := by
  rw [isUnknown, Bool.and_eq_true, Option.isNone_iff_eq_none, Setting.ofName?_eq_none_iff,
    bne_iff_ne]

theorem IsForeign.isUnknown (foreign : IsForeign name) : isUnknown name :=
  isUnknown_iff.mpr ⟨foreign.noName, foreign.noCustom⟩

theorem lookup_unknown_of_not_isForeign (known : ¬ IsForeign name) :
    (if isUnknown name then (merge file overrides).lookup name else none) = none := by
  split
  · rename_i unknown
    obtain ⟨noName, noCustom⟩ := isUnknown_iff.mp unknown
    obtain ⟨s, spelled⟩ : ∃ s : Setting, s.editorName? = some name := by
      by_contra unspelled
      exact known ⟨noName, fun s spelled => unspelled ⟨s, spelled⟩, noCustom⟩
    exact lookup_merge_editorName spelled
  · rfl

theorem customOf_mapping {merged base : List (Text × Json)} (distinct : (merged.map (·.1)).Nodup)
    (given : (merged.lookup customName).getD (.obj []) = .obj base) :
    ∃ members, customOf merged = .ok (.obj members) ∧ ∀ name, members.lookup name =
      (if isUnknown name then merged.lookup name else none).or (base.lookup name) := by
  let unknown := merged.filter fun entry => isUnknown entry.1
  have found : ∀ name, unknown.lookup name = if isUnknown name then merged.lookup name else none :=
    fun name => lookup_filter_key isUnknown merged name
  have custom : customOf merged =
      if unknown.isEmpty then .ok (.obj base) else .ok (.obj (setMembers unknown base)) := by
    rw [customOf, given]
    rfl
  by_cases none : unknown.isEmpty
  · refine ⟨base, by rw [custom, if_pos none], fun name => ?_⟩
    rw [← found, List.isEmpty_iff.mp none, List.lookup_nil, Option.none_or]
  · refine ⟨setMembers unknown base, by rw [custom, if_neg none], fun name => ?_⟩
    have apart : (unknown.map (·.1)).Nodup := distinct.sublist (List.filter_sublist.map _)
    rw [lookup_setMembers, lookup_reverse_of_nodup apart, found]

end Custom

/-! ## Loading -/

/-- What loaded settings are, given the two layers that they come from. -/
structure Settles (file overrides : List (Text × Json)) (settings : Settings) : Prop where
  /-- A setting has the value that prevails for it, or its default. -/
  known : ∀ s : Setting, ∃ given, Prevails (Gives s) file overrides given ∧
    settings.value s = given.getD s.default
  /-- Every foreign name has the value that prevails for it. The custom entries that prevail
      are below, and under all other names there is nothing else. -/
  custom : ∃ given base members, Prevails (Files customName) file overrides given ∧
    given.getD (.obj []) = .obj base ∧
    settings.custom = .obj members ∧
    (∀ name, IsForeign name → ∃ own, Prevails (Files name) file overrides own ∧
      members.lookup name = own.or (base.lookup name)) ∧
    ∀ name, ¬ IsForeign name → members.lookup name = base.lookup name

/-- The value that prevails for a setting, or its default, is not one that it can have. -/
def IsRefused (file overrides : List (Text × Json)) (s : Setting) (v : Json) : Prop :=
  ∃ given, Prevails (Gives s) file overrides given ∧ v = given.getD s.default ∧ ¬ s.IsLegal v

/-- Where custom entries are mappings, loading gives the settings that the layers settle, and
    it is refused just when what prevails for a restricted setting is illegal. The error
    is one of those that are reported, and it names such a setting with its value. -/
theorem load_precedence
    (mappings : ∀ e ∈ file ++ overrides, ∀ v, Files customName e v → ∃ members, v = .obj members) :
    (∀ settings, load file overrides = .ok settings → Settles file overrides settings) ∧
      ((∃ e, load file overrides = .error e) ↔ ∃ s ∈ Setting.restricted, ∃ v,
        IsRefused file overrides s v) ∧
      ∀ e, load file overrides = .error e → e.isReported ∧
        ∃ s ∈ Setting.restricted, ∃ v, IsRefused file overrides s v ∧ e = .illegalValue s v := by
  have prevails : ∀ s :
      Setting, Prevails (Gives s) file overrides ((merge file overrides).lookup s.name) :=
    fun s => prevails_merge (fun _ _ => gives_iff) file overrides
  have prevailing : Prevails (Files customName) file overrides
      ((merge file overrides).lookup customName) :=
    prevails_merge (fun _ _ => files_customName_iff) file overrides
  obtain ⟨base, given⟩ : ∃ base, ((merge file overrides).lookup customName).getD (.obj []) =
      .obj base := by
    cases found : (merge file overrides).lookup customName with
    | none => exact ⟨[], rfl⟩
    | some v =>
        rw [found] at prevailing
        obtain ⟨e, listed, filed⟩ := prevailing.exists_mem
        exact mappings e listed v filed
  obtain ⟨members, custom, entries⟩ := customOf_mapping (nodup_keys_merge file overrides) given
  have refused_iff : ∀ {s v}, IsRefused file overrides s v ↔ v = valueIn (merge file overrides) s ∧
      ¬ s.IsLegal v := by
    intro s v
    constructor
    · rintro ⟨other, prevails', same, illegal⟩
      rw [prevails'.unique gives_unique (prevails s)] at same
      exact ⟨same, illegal⟩
    · rintro ⟨same, illegal⟩
      exact ⟨_, prevails s, same, illegal⟩
  rcases load_cases custom with ⟨legal, loads⟩ | ⟨s, restricted, illegal, fails⟩
  · rw [loads]
    refine ⟨?_, iff_of_false (by simp) ?_, by simp⟩
    · rintro _ ⟨⟩
      refine ⟨fun s => ⟨_, prevails s, rfl⟩, _, base, members, prevailing, given, rfl, ?_, ?_⟩
      · intro name foreign
        refine ⟨_, prevails_merge (fun _ _ => foreign.files_iff) file overrides, ?_⟩
        rw [entries, if_pos foreign.isUnknown]
      · intro name known
        rw [entries, lookup_unknown_of_not_isForeign known, Option.none_or]
    · rintro ⟨s, restricted, v, refused⟩
      obtain ⟨rfl, illegal⟩ := refused_iff.mp refused
      exact illegal (legal s restricted)
  · rw [fails]
    have refused : IsRefused file overrides s (valueIn (merge file overrides) s) :=
      refused_iff.mpr ⟨rfl, illegal⟩
    refine ⟨by simp, iff_of_true ⟨_, rfl⟩ ⟨s, restricted, _, refused⟩, ?_⟩
    rintro _ ⟨⟩
    exact ⟨rfl, s, restricted, _, refused, rfl⟩

/-- An illegal value of the file is overridden in another spelling, and a custom entry by a
    foreign one. -/
theorem load_precedence_overridden :
    let file : List (Text × Json) :=
      [("hashCode.use_jenkins", .bool true), ("json_separate", .str "bogus"),
        ("custom", .obj [("note", .int 1)]),
       ("note", .int 2)]
    let overrides : List (Text × Json) :=
      [("dart_data_class_generator.json.separate", .str "current_file"),
        ("dart_data_class_generator.note", .int 3)]
    (∀ e ∈ file ++ overrides, ∀ v, Files customName e v → ∃ members, v = .obj members) ∧
      ∃ settings, load file overrides = .ok settings ∧ Settles file overrides settings ∧
        settings.value .hashCodeStrategy = .str "combinator" ∧
          settings.value .jsonSeparate = .str "never" ∧
        settings.custom = .obj [("note", .int 3)] := by
  intro file overrides
  have mappings : ∀ e ∈ file ++ overrides, ∀ v, Files customName e v →
      ∃ members, v = .obj members := by
    -- one entry alone is filed there
    have alone : ∀ e ∈ file ++ overrides, e.1 = customName ∨ e.1 = editorScope ++ customName →
        (e.2.member? "note").isSome := by
      decide +kernel
    intro e listed v filed
    have value : (v.member? "note").isSome := by
      cases filed with
      | bare => exact alone _ listed (.inl rfl)
      | inScope => exact alone _ listed (.inr rfl)
    cases v with
    | obj members => exact ⟨members, rfl⟩
    | null | bool | int | float | str | arr => cases value
  obtain ⟨settings, loads, hash, separate, custom⟩ :
      ∃ settings, load file overrides = .ok settings ∧
      settings.value .hashCodeStrategy = .str "combinator" ∧
        settings.value .jsonSeparate = .str "never" ∧
      settings.custom = .obj [("note", .int 3)] := ⟨_, rfl, rfl, rfl, rfl⟩
  exact ⟨mappings, settings, loads, (load_precedence mappings).1 settings loads, hash,
    separate, custom⟩

end Settings

end ValueClass
