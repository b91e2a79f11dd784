import AntResources.Proofs.SettingsFields

/-!
# AntResources.Proofs.SettingsArrangement

**Sections, order and spelling carry no meaning.** Where each setting is named once, the fields of a table come
to the same settings in any order, in any sections and with dashes for low lines
(`Settings.ofTable_of_arranges`).

Taking the sections apart changes nothing then: it drops only fields whose key comes again, and these name no
setting (`Settings.ofTable_eq_addFields`). What is left is told by what each field gives, and not by where it
stands (`Settings.addFields_of_rearranged`).
-/

namespace AntResources

open Toml (Table Value)

/-! ### Spelling -/

/-- A key with low lines for its dashes. -/
def plainKey (key : String) : String := String.ofList (key.toList.map fun c => if c = '-' then '_' else c)

theorem plainKey_plainKey (key : String) : plainKey (plainKey key) = plainKey key := by
  have hchar : ∀ c : Char, (if c = '-' then '_' else c) ≠ '-' := by
    intro c
    split
    · decide
    · assumption
  simp [plainKey, Function.comp_def, hchar]

@[simp] theorem SettingName.ofKey?_plainKey (key : String) : ofKey? (plainKey key) = ofKey? key :=
  congrArg ofText? (plainKey_plainKey key)

namespace Settings

variable {s : Settings} {x : Setting} {fields pairs t : Table} {field pair : String × Value} {key : String}
  {v : Value}

/-- A field in its plain spelling. -/
def plain (field : String × Value) : String × Value := (plainKey field.1, field.2)

/-- The same fields, in any order, and with any of the dashes and low lines in a key exchanged. -/
def Rearranged (fields pairs : Table) : Prop := (fields.map plain).Perm (pairs.map plain)

/-- The fields of the table, with those of its sections, are some pairs, rearranged. -/
def Arranges (pairs t : Table) : Prop := Rearranged (fieldsOf t) pairs

/-- The settings that some fields name. -/
def names (fields : Table) : List SettingName := fields.filterMap fun field => SettingName.ofKey? field.1

theorem Rearranged.symm (h : Rearranged fields pairs) : Rearranged pairs fields := List.Perm.symm h

theorem Rearranged.nodup_names (h : Rearranged fields pairs) (hnames : (names pairs).Nodup) :
    (names fields).Nodup := by
  have hplain : ∀ fields : Table, names (fields.map plain) = names fields := by
    simp [names, List.filterMap_map, Function.comp_def, plain]
  rw [← hplain] at hnames ⊢
  exact (List.Perm.filterMap _ h).nodup_iff.mpr hnames

/-- A field comes from one that names the same setting, if any, and has the same value. -/
theorem Rearranged.exists_pair (h : Rearranged fields pairs) (hfield : field ∈ fields) :
    ∃ pair ∈ pairs, SettingName.ofKey? pair.1 = SettingName.ofKey? field.1 ∧ pair.2 = field.2 := by
  obtain ⟨pair, hpair, hsame⟩ := List.mem_map.mp (h.mem_iff.mp (List.mem_map_of_mem hfield))
  obtain ⟨hkey, hv⟩ := Prod.mk.inj hsame
  refine ⟨pair, hpair, ?_, hv⟩
  rw [← SettingName.ofKey?_plainKey, hkey, SettingName.ofKey?_plainKey]

/-- What holds of each pair, for what it names and for its value, holds of each field. -/
theorem Rearranged.forall_mem (h : Rearranged fields pairs) (P : Option SettingName → Value → Prop)
    (hall : ∀ pair ∈ pairs, P (SettingName.ofKey? pair.1) pair.2) :
    ∀ field ∈ fields, P (SettingName.ofKey? field.1) field.2 := by
  intro field hfield
  obtain ⟨pair, hpair, hname, hv⟩ := h.exists_pair hfield
  rw [← hname, ← hv]
  exact hall pair hpair

theorem Rearranged.exists_mem_iff (h : Rearranged fields pairs) (P : Option SettingName → Value → Prop) :
    (∃ field ∈ fields, P (SettingName.ofKey? field.1) field.2) ↔
      ∃ pair ∈ pairs, P (SettingName.ofKey? pair.1) pair.2 := by
  constructor
  · rintro ⟨field, hfield, hP⟩
    obtain ⟨pair, hpair, hname, hv⟩ := h.exists_pair hfield
    exact ⟨pair, hpair, by rwa [hname, hv]⟩
  · rintro ⟨pair, hpair, hP⟩
    obtain ⟨field, hfield, hname, hv⟩ := h.symm.exists_pair hpair
    exact ⟨field, hfield, by rwa [hname, hv]⟩

/-! ### Taking the sections apart -/

/-- The fields that name a setting. -/
def recognised (fields : Table) : Table := fields.filter fun field => (SettingName.ofKey? field.1).isSome

theorem addFields_recognised : addFields s (recognised fields) = addFields s fields := by
  induction fields generalizing s with
  | nil => rfl
  | cons field fields ih =>
      obtain ⟨key, v⟩ := field
      cases hname : SettingName.ofKey? key with
      | none =>
          rw [recognised, List.filter_cons_of_neg (by simp [hname]), addFields, hname]
          exact ih
      | some name =>
          rw [recognised, List.filter_cons_of_pos (by simp [hname]), addFields, addFields, hname]
          exact bind_congr fun x => ih

theorem recognised_set_of_none (h : SettingName.ofKey? key = none) :
    recognised (t.set key v) = recognised t := by
  induction t with
  | nil => simp [Table.set, recognised, h]
  | cons field t ih =>
      obtain ⟨k, value⟩ := field
      by_cases hk : k = key
      · subst hk
        simp [Table.set, recognised, h]
      · rw [Table.set, if_neg hk, recognised, recognised, List.filter_cons, List.filter_cons]
        exact ite_congr rfl (fun _ => congrArg _ ih) fun _ => ih

/-- Of fields that name each setting once, no one that names a setting is dropped. -/
theorem recognised_ofFields (h : (names fields).Nodup) :
    recognised (Table.ofFields fields) = recognised fields := by
  -- The last field replaces one before it only where it names nothing.
  induction fields using List.reverseRecOn with
  | nil => rfl
  | append_singleton fields field ih =>
      obtain ⟨key, v⟩ := field
      rw [names, List.filterMap_append, List.nodup_append] at h
      obtain ⟨hfields, -, hnew⟩ := h
      rw [Table.ofFields_concat]
      cases hname : SettingName.ofKey? key with
      | none =>
          rw [recognised_set_of_none hname, ih hfields]
          simp [recognised, hname]
      | some name =>
          have hkey : key ∉ Table.keys (Table.ofFields fields) := by
            rw [Table.mem_keys_ofFields_iff]
            intro hmem
            obtain ⟨first, hfirst, rfl⟩ := List.mem_map.mp hmem
            exact hnew name (List.mem_filterMap.mpr ⟨first, hfirst, hname⟩) name (by simp [hname]) rfl
          rw [Table.set_of_not_mem hkey, recognised, recognised, List.filter_append, List.filter_append]
          exact congrArg (· ++ _) (ih hfields)

/-- **Sections carry no meaning** where each setting is named once. -/
theorem ofTable_eq_addFields (h : (names (fieldsOf t)).Nodup) : ofTable t = addFields empty (fieldsOf t) :=
  calc addFields empty (Table.ofFields (fieldsOf t))
    _ = addFields empty (recognised (Table.ofFields (fieldsOf t))) := addFields_recognised.symm
    _ = addFields empty (recognised (fieldsOf t)) := by rw [recognised_ofFields h]
    _ = addFields empty (fieldsOf t) := addFields_recognised

/-! ### What the fields give -/

/-- Where each setting is named once, each one that is given is the last of its name. -/
theorem givesLast_iff (h : (names fields).Nodup) : GivesLast fields x ↔ ∃ field ∈ fields, Gives field x := by
  constructor
  · rintro ⟨before, field, after, rfl, hgives, -⟩
    exact ⟨field, by simp, hgives⟩
  · rintro ⟨field, hfield, hgives⟩
    obtain ⟨before, after, rfl⟩ := List.append_of_mem hfield
    refine ⟨before, field, after, rfl, hgives, fun other hother hname => ?_⟩
    rw [names, List.filterMap_append, List.nodup_append, List.filterMap_cons, hgives.1] at h
    exact (List.nodup_cons.mp h.2.1).1 (List.mem_filterMap.mpr ⟨other, hother, hname⟩)

/-- A field is taken for what it names and for its value, under whatever key. -/
theorem isTaken_iff_exists (key : String) : IsTaken field ↔ ∀ name, SettingName.ofKey? field.1 = some name →
    ∃ x, Setting.ofValue key name field.2 = .ok x := by
  obtain ⟨given, v⟩ := field
  rw [isTaken_iff]
  simp only [Setting.ofValue_eq_ok_iff]

theorem setting?_of_nodup (hnames : (names fields).Nodup) (h : addFields empty fields = .ok s) :
    s.setting? x.name = some x ↔ ∃ field ∈ fields, Gives field x := by
  rw [setting?_of_addFields h, givesLast_iff hnames]
  simp

/-- What no field names is not given. -/
theorem setting?_eq_none_iff_of_nodup {name : SettingName} (hnames : (names fields).Nodup)
    (h : addFields empty fields = .ok s) :
    s.setting? name = none ↔ ∀ field ∈ fields, SettingName.ofKey? field.1 ≠ some name := by
  constructor
  · intro hnone field hfield hname
    obtain ⟨x, hx⟩ := isTaken_iff.mp (exists_addFields_iff.mp ⟨s, h⟩ field hfield) name hname
    obtain ⟨rfl, -⟩ := Setting.ofValue_eq_ok_iff.mp hx
    cases hnone.symm.trans ((setting?_of_nodup hnames h).mpr ⟨field, hfield, gives_iff.mpr ⟨hname, hx⟩⟩)
  · intro hnot
    cases hx : s.setting? name with
    | none => rfl
    | some x =>
        obtain rfl := name_of_setting? hx
        obtain ⟨field, hfield, hgives⟩ := (setting?_of_nodup hnames h).mp hx
        exact absurd hgives.1 (hnot field hfield)

/-- **Order and spelling carry no meaning** where each setting is named once. -/
theorem addFields_of_rearranged (hnames : (names pairs).Nodup) (h : Rearranged fields pairs)
    (hs : addFields empty pairs = .ok s) : addFields empty fields = .ok s := by
  have htaken : ∀ field ∈ fields, IsTaken field := by
    have hpairs := exists_addFields_iff.mp ⟨s, hs⟩
    simp only [isTaken_iff_exists ""] at hpairs ⊢
    exact h.forall_mem
      (fun given v => ∀ name, given = some name → ∃ x, Setting.ofValue "" name v = .ok x) hpairs
  obtain ⟨s', hs'⟩ := exists_addFields_iff.mpr htaken
  have hsame : ∀ x : Setting, s'.setting? x.name = some x ↔ s.setting? x.name = some x := by
    intro x
    rw [setting?_of_nodup (h.nodup_names hnames) hs', setting?_of_nodup hnames hs]
    exact h.exists_mem_iff fun name v =>
      name = some x.name ∧ (Setting.IsOf v x ∨ v = .float .nan ∧ x = .remoteTimeout .nan)
  -- Both give the same setting of each name.
  have heq : s' = s := by
    refine eq_of_setting? fun name => Option.ext fun x => ⟨fun hx => ?_, fun hx => ?_⟩
    · obtain rfl := name_of_setting? hx
      exact (hsame x).mp hx
    · obtain rfl := name_of_setting? hx
      exact (hsame x).mpr hx
  rw [hs', heq]

theorem ofTable_of_arranges_eq (hnames : (names pairs).Nodup) (h : Arranges pairs t)
    (hs : addFields empty pairs = .ok s) : ofTable t = .ok s := by
  rw [ofTable_eq_addFields (h.nodup_names hnames)]
  exact addFields_of_rearranged hnames h hs

/-! ### Fields that are refused -/

/-- The value of the field is of the type of the setting that it names, if it names one. -/
def IsWellTyped (field : String × Value) : Prop :=
  ∀ name, SettingName.ofKey? field.1 = some name → name.Accepts field.2

/-- The field names the time-out, and gives no number for it. -/
def IsNan (field : String × Value) : Prop :=
  SettingName.ofKey? field.1 = some .remoteTimeout ∧ field.2 = .float .nan

/-- A whole number of seconds is not too large for a floating-point number. -/
def IsInRange (field : String × Value) : Prop :=
  SettingName.ofKey? field.1 = some .remoteTimeout → ∀ i, field.2 = .integer i → 1 ≤ i →
    ∃ seconds, Binary64.ofInt? i = some seconds

/-- The field names a setting that does not accept its value. -/
def IsRefused (field : String × Value) : Prop :=
  ∃ name, SettingName.ofKey? field.1 = some name ∧ ¬ Setting.Fits name field.2

theorem isRefused_iff : IsRefused field ↔ ¬ (IsWellTyped field ∨ IsNan field) := by
  simp only [IsRefused, IsWellTyped, IsNan, Setting.fits_iff]
  cases hname : SettingName.ofKey? field.1 with
  | none => simp
  | some name => simp

/-- Only what is refused is not taken. -/
theorem isTaken_of_not_isRefused (hrange : IsInRange field) (h : ¬ IsRefused field) : IsTaken field := by
  obtain ⟨key, v⟩ := field
  intro name hname failure hfailure
  have hfits : Setting.Fits name v := not_not.mp fun hnot => h ⟨name, hname, hnot⟩
  obtain ⟨rfl, i, rfl, hlarge, -⟩ := (Setting.valueFailure_of_fits hfits).mp hfailure
  cases hfits with
  | wholeSeconds hi =>
      obtain ⟨seconds, hseconds⟩ := hrange hname i rfl hi
      cases hlarge.symm.trans hseconds

/-- **The first field that is refused** decides. -/
theorem ofTable_of_isRefused (hnames : (names (fieldsOf t)).Nodup)
    (hrange : ∀ field ∈ fieldsOf t, IsInRange field) (hbad : ∃ field ∈ fieldsOf t, IsRefused field) :
    ∃ before key v after name, fieldsOf t = before ++ (key, v) :: after ∧
      (∀ field ∈ before, ¬ IsRefused field) ∧ SettingName.ofKey? key = some name ∧
      ¬ Setting.Fits name v ∧
      ∀ failure, Setting.ValueFailure key name v failure → ofTable t = .error failure := by
  obtain ⟨before, ⟨key, v⟩, after, hsplit, hbefore, name, hname, hnot⟩ := exists_first hbad
  refine ⟨before, key, v, after, name, hsplit, hbefore, hname, hnot, fun failure hfailure => ?_⟩
  rw [ofTable_eq_addFields hnames, addFields_eq_error_iff]
  refine ⟨before, key, v, after, name, hsplit, fun field hfield => ?_, hname, hfailure⟩
  have hmem : field ∈ fieldsOf t := hsplit ▸ List.mem_append_left _ hfield
  exact isTaken_of_not_isRefused (hrange field hmem) (hbefore field hfield)

/-- **Sections, order and spelling carry no meaning** for pairs that name each setting at most once. All tables
that arrange them give the same settings, if every pair that names a setting has a value of its type; what the
pairs do not name is not given. Else no arrangement gives settings: the error names the first field in it that is
of the wrong type, unless that has a value that no message can show. A time-out that is not a number is taken. -/
theorem ofTable_of_arranges (pairs : Table) (hnames : (names pairs).Nodup)
    (hrange : ∀ pair ∈ pairs, IsInRange pair) :
    ((∀ pair ∈ pairs, IsWellTyped pair ∨ IsNan pair) → ∃ s,
      (∀ x : Setting, s.setting? x.name = some x ↔ ∃ pair ∈ pairs, Gives pair x) ∧
      (∀ name, s.setting? name = none ↔ ∀ pair ∈ pairs, SettingName.ofKey? pair.1 ≠ some name) ∧
      ∀ t, Arranges pairs t → ofTable t = .ok s) ∧
    ((∃ pair ∈ pairs, ¬ (IsWellTyped pair ∨ IsNan pair)) → ∀ t, Arranges pairs t →
      ∃ before key v after name, fieldsOf t = before ++ (key, v) :: after ∧
        (∀ field ∈ before, IsWellTyped field ∨ IsNan field) ∧ SettingName.ofKey? key = some name ∧
        ¬ name.Accepts v ∧
        (∀ shown, v.depth < maxNesting → v.text? = some shown →
          ofTable t = .error (.wrongType ⟨key, name.type, shown⟩)) ∧
        (maxNesting ≤ v.depth ∨ v.text? = none → ∃ fault, ofTable t = .error (.fault fault))) := by
  constructor
  · intro hfine
    have htaken : ∀ pair ∈ pairs, IsTaken pair := fun pair hpair =>
      isTaken_of_not_isRefused (hrange pair hpair) fun hbad => isRefused_iff.mp hbad (hfine pair hpair)
    obtain ⟨s, hs⟩ := exists_addFields_iff.mpr htaken
    exact ⟨s, fun x => setting?_of_nodup hnames hs, fun name => setting?_eq_none_iff_of_nodup hnames hs,
      fun t ht => ofTable_of_arranges_eq hnames ht hs⟩
  · intro hbad t ht
    simp only [← isRefused_iff] at hbad
    have hthere : ∃ field ∈ fieldsOf t, IsRefused field :=
      (ht.exists_mem_iff fun given v => ∃ name, given = some name ∧ ¬ Setting.Fits name v).mpr hbad
    have hinRange : ∀ field ∈ fieldsOf t, IsInRange field :=
      ht.forall_mem (fun given v => given = some .remoteTimeout → ∀ i, v = .integer i → 1 ≤ i →
        ∃ seconds, Binary64.ofInt? i = some seconds) hrange
    obtain ⟨before, key, v, after, name, hsplit, hbefore, hname, hnot, herror⟩ :=
      ofTable_of_isRefused (ht.nodup_names hnames) hinRange hthere
    refine ⟨before, key, v, after, name, hsplit, fun field hfield => ?_, hname,
      fun haccepted => hnot (Setting.fits_iff.mpr (.inl haccepted)),
      fun shown hdepth hshown => herror _ (.wrongType hnot hdepth hshown), fun hhidden => ?_⟩
    · exact not_not.mp fun hbad => hbefore field hfield (isRefused_iff.mpr hbad)
    · rcases Nat.lt_or_ge v.depth maxNesting with hdepth | hdeep
      · exact ⟨_, herror _ (.tooLong hnot hdepth (hhidden.resolve_left (by omega)))⟩
      · exact ⟨_, herror _ (.tooDeep hnot hdeep)⟩

/-- Three pairs: one of them names no setting. -/
def threePairs : Table := [("format", .string "x"), ("max-workers", .integer 2), ("more", .boolean true)]

/-- The pairs in two sections and between them. -/
def threeArranged : Table :=
  [("a", .table [("max_workers", .integer 2)]), ("more", .boolean true),
    ("b", .table [("format", .string "x")])]

theorem ofTable_threeArranged : (names threePairs).Nodup ∧ (∀ pair ∈ threePairs, IsInRange pair) ∧
    Arranges threePairs threePairs ∧ Arranges threePairs threeArranged ∧
    ∃ s, (∀ x : Setting, s.setting? x.name = some x ↔ ∃ pair ∈ threePairs, Gives pair x) ∧
      ofTable threePairs = .ok s ∧ ofTable threeArranged = .ok s := by
  have hformat : SettingName.ofKey? "format" = some .format := by decide
  have hworkers : SettingName.ofKey? "max-workers" = some .maxWorkers := by decide
  have hmore : SettingName.ofKey? "more" = none := by decide
  have hnames : (names threePairs).Nodup := by decide
  have hrange : ∀ pair ∈ threePairs, IsInRange pair := by
    simp [threePairs, IsInRange, hworkers]
  have hfine : ∀ pair ∈ threePairs, IsWellTyped pair ∨ IsNan pair := by
    simp [threePairs, IsWellTyped, hformat, hworkers, hmore, SettingName.Accepts]
  have hplain : Arranges threePairs threePairs := .refl _
  have harranged : Arranges threePairs threeArranged := by
    have hformat : plainKey "format" = "format" := by decide
    have hdashed : plainKey "max-workers" = "max_workers" := by decide
    have hspelled : plainKey "max_workers" = "max_workers" := by decide
    have hmore : plainKey "more" = "more" := by decide
    simp only [Arranges, Rearranged, fieldsOf, threePairs, threeArranged, plain, List.flatMap_cons,
      List.flatMap_nil, List.append_nil, List.map_append, List.map_cons, List.map_nil, hformat, hdashed,
      hspelled, hmore, ← List.append_assoc]
    exact List.perm_append_comm
  obtain ⟨hgiven, -⟩ := ofTable_of_arranges threePairs hnames hrange
  obtain ⟨s, hs, -, hall⟩ := hgiven hfine
  exact ⟨hnames, hrange, hplain, harranged, s, hs, hall _ hplain, hall _ harranged⟩

end Settings

end AntResources
