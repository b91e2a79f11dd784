import AntResources.Proofs.SettingsFields

/-!
# AntResources.Proofs.SettingsTypes

**No setting of the wrong type.** Of the fields of a settings file, with those of its sections, the last one
with a key counts. If one of these has a value that its setting does not accept, there are no settings
(`Settings.ofTable_refuses_wrongType`).

A table at the top is a section, whatever its name, and never a value
(`Settings.ofTable_overlooks_wrongType`). A whole number of seconds is a floating-point number when it is given;
that it stays greater than zero is a fact about rounding (`Binary64.isPositive_of_ofInt?`).
-/

namespace AntResources

open Toml (Table Value)

/-! ### Whole numbers as floating-point numbers -/

namespace Binary64

theorem roundDiv_pos {num den : Nat} (hden : 0 < den) (h : den ≤ num) : 0 < roundDiv num den := by
  have hquotient : 0 < num / den := Nat.div_pos h hden
  unfold roundDiv
  dsimp only
  split
  · exact hquotient
  · split <;> omega

/-- A whole number that is at least the unit is not rounded to zero. -/
theorem roundScaled_pos {num : Nat} {e : Int} (hnum : 0 < num) (he : e.toNat ≤ num.log2) :
    0 < roundScaled num 1 e := by
  unfold roundScaled
  split
  · exact roundDiv_pos Nat.one_pos (Nat.mul_pos hnum (Nat.two_pow_pos _))
  · rw [Nat.one_mul]
    exact roundDiv_pos (Nat.two_pow_pos _)
      ((Nat.pow_le_pow_right (by decide) he).trans (Nat.log2_self_le hnum.ne'))

theorem isPositive_pack {m : Nat} (hm : 0 < m) (e : Int) : (pack false m e).IsPositive := by
  have hbound : mantissaBound / 2 ≠ 0 := by decide
  unfold pack
  split
  split
  · rfl
  · next hsplit _ =>
      refine ⟨rfl, ?_⟩
      split at hsplit
      · exact (Prod.mk.inj hsplit).1 ▸ hbound
      · exact (Prod.mk.inj hsplit).1 ▸ hm.ne'

theorem isPositive_ofRatio {num : Nat} (hnum : 0 < num) : (ofRatio false num 1).IsPositive := by
  have hunit : ∀ e : Int, e ≤ max ((num.log2 : Int) - 53) minExponent + 1 → e.toNat ≤ num.log2 := by
    intro e he
    unfold minExponent at he
    omega
  have hone : (Nat.log2 1 : Int) = 0 := by decide
  unfold ofRatio
  rw [if_neg hnum.ne']
  simp only [hone, Int.sub_zero]
  split
  · exact isPositive_pack (roundScaled_pos hnum (hunit _ (by omega))) _
  · exact isPositive_pack (roundScaled_pos hnum (hunit _ (by omega))) _

/-- **A whole number greater than zero** stays so as a floating-point number. -/
theorem isPositive_of_ofInt? {i : Int} {x : Binary64} (hi : 0 < i) (h : ofInt? i = some x) :
    x.IsPositive := by
  have hratio : (ofRatio (decide (i < 0)) i.natAbs 1).IsPositive := by
    rw [decide_eq_false (by omega)]
    exact isPositive_ofRatio (by omega)
  unfold ofInt? at h
  split at h
  · cases h
  · exact Option.some.inj h ▸ hratio

end Binary64

namespace Settings

variable {t : Table} {s : Settings} {x : Setting} {key : String} {name : SettingName} {v : Value}

/-! ### Values of the wrong type -/

/-- What a value gives is of the right type. -/
theorem accepts_of_isOf (h : Setting.IsOf v x) : x.name.Accepts v := by
  cases h with
  | expression s | entry s => exact .inl ⟨s, rfl⟩
  | expressions texts | searchPath texts => exact .inr ⟨texts, rfl⟩
  | maxWorkers hi => exact ⟨_, rfl, hi⟩
  | format s => exact ⟨s, rfl⟩
  | wholeSeconds hi _ => exact .inl ⟨_, rfl, hi⟩
  | seconds hpositive => exact .inr ⟨_, rfl, hpositive⟩

theorem one_le_of_isOf {n : Int} (h : Setting.IsOf v (.maxWorkers n)) : 1 ≤ n := by
  cases h with
  | maxWorkers hn => exact hn

theorem isPositive_of_isOf {seconds : Binary64} (h : Setting.IsOf v (.remoteTimeout seconds)) :
    seconds.IsPositive := by
  cases h with
  | wholeSeconds hi hseconds => exact Binary64.isPositive_of_ofInt? hi hseconds
  | seconds hpositive => exact hpositive

/-- A setting that is given comes from a field that counts. -/
theorem exists_isLast_of_setting? (h : ofTable t = .ok s) (hx : s.setting? x.name = some x) :
    ∃ key v, (fieldsOf t).IsLast key v ∧ Gives (key, v) x := by
  rcases (setting?_of_addFields h).mp hx with ⟨before, ⟨key, v⟩, after, hsplit, hgives, -⟩ | ⟨hnone, -⟩
  · exact ⟨key, v, Table.mem_ofFields_iff.mp (by rw [← flatten_eq, hsplit]; simp), hgives⟩
  · rw [setting?_empty] at hnone
    cases hnone

/-- Only what does not count is passed over. -/
theorem isTaken_of_isLast (h : ofTable t = .ok s) (hlast : (fieldsOf t).IsLast key v) :
    IsTaken (key, v) :=
  exists_addFields_iff.mp ⟨s, h⟩ (key, v) (Table.mem_ofFields_iff.mpr hlast)

/-- A field that counts has a value that its setting does not accept. A time-out that is not a number is left
out. -/
structure IsWrong (t : Table) (key : String) (name : SettingName) (v : Value) : Prop where
  counts : (fieldsOf t).IsLast key v
  names : SettingName.ofKey? key = some name
  refused : ¬ name.Accepts v
  notNan : ¬ (name = .remoteTimeout ∧ v = .float .nan)

/-- Nothing keeps a table from an error for its first wrong value: a message can show the wrong values, and
the whole numbers of seconds are not too large. -/
structure CanBeNamed (t : Table) : Prop where
  shown : ∀ key name v, IsWrong t key name v → v.depth < maxNesting ∧ ∃ shown, v.text? = some shown
  inRange : ∀ key i, (fieldsOf t).IsLast key (.integer i) →
    SettingName.ofKey? key = some .remoteTimeout → 1 ≤ i → ∃ x, Binary64.ofInt? i = some x

theorem IsWrong.not_fits (h : IsWrong t key name v) : ¬ Setting.Fits name v := fun hfits =>
  (Setting.fits_iff.mp hfits).elim h.refused h.notNan

theorem IsWrong.not_isTaken (h : IsWrong t key name v) : ¬ IsTaken (key, v) := by
  intro htaken
  obtain ⟨x, hx⟩ := isTaken_iff.mp htaken name h.names
  rw [Setting.ofValue_of_not_fits h.not_fits] at hx
  cases hx

/-- **The error names the first wrong field.** -/
theorem IsWrong.exists_error (h : IsWrong t key name v) (hnamed : CanBeNamed t) :
    ∃ first name w shown, IsWrong t first name w ∧
      Table.ComesFirst (Table.keys (fieldsOf t)) first key ∧ w.text? = some shown ∧
      ofTable t = .error (.wrongType ⟨first, name.type, shown⟩) := by
  obtain ⟨first, w, name, failure, hmem, hfirst, hname, hfailure, hfields⟩ :=
    exists_failure_of_not_isTaken (Table.nodup_keys_ofFields _) (Table.mem_ofFields_iff.mpr h.counts)
      h.not_isTaken
  have hlast : (fieldsOf t).IsLast first w := Table.mem_ofFields_iff.mp hmem
  have hwrong : ¬ Setting.Fits name w → IsWrong t first name w := fun hnot =>
    ⟨hlast, hname, fun haccepted => hnot (Setting.fits_iff.mpr (.inl haccepted)),
      fun hnan => hnot (Setting.fits_iff.mpr (.inr hnan))⟩
  -- The other failures are left out by what can be shown and by the range of the seconds.
  cases hfailure with
  | wrongType hnot _ htext =>
      exact ⟨first, name, w, _, hwrong hnot, Table.comesFirst_keys_ofFields_iff.mp hfirst, htext,
        ofTable_eq_error_iff.mpr hfields⟩
  | tooDeep hnot hdeep =>
      obtain ⟨hfine, -⟩ := hnamed.shown _ _ _ (hwrong hnot)
      omega
  | tooLong hnot _ hnone =>
      obtain ⟨-, shown, htext⟩ := hnamed.shown _ _ _ (hwrong hnot)
      cases hnone.symm.trans htext
  | tooLarge hseconds hw hi hlarge =>
      subst hseconds hw
      obtain ⟨x, hx⟩ := hnamed.inRange first _ hlast hname hi
      cases hlarge.symm.trans hx

/-- A setting that is given comes from a field that counts, with a value of the right type. -/
theorem exists_isOf_of_setting? (h : ofTable t = .ok s) (hx : s.setting? x.name = some x)
    (hnan : x ≠ .remoteTimeout .nan) : ∃ key v, (fieldsOf t).IsLast key v ∧
      SettingName.ofKey? key = some x.name ∧ x.name.Accepts v ∧ Setting.IsOf v x := by
  obtain ⟨key, v, hlast, hname, hof | ⟨-, hx⟩⟩ := exists_isLast_of_setting? h hx
  · exact ⟨key, v, hlast, hname, accepts_of_isOf hof, hof⟩
  · exact absurd hx hnan

/-- **No setting of the wrong type.** If a field that counts has a value that its setting does not accept,
there are no settings. The error names the field, or one before it for which the same holds. So all settings
that there are come from values of the right type. A time-out that is not a number is left out here. -/
theorem ofTable_refuses_wrongType (t : Table) :
    (∀ key name v, IsWrong t key name v → (∀ s, ofTable t ≠ .ok s) ∧
      (CanBeNamed t → ∃ first name w shown, IsWrong t first name w ∧
        Table.ComesFirst (Table.keys (fieldsOf t)) first key ∧ w.text? = some shown ∧
        ofTable t = .error (.wrongType ⟨first, name.type, shown⟩))) ∧
    ∀ s, ofTable t = .ok s →
      (∀ n, s.maxWorkers = some n → 1 ≤ n) ∧
      (∀ seconds, s.remoteTimeout = some seconds → seconds ≠ .nan → seconds.IsPositive) ∧
      ∀ x, s.setting? x.name = some x → x ≠ .remoteTimeout .nan → ∃ key v, (fieldsOf t).IsLast key v ∧
        SettingName.ofKey? key = some x.name ∧ x.name.Accepts v ∧ Setting.IsOf v x := by
  refine ⟨fun key name v hwrong => ⟨fun s hs => ?_, hwrong.exists_error⟩, fun s hs => ?_⟩
  · exact hwrong.not_isTaken (isTaken_of_isLast hs hwrong.counts)
  · refine ⟨fun n hn => ?_, fun seconds hseconds hnan => ?_, fun x => exists_isOf_of_setting? hs⟩
    · obtain ⟨_, _, -, -, -, hof⟩ := exists_isOf_of_setting? (x := .maxWorkers n) hs
        (congrArg (Option.map Setting.maxWorkers) hn) (by simp)
      exact one_le_of_isOf hof
    · obtain ⟨_, _, -, -, -, hof⟩ := exists_isOf_of_setting? (x := .remoteTimeout seconds) hs
        (congrArg (Option.map Setting.remoteTimeout) hseconds) (by simpa using hnan)
      exact isPositive_of_isOf hof

/-- One value of the wrong type in a section, and one more after it. -/
def wronglyTyped : Table :=
  [("tool", .table [("format", .boolean true)]), ("max-workers", .boolean true)]

theorem ofTable_refuses_wronglyTyped :
    IsWrong wronglyTyped "max-workers" .maxWorkers (.boolean true) ∧ CanBeNamed wronglyTyped ∧
    ∃ first name w shown, IsWrong wronglyTyped first name w ∧
      Table.ComesFirst (Table.keys (fieldsOf wronglyTyped)) first "max-workers" ∧ w.text? = some shown ∧
      ofTable wronglyTyped = .error (.wrongType ⟨first, name.type, shown⟩) := by
  have hcounts : ∀ key v, (fieldsOf wronglyTyped).IsLast key v → v = .boolean true := by
    intro key v hlast
    have hmem : (key, v) ∈ [("format", Value.boolean true), ("max-workers", .boolean true)] :=
      Table.mem_ofFields_iff.mpr hlast
    simp only [List.mem_cons, Prod.mk.injEq, List.not_mem_nil, or_false] at hmem
    exact hmem.elim And.right And.right
  have hwrong : IsWrong wronglyTyped "max-workers" .maxWorkers (.boolean true) :=
    ⟨⟨[("format", .boolean true)], [], rfl, List.not_mem_nil⟩, by decide, by simp [SettingName.Accepts],
      by simp⟩
  have hnamed : CanBeNamed wronglyTyped := by
    refine ⟨fun key name v hother => ?_, fun key i hlast => ?_⟩
    · rw [hcounts key v hother.counts]
      exact ⟨by decide, _, rfl⟩
    · cases hcounts key _ hlast
  exact ⟨hwrong, hnamed, ((ofTable_refuses_wrongType wronglyTyped).1 _ _ _ hwrong).2 hnamed⟩

/-- A table at the top is a section, whatever its name, and a field of a section counts instead of one with the
same key at the top: neither value is ever looked at. -/
theorem ofTable_overlooks_wrongType :
    (¬ SettingName.format.Accepts (.table []) ∧ SettingName.ofKey? "format" = some .format ∧
      ofTable [("format", .table [])] = .ok empty) ∧
    ¬ SettingName.maxWorkers.Accepts (.string "2") ∧
      SettingName.ofKey? "max-workers" = some .maxWorkers ∧
      ofTable [("max-workers", .string "2"), ("more", .table [("max-workers", .integer 2)])] =
        .ok { empty with maxWorkers := some 2 } := by
  refine ⟨⟨?_, by decide, rfl⟩, ?_, by decide, rfl⟩
  · simp [SettingName.Accepts]
  · simp [SettingName.Accepts]

end Settings

end AntResources
