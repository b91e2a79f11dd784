import Mathlib.Data.List.Induction
import Mathlib.Data.List.Nodup
import AntResources.Proofs.SettingsLoading

/-!
# AntResources.Proofs.SettingsFields

**Which fields of a table count, and what they give.** The sections of a settings file are taken apart
(`Settings.fieldsOf`). Of the fields with the same key the last one counts (`Toml.Table.mem_ofFields_iff`), in
the place of the first (`Toml.Table.comesFirst_keys_ofFields_iff`). A field that counts and names a setting has
to have one of its values (`SettingName.Accepts`, `Setting.ofValue_eq_ok_iff`), and the last setting of each name
is given (`Settings.setting?_of_addFields`).
-/

namespace AntResources

open Toml (Table Value)

/-! ### Fields with the same key -/

namespace Toml.Table

variable {t fields : Table} {key other : String} {v : Value}

theorem get?_cons (key : String) (v : Value) (t : Table) (other : String) :
    get? ((key, v) :: t) other = if other = key then some v else t.get? other := by
  by_cases hother : other = key
  · rw [hother, if_pos rfl, get?, List.lookup_cons_self]
  · rw [if_neg hother, get?, List.lookup_cons, beq_false_of_ne hother, get?]

theorem get?_set : (t.set key v).get? other = if other = key then some v else t.get? other := by
  induction t with
  | nil => exact get?_cons key v [] other
  | cons field t ih =>
      obtain ⟨k, value⟩ := field
      rw [set, get?_cons]
      by_cases hk : k = key
      · subst hk
        rw [if_pos rfl, get?_cons]
        split <;> rfl
      · rw [if_neg hk, get?_cons, ih]
        by_cases hother : other = k
        · rw [if_pos hother, if_pos hother, if_neg (hother ▸ hk)]
        · rw [if_neg hother, if_neg hother]

/-- The keys of some fields, in order. -/
def keys (fields : Table) : List String := fields.map Prod.fst

@[simp] theorem keys_nil : keys [] = [] := rfl

@[simp] theorem keys_cons (field : String × Value) (fields : Table) :
    keys (field :: fields) = field.1 :: keys fields := rfl

@[simp] theorem keys_append (fields more : Table) : keys (fields ++ more) = keys fields ++ keys more :=
  List.map_append

theorem keys_set_of_mem (h : key ∈ keys t) : keys (t.set key v) = keys t := by
  induction t with
  | nil => cases h
  | cons field t ih =>
      obtain ⟨k, value⟩ := field
      by_cases hk : k = key
      · simp [set, hk]
      · have hmem : key ∈ keys t := (List.mem_cons.mp h).resolve_left (Ne.symm hk)
        simp [set, hk, ih hmem]

theorem set_of_not_mem (h : key ∉ keys t) : t.set key v = t ++ [(key, v)] := by
  induction t with
  | nil => rfl
  | cons field t ih =>
      obtain ⟨k, value⟩ := field
      obtain ⟨hk, hmem⟩ := List.ne_and_not_mem_of_not_mem_cons h
      simp [set, Ne.symm hk, ih hmem]

theorem keys_set_of_not_mem (h : key ∉ keys t) : keys (t.set key v) = keys t ++ [key] := by
  rw [set_of_not_mem h, keys_append]
  rfl

theorem mem_iff_get? (h : (keys t).Nodup) : (key, v) ∈ t ↔ t.get? key = some v := by
  induction t with
  | nil => simp [get?]
  | cons field t ih =>
      obtain ⟨k, value⟩ := field
      obtain ⟨hk, hrest⟩ := List.nodup_cons.mp h
      rw [get?_cons, List.mem_cons, Prod.mk.injEq]
      by_cases hkey : key = k
      · subst hkey
        have hnot : (key, v) ∉ t := fun hmem => hk (List.mem_map.mpr ⟨_, hmem, rfl⟩)
        simp [hnot, eq_comm]
      · simp [hkey, ih hrest]

/-! ### The last field with a key -/

/-- The table of some fields: of those with the same key the last one counts, in the place of the first. -/
def ofFields (fields : Table) : Table := fields.foldl (fun flat (key, v) => flat.set key v) []

theorem ofFields_concat (fields : Table) (field : String × Value) :
    ofFields (fields ++ [field]) = (ofFields fields).set field.1 field.2 := by
  simp [ofFields]

theorem mem_keys_ofFields_iff : key ∈ keys (ofFields fields) ↔ key ∈ keys fields := by
  induction fields using List.reverseRecOn with
  | nil => rfl
  | append_singleton fields field ih =>
      rw [ofFields_concat, keys_append, List.mem_append, ← ih]
      by_cases hold : field.1 ∈ keys (ofFields fields)
      · rw [keys_set_of_mem hold]
        exact ⟨.inl, fun h => h.elim id fun hlast => List.mem_singleton.mp hlast ▸ hold⟩
      · rw [keys_set_of_not_mem hold, List.mem_append]
        rfl

theorem nodup_keys_ofFields (fields : Table) : (keys (ofFields fields)).Nodup := by
  induction fields using List.reverseRecOn with
  | nil => exact List.nodup_nil
  | append_singleton fields field ih =>
      rw [ofFields_concat]
      by_cases hold : field.1 ∈ keys (ofFields fields)
      · rwa [keys_set_of_mem hold]
      · rw [keys_set_of_not_mem hold, ← List.concat_eq_append, List.nodup_concat]
        exact ⟨hold, ih⟩

/-- The field is the last one with its key. -/
def IsLast (fields : Table) (key : String) (v : Value) : Prop :=
  ∃ before after, fields = before ++ (key, v) :: after ∧ key ∉ keys after

theorem isLast_concat {field : String × Value} : IsLast (fields ++ [field]) key v ↔
    if key = field.1 then field.2 = v else fields.IsLast key v := by
  constructor
  · intro h
    obtain ⟨before, after, hsplit, hafter⟩ := h
    rcases List.eq_nil_or_concat' after with rfl | ⟨after, last, rfl⟩
    · obtain ⟨-, rfl⟩ := List.append_singleton_inj.mp hsplit
      rw [if_pos rfl]
    · rw [← List.cons_append, ← List.append_assoc] at hsplit
      obtain ⟨rfl, rfl⟩ := List.append_singleton_inj.mp hsplit
      rw [keys_append, List.mem_append, not_or] at hafter
      rw [if_neg (by simpa using hafter.2)]
      exact ⟨before, after, rfl, hafter.1⟩
  · intro h
    split at h
    · next hkey =>
        subst hkey h
        exact ⟨fields, [], rfl, List.not_mem_nil⟩
    · next hkey =>
        obtain ⟨before, after, rfl, hafter⟩ := h
        exact ⟨before, after ++ [field], by simp, by simp [hafter, hkey]⟩

/-- **The last field with a key counts.** -/
theorem mem_ofFields_iff : (key, v) ∈ ofFields fields ↔ fields.IsLast key v := by
  rw [mem_iff_get? (nodup_keys_ofFields fields)]
  induction fields using List.reverseRecOn with
  | nil => simp [ofFields, get?, IsLast]
  | append_singleton fields field ih =>
      rw [ofFields_concat, get?_set, isLast_concat, ← ih]
      split <;> simp

/-! ### The first field with a key -/

/-- One key comes first: it is met before the other one, or is the other one. -/
def ComesFirst (keys : List String) (one other : String) : Prop :=
  ∃ before after, keys = before ++ one :: after ∧ other ∉ before

theorem comesFirst_concat {keys : List String} {one last : String} :
    ComesFirst (keys ++ [last]) one other ↔
      ComesFirst keys one other ∨ one = last ∧ other ∉ keys := by
  constructor
  · intro h
    obtain ⟨before, after, hsplit, hbefore⟩ := h
    rcases List.eq_nil_or_concat' after with rfl | ⟨after, final, rfl⟩
    · obtain ⟨rfl, rfl⟩ := List.append_singleton_inj.mp hsplit
      exact .inr ⟨rfl, hbefore⟩
    · rw [← List.cons_append, ← List.append_assoc] at hsplit
      obtain ⟨rfl, -⟩ := List.append_singleton_inj.mp hsplit
      exact .inl ⟨before, after, rfl, hbefore⟩
  · intro h
    rcases h with ⟨before, after, rfl, hbefore⟩ | ⟨rfl, hnew⟩
    · exact ⟨before, after ++ [last], by simp, hbefore⟩
    · exact ⟨keys, [], rfl, hnew⟩

/-- **The place of the first field with a key** is kept. -/
theorem comesFirst_keys_ofFields_iff {one : String} :
    ComesFirst (keys (ofFields fields)) one other ↔ ComesFirst (keys fields) one other := by
  induction fields using List.reverseRecOn with
  | nil => rfl
  | append_singleton fields field ih =>
      have hstep : ComesFirst (keys fields ++ [field.1]) one other ↔ _ := comesFirst_concat
      rw [ofFields_concat, keys_append, keys_cons, keys_nil, hstep, ← ih, ← mem_keys_ofFields_iff]
      by_cases hold : field.1 ∈ keys (ofFields fields)
      · rw [keys_set_of_mem hold]
        refine ⟨.inl, fun h => h.elim id fun hlast => ?_⟩
        -- The key is there already, and before the other one, which is not there yet.
        obtain ⟨rfl, hnew⟩ := hlast
        obtain ⟨before, after, hsplit⟩ := List.append_of_mem hold
        exact ⟨before, after, hsplit, fun hmem => hnew (hsplit ▸ List.mem_append_left _ hmem)⟩
      · rw [keys_set_of_not_mem hold]
        exact comesFirst_concat

end Toml.Table

/-! ### Values of the right type -/

/-- The number is greater than zero. -/
def Binary64.IsPositive : Binary64 → Prop
  | .nan => False
  | .infinity negative => negative = false
  | .finite negative mantissa _ => negative = false ∧ mantissa ≠ 0

/-- Only what is not a number is neither greater than zero nor zero or less. -/
theorem Binary64.isAtMostZero_eq_false_iff {x : Binary64} :
    x.isAtMostZero = false ↔ x.IsPositive ∨ x = .nan := by
  cases x <;> simp [isAtMostZero, IsPositive]

/-- The values of a setting: one text or several, a whole number from one on, a text, or a number greater than
zero. -/
def SettingName.Accepts : SettingName → Value → Prop
  | .expressions, v | .searchPath, v =>
    (∃ s, v = .string s) ∨ ∃ texts : List String, v = .array (texts.map .string)
  | .maxWorkers, v => ∃ i, v = .integer i ∧ 1 ≤ i
  | .format, v => ∃ s, v = .string s
  | .remoteTimeout, v => (∃ i, v = .integer i ∧ 0 < i) ∨ ∃ x, v = .float x ∧ x.IsPositive

theorem texts?_eq_some_iff {items : List Value} {texts : List String} :
    texts? items = some texts ↔ items = texts.map .string := by
  induction items generalizing texts with
  | nil => cases texts <;> simp [texts?]
  | cons item items ih =>
      unfold texts? at ih ⊢
      rw [List.mapM_cons]
      cases item with
      | string s => cases texts <;> simp [ih, Option.bind_eq_some_iff, and_comm]
      | _ => cases texts <;> simp

theorem textsOf?_eq_some_iff {v : Value} {texts : List String} : textsOf? v = some texts ↔
    (∃ s, v = .string s ∧ texts = [s]) ∨ v = .array (texts.map .string) := by
  cases v with
  | string s => simp [textsOf?, eq_comm]
  | array items => simp [textsOf?, texts?_eq_some_iff]
  | _ => simp [textsOf?]

namespace Setting

def name : Setting → SettingName
  | .expressions _ => .expressions
  | .searchPath _ => .searchPath
  | .maxWorkers _ => .maxWorkers
  | .format _ => .format
  | .remoteTimeout _ => .remoteTimeout

/-- The value gives the setting. One text stands for a list of one. -/
inductive IsOf : Value → Setting → Prop where
  | expression (s : String) : IsOf (.string s) (.expressions [s])
  | expressions (texts : List String) : IsOf (.array (texts.map .string)) (.expressions texts)
  | entry (s : String) : IsOf (.string s) (.searchPath [s])
  | searchPath (entries : List String) : IsOf (.array (entries.map .string)) (.searchPath entries)
  | maxWorkers {i : Int} : 1 ≤ i → IsOf (.integer i) (.maxWorkers i)
  | format (s : String) : IsOf (.string s) (.format s)
  | wholeSeconds {i : Int} {seconds : Binary64} : 0 < i → Binary64.ofInt? i = some seconds →
      IsOf (.integer i) (.remoteTimeout seconds)
  | seconds {seconds : Binary64} : seconds.IsPositive → IsOf (.float seconds) (.remoteTimeout seconds)

variable {key : String} {name : SettingName} {v : Value} {x : Setting}

/-- A value fits a setting if it is one of its values, or a time-out that is not a number. -/
theorem fits_iff : Fits name v ↔ name.Accepts v ∨ name = .remoteTimeout ∧ v = .float .nan := by
  constructor
  · intro h
    cases h with
    | expressions htexts | searchPath htexts =>
        rcases textsOf?_eq_some_iff.mp htexts with ⟨s, rfl, -⟩ | rfl
        · exact .inl (.inl ⟨s, rfl⟩)
        · exact .inl (.inr ⟨_, rfl⟩)
    | maxWorkers hi => exact .inl ⟨_, rfl, hi⟩
    | format s => exact .inl ⟨s, rfl⟩
    | wholeSeconds hi => exact .inl (.inl ⟨_, rfl, hi⟩)
    | @seconds y hy =>
        rcases Binary64.isAtMostZero_eq_false_iff.mp hy with hpositive | rfl
        · exact .inl (.inr ⟨y, rfl, hpositive⟩)
        · exact .inr ⟨rfl, rfl⟩
  · intro h
    rcases h with h | ⟨rfl, rfl⟩
    · cases name with
      | expressions =>
          rcases h with ⟨s, rfl⟩ | ⟨texts, rfl⟩
          · exact .expressions (textsOf?_eq_some_iff.mpr (.inl ⟨s, rfl, rfl⟩))
          · exact .expressions (textsOf?_eq_some_iff.mpr (.inr rfl))
      | searchPath =>
          rcases h with ⟨s, rfl⟩ | ⟨texts, rfl⟩
          · exact .searchPath (textsOf?_eq_some_iff.mpr (.inl ⟨s, rfl, rfl⟩))
          · exact .searchPath (textsOf?_eq_some_iff.mpr (.inr rfl))
      | maxWorkers =>
          obtain ⟨i, rfl, hi⟩ := h
          exact .maxWorkers hi
      | format =>
          obtain ⟨s, rfl⟩ := h
          exact .format s
      | remoteTimeout =>
          rcases h with ⟨i, rfl, hi⟩ | ⟨y, rfl, hy⟩
          · exact .wholeSeconds hi
          · exact .seconds (Binary64.isAtMostZero_eq_false_iff.mpr (.inl hy))
    · exact .seconds rfl

theorem ofValue_of_isOf (h : IsOf v x) : ofValue key x.name v = .ok x := by
  cases h with
  | expression s | entry s | format s => rfl
  | expressions texts | searchPath texts =>
      have htexts : textsOf? (.array (texts.map .string)) = some texts :=
        textsOf?_eq_some_iff.mpr (.inr rfl)
      simp only [name, ofValue, htexts]
  | maxWorkers hi => exact if_pos hi
  | @wholeSeconds i seconds hi hseconds =>
      have hi : 1 ≤ i := hi
      simp only [name, ofValue, if_pos hi, hseconds]
  | seconds hpositive =>
      simp [name, ofValue, Binary64.isAtMostZero_eq_false_iff.mpr (.inl hpositive)]

/-- A value of the right type gives a setting, unless it is a whole number of seconds that is too large. -/
theorem exists_isOf_of_accepts (h : name.Accepts v) :
    (∃ x : Setting, x.name = name ∧ IsOf v x) ∨
      name = .remoteTimeout ∧ ∃ i, v = .integer i ∧ 1 ≤ i ∧ Binary64.ofInt? i = none := by
  cases name with
  | expressions =>
      rcases h with ⟨s, rfl⟩ | ⟨texts, rfl⟩
      · exact .inl ⟨_, rfl, .expression s⟩
      · exact .inl ⟨_, rfl, .expressions texts⟩
  | searchPath =>
      rcases h with ⟨s, rfl⟩ | ⟨texts, rfl⟩
      · exact .inl ⟨_, rfl, .entry s⟩
      · exact .inl ⟨_, rfl, .searchPath texts⟩
  | maxWorkers =>
      obtain ⟨i, rfl, hi⟩ := h
      exact .inl ⟨_, rfl, .maxWorkers hi⟩
  | format =>
      obtain ⟨s, rfl⟩ := h
      exact .inl ⟨_, rfl, .format s⟩
  | remoteTimeout =>
      rcases h with ⟨i, rfl, hi⟩ | ⟨y, rfl, hy⟩
      · cases hseconds : Binary64.ofInt? i with
        | none => exact .inr ⟨rfl, i, rfl, hi, hseconds⟩
        | some seconds => exact .inl ⟨_, rfl, .wholeSeconds hi hseconds⟩
      · exact .inl ⟨_, rfl, .seconds hy⟩

/-- **What a value gives.** -/
theorem ofValue_eq_ok_iff : ofValue key name v = .ok x ↔
    x.name = name ∧ (IsOf v x ∨ v = .float .nan ∧ x = .remoteTimeout .nan) := by
  constructor
  · intro h
    have hfits : Fits name v := by
      by_contra hnot
      rw [ofValue_of_not_fits hnot] at h
      cases h
    rcases fits_iff.mp hfits with haccepted | ⟨rfl, rfl⟩
    · rcases exists_isOf_of_accepts haccepted with ⟨other, rfl, hother⟩ | ⟨rfl, i, rfl, hi, hlarge⟩
      · obtain rfl := Except.ok.inj ((ofValue_of_isOf hother).symm.trans h)
        exact ⟨rfl, .inl hother⟩
      · simp [ofValue, hi, hlarge] at h
    · obtain rfl := Except.ok.inj h
      exact ⟨rfl, .inr ⟨rfl, rfl⟩⟩
  · rintro ⟨rfl, h | ⟨rfl, rfl⟩⟩
    · exact ofValue_of_isOf h
    · rfl

end Setting

namespace Settings

variable {s s' : Settings} {x : Setting} {name : SettingName} {fields t : Table} {key : String} {v : Value}

/-! ### The settings that are given -/

/-- The setting of a name, if it is given. -/
def setting? (s : Settings) : SettingName → Option Setting
  | .expressions => s.expressions.map .expressions
  | .searchPath => s.searchPath.map .searchPath
  | .maxWorkers => s.maxWorkers.map .maxWorkers
  | .format => s.format.map .format
  | .remoteTimeout => s.remoteTimeout.map .remoteTimeout

@[simp] theorem setting?_empty : empty.setting? name = none := by
  cases name <;> rfl

theorem setting?_add : (s.add x).setting? name = if x.name = name then some x else s.setting? name := by
  cases x <;> cases name <;> simp [setting?, add, Setting.name]

theorem name_of_setting? (h : s.setting? name = some x) : x.name = name := by
  cases name <;> simp only [setting?, Option.map_eq_some_iff] at h <;> obtain ⟨_, -, rfl⟩ := h <;> rfl

/-- Settings are told apart by what they give. -/
theorem eq_of_setting? (h : ∀ name, s.setting? name = s'.setting? name) : s = s' := by
  obtain ⟨expressions, searchPath, maxWorkers, format, remoteTimeout⟩ := s
  obtain ⟨expressions', searchPath', maxWorkers', format', remoteTimeout'⟩ := s'
  have hexpressions : expressions = expressions' :=
    Option.map_injective (fun _ _ => Setting.expressions.inj) (h .expressions)
  have hsearchPath : searchPath = searchPath' :=
    Option.map_injective (fun _ _ => Setting.searchPath.inj) (h .searchPath)
  have hmaxWorkers : maxWorkers = maxWorkers' :=
    Option.map_injective (fun _ _ => Setting.maxWorkers.inj) (h .maxWorkers)
  have hformat : format = format' := Option.map_injective (fun _ _ => Setting.format.inj) (h .format)
  have hremoteTimeout : remoteTimeout = remoteTimeout' :=
    Option.map_injective (fun _ _ => Setting.remoteTimeout.inj) (h .remoteTimeout)
  rw [hexpressions, hsearchPath, hmaxWorkers, hformat, hremoteTimeout]

/-- The field gives the setting. A time-out that is not a number is taken as it is. -/
def Gives (field : String × Value) (x : Setting) : Prop :=
  SettingName.ofKey? field.1 = some x.name ∧
    (Setting.IsOf field.2 x ∨ field.2 = .float .nan ∧ x = .remoteTimeout .nan)

theorem gives_iff : Gives (key, v) x ↔
    SettingName.ofKey? key = some x.name ∧ Setting.ofValue key x.name v = .ok x := by
  rw [Setting.ofValue_eq_ok_iff, Gives]
  exact and_congr_right fun _ => (and_iff_right rfl).symm

/-- The setting is the last one of its name among those that some fields give. -/
def GivesLast (fields : Table) (x : Setting) : Prop :=
  ∃ before field after, fields = before ++ field :: after ∧ Gives field x ∧
    ∀ other ∈ after, SettingName.ofKey? other.1 ≠ some x.name

theorem givesLast_cons {field : String × Value} : GivesLast (field :: fields) x ↔
    GivesLast fields x ∨
      Gives field x ∧ ∀ other ∈ fields, SettingName.ofKey? other.1 ≠ some x.name := by
  constructor
  · intro h
    obtain ⟨before, given, after, hsplit, hgives, hafter⟩ := h
    cases before with
    | nil =>
        obtain ⟨rfl, rfl⟩ := List.cons.inj hsplit
        exact .inr ⟨hgives, hafter⟩
    | cons first before =>
        obtain ⟨rfl, rfl⟩ := List.cons.inj hsplit
        exact .inl ⟨before, given, after, rfl, hgives, hafter⟩
  · intro h
    rcases h with ⟨before, given, after, rfl, hgives, hafter⟩ | ⟨hgives, hafter⟩
    · exact ⟨field :: before, given, after, rfl, hgives, hafter⟩
    · exact ⟨[], field, fields, rfl, hgives, hafter⟩

/-- **What some fields give** is the last setting of each name. -/
theorem setting?_of_addFields (h : addFields s fields = .ok s') : s'.setting? x.name = some x ↔
    GivesLast fields x ∨
      s.setting? x.name = some x ∧ ∀ field ∈ fields, SettingName.ofKey? field.1 ≠ some x.name := by
  induction fields generalizing s with
  | nil =>
      obtain rfl := Except.ok.inj h
      simp [GivesLast]
  | cons field fields ih =>
      obtain ⟨key, v⟩ := field
      rw [addFields] at h
      rw [givesLast_cons, List.forall_mem_cons]
      cases hname : SettingName.ofKey? key with
      | none =>
          rw [hname] at h
          simp [ih h, gives_iff, hname]
      | some name =>
          rw [hname] at h
          obtain ⟨y, hy, h⟩ := bind_eq_ok_iff.mp h
          have hyname := (Setting.ofValue_eq_ok_iff.mp hy).1
          rw [ih h, setting?_add, hyname, gives_iff, hname, Option.some.injEq]
          by_cases hsame : name = x.name
          · subst hsame
            simp [hy]
          · simp [hsame]

theorem isTaken_iff : IsTaken (key, v) ↔ ∀ name, SettingName.ofKey? key = some name →
    ∃ x, Setting.ofValue key name v = .ok x := by
  refine forall₂_congr fun name _ => ?_
  simp only [← Setting.ofValue_eq_error_iff]
  cases Setting.ofValue key name v <;> simp

theorem not_isTaken_iff {field : String × Value} : ¬ IsTaken field ↔
    ∃ name failure, SettingName.ofKey? field.1 = some name ∧
      Setting.ValueFailure field.1 name field.2 failure := by
  simp [IsTaken]

/-- Some fields give settings exactly if each of them can be taken. -/
theorem exists_addFields_iff : (∃ s', addFields s fields = .ok s') ↔ ∀ field ∈ fields, IsTaken field := by
  constructor
  · intro h
    obtain ⟨s', h⟩ := h
    by_contra hnot
    obtain ⟨before, field, after, rfl, hbefore, hfield⟩ :=
      exists_first (P := fun field => ¬ IsTaken field) (by simpa using hnot)
    obtain ⟨name, failure, hname, hfailure⟩ := not_isTaken_iff.mp hfield
    have herror : addFields s (before ++ field :: after) = .error failure :=
      addFields_eq_error_iff.mpr
        ⟨before, field.1, field.2, after, name, rfl, fun other hother => not_not.mp (hbefore other hother),
          hname, hfailure⟩
    cases h.symm.trans herror
  · intro h
    cases hs : addFields s fields with
    | ok s' => exact ⟨s', rfl⟩
    | error failure =>
        obtain ⟨before, key, v, after, name, rfl, -, hname, hfailure⟩ := addFields_eq_error_iff.mp hs
        exact absurd hfailure (h (key, v) (by simp) name hname failure)

/-- What is not taken first comes before all else that is not taken. -/
theorem exists_failure_of_not_isTaken (hkeys : (Table.keys fields).Nodup) (hmem : (key, v) ∈ fields)
    (hnot : ¬ IsTaken (key, v)) : ∃ first w name failure, (first, w) ∈ fields ∧
      Table.ComesFirst (Table.keys fields) first key ∧ SettingName.ofKey? first = some name ∧
      Setting.ValueFailure first name w failure ∧ FieldFailure fields failure := by
  obtain ⟨before, ⟨first, w⟩, after, rfl, hbefore, hfirst⟩ :=
    exists_first (P := fun field => ¬ IsTaken field) ⟨_, hmem, hnot⟩
  obtain ⟨name, failure, hname, hfailure⟩ := not_isTaken_iff.mp hfirst
  have hbefore : ∀ field ∈ before, IsTaken field := fun field hfield => not_not.mp (hbefore field hfield)
  refine ⟨first, w, name, failure, by simp, ⟨Table.keys before, Table.keys after, by simp, fun hkey => ?_⟩,
    hname, hfailure, before, first, w, after, name, rfl, hbefore, hname, hfailure⟩
  -- The key stands there once, so the field with it would be taken.
  obtain ⟨⟨key', value⟩, hold, rfl⟩ := List.mem_map.mp hkey
  have hsame : value = v := by
    have hget := (Table.mem_iff_get? hkeys).mp (List.mem_append_left _ hold)
    rw [(Table.mem_iff_get? hkeys).mp hmem] at hget
    exact (Option.some.inj hget).symm
  exact hnot (hsame ▸ hbefore _ hold)

/-! ### Sections -/

/-- The fields of a table, with those of the tables in it in the place of these. -/
def fieldsOf (t : Table) : Table := t.flatMap fun
  | (_, .table inner) => inner
  | field => [field]

theorem flatten_eq (t : Table) : flatten t = Table.ofFields (fieldsOf t) := rfl

end Settings

end AntResources
