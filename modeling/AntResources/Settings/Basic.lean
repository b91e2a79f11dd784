import AntResources.Failure
import AntResources.Toml.Value

/-!
# AntResources.Settings.Basic

The settings that a settings file can give. They are fields of a table, or of the tables in it: the
sections of a file only group its fields. In a key a dash is as good as a low line, and keys that
name no setting are passed over. A setting has to have a value of its type.

* `SettingName`, `Setting`, `Settings` — the five settings;
* `Setting.ofValue` — the check of a value;
* `flatten`, `Settings.ofTable` — the settings in a table.
-/

namespace AntResources

open Toml (Table Value)

/-! ## Settings -/

/-- The name of a setting. -/
inductive SettingName where
  | expressions
  | searchPath
  | maxWorkers
  | format
  | remoteTimeout
deriving DecidableEq, Repr

namespace SettingName

/-- The names in the order in which the settings are usually given. -/
def all : List SettingName := [.expressions, .searchPath, .maxWorkers, .format, .remoteTimeout]

def text : SettingName → String
  | .expressions => "expressions"
  | .searchPath => "search_path"
  | .maxWorkers => "max_workers"
  | .format => "format"
  | .remoteTimeout => "remote_timeout"

/-- The setting of a given name. -/
def ofText? (text : String) : Option SettingName := all.find? fun name => name.text = text

/-- The setting that a key names, in which dashes count as low lines. -/
def ofKey? (key : String) : Option SettingName :=
  ofText? (String.ofList (key.toList.map fun c => if c = '-' then '_' else c))

end SettingName

/-- A setting with its value. -/
inductive Setting where
  | expressions (texts : List String)
  | searchPath (entries : List String)
  | maxWorkers (count : Int)
  | format (name : String)
  | remoteTimeout (seconds : Binary64)
deriving DecidableEq, Repr

/-- The settings of a file. Those that it does not give are `none`. -/
structure Settings where
  expressions : Option (List String)
  searchPath : Option (List String)
  maxWorkers : Option Int
  format : Option String
  remoteTimeout : Option Binary64
deriving DecidableEq, Repr

namespace Settings

/-- No settings. -/
def empty : Settings := ⟨none, none, none, none, none⟩

/-- Add a setting, in place of one of the same name. -/
def add (s : Settings) : Setting → Settings
  | .expressions texts => { s with expressions := some texts }
  | .searchPath entries => { s with searchPath := some entries }
  | .maxWorkers count => { s with maxWorkers := some count }
  | .format name => { s with format := some name }
  | .remoteTimeout seconds => { s with remoteTimeout := some seconds }

end Settings

/-! ## Errors -/

/-- What the value of a setting has to be. -/
inductive SettingType where
  | texts
  | positiveInteger
  | positiveNumber
  | text
deriving DecidableEq, Repr

def SettingType.description : SettingType → String
  | .texts => "a string or a list of strings"
  | .positiveInteger => "a positive integer"
  | .positiveNumber => "a positive number"
  | .text => "a string"

/-- A setting whose value is not of its type. -/
structure SettingError where
  key : String
  expected : SettingType
  /-- The value as messages show it. -/
  shown : String
deriving DecidableEq, Repr

def SettingError.message (e : SettingError) : String :=
  "\x60" ++ e.key ++ "\x60 must be " ++ e.expected.description ++ ", got " ++ e.shown

/-- Why a table gives no settings. -/
inductive SettingFailure where
  | wrongType (error : SettingError)
  | fault (fault : Fault)
deriving DecidableEq, Repr

/-! ## Values -/

/-- Refuse the value of a setting. -/
def refuse (key : String) (expected : SettingType) (v : Value) : SettingFailure :=
  if maxNesting ≤ v.depth then .fault .nestedTooDeep
  else
    match v.text? with
    | some shown => .wrongType ⟨key, expected, shown⟩
    | none => .fault .numberTooLong

/-- The texts in a list of values, if all of them are texts. -/
def texts? (items : List Value) : Option (List String) :=
  items.mapM fun
    | .string s => some s
    | _ => none

/-- One text, or several. -/
def textsOf? : Value → Option (List String)
  | .string s => some [s]
  | .array items => texts? items
  | _ => none

namespace Setting

/-- The setting with a given value, under the key by which the file names it. -/
def ofValue (key : String) (name : SettingName) (v : Value) : Except SettingFailure Setting :=
  match name, v with
  | .expressions, v =>
    match textsOf? v with
    | some texts => .ok (.expressions texts)
    | none => .error (refuse key .texts v)
  | .searchPath, v =>
    match textsOf? v with
    | some entries => .ok (.searchPath entries)
    | none => .error (refuse key .texts v)
  | .maxWorkers, .integer i =>
    if 1 ≤ i then .ok (.maxWorkers i) else .error (refuse key .positiveInteger v)
  | .maxWorkers, v => .error (refuse key .positiveInteger v)
  | .format, .string s => .ok (.format s)
  | .format, v => .error (refuse key .text v)
  | .remoteTimeout, .integer i =>
    if 1 ≤ i then
      match Binary64.ofInt? i with
      | some x => .ok (.remoteTimeout x)
      | none => .error (.fault .numberTooLarge)
    else .error (refuse key .positiveNumber v)
  | .remoteTimeout, .float x =>
    if x.isAtMostZero then .error (refuse key .positiveNumber v) else .ok (.remoteTimeout x)
  | .remoteTimeout, v => .error (refuse key .positiveNumber v)

end Setting

/-! ## Tables -/

/-- The fields of a table with those of the tables in it in their place. Of fields with the same key
the last one counts, and stands where the first one was. -/
def flatten (t : Table) : Table :=
  let all := t.flatMap fun
    | (_, .table inner) => inner
    | field => [field]
  all.foldl (fun flat (key, v) => flat.set key v) []

namespace Settings

/-- Add the settings among some fields. The first one of the wrong type ends it. -/
def addFields (s : Settings) : Table → Except SettingFailure Settings
  | [] => .ok s
  | (key, v) :: rest =>
    match SettingName.ofKey? key with
    | none => addFields s rest
    | some name => do
      let setting ← Setting.ofValue key name v
      addFields (s.add setting) rest

/-- The settings in a table. -/
def ofTable (t : Table) : Except SettingFailure Settings := addFields empty (flatten t)

end Settings

end AntResources
