import AntResources.FileTree.RealPath
import AntResources.Settings.Basic
import AntResources.Toml.Document
import AntResources.World

/-!
# AntResources.Settings.File

Settings files. The one that counts is the nearest: in the folder that the search starts from, or
else in the folder above it, and so on up to the root. A folder may have settings in a file of their
own, which may be hidden, or in a section of its project file.

* `Settings.find` — the search;
* `Settings.load` — reading a file;
* `SettingsError` — what may be wrong with it.
-/

namespace AntResources

open Toml (Table Value)

/-! ## Errors -/

/-- Why a settings file cannot be read. -/
inductive ReadDetail where
  | noFile
  | notToml
deriving DecidableEq, Repr

def ReadDetail.message : ReadDetail → String
  | .noFile => "not a file that can be read"
  | .notToml => "not a TOML document"

/-- What is wrong with a settings file. -/
inductive SettingsError where
  | unreadable (file : Path) (detail : ReadDetail)
  | wrongType (file : Path) (error : SettingError)
deriving DecidableEq, Repr

def SettingsError.message : SettingsError → String
  | .unreadable file detail =>
    "Cannot read config file " ++ file.toString ++ ": " ++ detail.message
  | .wrongType file error => file.toString ++ ": " ++ error.message

/-- Why a settings file gives no settings. -/
inductive SettingsFailure where
  | settings (error : SettingsError)
  | fault (fault : Fault)
deriving DecidableEq, Repr

namespace Settings

/-! ## Reading TOML files -/

/-- What came of reading a file as a TOML document. -/
inductive FileReading where
  | table (t : Table)
  | unreadable (detail : ReadDetail)

/-- Read a file as a TOML document. -/
def readTable (w : World) (p : Path) : Except Fault FileReading := do
  match ← w.tree.contents w.cwd p with
  | none => pure (.unreadable .noFile)
  | some bytes =>
    match Text.utf8FileText? bytes with
    | none => throw .notText
    | some text =>
      match Toml.parse text with
      | .ok t => pure (.table t)
      | .error .malformed => pure (.unreadable .notToml)
      | .error .numberTooLong => throw .numberTooLong
      | .error .nestedTooDeep => throw .nestedTooDeep

/-! ## Project files -/

/-- The name of project files. -/
def projectFile : String := "pyproject.toml"

/-- The section of a project file that holds the settings, below the section `tool`. -/
def sectionName : String := "resglob"

/-- Whether a text has the given part. -/
def hasPart (part : List Char) : List Char → Bool
  | [] => part = []
  | c :: cs => part.isPrefixOf (c :: cs) || hasPart part cs

/-- Whether the value of `tool` has something under the name of the section. A text has its parts,
an array its items. -/
def mentionsSection : Value → Except Fault Bool
  | .table t => .ok (Table.get? t sectionName).isSome
  | .array items => .ok (items.any fun
    | .string s => s = sectionName
    | _ => false)
  | .string s => .ok (hasPart sectionName.toList s.toList)
  | _ => .error .notAContainer

/-- Whether a project file has settings. One that cannot be read has none. -/
def hasSection (w : World) (p : Path) : Except Fault Bool := do
  match ← readTable w p with
  | .unreadable _ => pure false
  | .table t =>
    match t.get? "tool" with
    | none => pure false
    | some tool => mentionsSection tool

/-- The table behind a key, which is empty if the key is missing. -/
def subtable (t : Table) (key : String) : Except Fault Table :=
  match t.get? key with
  | none => .ok []
  | some (.table sub) => .ok sub
  | some _ => .error .notATable

/-! ## The search -/

/-- The names of settings files, those to be preferred first. -/
def fileNames : List String := [".resglob.toml", "resglob.toml", projectFile]

/-- Whether a path leads to a settings file. -/
def isSettingsFile (w : World) (p : Path) : Except Fault Bool := do
  if ← w.tree.isFile w.cwd p then
    if p.name = projectFile then hasSection w p else pure true
  else pure false

/-- The first of some paths that leads to a settings file. -/
def firstFile (w : World) : List Path → Except Fault (Option Path)
  | [] => .ok none
  | p :: rest => do
    if ← isSettingsFile w p then pure (some p) else firstFile w rest

/-- A location and all above it, the nearest first. -/
def upwards (l : Location) : List Location :=
  (List.range (l.length + 1)).map fun i => l.take (l.length - i)

/-- The settings file that counts in the folder at `start`. -/
def find (w : World) (start : Path) : Except Fault (Option Path) := do
  let here ← w.tree.realPath w.cwd start
  firstFile w ((upwards here).flatMap fun l =>
    fileNames.map fun name => Path.ofLocation (l ++ [name]))

/-! ## Loading -/

/-- The table that holds the settings of a file: all of it, or a section of a project file. -/
def settingsTable (p : Path) (t : Table) : Except Fault Table := do
  if p.name = projectFile then subtable (← subtable t "tool") sectionName else pure t

/-- Take relative entries of the search path as seen from a folder. -/
def resolveEntries (base : Location) (entries : List String) : List String :=
  entries.map fun entry => ((Path.ofLocation base).join (Path.ofString entry)).toString

/-- Read the settings in a file. Relative entries of the search path are seen from the folder that
the file is really in. -/
def load (w : World) (p : Path) : Except SettingsFailure Settings := do
  match ← (readTable w p).mapError .fault with
  | .unreadable detail => throw (.settings (.unreadable p detail))
  | .table t =>
    let t ← (settingsTable p t).mapError .fault
    match ofTable t with
    | .error (.fault fault) => throw (.fault fault)
    | .error (.wrongType e) => throw (.settings (.wrongType p e))
    | .ok s =>
      match s.searchPath with
      | none => pure s
      | some entries =>
        -- The file may be a link into another folder, which is then the one that counts.
        let here ← (w.tree.realPath w.cwd p).mapError .fault
        pure { s with searchPath := some (resolveEntries here.dropLast entries) }

end Settings

end AntResources
