import AntResources.CommandLine.Options
import AntResources.Expansion
import AntResources.FileTree.Edit
import AntResources.Reading
import AntResources.ScriptTags
import AntResources.Settings.File

/-!
# AntResources.Program

A run of the program. Nothing is written before everything is known, so a run that fails leaves the
file system and the standard output as they are.

* `Program.render` — the text for some resources;
* `Program.Ending` — how a run ends, with what it prints;
* `Program.run` — a run in a world.
-/

namespace AntResources

open CommandLine

namespace Program

/-- The version of the program. -/
def version : String := "0.1.0"

/-! ## Endings -/

/-- Why a run gives nothing. -/
inductive Complaint where
  | noExpressions
  /-- A format that does not exist, or none at all. -/
  | unknownFormat (name : Option String)
  | settings (error : SettingsError)
  | resource (error : ResourceError)
deriving DecidableEq, Repr

def Complaint.message : Complaint → String
  | .noExpressions =>
    "No expressions specified. Provide expressions on the command line"
      ++ " or in a config file. Use --help for more options."
  | .unknownFormat name => "Unknown format: " ++ name.getD "[]"
  | .settings error => error.message
  | .resource error => error.message

/-- How a run ends. -/
inductive Ending where
  /-- All is well, with a text for the standard output. -/
  | done (stdout : String)
  /-- The command line is wrong. -/
  | wrongUsage (error : UsageError)
  | failed (complaint : Complaint)
deriving DecidableEq, Repr

namespace Ending

def exitCode : Ending → Nat
  | .done _ => 0
  | .failed _ => 1
  | .wrongUsage _ => 2

def stdout : Ending → String
  | .done text => text
  | .failed _ | .wrongUsage _ => ""

/-- What the ending prints on the standard error. -/
def stderr : Ending → String
  | .done _ => ""
  | .failed complaint => "Error: " ++ complaint.message ++ "\n"
  | .wrongUsage error => usage ++ "resglob: error: " ++ error.message ++ "\n"

end Ending

/-- What a run comes to. -/
structure Outcome where
  /-- The file system afterwards. -/
  tree : FileTree
  /-- The steps on the way. -/
  events : List Event
  /-- Whether the steps are shown. -/
  verbose : Bool
  ending : Except Fault Ending

/-- The lines of the log, if it is shown. -/
def Outcome.log (o : Outcome) : String :=
  if o.verbose then String.join (o.events.map Event.logLine) else ""

/-! ## Rendering -/

/-- The search path of the options. Each entry has to have a value. -/
def searchPath (w : World) (o : Options) : Except Fault SearchPath :=
  match o.searchPath with
  | none => .ok w.defaultPath
  | some entries =>
    match entries.mapM id with
    | some texts => .ok (texts.map Path.ofString)
    | none => .error .missingValue

/-- The lookup on the search path of the options. -/
def lookup (w : World) (o : Options) : Lookup := fun root =>
  match searchPath w o with
  | .ok path => path.resolve w root
  | .error fault => Trace.ofExcept (.error (.fault fault))

/-- The lookup for listings. Archives are listed by workers, so their number has to have a value. -/
def listingLookup (w : World) (o : Options) : Lookup := fun root => do
  let locations ← lookup w o root
  match o.maxWorkers, locations with
  | none, .archive _ :: _ => Trace.ofExcept (.error (.fault .missingValue))
  | _, _ => pure locations

/-- The setup of the listings. -/
def listingSetup (w : World) (o : Options) : Contribution.Setup :=
  ⟨listingLookup w o, o.maxWorkers.getD 1⟩

/-- How a run reads resources. -/
def readSetup (w : World) (o : Options) : ReadSetup := ⟨lookup w o, o.remoteTimeout, .utf8⟩

/-- One locator a line. -/
def lines (resources : List Locator) : String :=
  String.join (resources.map fun l => l.text ++ "\n")

/-- The text for some resources: their contents, or their locators in the format asked for. -/
def render (w : World) (o : Options) (resources : List Locator) : Trace String :=
  if o.cat then do
    let contents ← resources.mapM (Locator.read w (readSetup w o))
    pure (String.join contents)
  else if o.format = some "script-tags" then
    pure (ScriptTags.render (resources.map Locator.text) ++ "\n")
  else pure (lines resources)

/-- The text for the resources that the options ask for. -/
def produce (w : World) (o : Options) : Trace String := do
  let resources ← expand w (listingSetup w o) o.expressions
  render w o resources

/-! ## Running -/

/-- The options with the settings of the file that counts in the working directory. -/
def configure (w : World) (o : Options) (given : List SettingName) :
    Except SettingsFailure Options := do
  let here ← w.workingPath.mapError .fault
  match ← (Settings.find w here).mapError .fault with
  | none => pure o
  | some file => pure (o.merge (← Settings.load w file) given)

/-- The options of a run, or why there is no run. -/
def checked (w : World) (o : Options) (given : List SettingName) :
    Except Fault (Except Complaint Options) :=
  match configure w o given with
  | .error (.fault fault) => .error fault
  | .error (.settings error) => .ok (.error (.settings error))
  | .ok o =>
    if o.expressions = [] then .ok (.error .noExpressions)
    else if o.format.any Options.formats.contains then .ok (.ok o)
    else .ok (.error (.unknownFormat o.format))

/-- Put out the text of a run: on the standard output, or in a file. -/
def deliver (w : World) (o : Options) (text : String) : FileTree × Except Fault Ending :=
  match o.output with
  | none => (w.tree, .error .missingValue)
  | some output =>
    if output = "-" then (w.tree, .ok (.done text))
    else
      match w.tree.replaceFile w.cwd w.unfinishedBytes (Path.ofString output) text.toUTF8 with
      | (tree, .ok ()) => (tree, .ok (.done ""))
      | (tree, .error fault) => (tree, .error fault)

/-- Carry out a run whose options have been checked. -/
def carryOut (w : World) (o : Options) : Outcome :=
  let t := produce w o
  match t.outcome with
  | .error (.fault fault) => ⟨w.tree, t.events, o.verbose, .error fault⟩
  | .error (.resource error) => ⟨w.tree, t.events, o.verbose, .ok (.failed (.resource error))⟩
  | .ok text =>
    let (tree, ending) := deliver w o text
    ⟨tree, t.events, o.verbose, ending⟩

/-- An outcome that leaves the file system as it is. -/
def Outcome.still (w : World) (ending : Except Fault Ending) : Outcome :=
  ⟨w.tree, [], false, ending⟩

/-- Run the program with the words of a command line. -/
def run (w : World) (args : List String) : Outcome :=
  match parse args with
  | .wrong error => .still w (.ok (.wrongUsage error))
  | .help => .still w (.ok (.done helpText))
  | .run o given =>
    if o.version then .still w (.ok (.done ("v" ++ version ++ "\n")))
    else
      match checked w o given with
      | .error fault => .still w (.error fault)
      | .ok (.error complaint) => .still w (.ok (.failed complaint))
      | .ok (.ok o) => carryOut w o

end Program

end AntResources
