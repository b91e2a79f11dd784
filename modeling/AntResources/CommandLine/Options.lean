import AntResources.CommandLine.Scan
import AntResources.Settings.Basic
import AntResources.Text.Quoted

/-!
# AntResources.CommandLine.Options

The options of a run: what the command line says, and where it is silent what a settings file says.

* `Options` — with `Options.standard`;
* `Options.use`, `Options.ofScan` — what a command line makes of them;
* `givenSettings` — the settings that the command line gives itself;
* `parse` — a command line, which may also ask for help, or be wrong;
* `inForce`, `Options.merge` — taking in the settings of a file.
-/

namespace AntResources

open CommandLine

/-! ## Options -/

/-- The options of a run. The value of an option, and an entry of the search path, is `none` where
the command line gives the option without one. -/
structure Options where
  expressions : List String
  /-- The search path, if there is one of its own. -/
  searchPath : Option (List (Option String))
  maxWorkers : Option Int
  format : Option String
  output : Option String
  cat : Bool
  remoteTimeout : Option Binary64
  verbose : Bool
  version : Bool
deriving DecidableEq, Repr

namespace Options

/-- The options of an empty command line. -/
def standard : Options where
  expressions := []
  searchPath := none
  maxWorkers := some 4
  format := some "list"
  output := some "-"
  cat := false
  remoteTimeout := some (Binary64.ofDecimal false 30 0)
  verbose := false
  version := false

/-- The formats in which resources can be listed. -/
def formats : List String := ["list", "script-tags"]

end Options

/-! ## Texts -/

namespace CommandLine

/-- The summary of the options. -/
def usage : String :=
  "usage: resglob [-h] [--search-path PATH] [--max-workers N]\n" ++
  "               [--format \x7blist,script-tags\x7d] [-o OUTPUT] [--cat]\n" ++
  "               [--remote-timeout SECONDS] [-v] [--version]\n" ++
  "               [expressions ...]\n"

/-- The full description of the options. -/
def helpText : String := usage ++
  "\n" ++
  "resglob: Resolve Ant-style resource expressions into resource lists\n" ++
  "\n" ++
  "positional arguments:\n" ++
  "  expressions           Resource expressions, e.g. 'classpath:/app/**/*.js' or\n" ++
  "                        '~file:src/*Test.js'\n" ++
  "\n" ++
  "options:\n" ++
  "  -h, --help            show this help message and exit\n" ++
  "  --search-path PATH    Directory or zip archive to search for classpath:\n" ++
  "                        expressions. Can be repeated (default: the Python\n" ++
  "                        import path)\n" ++
  "  --max-workers N       Archives scanned concurrently (1 = sequential,\n" ++
  "                        default: 4)\n" ++
  "  --format \x7blist,script-tags\x7d\n" ++
  "                        'list' prints one locator per line, 'script-tags'\n" ++
  "                        prints HTML <script> tags (default: list)\n" ++
  "  -o OUTPUT, --output OUTPUT\n" ++
  "                        Output file (use '-' for stdout)\n" ++
  "  --cat                 Print the content of every resolved resource instead\n" ++
  "                        of its locator\n" ++
  "  --remote-timeout SECONDS\n" ++
  "                        Timeout for fetching remote resources with --cat\n" ++
  "                        (default: 30.0)\n" ++
  "  -v, --verbose         Log resolution details to stderr\n" ++
  "  --version             Show version information and exit\n" ++
  "\n" ++
  "Common usage:\n" ++
  "  resglob 'file:src/**/*.js' '~file:src/**/*Test.js'\n" ++
  "  resglob --search-path lib/app.zip 'classpath:/app/**/*.js'\n" ++
  "  resglob --format script-tags 'classpath:/app/*.js' 'https://cdn.example.com/lib.js'\n" ++
  "  resglob --cat 'file:src/*.js'\n" ++
  "\n" ++
  "Expressions starting with \x60~\x60 are exclusions. Quote expressions so the shell\n" ++
  "leaves globs and \x60~\x60 alone.\n"

/-- A usage error in words. -/
def UsageError.message : UsageError → String
  | .ambiguous word candidates =>
    "ambiguous option: " ++ word ++ " could match " ++ String.intercalate ", " candidates
  | .missingValue name => "argument " ++ name.shown ++ ": expected one argument"
  | .ignoredValue name value =>
    "argument " ++ name.shown ++ ": ignored explicit argument " ++ Text.quote value
  | .invalidInteger name value =>
    "argument " ++ name.shown ++ ": invalid int value: " ++ Text.quote value
  | .invalidNumber name value =>
    "argument " ++ name.shown ++ ": invalid float value: " ++ Text.quote value
  | .invalidChoice name value choices =>
    "argument " ++ name.shown ++ ": invalid choice: " ++ Text.quote value ++ " (choose from "
      ++ String.intercalate ", " (choices.map Text.quote) ++ ")"
  | .unrecognized words => "unrecognized arguments: " ++ String.intercalate " " words

end CommandLine

/-! ## From the command line -/

/-- What a command line is about. -/
inductive Request where
  /-- A run, with its options and the settings among them that the command line gives itself. -/
  | run (options : Options) (given : List SettingName)
  | help
  | wrong (error : UsageError)
deriving DecidableEq, Repr

/-- What the options that were used so far come to. -/
inductive Progress where
  | options (o : Options)
  | help
  | wrong (error : UsageError)
deriving DecidableEq, Repr

namespace Options

/-- Use an option. -/
def use (o : Options) (u : Use) : Progress :=
  match u.name, u.value with
  | .help, _ => .help
  | .searchPath, value => .options { o with searchPath := some (o.searchPath.getD [] ++ [value]) }
  | .maxWorkers, none => .options { o with maxWorkers := none }
  | .maxWorkers, some text =>
    match Number.readInteger text with
    | some n => .options { o with maxWorkers := some n }
    | none => .wrong (.invalidInteger .maxWorkers text)
  | .format, none => .options { o with format := none }
  | .format, some name =>
    if formats.contains name then .options { o with format := some name }
    else .wrong (.invalidChoice .format name formats)
  | .output, value => .options { o with output := value }
  | .cat, _ => .options { o with cat := true }
  | .remoteTimeout, none => .options { o with remoteTimeout := none }
  | .remoteTimeout, some text =>
    match Binary64.ofText? text with
    | some x => .options { o with remoteTimeout := some x }
    | none => .wrong (.invalidNumber .remoteTimeout text)
  | .verbose, _ => .options { o with verbose := true }
  | .version, _ => .options { o with version := true }

/-- Use some options, one after the other, up to the first that ends it. -/
def useAll (o : Options) : List Use → Progress
  | [] => .options o
  | u :: rest =>
    match o.use u with
    | .options o => useAll o rest
    | ending => ending

/-- What a scanned command line comes to. The options before an error come first, and words that say
nothing come last. -/
def ofScan (s : Scan) : Progress :=
  match standard.useAll s.uses with
  | .options o =>
    match s.error with
    | some e => .wrong e
    | none =>
      if s.leftover ≠ [] then .wrong (.unrecognized s.leftover)
      else .options { o with expressions := s.arguments }
  | ending => ending

end Options

namespace CommandLine

/-- All options. -/
def fullGrammar : Grammar :=
  [.help, .searchPath, .maxWorkers, .format, .output, .cat, .remoteTimeout, .verbose, .version]

/-- The options that a settings file can give as well. -/
def settingsGrammar : Grammar := [.searchPath, .maxWorkers, .format, .remoteTimeout]

/-- The setting that an option gives. -/
def OptionName.setting? : OptionName → Option SettingName
  | .searchPath => some .searchPath
  | .maxWorkers => some .maxWorkers
  | .format => some .format
  | .remoteTimeout => some .remoteTimeout
  | .help | .output | .cat | .verbose | .version => none

/-- The settings that a command line gives by options, found by looking for these options alone. -/
def givenByOptions (args : List String) : List SettingName :=
  match scan settingsGrammar args with
  | .ok s => (s.uses.filterMap fun u => u.name.setting?).eraseDups
  | .error _ => []

/-- The settings that a command line gives itself. -/
def givenSettings (args : List String) (o : Options) : List SettingName :=
  (if o.expressions = [] then [] else [.expressions]) ++ givenByOptions args

/-- Read a command line. -/
def parse (args : List String) : Request :=
  match scan fullGrammar args with
  | .error e => .wrong e
  | .ok s =>
    match Options.ofScan s with
    | .options o => .run o (givenSettings args o)
    | .help => .help
    | .wrong e => .wrong e

end CommandLine

/-! ## Taking in a settings file -/

/-- The value in force: the one that is there if it was given, and else the one of the settings file
if that has one. -/
def inForce {α : Type} (given : Bool) (setting : Option α) (current : α) : α :=
  if given then current else setting.getD current

namespace Options

/-- Take in the settings of a file, where the command line does not give them. -/
def merge (o : Options) (s : Settings) (given : List SettingName) : Options :=
  { o with
    expressions := inForce (given.contains .expressions) s.expressions o.expressions
    searchPath := inForce (given.contains .searchPath)
      (s.searchPath.map fun entries => some (entries.map some)) o.searchPath
    maxWorkers := inForce (given.contains .maxWorkers) (s.maxWorkers.map some) o.maxWorkers
    format := inForce (given.contains .format) (s.format.map some) o.format
    remoteTimeout :=
      inForce (given.contains .remoteTimeout) (s.remoteTimeout.map some) o.remoteTimeout }

end Options

end AntResources
