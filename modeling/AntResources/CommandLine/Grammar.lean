import AntResources.Number.Digit

/-!
# AntResources.CommandLine.Grammar

The words of a command line, one by one. A word is an option if it spells one, alone or with a value
after `=`; a long option may be cut short as long as it stays clear which one is meant, and a short
one may have its value, or further short options, right behind it. Every word after `--` is an
argument.

* `OptionName` — the options, with their spellings; a `Grammar` is a list of them;
* `Word` — what a word is;
* `classify`, `classifyAll` — reading a word, and a command line.
-/

namespace AntResources.CommandLine

/-- An option of the command line. -/
inductive OptionName where
  | help
  | searchPath
  | maxWorkers
  | format
  | output
  | cat
  | remoteTimeout
  | verbose
  | version
deriving DecidableEq, Repr

namespace OptionName

/-- How an option is written, the short way first. -/
def spellings : OptionName → List String
  | .help => ["-h", "--help"]
  | .searchPath => ["--search-path"]
  | .maxWorkers => ["--max-workers"]
  | .format => ["--format"]
  | .output => ["-o", "--output"]
  | .cat => ["--cat"]
  | .remoteTimeout => ["--remote-timeout"]
  | .verbose => ["-v", "--verbose"]
  | .version => ["--version"]

/-- Whether an option comes with a value. -/
def takesValue : OptionName → Bool
  | .searchPath | .maxWorkers | .format | .output | .remoteTimeout => true
  | .help | .cat | .verbose | .version => false

/-- An option as messages show it. -/
def shown (name : OptionName) : String := String.intercalate "/" name.spellings

end OptionName

/-- The options that a command line may have. -/
abbrev Grammar := List OptionName

/-- All spellings of the options of a grammar, in order. -/
def Grammar.spellings (g : Grammar) : List (List Char × OptionName) :=
  g.flatMap fun name => name.spellings.map fun s => (s.toList, name)

/-- The option with a given spelling. -/
def Grammar.option? (g : Grammar) (spelling : List Char) : Option OptionName :=
  g.spellings.lookup spelling

/-- An option in a word. -/
structure OptionWord where
  name : OptionName
  /-- Whether it is a short option, of one dash. -/
  isShort : Bool
  /-- What follows the option in the word, without an `=` before it. -/
  attached : Option (List Char)
deriving DecidableEq, Repr

/-- What a word is. -/
inductive Word where
  | argument (text : String)
  | option (word : OptionWord)
  /-- A word that looks like an option and is none. -/
  | unknown (text : String)
deriving DecidableEq, Repr

/-- Why a command line cannot be read. -/
inductive UsageError where
  | ambiguous (word : String) (candidates : List String)
  | missingValue (name : OptionName)
  | ignoredValue (name : OptionName) (value : String)
  | invalidInteger (name : OptionName) (value : String)
  | invalidNumber (name : OptionName) (value : String)
  | invalidChoice (name : OptionName) (value : String) (choices : List String)
  | unrecognized (words : List String)
deriving DecidableEq, Repr

/-! ## Reading a word -/

/-- A spelling of one dash. -/
def isShortSpelling (spelling : List Char) : Bool := (spelling.drop 1).head? ≠ some '-'

/-- The text before the first `=`, and the text after it if there is one. -/
def splitEquals (cs : List Char) : List Char × Option (List Char) :=
  match cs.dropWhile (· ≠ '=') with
  | [] => (cs, none)
  | _ :: value => (cs.takeWhile (· ≠ '='), some value)

/-- The options that a word may be short for: long ones by their start, short ones with the rest of
the word attached. -/
def candidates (g : Grammar) (cs : List Char) : List (List Char × OptionWord) :=
  if isShortSpelling cs then
    g.spellings.filterMap fun (spelling, name) =>
      if spelling = cs.take 2 then
        some (spelling, ⟨name, isShortSpelling spelling, some (cs.drop 2)⟩)
      else if cs.isPrefixOf spelling then
        some (spelling, ⟨name, isShortSpelling spelling, none⟩)
      else none
  else
    let (start, attached) := splitEquals cs
    g.spellings.filterMap fun (spelling, name) =>
      if start.isPrefixOf spelling then
        some (spelling, ⟨name, isShortSpelling spelling, attached⟩)
      else none

/-- A decimal digit of any script. -/
def isDigit (c : Char) : Bool := (Number.digitValue? c).isSome

/-- A negative number: digits, perhaps with a point before the last of them. A line feed may
follow. -/
def isNegativeNumber (cs : List Char) : Bool :=
  let digits := if cs.getLast? = some '\n' then cs.tail.dropLast else cs.tail
  match digits.dropWhile isDigit with
  | [] => digits ≠ []
  | '.' :: fraction => fraction ≠ [] && fraction.all isDigit
  | _ => false

/-- Read a word. -/
def classify (g : Grammar) (text : String) : Except UsageError Word :=
  let cs := text.toList
  if cs.head? ≠ some '-' then .ok (.argument text)
  else
    match g.option? cs with
    | some name => .ok (.option ⟨name, isShortSpelling cs, none⟩)
    | none =>
      if cs.length = 1 then .ok (.argument text)
      else
        let (spelling, attached) := splitEquals cs
        match attached, g.option? spelling with
        | some value, some name => .ok (.option ⟨name, isShortSpelling spelling, some value⟩)
        | _, _ =>
          match candidates g cs with
          | [(_, word)] => .ok (.option word)
          | [] =>
            -- Nobody would call an option so.
            if isNegativeNumber cs || cs.contains ' ' then .ok (.argument text)
            else .ok (.unknown text)
          | several =>
            .error (.ambiguous text (several.map fun (spelling, _) => String.ofList spelling))

/-- Read the words of a command line. -/
def classifyAll (g : Grammar) : List String → Except UsageError (List Word)
  | [] => .ok []
  | text :: rest =>
    if text = "--" then .ok ((text :: rest).map .argument)
    else do
      let word ← classify g text
      let words ← classifyAll g rest
      pure (word :: words)

end AntResources.CommandLine
