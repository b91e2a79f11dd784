import AntResources.CommandLine.Grammar

/-!
# AntResources.CommandLine.Scan

What the words of a command line say together. Options are used in the order in which they stand.
The first run of arguments that belong to no option is what the command is about; arguments after a
later option are left over, and so are options that do not exist.

* `Use` — an option with its value;
* `unfold` — the options in one word;
* `Scan`, `scan` — a whole command line.
-/

namespace AntResources.CommandLine

/-- An option that is used, with its value. There is none if the option takes no value, or if `--`
stands in its place. -/
structure Use where
  name : OptionName
  value : Option String
deriving DecidableEq, Repr

/-! ## One word -/

/-- What one word says. -/
structure Unfolded where
  /-- The options that are complete. -/
  uses : List Use
  /-- The option at the end of the word that has to get its value from the next word. -/
  awaiting : Option OptionName
deriving DecidableEq, Repr

/-- The value that is written as a text: none for `--`. -/
def writtenValue (text : List Char) : Option String :=
  if text = ['-', '-'] then none else some (String.ofList text)

/-- A short option that takes no value, and those in the text behind it. -/
def unfoldShort (g : Grammar) (name : OptionName) : List Char → Except UsageError Unfolded
  | [] => .ok ⟨[⟨name, none⟩], none⟩
  | c :: rest =>
    match g.option? ['-', c] with
    | none => .error (.ignoredValue name (String.ofList (c :: rest)))
    | some next =>
      if next.takesValue then
        if rest = [] then .ok ⟨[⟨name, none⟩], some next⟩
        else .ok ⟨[⟨name, none⟩, ⟨next, writtenValue rest⟩], none⟩
      else do
        let more ← unfoldShort g next rest
        pure { more with uses := ⟨name, none⟩ :: more.uses }

/-- The options in a word. -/
def unfold (g : Grammar) (word : OptionWord) : Except UsageError Unfolded :=
  match word.attached with
  | none =>
    if word.name.takesValue then .ok ⟨[], some word.name⟩ else .ok ⟨[⟨word.name, none⟩], none⟩
  | some text =>
    if word.name.takesValue then .ok ⟨[⟨word.name, writtenValue text⟩], none⟩
    else if !word.isShort || text = [] then
      .error (.ignoredValue word.name (String.ofList text))
    else unfoldShort g word.name text

/-! ## All words -/

/-- Where the scan stands in regard to the run of arguments that the command is about. -/
inductive Phase where
  | before
  | inside
  | behind
deriving DecidableEq, Repr

/-- The phase after a word that is no argument. -/
def Phase.close : Phase → Phase
  | .before => .before
  | .inside | .behind => .behind

/-- What a command line says, up to the first error. -/
structure Scan where
  uses : List Use
  /-- The run of arguments that the command is about. -/
  arguments : List String
  /-- The words that say nothing. -/
  leftover : List String
  error : Option UsageError
deriving DecidableEq, Repr

namespace Scan

def empty : Scan := ⟨[], [], [], none⟩

/-- Put some options before the others. -/
def withUses (s : Scan) (uses : List Use) : Scan := { s with uses := uses ++ s.uses }

/-- Put a word that says nothing before the others. -/
def withLeftover (s : Scan) (text : String) : Scan := { s with leftover := text :: s.leftover }

/-- Put an argument before the others. -/
def withArgument (s : Scan) (phase : Phase) (text : String) : Scan :=
  match phase with
  | .before | .inside => { s with arguments := text :: s.arguments }
  | .behind => s.withLeftover text

/-- The phase in which the word after an argument is read. -/
def nextPhase : Phase → Phase
  | .before | .inside => .inside
  | .behind => .behind

end Scan

/-- Go through the words. -/
def scanWords (g : Grammar) (phase : Phase) : List Word → Scan
  | [] => .empty
  | .argument text :: rest => (scanWords g (Scan.nextPhase phase) rest).withArgument phase text
  | .unknown text :: rest => (scanWords g phase.close rest).withLeftover text
  | .option word :: rest =>
    match unfold g word with
    | .error e => { Scan.empty with error := some e }
    | .ok unfolded =>
      match unfolded.awaiting, rest with
      | none, rest => (scanWords g phase.close rest).withUses unfolded.uses
      | some name, .argument value :: rest =>
        -- The mark that ends the options is no value of one.
        if value = "--" then { Scan.empty with error := some (.missingValue name) }
        else
          (scanWords g phase.close rest).withUses (unfolded.uses ++ [⟨name, some value⟩])
      | some name, _ => { Scan.empty with error := some (.missingValue name) }

/-- Read a command line. The first `--` among the arguments that the command is about is none of
them. -/
def scan (g : Grammar) (args : List String) : Except UsageError Scan := do
  let words ← classifyAll g args
  let s := scanWords g .before words
  pure { s with arguments := s.arguments.erase "--" }

end AntResources.CommandLine
