import AntResources.Toml.Token

/-!
# AntResources.Toml.Document

TOML documents as tables.

A table can be written in several pieces: under headers, by dotted keys, in line. What keeps the
pieces apart is a record of which tables have been declared and may not be declared again, and which
values are complete and may not be added to.

* `value` — values, with arrays and tables in line;
* `updateAt`, `assign`, `append` — adding to a table that is under construction;
* `Draft`, `statement` — the record, and what each statement does to it;
* `parse` — a whole document.
-/

namespace AntResources.Toml

open Reader

/-! ## Adding to a table -/

/-- Change the table behind a key. Tables on the way are made; an array stands for its last table if
`throughArrays` is set. Other values cannot be gone through. -/
def updateAt (throughArrays : Bool) (change : Table → Option Table) : Key → Table → Option Table
  | [], t => change t
  | k :: rest, t =>
    match t.get? k with
    | none => (updateAt throughArrays change rest []).map fun sub => t.set k (.table sub)
    | some (.table sub) =>
      (updateAt throughArrays change rest sub).map fun sub => t.set k (.table sub)
    | some (.array items) =>
      match throughArrays, items.getLast? with
      | true, some (.table sub) =>
        (updateAt throughArrays change rest sub).map fun sub =>
          t.set k (.array (items.dropLast ++ [.table sub]))
      | _, _ => none
    | some _ => none

/-- The last part of a key. -/
def lastPart (k : Key) : String := k.getLastD ""

/-- Give a new key a value. -/
def assign (throughArrays : Bool) (k : Key) (v : Value) (t : Table) : Option Table :=
  updateAt throughArrays (fun t =>
    if (t.get? (lastPart k)).isSome then none else some (t.set (lastPart k) v)) k.dropLast t

/-- Add an empty table to the array behind a key, which may be a new one. -/
def append (k : Key) (t : Table) : Option Table :=
  updateAt true (fun t =>
    match t.get? (lastPart k) with
    | none => some (t.set (lastPart k) (.array [.table []]))
    | some (.array items) => some (t.set (lastPart k) (.array (items ++ [.table []])))
    | some _ => none) k.dropLast t

/-- Values that hold others. -/
def Value.isContainer : Value → Bool
  | .array _ | .table _ => true
  | _ => false

/-- Whether a key leads to a complete value or into one. -/
def isWithin (complete : List Key) (k : Key) : Bool := complete.any fun c => c.isPrefixOf k

/-! ## Values -/

/-- Read inside a value with the rest of the room for values in each other, of which an array takes
up two parts and a table in line three. -/
def inside {α : Type} (cost room : Nat) (read : Nat → Reader α) : Reader α :=
  if room < cost then throw .nestedTooDeep else read (room - cost)

mutual

/-- A value. `count` bounds how many readers are at work on it, and `room` how deep the values in it
may lie. -/
def value (count room : Nat) : Reader Value :=
  match count with
  | 0 => fail
  | count + 1 => do
    match ← string? with
    | some s => pure (.string s)
    | none =>
      if ← accept "true".toList then pure (.boolean true)
      else if ← accept "false".toList then pure (.boolean false)
      else if ← accept ['['] then
        inside 2 room fun room => do
          skipFiller
          if ← accept [']'] then pure (.array []) else pure (.array (← items count room))
      else if ← accept ['\x7b'] then
        inside 3 room fun room => do
          skipBlanks
          if ← accept ['\x7d'] then pure (.table [])
          else pure (.table (← fields count room [] []))
      else scalar

/-- The items of an array up to its end. A comma may follow the last one. -/
def items (count room : Nat) : Reader (List Value) :=
  match count with
  | 0 => fail
  | count + 1 => do
    let v ← value count room
    skipFiller
    if ← accept [']'] then pure [v]
    else
      expect [',']
      skipFiller
      if ← accept [']'] then pure [v] else pure (v :: (← items count room))

/-- The fields of a table in line up to its end. `complete` holds the keys of the values among them
that hold others. -/
def fields (count room : Nat) (t : Table) (complete : List Key) : Reader Table :=
  match count with
  | 0 => fail
  | count + 1 => do
    let k ← key
    expect ['=']
    skipBlanks
    let v ← value count room
    if isWithin complete k then fail
    match assign false k v t with
    | none => fail
    | some t =>
      skipBlanks
      if ← accept ['\x7d'] then pure t
      else
        expect [',']
        skipBlanks
        fields count room t (if v.isContainer then k :: complete else complete)

end

/-! ## Statements -/

/-- A document under construction. -/
structure Draft where
  root : Table
  /-- The table that the last header opened. -/
  header : Key
  /-- The tables that have been declared. -/
  declared : List Key
  /-- The tables that dotted keys have opened since the last header. They count as declared from the
  next header on. -/
  opened : List Key
  /-- The values written in line that hold others. -/
  complete : List Key

/-- Open the table that a header names. -/
def Draft.openTable (d : Draft) (k : Key) : Option Draft :=
  if d.declared.contains k || isWithin d.complete k then none
  else
    (updateAt true some k d.root).map fun root =>
      { d with root := root, header := k, declared := k :: d.declared }

/-- Open a new table at the end of the array that a header names. What was declared below the table
before it can be declared again. -/
def Draft.openItem (d : Draft) (k : Key) : Option Draft :=
  if isWithin d.complete k then none
  else
    (append k d.root).map fun root =>
      { d with
        root := root
        header := k
        declared := k :: d.declared.filter fun other => !k.isPrefixOf other
        complete := d.complete.filter fun other => !k.isPrefixOf other }

/-- Give a key of the open table a value. A dotted key may not reach into a table that has been
declared. -/
def Draft.setField (d : Draft) (k : Key) (v : Value) : Option Draft :=
  let opened := (List.range (k.length - 1)).map fun i => d.header ++ k.take (i + 1)
  if opened.any d.declared.contains || isWithin d.complete (d.header ++ k.dropLast) then none
  else
    (assign true (d.header ++ k) v d.root).map fun root =>
      { d with
        root := root
        opened := opened ++ d.opened
        complete := if v.isContainer then (d.header ++ k) :: d.complete else d.complete }

/-- Go on with a changed draft, if the change is possible. -/
def orFail (d : Option Draft) : Reader Draft :=
  match d with
  | some d => pure d
  | none => fail

/-- A statement: a header of a table or of an item of an array, or a field. -/
def statement (d : Draft) : Reader Draft := do
  if ← accept ['['] then
    -- The section before ends here, so the tables that it opened cannot be declared any more.
    let d := { d with declared := d.opened ++ d.declared, opened := [] }
    if ← accept ['['] then
      skipBlanks
      let d ← orFail (d.openItem (← key))
      expect [']', ']']
      pure d
    else
      skipBlanks
      let d ← orFail (d.openTable (← key))
      expect [']']
      pure d
  else
    let k ← key
    expect ['=']
    skipBlanks
    let v ← value ((← get).length + 1) maxNesting
    orFail (d.setField k v)

/-- The statements of a document, one a line. `count` bounds how many lines there are. -/
def statements (count : Nat) (d : Draft) : Reader Draft :=
  match count with
  | 0 => fail
  | count + 1 => do
    skipBlanks
    let d ← match (← get).head? with
      | none | some '\n' | some '#' => pure d
      | some _ => statement d
    skipBlanks
    skipComment
    match ← get with
    | [] => pure d
    | '\n' :: rest =>
      set rest
      statements count d
    | _ => fail

/-- A text with each carriage return before a line feed left out. -/
def dropReturns : List Char → List Char
  | [] => []
  | '\r' :: '\n' :: rest => '\n' :: dropReturns rest
  | c :: rest => c :: dropReturns rest

/-- Read a document. -/
def parse (text : String) : Except ReadError Table :=
  let cs := dropReturns text.toList
  match (statements (cs.length + 1) ⟨[], [], [], [], []⟩).run cs with
  | .ok (d, _) => .ok d.root
  | .error e => .error e

end AntResources.Toml
