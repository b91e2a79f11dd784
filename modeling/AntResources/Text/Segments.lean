/-!
# AntResources.Text.Segments

Slash-separated texts and their segments, on the level of text alone: no file system is asked.

* `split`, `joinSlash` — cutting at every slash, and putting back together;
* `normalize` — the normal form of a list of segments, in which nothing is empty, `.` stands
  nowhere, and `..` has cancelled the ordinary segment before it;
* `stripSlashes` — a text without the slashes at its ends.
-/

namespace AntResources.Text

/-! ## Cutting and joining -/

/-- Cut a text at every occurrence of `sep`. There is always one piece more than separators, so the
result is never empty. -/
def split (sep : Char) : List Char → List (List Char)
  | [] => [[]]
  | c :: cs =>
    if c = sep then [] :: split sep cs
    else
      match split sep cs with
      | [] => [[c]]
      | piece :: pieces => (c :: piece) :: pieces

theorem split_ne_nil (sep : Char) (cs : List Char) : split sep cs ≠ [] := by
  cases cs with
  | nil => simp [split]
  | cons c cs =>
    by_cases h : c = sep
    · simp [split, h]
    · simp only [split, h, if_false]
      split <;> simp

/-- The pieces between the slashes of `s`, empty ones included. -/
def splitSlash (s : String) : List String := (split '/' s.toList).map String.ofList

/-- Segments with a slash between each two. -/
def joinSlash : List String → String
  | [] => ""
  | [s] => s
  | s :: t :: rest => s ++ "/" ++ joinSlash (t :: rest)

@[simp] theorem joinSlash_nil : joinSlash [] = "" := rfl
@[simp] theorem joinSlash_singleton (s : String) : joinSlash [s] = s := rfl
@[simp] theorem joinSlash_cons_cons (s t : String) (rest : List String) :
    joinSlash (s :: t :: rest) = s ++ "/" ++ joinSlash (t :: rest) := rfl

/-- A text without the slashes at either end. -/
def stripSlashes (s : String) : String :=
  String.ofList (((s.toList.dropWhile (· = '/')).reverse.dropWhile (· = '/')).reverse)

/-! ## Normal form -/

/-- Go on normalizing with `kept` (last segment first) already settled. A `..` cancels the ordinary
segment before it; where there is none it is dropped at the top of a rooted path, and kept as a
leading segment of any other. -/
def normalizeOnto (rooted : Bool) (kept : List String) : List String → List String
  | [] => kept.reverse
  | s :: rest =>
    if s = "" ∨ s = "." then normalizeOnto rooted kept rest
    else if s = ".." then
      match kept with
      | [] => normalizeOnto rooted (if rooted then [] else [".."]) rest
      | last :: before =>
        if last = ".." then normalizeOnto rooted (".." :: kept) rest
        else normalizeOnto rooted before rest
    else normalizeOnto rooted (s :: kept) rest

/-- The normal form of a path's segments. `rooted` says whether the path starts at the root, above
which nothing lies. -/
def normalize (rooted : Bool) (segments : List String) : List String :=
  normalizeOnto rooted [] segments

end AntResources.Text
