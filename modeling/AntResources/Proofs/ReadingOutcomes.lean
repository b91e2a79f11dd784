import Mathlib.Data.List.TakeWhile
import AntResources.Proofs.ListingOutcomes
import AntResources.Proofs.NormalForm
import AntResources.Reading

/-!
# AntResources.Proofs.ReadingOutcomes

**What reading comes to.** The text of a locator is cut at its first colon, and what stands before it
decides how the rest is read (`Locator.read_file`, `Locator.read_classpath`). A written path reads back
as it was, unless it starts with two slashes: these are taken off before the path is read, which makes
a relative path of it (`Locator.filePath_toString`). A name is looked for in the places that provide it
one after the other, and the first that has it itself decides (`SearchPath.readFrom_append`).
-/

namespace AntResources

open Text

/-! ### Paths that are written and read -/

namespace Text

theorem split_replicate_append (sep : Char) (n : Nat) (cs : List Char) :
    split sep (List.replicate n sep ++ cs) = List.replicate n [] ++ split sep cs := by
  induction n with
  | zero => rfl
  | succ n ih =>
      rw [List.replicate_succ, List.cons_append, split, if_pos rfl, ih]
      rfl

theorem takeWhile_slash {cs : List Char} (h : cs.head? ≠ some '/') :
    cs.takeWhile (· = '/') = [] := by
  cases cs with
  | nil => rfl
  | cons c cs => exact List.takeWhile_cons_of_neg (by simpa using h)

theorem head?_joinSlash {segments : List String} (h : Proper segments) :
    (joinSlash segments).toList.head? ≠ some '/' := by
  rw [toList_joinSlash]
  exact head?_pathText (by simpa using h.isSegment)

end Text

namespace Path

/-- Slashes at the start of a path make its anchor, and the segments behind them its parts. -/
theorem ofString_slashes_append (n : Nat) {parts : List String} (h : Proper parts) :
    ofString (String.ofList (List.replicate n '/') ++ joinSlash parts) = ⟨.ofSlashes n, parts⟩ := by
  have hstart : ((String.ofList (List.replicate n '/') ++ joinSlash parts).toList.takeWhile
      (· = '/')).length = n := by
    rw [String.toList_append, String.toList_ofList, List.takeWhile_append_of_pos (by simp),
      takeWhile_slash (head?_joinSlash h), List.append_nil, List.length_replicate]
  have hparts : (splitSlash (joinSlash parts)).filter (fun part => part ≠ "" ∧ part ≠ ".") = parts := by
    by_cases hne : parts = []
    · subst hne
      rfl
    · rw [splitSlash_joinSlash hne fun s hs => (h s hs).2.2]
      exact List.filter_eq_self.mpr fun s hs => by simp [h s hs]
  have hslashes : (List.replicate n "").filter (fun part => part ≠ "" ∧ part ≠ ".") = [] := by simp
  rw [ofString, hstart, splitSlash, String.toList_append, String.toList_ofList,
    split_replicate_append, List.map_append, List.map_replicate, List.filter_append, hslashes,
    List.nil_append]
  exact congrArg _ hparts

end Path

/-- The number of slashes that an anchor is written with. -/
def Anchor.slashes : Anchor → Nat
  | .relative => 0
  | .root => 1
  | .doubleRoot => 2

theorem Anchor.text_eq (a : Anchor) : a.text = String.ofList (List.replicate a.slashes '/') := by
  cases a <;> rfl

@[simp] theorem Anchor.ofSlashes_slashes (a : Anchor) : ofSlashes a.slashes = a := by
  cases a <;> rfl

namespace Path

theorem toString_of_ne_nil {p : Path} (hne : p.parts ≠ []) : p.toString =
    String.ofList (List.replicate p.anchor.slashes '/') ++ joinSlash p.parts := by
  rw [toString, if_neg fun hnil => hne hnil.2, Anchor.text_eq]

/-- A path reads back as it was written. -/
theorem ofString_toString {p : Path} (h : Proper p.parts) (hne : p.parts ≠ []) :
    ofString p.toString = p := by
  rw [toString_of_ne_nil hne, ofString_slashes_append _ h, Anchor.ofSlashes_slashes]

end Path

/-! ### Locators -/

namespace Locator

/-- The text of a locator is cut behind its scheme. -/
theorem cut_at_colon (scheme : String) (h : ':' ∉ scheme.toList) (rest : String) :
    (scheme ++ ":" ++ rest).toList.takeWhile (· ≠ ':') = scheme.toList ∧
      (scheme ++ ":" ++ rest).toList.dropWhile (· ≠ ':') = ':' :: rest.toList := by
  have htext : (scheme ++ ":" ++ rest).toList = scheme.toList ++ ':' :: rest.toList := by simp
  rw [htext]
  exact cut_append h _

/-- Without a colon there is nothing behind one. -/
theorem dropWhile_of_no_colon {cs : List Char} (h : ':' ∉ cs) : cs.dropWhile (· ≠ ':') = [] := by
  refine List.dropWhile_eq_nil_iff.mpr fun c hc => ?_
  have hne : c ≠ ':' := fun heq => h (heq ▸ hc)
  simpa using hne

theorem exists_scheme_of_mem {l : Locator} (h : ':' ∈ l.text.toList) :
    ∃ scheme rest : String, ':' ∉ scheme.toList ∧ l = ⟨scheme ++ ":" ++ rest⟩ := by
  obtain ⟨text⟩ := l
  obtain ⟨before, after, htext, hbefore⟩ := List.eq_append_cons_of_mem h
  refine ⟨String.ofList before, String.ofList after, by rwa [String.toList_ofList], ?_⟩
  rw [mk.injEq]
  exact String.toList_inj.mp (htext.trans (by simp))

/-- A locator has a scheme exactly if its text starts with it and a colon. -/
theorem origin_eq_some_iff {l : Locator} {scheme : String} (hcolon : ':' ∉ scheme.toList)
    (hslash : '/' ∉ scheme.toList) :
    l.origin = some scheme ↔ ∃ rest, l = ⟨scheme ++ ":" ++ rest⟩ := by
  unfold origin
  simp only [Option.ite_none_right_eq_some, Option.some.injEq, Bool.and_eq_true,
    Bool.not_eq_true', List.contains_eq_mem, decide_eq_true_eq, decide_eq_false_iff_not]
  constructor
  · rintro ⟨⟨hmem, -⟩, rfl⟩
    obtain ⟨first, rest, hfirst, rfl⟩ := exists_scheme_of_mem hmem
    obtain ⟨htake, -⟩ := cut_at_colon first hfirst rest
    rw [htake, String.ofList_toList]
    exact ⟨rest, rfl⟩
  · rintro ⟨rest, rfl⟩
    obtain ⟨htake, -⟩ := cut_at_colon _ hcolon rest
    rw [htake]
    simp [hslash]

/-- A written path is read back, but for one with two slashes at its start: that becomes relative. -/
theorem filePath_toString {p : Path} (h : Proper p.parts) (hne : p.parts ≠ []) :
    filePath p.toString.toList =
      if p.anchor = .doubleRoot then ⟨.relative, p.parts⟩ else p := by
  have htext : p.toString.toList =
      List.replicate p.anchor.slashes '/' ++ (joinSlash p.parts).toList := by
    rw [Path.toString_of_ne_nil hne, String.toList_append, String.toList_ofList]
  have hhead := head?_joinSlash h
  by_cases hanchor : p.anchor = .doubleRoot
  · rw [if_pos hanchor, htext, hanchor]
    show Path.ofString (String.ofList (joinSlash p.parts).toList) = _
    rw [String.ofList_toList, Path.ofString_joinSlash h]
  · rw [if_neg hanchor]
    -- No second slash follows the one that there may be.
    have hslashes : ∀ rest, p.toString.toList ≠ '/' :: '/' :: rest := by
      intro rest heq
      rw [htext] at heq
      cases hkind : p.anchor with
      | doubleRoot => exact hanchor hkind
      | relative | root =>
          rw [hkind] at heq
          simp_all [Anchor.slashes]
    unfold filePath
    split
    · exact absurd ‹_› (hslashes _)
    · rw [String.ofList_toList, Path.ofString_toString h hne]

/-! ### The readers -/

variable (w : World) (setup : ReadSetup)

theorem read_file (text : String) :
    (read w setup ⟨Source.fileOrigin ++ ":" ++ text⟩).outcome =
      w.readFile (filePath text.toList) setup.encoding := by
  obtain ⟨htake, hdrop⟩ := cut_at_colon Source.fileOrigin (by decide) text
  unfold read
  simp only [htake, hdrop, String.ofList_toList]
  rfl

theorem read_classpath (name : String) :
    read w setup ⟨Source.classpathOrigin ++ ":" ++ name⟩ = readClasspath w setup name := by
  obtain ⟨htake, hdrop⟩ := cut_at_colon Source.classpathOrigin (by decide) name
  unfold read
  simp only [htake, hdrop, String.ofList_toList, if_true]

theorem outcome_readClasspath (name : String) :
    (readClasspath w setup name).outcome = (setup.lookup (stripSlashes name)).outcome >>=
      fun places => SearchPath.readFrom w setup.encoding (stripSlashes name) places >>= fun
        | some text => .ok text
        | none => .error (.resource (.resourceNotFound name)) := by
  unfold readClasspath
  rw [Trace.outcome_bind]
  congr 1
  funext places
  rw [Trace.outcome_bind, Trace.outcome_ofExcept]
  congr 1
  funext found
  cases found <;> rfl

end Locator

/-! ### Places one after the other -/

namespace SearchPath

variable (w : World) (encoding : Encoding) (name : String)

/-- Read the name from one of the places, if that has it itself. -/
def readAt : RootLocation → Except Failure (Option String)
  | .archive root => readMember w encoding name root.archive
  | .tree path => do
    if ← w.isFile path then pure (some (← w.readFile path encoding)) else pure none

variable {w encoding name} {places : List RootLocation}

theorem readFrom_cons (place : RootLocation) (rest : List RootLocation) :
    readFrom w encoding name (place :: rest) = readAt w encoding name place >>= fun
      | some text => .ok (some text)
      | none => readFrom w encoding name rest := by
  cases place with
  | archive root =>
      rw [readFrom]
      rfl
  | tree path =>
      rw [readFrom, readAt]
      cases w.isFile path with
      | error failure => rfl
      | ok isFile =>
          cases isFile with
          | false => rfl
          | true => cases w.readFile path encoding <;> rfl

/-- Places that do not have the name themselves are passed over. -/
theorem readFrom_append {before : List RootLocation} (after : List RootLocation)
    (h : ∀ place ∈ before, readAt w encoding name place = .ok none) :
    readFrom w encoding name (before ++ after) = readFrom w encoding name after := by
  induction before with
  | nil => rfl
  | cons place before ih =>
      obtain ⟨hplace, hbefore⟩ := List.forall_mem_cons.mp h
      rw [List.cons_append, readFrom_cons, hplace]
      exact ih hbefore

/-- Nothing is read exactly if none of the places has the name itself. -/
theorem readFrom_eq_ok_none_iff : readFrom w encoding name places = .ok none ↔
    ∀ place ∈ places, readAt w encoding name place = .ok none := by
  induction places with
  | nil => simp [readFrom]
  | cons place rest ih =>
      rw [readFrom_cons, List.forall_mem_cons]
      cases hplace : readAt w encoding name place with
      | error failure => simp
      | ok found => cases found <;> simp [ih]

end SearchPath

end AntResources
