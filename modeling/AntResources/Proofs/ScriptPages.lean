import Mathlib.Data.List.Basic
import Mathlib.Data.List.TakeWhile
import AntResources.Proofs.SegmentText
import AntResources.ScriptTags

/-!
# AntResources.Proofs.ScriptPages

**A page of script elements tells its sources.** A page that is nothing but elements is cut into the values of
their attributes by looking for quotation marks alone, and there is one way to do it (`values?_eq_some_iff`). In
the values that are written for sources none of the characters is left that mean something in HTML, and the
entities, each read once, give the source back, whatever stands in it (`unescape_escape`). So sources cannot get
out of their attributes, and a page that was made for some sources is the page of no others
(`render_injective`, `render_reads_back`).
-/

namespace AntResources.ScriptTags

/-! ### Reading an attribute value -/

/-- What an attribute value says: each entity is the character that it stands for, and all else is itself. What
an entity stands for is not read again. -/
def unescape : List Char → List Char
  | [] => []
  | '&' :: 'a' :: 'm' :: 'p' :: ';' :: rest => '&' :: unescape rest
  | '&' :: 'l' :: 't' :: ';' :: rest => '<' :: unescape rest
  | '&' :: 'g' :: 't' :: ';' :: rest => '>' :: unescape rest
  | '&' :: '#' :: '3' :: '4' :: ';' :: rest => '"' :: unescape rest
  | '&' :: '#' :: '3' :: '9' :: ';' :: rest => '\'' :: unescape rest
  | c :: rest => c :: unescape rest

example : unescape "&amp;lt;&#34;&lt".toList = "&lt;\"&lt".toList := by decide

theorem unescape_cons_of_ne {c : Char} (h : c ≠ '&') (rest : List Char) :
    unescape (c :: rest) = c :: unescape rest := by
  rw [unescape] <;> rintro _ rfl <;> exact absurd rfl h

/-- What is written for a character is read as this character, whatever follows. -/
theorem unescape_escapeChar_append (c : Char) (rest : List Char) :
    unescape (escapeChar c ++ rest) = c :: unescape rest := by
  fun_cases escapeChar c with
  | case1 | case2 | case3 | case4 | case5 => rfl
  | case6 => exact unescape_cons_of_ne ‹_› rest

theorem unescape_escape (source : String) : unescape (escape source).toList = source.toList := by
  rw [escape, String.toList_ofList]
  induction source.toList with
  | nil => rfl
  | cons c rest ih => rw [List.flatMap_cons, unescape_escapeChar_append, ih]

/-- The characters that end an attribute value, or start or end a tag. -/
def boundaries : List Char := ['"', '\'', '<', '>']

theorem not_mem_escapeChar {mark : Char} (hmark : mark ∈ boundaries) (c : Char) : mark ∉ escapeChar c := by
  fun_cases escapeChar c with
  | case1 | case2 | case3 | case4 | case5 =>
      simp only [boundaries, List.mem_cons, List.not_mem_nil, or_false] at hmark
      rcases hmark with rfl | rfl | rfl | rfl <;> decide
  | case6 _ hlt hgt hdouble hsingle =>
      intro hmem
      obtain rfl := List.mem_singleton.mp hmem
      simp_all [boundaries]

theorem not_mem_escape {mark : Char} (hmark : mark ∈ boundaries) (source : String) :
    mark ∉ (escape source).toList := by
  rw [escape, String.toList_ofList, List.mem_flatMap]
  rintro ⟨c, -, hmem⟩
  exact not_mem_escapeChar hmark c hmem

/-! ### Cutting a page into elements -/

/-- What stands before the value in an element. -/
def opening : List Char := "<script type=\"text/javascript\" src=\"".toList

/-- What stands behind the value in an element. -/
def closing : List Char := "\"></script>".toList

theorem closing_eq : closing = '"' :: "></script>".toList := rfl

/-- The element in which the given value is written. -/
def element (value : List Char) : List Char := opening ++ value ++ closing

/-- The value in the element at the start of a page, and what follows the element. -/
def splitElement? (page : List Char) : Option (List Char × List Char) := do
  let behind ← page.dropPrefix? opening
  let rest ← (behind.dropWhile (· ≠ '"')).dropPrefix? closing
  pure (behind.takeWhile (· ≠ '"'), rest)

/-- An element is cut off, whatever follows it. -/
theorem splitElement?_element_append {value : List Char} (h : '"' ∉ value) (rest : List Char) :
    splitElement? (element value ++ rest) = some (value, rest) := by
  have hpage : element value ++ rest = opening ++ (value ++ (closing ++ rest)) := by simp [element]
  obtain ⟨htake, hdrop⟩ := Text.cut_append h ("></script>".toList ++ rest)
  rw [← List.cons_append, ← closing_eq] at htake hdrop
  rw [splitElement?, hpage, List.dropPrefix?_append_of_beq _ (beq_self_eq_true opening)]
  simp only [Option.bind_eq_bind, Option.bind_some, htake, hdrop,
    List.dropPrefix?_append_of_beq rest (beq_self_eq_true closing), Option.pure_def]

theorem eq_of_splitElement? {page value rest : List Char}
    (h : splitElement? page = some (value, rest)) : '"' ∉ value ∧ page = element value ++ rest := by
  simp only [splitElement?, Option.bind_eq_bind, Option.bind_eq_some_iff, Option.pure_def,
    Option.some.injEq, Prod.mk.injEq, List.dropPrefix?_eq_some_iff, beq_iff_eq] at h
  obtain ⟨behind, ⟨_, rfl, rfl⟩, _, ⟨_, hdrop, rfl⟩, rfl, rfl⟩ := h
  refine ⟨fun hmem => by simpa using List.mem_takeWhile_imp hmem, ?_⟩
  have hbehind := List.takeWhile_append_dropWhile (p := (· ≠ '"')) (l := behind)
  rw [hdrop] at hbehind
  rw [element, List.append_assoc, List.append_assoc, hbehind]

theorem length_of_splitElement? {page value rest : List Char}
    (h : splitElement? page = some (value, rest)) : rest.length < page.length := by
  obtain ⟨-, rfl⟩ := eq_of_splitElement? h
  have hclosing : 0 < closing.length := by decide
  simp only [element, List.length_append]
  omega

/-- The values in the elements of a page, if it is nothing but elements. -/
def values? (page : List Char) : Option (List (List Char)) :=
  match _h : splitElement? page with
  | some (value, rest) => (values? rest).map (value :: ·)
  | none => if page = [] then some [] else none
termination_by page.length
decreasing_by exact length_of_splitElement? _h

theorem values?_flatMap_element {values : List (List Char)} (h : ∀ value ∈ values, '"' ∉ value) :
    values? (values.flatMap element) = some values := by
  induction values with
  | nil => rw [List.flatMap_nil, values?, splitElement?]; rfl
  | cons value values ih =>
      obtain ⟨hvalue, hvalues⟩ := List.forall_mem_cons.mp h
      have hsplit := splitElement?_element_append hvalue (values.flatMap element)
      rw [List.flatMap_cons, values?]
      split
      · next first rest hfirst =>
          obtain ⟨rfl, rfl⟩ := Prod.mk.inj (Option.some.inj (hfirst.symm.trans hsplit))
          rw [ih hvalues]
          rfl
      · next hnone => simp [hsplit] at hnone

/-- **A page is cut into elements** in one way, if it is nothing but elements. -/
theorem values?_eq_some_iff {page : List Char} {values : List (List Char)} :
    values? page = some values ↔ (∀ value ∈ values, '"' ∉ value) ∧ page = values.flatMap element := by
  refine ⟨fun h => ?_, fun ⟨hvalues, hpage⟩ => hpage ▸ values?_flatMap_element hvalues⟩
  fun_induction values? page generalizing values with
  | case1 page value rest hsplit ih =>
      obtain ⟨hvalue, rfl⟩ := eq_of_splitElement? hsplit
      obtain ⟨others, hothers, rfl⟩ := Option.map_eq_some_iff.mp h
      obtain ⟨hall, rfl⟩ := ih hothers
      exact ⟨List.forall_mem_cons.mpr ⟨hvalue, hall⟩, rfl⟩
  | case2 =>
      obtain rfl := Option.some.inj h
      exact ⟨List.forall_mem_nil _, rfl⟩
  | case3 => cases h

/-- The sources of a page of script elements. -/
def sources? (page : String) : Option (List String) :=
  (values? page.toList).map fun values => values.map fun value => String.ofList (unescape value)

/-! ### Pages for sources -/

theorem toList_tag (source : String) : (tag source).toList = element (escape source).toList :=
  (String.toList_append ..).trans (congrArg (· ++ closing) (String.toList_append ..))

theorem toList_render (sources : List String) :
    (render sources).toList = (sources.map fun source => (escape source).toList).flatMap element := by
  simp [render, String.toList_join, List.flatMap_map, toList_tag]

theorem values?_render (sources : List String) :
    values? (render sources).toList = some (sources.map fun source => (escape source).toList) := by
  refine values?_eq_some_iff.mpr ⟨fun value hvalue => ?_, toList_render sources⟩
  obtain ⟨source, -, rfl⟩ := List.mem_map.mp hvalue
  exact not_mem_escape (by decide) source

theorem sources?_render (sources : List String) : sources? (render sources) = some sources := by
  simp [sources?, values?_render, Function.comp_def, unescape_escape]

/-- **Pages tell their sources, and nothing else.** The page for some sources is read back as exactly these, so
that no two lists of sources have the same page. It is a row of elements, one for each source in order; no value in
one has a character in it that ends the value or starts or ends a tag, the entities in it, each read once, give the
source, and there is no other way to see the page as a row of elements. -/
theorem render_reads_back :
    Function.Injective render ∧ ∀ sources, sources? (render sources) = some sources ∧
      ∃ values : List (List Char), (render sources).toList = values.flatMap element ∧
        values.map unescape = sources.map String.toList ∧
        (∀ value ∈ values, ∀ mark ∈ boundaries, mark ∉ value) ∧
        ∀ others, (∀ value ∈ others, '"' ∉ value) → (render sources).toList = others.flatMap element →
          others = values := by
  refine ⟨fun sources others hpage => ?_, fun sources => ⟨sources?_render sources,
    sources.map fun source => (escape source).toList, toList_render sources, ?_, ?_, ?_⟩⟩
  · have hread := sources?_render sources
    rw [hpage, sources?_render others] at hread
    exact (Option.some.inj hread).symm
  · simp [unescape_escape]
  · intro value hvalue mark hmark
    obtain ⟨source, -, rfl⟩ := List.mem_map.mp hvalue
    exact not_mem_escape hmark source
  · intro others hothers hpage
    have hread := values?_eq_some_iff.mpr ⟨hothers, hpage⟩
    rw [values?_render] at hread
    exact (Option.some.inj hread).symm

end AntResources.ScriptTags
