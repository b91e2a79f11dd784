import AntResources.Proofs.LookupAnswers
import AntResources.Settings.File

/-!
# AntResources.Proofs.SettingsSearch

**Which settings file counts, and what ends the search for it.** The candidates are asked from the nearest
folder up, and all that are neither a settings file (`Settings.Counts`) nor at fault
(`Settings.CandidateFault`) are passed over. The search ends at the first other one: it finds it if it counts
(`Settings.find_eq_some_iff`), and otherwise fails with its fault (`Settings.find_eq_error_iff`).
-/

namespace AntResources

open Toml (Table Value)

namespace Settings

variable {w : World} {p : Path} {t : Table} {v : Value} {fault : Fault}

/-! ### Documents -/

/-- The path leads to a file with the given text. -/
def HasText (w : World) (p : Path) (text : String) : Prop :=
  ∃ bytes, w.tree.contents w.cwd p = .ok (some bytes) ∧ Text.utf8FileText? bytes = some text

/-- What reading a file as a document comes to. -/
inductive Reading (w : World) (p : Path) : Except Fault FileReading → Prop where
  | nul : p.hasNul = true → Reading w p (.error .nulInPath)
  | noFile : w.tree.contents w.cwd p = .ok none → Reading w p (.ok (.unreadable .noFile))
  | notText {bytes : ByteArray} : w.tree.contents w.cwd p = .ok (some bytes) →
      Text.utf8FileText? bytes = none → Reading w p (.error .notText)
  | notToml {text : String} : HasText w p text → Toml.parse text = .error .malformed →
      Reading w p (.ok (.unreadable .notToml))
  | numberTooLong {text : String} : HasText w p text → Toml.parse text = .error .numberTooLong →
      Reading w p (.error .numberTooLong)
  | nestedTooDeep {text : String} : HasText w p text → Toml.parse text = .error .nestedTooDeep →
      Reading w p (.error .nestedTooDeep)
  | table {text : String} {t : Table} : HasText w p text → Toml.parse text = .ok t →
      Reading w p (.ok (.table t))

theorem reading_readTable (w : World) (p : Path) : Reading w p (readTable w p) := by
  unfold readTable
  cases hcontents : w.tree.contents w.cwd p with
  | error fault =>
      obtain ⟨hnul, rfl⟩ := FileTree.contents_eq_error_iff.mp hcontents
      exact .nul hnul
  | ok content? =>
      cases content? with
      | none => exact .noFile hcontents
      | some bytes =>
          rw [ok_bind]
          dsimp only
          cases htext : Text.utf8FileText? bytes with
          | none => exact .notText hcontents htext
          | some text =>
              have htext : HasText w p text := ⟨bytes, hcontents, htext⟩
              dsimp only
              cases hparse : Toml.parse text with
              | ok t => exact .table htext hparse
              | error error =>
                  cases error with
                  | malformed => exact .notToml htext hparse
                  | numberTooLong => exact .numberTooLong htext hparse
                  | nestedTooDeep => exact .nestedTooDeep htext hparse

theorem Reading.eq {result : Except Fault FileReading} (h : Reading w p result) :
    readTable w p = result := by
  unfold readTable
  cases h with
  | nul hnul => rw [FileTree.contents_eq_error_iff.mpr ⟨hnul, rfl⟩, error_bind]
  | noFile hnone =>
      rw [hnone]
      rfl
  | notText hcontents htext =>
      rw [hcontents, ok_bind]
      dsimp only
      rw [htext]
      rfl
  | notToml htext hparse | numberTooLong htext hparse | nestedTooDeep htext hparse
  | table htext hparse =>
      obtain ⟨bytes, hcontents, htext⟩ := htext
      rw [hcontents, ok_bind]
      dsimp only
      rw [htext]
      dsimp only
      rw [hparse]
      rfl

theorem readTable_eq_iff {result : Except Fault FileReading} :
    readTable w p = result ↔ Reading w p result :=
  ⟨fun h => h ▸ reading_readTable w p, Reading.eq⟩

/-- The path leads to a file with a document in it. -/
def HoldsTable (w : World) (p : Path) (t : Table) : Prop := Reading w p (.ok (.table t))

/-- The reading of a document ends with a fault. -/
def DocumentFault (w : World) (p : Path) (fault : Fault) : Prop := Reading w p (.error fault)

/-! ### The section of a project file -/

theorem hasPart_iff {part cs : List Char} : hasPart part cs = true ↔ part <:+: cs := by
  induction cs with
  | nil => simp [hasPart]
  | cons c cs ih => simp [hasPart, List.infix_cons_iff, ih]

/-- Only tables, arrays and texts hold anything. -/
def isContainer : Value → Bool
  | .table _ | .array _ | .string _ => true
  | _ => false

/-- The value holds the name of the section: a table as a key, an array as an item, a text as a part. -/
inductive Mentions : Value → Prop where
  | key {t : Table} {v : Value} : t.get? sectionName = some v → Mentions (.table t)
  | item {items : List Value} : .string sectionName ∈ items → Mentions (.array items)
  | part {s : String} : sectionName.toList <:+: s.toList → Mentions (.string s)

theorem mentionsSection_eq_error_iff :
    mentionsSection v = .error fault ↔ isContainer v = false ∧ fault = .notAContainer := by
  cases v <;> simp [mentionsSection, isContainer, eq_comm]

theorem mentionsSection_eq_true_iff : mentionsSection v = .ok true ↔ Mentions v := by
  constructor
  · intro h
    cases v with
    | table t =>
        obtain ⟨v, hv⟩ := Option.isSome_iff_exists.mp (Except.ok.inj h)
        exact .key hv
    | array items =>
        obtain ⟨item, hitem, hname⟩ := List.any_eq_true.mp (Except.ok.inj h)
        cases item with
        | string s => exact .item (of_decide_eq_true hname ▸ hitem)
        | _ => cases hname
    | string s => exact .part (hasPart_iff.mp (Except.ok.inj h))
    | _ => cases h
  · intro h
    cases h with
    | key hv => simp [mentionsSection, hv]
    | item hitem => exact congrArg _ (List.any_eq_true.mpr ⟨_, hitem, decide_eq_true rfl⟩)
    | part hpart => exact congrArg _ (hasPart_iff.mpr hpart)

theorem hasSection_eq_error_iff : hasSection w p = .error fault ↔
    DocumentFault w p fault ∨ ∃ t tool, HoldsTable w p t ∧ t.get? "tool" = some tool ∧
      isContainer tool = false ∧ fault = .notAContainer := by
  simp only [DocumentFault, HoldsTable, ← readTable_eq_iff, ← mentionsSection_eq_error_iff]
  unfold hasSection
  cases readTable w p with
  | error other => simp
  | ok reading =>
      cases reading with
      | unreadable detail => simp [pure, Except.pure]
      | table t => cases htool : t.get? "tool" <;> simp [htool, pure, Except.pure]

theorem hasSection_eq_true_iff : hasSection w p = .ok true ↔
    ∃ t tool, HoldsTable w p t ∧ t.get? "tool" = some tool ∧ Mentions tool := by
  simp only [HoldsTable, ← readTable_eq_iff, ← mentionsSection_eq_true_iff]
  unfold hasSection
  cases readTable w p with
  | error other => simp
  | ok reading =>
      cases reading with
      | unreadable detail => simp [pure, Except.pure]
      | table t => cases htool : t.get? "tool" <;> simp [htool, pure, Except.pure]

/-! ### Candidates -/

/-- The path leads to a settings file: to one of the files for settings alone, or to a project file with
a section of them. -/
inductive Counts (w : World) (p : Path) : Prop where
  | own : w.tree.isFile w.cwd p = .ok true → p.name ≠ projectFile → Counts w p
  | project {t : Table} {tool : Value} : w.tree.isFile w.cwd p = .ok true → p.name = projectFile →
      HoldsTable w p t → t.get? "tool" = some tool → Mentions tool → Counts w p

/-- The faults with which the search ends at a candidate. -/
inductive CandidateFault (w : World) (p : Path) : Fault → Prop where
  /-- The path is refused. -/
  | refused {fault : Fault} : w.Refuses p fault → CandidateFault w p fault
  /-- The project file cannot be read as a document. -/
  | document {fault : Fault} : w.tree.isFile w.cwd p = .ok true → p.name = projectFile →
      DocumentFault w p fault → CandidateFault w p fault
  /-- What the project file has for `tool` is a number, say. -/
  | notAContainer {t : Table} {tool : Value} : w.tree.isFile w.cwd p = .ok true →
      p.name = projectFile → HoldsTable w p t → t.get? "tool" = some tool →
      isContainer tool = false → CandidateFault w p .notAContainer

/-- The search goes on after a candidate. -/
def IsPassedOver (w : World) (p : Path) : Prop := ¬ Counts w p ∧ ∀ fault, ¬ CandidateFault w p fault

theorem isSettingsFile_eq_error_iff : isSettingsFile w p = .error fault ↔ CandidateFault w p fault := by
  constructor
  · intro h
    cases hfile : w.tree.isFile w.cwd p with
    | error other =>
        rw [isSettingsFile, hfile] at h
        cases h
        exact .refused (FileTree.test_eq_error_iff.mp hfile)
    | ok isFile =>
        rw [isSettingsFile, hfile, ok_bind] at h
        cases isFile with
        | false => cases h
        | true =>
            by_cases hname : p.name = projectFile
            · rw [if_pos rfl, if_pos hname] at h
              rcases hasSection_eq_error_iff.mp h with
                hfault | ⟨t, tool, htable, htool, hnone, rfl⟩
              · exact .document hfile hname hfault
              · exact .notAContainer hfile hname htable htool hnone
            · rw [if_pos rfl, if_neg hname] at h
              cases h
  · intro h
    unfold isSettingsFile
    cases h with
    | refused hrefused =>
        have hfile : w.tree.isFile w.cwd p = .error fault := FileTree.test_eq_error_iff.mpr hrefused
        rw [hfile, error_bind]
    | document hfile hname hfault =>
        rw [hfile, ok_bind, if_pos rfl, if_pos hname]
        exact hasSection_eq_error_iff.mpr (.inl hfault)
    | notAContainer hfile hname htable htool hnone =>
        rw [hfile, ok_bind, if_pos rfl, if_pos hname]
        exact hasSection_eq_error_iff.mpr (.inr ⟨_, _, htable, htool, hnone, rfl⟩)

theorem isSettingsFile_eq_true_iff : isSettingsFile w p = .ok true ↔ Counts w p := by
  constructor
  · intro h
    obtain ⟨isFile, hfile, h⟩ := bind_eq_ok_iff.mp h
    cases isFile with
    | false => cases h
    | true =>
        by_cases hname : p.name = projectFile
        · rw [if_pos rfl, if_pos hname] at h
          obtain ⟨t, tool, htable, htool, hmentions⟩ := hasSection_eq_true_iff.mp h
          exact .project hfile hname htable htool hmentions
        · exact .own hfile hname
  · intro h
    unfold isSettingsFile
    cases h with
    | own hfile hname =>
        rw [hfile, ok_bind, if_pos rfl, if_neg hname]
        rfl
    | project hfile hname htable htool hmentions =>
        rw [hfile, ok_bind, if_pos rfl, if_pos hname]
        exact hasSection_eq_true_iff.mpr ⟨_, _, htable, htool, hmentions⟩

theorem isSettingsFile_eq_false_iff : isSettingsFile w p = .ok false ↔ IsPassedOver w p := by
  simp only [IsPassedOver, ← isSettingsFile_eq_true_iff, ← isSettingsFile_eq_error_iff]
  cases isSettingsFile w p <;> simp

/-- A candidate: a name of settings files in a folder. -/
def candidate (l : Location) (name : String) : Path := Path.ofLocation (l ++ [name])

@[simp] theorem candidate_name (l : Location) (name : String) : (candidate l name).name = name := by
  simp [candidate, Path.ofLocation, Path.name]

/-- What a name in a folder that is there leads to, unless it is a link. -/
theorem lookUp_candidate {t : FileTree} {cwd l : Location} {name : String} (hthere : t.IsThere l)
    (hname : name ∈ fileNames) (hlink : ∀ target, t.child? l name ≠ some (.link target)) :
    t.lookUp cwd (candidate l name) =
      if FileTree.maxPathBytes ≤ (candidate l name).byteLength then .error .tooLong
      else (t.child? l name).elim (.error .absent) .ok := by
  have hnames : ∀ name ∈ fileNames,
      FileTree.isName name = true ∧ name.utf8ByteSize ≤ FileTree.maxNameBytes := by
    decide
  obtain ⟨hisName, hfits⟩ := hnames name hname
  obtain ⟨hempty, hdot, hup, -, hnul⟩ := FileTree.isName_iff.mp hisName
  have hway : t.IsThere ([] ++ l) := hthere
  have hplain : (candidate l name).hasNul = false := by
    rw [candidate, Path.hasNul, Path.ofLocation, List.any_append]
    simpa [hnul, Path.hasNul] using hthere.hasNul .root
  by_cases hlong : FileTree.maxPathBytes ≤ (candidate l name).byteLength
  · rw [if_pos hlong, FileTree.lookUp, FileTree.find, hplain, if_neg Bool.false_ne_true, if_pos hlong]
  · rw [if_neg hlong]
    cases hchild : t.child? l name with
    | none =>
        have hfind : t.find cwd (candidate l name) = .error .absent := by
          rw [FileTree.find, hplain, if_neg Bool.false_ne_true, if_neg hlong,
            FileTree.along_of_ne_nil (by simp [candidate, Path.ofLocation])]
          show t.descend _ [] (l ++ [name]) = _
          rw [FileTree.descend_append, hway.descend, ok_bind]
          exact FileTree.descend_of_child_eq_none _ _ hthere.isOpenAt_self hempty hdot hup hfits hchild
        rw [FileTree.lookUp, hfind]
        rfl
    | some node =>
        have hfind : t.find cwd (candidate l name) = .ok ⟨l ++ [name], FileTree.maxLinks⟩ :=
          hway.find rfl hplain (by omega) hfits hchild fun target h => hlink target (h ▸ hchild)
        have hnode : t.node? (l ++ [name]) = some node := by
          rwa [FileTree.child?, if_pos hisName] at hchild
        rw [FileTree.lookUp, hfind]
        dsimp only
        rw [hnode]
        rfl

/-- A folder without a settings file of some name is passed over as far as that name goes. -/
theorem isPassedOver_of_lacks {l : Location} {name : String} (hthere : w.tree.IsThere l)
    (hname : name ∈ fileNames)
    (hbytes : (Path.ofLocation (l ++ [name])).byteLength < FileTree.maxPathBytes)
    (hlacks : w.tree.child? l name = none) : IsPassedOver w (Path.ofLocation (l ++ [name])) := by
  have hshort : ¬ FileTree.maxPathBytes ≤ (candidate l name).byteLength := Nat.not_le.mpr hbytes
  have hlookUp : w.tree.lookUp w.cwd (candidate l name) = .error .absent := by
    rw [lookUp_candidate hthere hname (by simp [hlacks]), if_neg hshort, hlacks]
    rfl
  have hfile : w.tree.isFile w.cwd (candidate l name) = .ok false := by
    rw [FileTree.isFile, FileTree.test_of_error rfl hlookUp]
  have hnone : isSettingsFile w (candidate l name) = .ok false := by
    rw [isSettingsFile, hfile]
    rfl
  exact isSettingsFile_eq_false_iff.mp hnone

/-! ### The search -/

section Search

variable {start : Path} {ps before rest : List Path}

theorem firstFile_append (h : ∀ q ∈ before, IsPassedOver w q) :
    firstFile w (before ++ rest) = firstFile w rest := by
  induction before with
  | nil => rfl
  | cons q before ih =>
      obtain ⟨hq, hbefore⟩ := List.forall_mem_cons.mp h
      rw [List.cons_append, firstFile, isSettingsFile_eq_false_iff.mpr hq, ok_bind, if_neg (by decide)]
      exact ih hbefore

theorem firstFile_of_counts (h : Counts w p) : firstFile w (p :: rest) = .ok (some p) := by
  rw [firstFile, isSettingsFile_eq_true_iff.mpr h]
  rfl

theorem firstFile_of_fault (h : CandidateFault w p fault) : firstFile w (p :: rest) = .error fault := by
  rw [firstFile, isSettingsFile_eq_error_iff.mpr h]
  rfl

/-- Either all candidates are passed over, or the search ends at the first that is not. -/
theorem firstFile_cases (w : World) (ps : List Path) : firstFile w ps = .ok none ∨
    ∃ before p rest, ps = before ++ p :: rest ∧ (∀ q ∈ before, IsPassedOver w q) ∧
      (firstFile w ps = .ok (some p) ∧ Counts w p ∨
        ∃ fault, firstFile w ps = .error fault ∧ CandidateFault w p fault) := by
  by_cases h : ∃ p ∈ ps, ¬ IsPassedOver w p
  · obtain ⟨before, p, rest, rfl, hbefore, hp⟩ := exists_first h
    have hbefore : ∀ q ∈ before, IsPassedOver w q := fun q hq => not_not.mp (hbefore q hq)
    refine .inr ⟨before, p, rest, rfl, hbefore, ?_⟩
    rw [firstFile_append hbefore]
    -- What is not passed over counts or is at fault.
    by_cases hcounts : Counts w p
    · exact .inl ⟨firstFile_of_counts hcounts, hcounts⟩
    · obtain ⟨fault, hfault⟩ : ∃ fault, CandidateFault w p fault := by
        simpa [IsPassedOver, hcounts] using hp
      exact .inr ⟨fault, firstFile_of_fault hfault, hfault⟩
  · have hall : ∀ q ∈ ps, IsPassedOver w q := by simpa using h
    have hnone := @firstFile_append w ps [] hall
    rw [List.append_nil] at hnone
    exact .inl hnone

/-- The candidates for a folder, those to be preferred first. -/
def candidates (here : Location) : List Path :=
  (upwards here).flatMap fun l => fileNames.map fun name => Path.ofLocation (l ++ [name])

/-- The search from `start` comes to the candidate: it passes over all before it. -/
def ComesTo (w : World) (start p : Path) : Prop :=
  ∃ here before rest, w.tree.realPath w.cwd start = .ok here ∧ candidates here = before ++ p :: rest ∧
    ∀ q ∈ before, IsPassedOver w q

theorem find_of_realPath {here : Location} (h : w.tree.realPath w.cwd start = .ok here) :
    find w start = firstFile w (candidates here) := by
  rw [find, h]
  rfl

/-- **What the search finds.** -/
theorem find_eq_some_iff : find w start = .ok (some p) ↔ ComesTo w start p ∧ Counts w p := by
  constructor
  · intro h
    obtain ⟨here, hhere, hfirst⟩ := bind_eq_ok_iff.mp h
    rcases firstFile_cases w (candidates here) with
      hnone | ⟨before, q, rest, hsplit, hbefore, ⟨hq, hcounts⟩ | ⟨fault, hfault, -⟩⟩
    · cases hfirst.symm.trans hnone
    · cases hfirst.symm.trans hq
      exact ⟨⟨here, before, rest, hhere, hsplit, hbefore⟩, hcounts⟩
    · cases hfirst.symm.trans hfault
  · intro h
    obtain ⟨⟨here, before, rest, hhere, hsplit, hbefore⟩, hcounts⟩ := h
    rw [find_of_realPath hhere, hsplit, firstFile_append hbefore, firstFile_of_counts hcounts]

/-- **How the search fails.** -/
theorem find_eq_error_iff : find w start = .error fault ↔
    w.tree.realPath w.cwd start = .error fault ∨
      ∃ p, ComesTo w start p ∧ CandidateFault w p fault := by
  cases hhere : w.tree.realPath w.cwd start with
  | error other => simp [find, ComesTo, hhere]
  | ok here =>
      constructor
      · intro h
        rw [find_of_realPath hhere] at h
        rcases firstFile_cases w (candidates here) with
          hnone | ⟨before, p, rest, hsplit, hbefore, ⟨hp, -⟩ | ⟨other, hother, hfault⟩⟩
        · cases h.symm.trans hnone
        · cases h.symm.trans hp
        · cases h.symm.trans hother
          exact .inr ⟨p, ⟨here, before, rest, hhere, hsplit, hbefore⟩, hfault⟩
      · intro h
        rcases h with h | ⟨p, ⟨there, before, rest, hthere, hsplit, hbefore⟩, hfault⟩
        · cases h
        · cases hhere.symm.trans hthere
          rw [find_of_realPath hhere, hsplit, firstFile_append hbefore, firstFile_of_fault hfault]

end Search

end Settings

end AntResources
