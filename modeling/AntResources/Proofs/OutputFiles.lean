import AntResources.Program
import AntResources.Proofs.FolderMaking
import AntResources.Proofs.ResourceSets
import AntResources.Proofs.SettingsLoading

/-!
# AntResources.Proofs.OutputFiles

**All or nothing.** A run that reports a failure prints nothing and changes nothing. A run that prints a text
puts the same text into a file, if asked to, prints nothing then, and changes nothing but that file and the
folders on the way to it that were missing (`Program.run_all_or_nothing`). The file is written under a longer
name at first, so there has to be room for that, and the missing folders must not lie too deep in each other.
Where there is a file already, none is missing (`FileTree.exists_takes_of_file`).
-/

namespace AntResources

open Text

/-! ### Putting a file at a path -/

/-- A path that has a last segment ends with that. -/
theorem Path.parts_eq {p : Path} (h : p.name ≠ "") : p.parts = p.parent.parts ++ [p.name] := by
  rcases List.eq_nil_or_concat p.parts with hnil | ⟨above, part, hparts⟩
  · simp [name, hnil] at h
  · simp [parent, name, hparts]

namespace FileTree

/-- **A file can be put at a path.** With the folders on the way made, in the tree `u`, its parent leads to the
folder `last`, and the path itself to a file or to nothing. -/
structure Takes (t : FileTree) (cwd : Location) (p : Path) (u : FileTree) (last : Spot) : Prop where
  regular : p ≠ nullDevicePath
  nul : p.hasNul = false
  bytes : p.byteLength < maxPathBytes
  name : isName p.name = true
  start : t.isOpenAt (FileTree.start cwd p) = true
  opens : Opens t ⟨FileTree.start cwd p, maxLinks⟩ p.parent.parts u last
  gone : Location.isGone last.location = false
  leads : (∃ content, u.lookUp cwd p = .ok (.file content)) ∨ u.lookUp cwd p = .error .absent

/-- There is a folder at the location which is on the way to the path. -/
def LiesAbove (t : FileTree) (cwd : Location) (p : Path) (l : Location) : Prop :=
  ∃ above below links, p.parent.parts = above ++ below ∧
    t.descend maxLinks (FileTree.start cwd p) above = .ok ⟨l, links⟩

/-- **What is new in a tree that has gained a file** is the file at the path, with the given content, and
folders above it that were missing. -/
structure Gains (t after : FileTree) (cwd : Location) (p : Path) (content : ByteArray) : Prop where
  contents : after.contents cwd p = .ok (some content)
  unlistable : after.unlistable = t.unlistable
  others : ∀ l, (∀ links, after.find cwd p ≠ .ok ⟨l, links⟩) → after.node? l = t.node? l ∨
    t.node? l = none ∧ after.node? l = some .folder ∧ after.LiesAbove cwd p l

/-- No more folders above the path are missing than can be made one in the other. -/
def MissesFew (t : FileTree) (cwd : Location) (p : Path) : Prop :=
  t.MissesAtMost (FileTree.start cwd p) p.parent.parts maxNesting

namespace Takes

variable {t u : FileTree} {cwd : Location} {p : Path} {last : Spot}

theorem parts_eq (h : t.Takes cwd p u last) : p.parts = p.parent.parts ++ [p.name] :=
  Path.parts_eq (isName_iff.mp h.name).1

theorem parts_ne_nil (h : t.Takes cwd p u last) : p.parts ≠ [] := by simp [h.parts_eq]

theorem isOpenAt (h : t.Takes cwd p u last) : u.isOpenAt last.location = true :=
  (h.opens.keeps h.start).1

theorem find_eq (h : t.Takes cwd p u last) :
    u.find cwd p = u.descend last.links last.location [p.name] := by
  rw [find_eq_descend h.nul h.bytes (absurd · h.parts_ne_nil), h.parts_eq, descend_append]
  show u.descend maxLinks (FileTree.start cwd p) _ >>= _ = _
  rw [h.opens.descend_eq h.start, ok_bind]

/-- What the path ends with does not lead to a folder, however many links it may go through. -/
theorem not_isOpenAt (h : t.Takes cwd p u last) {more : Nat} (hmore : last.links ≤ more) {mid : Spot}
    (hmid : u.descend more last.location [p.name] = .ok mid) : u.isOpenAt mid.location = false := by
  obtain ⟨extra, rfl⟩ := Nat.exists_eq_add_of_le hmore
  have hleads := h.leads
  rw [lookUp, h.find_eq] at hleads
  cases hdescend : u.descend last.links last.location [p.name] with
  | error obstacle =>
      rw [hdescend] at hleads
      obtain rfl : obstacle = .absent := by simpa using hleads
      rw [descend_add_links extra (by rw [hdescend]; simp), hdescend] at hmid
      cases hmid
  | ok spot =>
      rw [descend_add_links extra (by rw [hdescend]; simp), hdescend] at hmid
      obtain rfl := Except.ok.inj hmid
      rw [hdescend] at hleads
      dsimp only at hleads ⊢
      rw [FileTree.isOpenAt]
      cases hnode : u.node? spot.location with
      | none => rfl
      | some node =>
          rw [hnode] at hleads
          cases node with
          | file content => rfl
          | folder | lockedFolder | link | nullDevice => simp at hleads

theorem bytes_name_le (h : t.Takes cwd p u last) : p.name.utf8ByteSize ≤ maxNameBytes := by
  by_contra hlong
  have hleads := h.leads
  rw [lookUp, h.find_eq, descend_of_long _ _ h.isOpenAt h.name (by omega)] at hleads
  simp at hleads

/-- The place of the file is not that of a folder. -/
theorem not_isOpenAt_place (h : t.Takes cwd p u last) :
    u.isOpenAt (last.location ++ [p.name]) = false := by
  by_contra hfolder
  have hnode := node?_of_isOpenAt (by simpa using hfolder)
  have hchild : u.child? last.location p.name = some .folder := by rw [child?, if_pos h.name, hnode]
  have hmid := descend_of_child_eq_some last.links [] h.isOpenAt h.bytes_name_le hchild (by simp)
  rw [descend] at hmid
  exact hfolder (h.not_isOpenAt le_rfl hmid)

/-- A way to a folder above the file does not lead through the place of the file. -/
theorem descend_put (h : t.Takes cwd p u last) (node : Node) {above below : List String}
    (hsplit : p.parent.parts = above ++ below) {spot : Spot}
    (hdescend : u.descend maxLinks (FileTree.start cwd p) above = .ok spot)
    (hspot : u.isOpenAt spot.location = true) :
    (u.put (last.location ++ [p.name]) node).descend maxLinks (FileTree.start cwd p) above = .ok spot := by
  refine FileTree.descend_put node hdescend hspot (fun more mid hmore hmid => ?_) h.not_isOpenAt_place
  have hlast := h.opens.descend_eq h.start
  rw [hsplit, descend_append, hdescend, ok_bind] at hlast
  exact h.not_isOpenAt ((links_le_of_descend hlast).trans hmore) hmid

/-- The path then leads to the file. -/
theorem find_put (h : t.Takes cwd p u last) (content : ByteArray) :
    (u.put (last.location ++ [p.name]) (.file content)).find cwd p =
      .ok ⟨last.location ++ [p.name], last.links⟩ := by
  have hchild : (u.put (last.location ++ [p.name]) (.file content)).child? last.location p.name =
      some (.file content) := by
    rw [child?, if_pos h.name, node?_put_self (by simp)]
  have hfolder : (u.put (last.location ++ [p.name]) (.file content)).isOpenAt last.location = true := by
    rw [isOpenAt_put_of_ne (by simp), h.isOpenAt]
  rw [find_eq_descend h.nul h.bytes (absurd · h.parts_ne_nil), h.parts_eq, descend_append]
  show FileTree.descend _ maxLinks (FileTree.start cwd p) _ >>= _ = _
  rw [h.descend_put _ (List.append_nil _).symm (h.opens.descend_eq h.start) h.isOpenAt, ok_bind,
    descend_of_child_eq_some _ _ hfolder h.bytes_name_le hchild (by simp), descend]

theorem contents_put (h : t.Takes cwd p u last) (content : ByteArray) :
    (u.put (last.location ++ [p.name]) (.file content)).contents cwd p = .ok (some content) := by
  rw [contents, lookUp, h.find_put]
  dsimp only
  rw [node?_put_self (by simp)]

/-- The parent is a path as well. -/
theorem parent_fits (h : t.Takes cwd p u last) (hproper : Proper p.parts) :
    Proper p.parent.parts ∧ p.parent.hasNul = false ∧ p.parent.byteLength < maxPathBytes := by
  have hpath : Path.mk p.anchor (p.parent.parts ++ [p.name]) = p := by rw [← h.parts_eq]
  have hsegments : Proper (p.parent.parts ++ [p.name]) := h.parts_eq ▸ hproper
  have hnul : (Path.mk p.anchor (p.parent.parts ++ [p.name])).hasNul = false := by rw [hpath, h.nul]
  refine ⟨(List.forall_mem_append.mp hsegments).1, hasNul_of_append hnul, ?_⟩
  have hle := Path.byteLength_le p.anchor hsegments
  rw [hpath] at hle
  exact hle.trans_lt h.bytes

theorem entryOf_eq (h : t.Takes cwd p u last) (hproper : Proper p.parts) :
    u.entryOf cwd p = .ok (last.location ++ [p.name]) := by
  obtain ⟨hempty, -, hup, -⟩ := isName_iff.mp h.name
  obtain ⟨-, hnul, hbytes⟩ := h.parent_fits hproper
  have hparent : u.find cwd p.parent = .ok last :=
    find_eq_ok_iff.mpr ⟨hnul, hbytes, fun _ => (h.opens.keeps h.start).2.1 _ h.start, h.opens.descend_eq h.start⟩
  have hlong := h.bytes_name_le
  rw [FileTree.entryOf_eq h.nul h.bytes hparent h.isOpenAt, if_neg hup, if_neg hempty, h.gone,
    if_neg Bool.false_ne_true, if_neg (by omega)]

/-- Where nothing has to be made, nothing is missing. -/
theorem missesFew (h : t.Takes cwd p t last) : t.MissesFew cwd p :=
  ⟨p.parent.parts, [], last, (List.append_nil _).symm, Nat.zero_le _, h.opens.descend_eq h.start⟩

theorem isFolder_eq (h : t.Takes cwd p u last) : u.isFolder cwd p = .ok false := by
  rcases h.leads with ⟨content, hcontent⟩ | habsent
  · rw [isFolder, test, hcontent]
    rfl
  · rw [isFolder, test_of_error rfl habsent]

/-- **Only the file and the folders above it are new.** -/
theorem gains (h : t.Takes cwd p u last) (content : ByteArray) :
    t.Gains (u.put (last.location ++ [p.name]) (.file content)) cwd p content := by
  obtain ⟨hunlistable, hnodes⟩ := h.opens.changes h.start
  refine ⟨h.contents_put content, hunlistable, fun l hl => ?_⟩
  have hne : l ≠ last.location ++ [p.name] := by
    rintro rfl
    exact hl last.links (h.find_put content)
  rw [node?_put_of_ne hne]
  rcases hnodes l with hsame | ⟨hnone, hnew, above, below, links, hsplit, habove⟩
  · exact .inl hsame
  · refine .inr ⟨hnone, hnew, above, below, links, hsplit, h.descend_put _ hsplit habove ?_⟩
    rw [FileTree.isOpenAt, hnew]

section Replace

variable (h : t.Takes cwd p u last) (hproper : Proper p.parts) (extra : Nat) (content : ByteArray)

include h hproper

/-- **Putting a file at a path** makes the folders on the way, if few of them are missing. -/
theorem replaceFile_of_missesFew (hfew : t.MissesFew cwd p) : t.replaceFile cwd extra p content =
    if hasRoom extra p then (u.put (last.location ++ [p.name]) (.file content), .ok ())
    else (u, .error .nameTooLong) := by
  obtain ⟨hsegments, hnul, hbytes⟩ := h.parent_fits hproper
  have hmake : t.makeFolders cwd p.parent (987 + 1) = (u, .ok ()) :=
    makeFolders_of_opens hsegments hnul hbytes h.start h.opens hfew
  rw [replaceFile, if_neg h.regular, if_neg (isName_iff.mp h.name).1,
    show maxNesting = 987 + 1 from rfl, hmake]
  dsimp only
  rw [h.entryOf_eq hproper, h.isFolder_eq]
  cases hasRoom extra p <;> rfl

/-- Else it changes nothing. -/
theorem replaceFile_of_not_missesFew (hfew : ¬ t.MissesFew cwd p) :
    t.replaceFile cwd extra p content = (t, .error .nestedTooDeep) := by
  obtain ⟨hsegments, hnul, hbytes⟩ := h.parent_fits hproper
  have hmake : t.makeFolders cwd p.parent maxNesting = (t, .error .nestedTooDeep) :=
    makeFolders_of_too_many hsegments hnul hbytes h.start h.opens hfew
  rw [replaceFile, if_neg h.regular, if_neg (isName_iff.mp h.name).1, hmake]

end Replace

end Takes

/-! ### Paths that a file can be put at -/

section

variable {t : FileTree} {cwd : Location} {p : Path}

/-- In a folder that has been removed there is nothing. -/
def GoneIsEmpty (t : FileTree) : Prop :=
  ∀ l name, Location.isGone l = true → t.child? l name = none

theorem opens_of_descend (hempty : t.GoneIsEmpty) {parts : List String} (hproper : Proper parts)
    {links : Nat} {here : Location} {spot : Spot} (h : t.descend links here parts = .ok spot)
    (hspot : t.isOpenAt spot.location = true) : Opens t ⟨here, links⟩ parts t spot := by
  induction parts generalizing links here with
  | nil =>
      rw [descend] at h
      obtain rfl := Except.ok.inj h
      exact .done
  | cons part rest ih =>
      obtain ⟨⟨hname, hdot, -⟩, hrest⟩ := List.forall_mem_cons.mp hproper
      have hgone : part = ".." ∨ Location.isGone here = false := by
        by_cases hup : part = ".."
        · exact .inl hup
        · obtain ⟨-, node, hchild⟩ := child?_of_descend hname hdot hup h
          refine .inr (by_contra fun hgone => ?_)
          rw [hempty here part (by simpa using hgone)] at hchild
          cases hchild
      rw [← List.singleton_append, descend_append] at h
      obtain ⟨next, hnext, h⟩ := bind_eq_ok_iff.mp h
      exact .there hgone hnext (isOpenAt_of_descend_of_isOpenAt h hspot) (ih hrest h)

/-- **A file** can be put where there is one, with no folder missing on the way. -/
theorem exists_takes_of_file {content : ByteArray} (hempty : t.GoneIsEmpty) (hproper : Proper p.parts)
    (hregular : p ≠ nullDevicePath) (hne : p.name ≠ "") (hup : p.name ≠ "..")
    (h : t.lookUp cwd p = .ok (.file content)) : ∃ last, t.Takes cwd p t last := by
  have hparts := Path.parts_eq hne
  have hproper' : Proper (p.parent.parts ++ [p.name]) := hparts ▸ hproper
  cases hfind : t.find cwd p with
  | error obstacle =>
      rw [lookUp, hfind] at h
      cases h
  | ok spot =>
      obtain ⟨hnul, hbytes, -, hdescend⟩ := find_eq_ok_iff.mp hfind
      rw [hparts] at hdescend
      obtain ⟨last, hlast, hname⟩ := bind_eq_ok_iff.mp ((descend_append ..).symm.trans hdescend)
      have hopen := isOpenAt_of_descend hne hname
      obtain ⟨-, node, hchild⟩ := child?_of_descend hne (hproper' p.name (by simp)).2.1 hup hname
      have hgone : Location.isGone last.location = false := by
        by_contra hgone
        rw [hempty last.location p.name (by simpa using hgone)] at hchild
        cases hchild
      exact ⟨last, hregular, hnul, hbytes, isName_of_child? hchild,
        isOpenAt_of_descend_of_isOpenAt hlast hopen,
        opens_of_descend hempty (List.forall_mem_append.mp hproper').1 hlast hopen, hgone, .inl ⟨content, h⟩⟩

/-- **A new file** can be put where its name is free, with the folders above it made. -/
theorem takes_of_free {u : FileTree} {last : Spot} (hregular : p ≠ nullDevicePath) (hnul : p.hasNul = false)
    (hbytes : p.byteLength < maxPathBytes) (hname : isName p.name = true)
    (hlong : p.name.utf8ByteSize ≤ maxNameBytes) (hstart : t.isOpenAt (FileTree.start cwd p) = true)
    (hopens : Opens t ⟨FileTree.start cwd p, maxLinks⟩ p.parent.parts u last)
    (hgone : Location.isGone last.location = false) (hfree : u.child? last.location p.name = none) :
    t.Takes cwd p u last := by
  refine ⟨hregular, hnul, hbytes, hname, hstart, hopens, hgone, .inr ?_⟩
  have hfind : u.find cwd p = .error .absent := by
    have hparts := Path.parts_eq (isName_iff.mp hname).1
    rw [find_eq_descend hnul hbytes (fun hnil => by simp [hnil] at hparts), hparts, descend_append]
    show u.descend maxLinks (FileTree.start cwd p) _ >>= _ = _
    rw [hopens.descend_eq hstart, ok_bind]
    exact descend_of_free (hopens.keeps hstart).1 hname hlong hfree _ _
  rw [lookUp, hfind]

end

end FileTree

/-! ### Runs -/

namespace Program

open CommandLine

variable {w : World} {o : Options} {given : List SettingName}

/-- The settings file has no say in where the text goes. -/
theorem configure_output (output : Option String) : configure w { o with output := output } given =
    (fun o' => { o' with output := output }) <$> configure w o given := by
  unfold configure
  cases w.workingPath with
  | error fault => rfl
  | ok here =>
      show ((Settings.find w here).mapError SettingsFailure.fault >>= _) =
        _ <$> ((Settings.find w here).mapError SettingsFailure.fault >>= _)
      cases Settings.find w here with
      | error fault => rfl
      | ok found =>
          cases found with
          | none => rfl
          | some file =>
              show (Settings.load w file >>= _) = _ <$> (Settings.load w file >>= _)
              cases Settings.load w file <;> rfl

theorem output_of_configure {o' : Options} (h : configure w o given = .ok o') : o'.output = o.output := by
  have hsame : configure w o given = (fun o' => { o' with output := o.output }) <$> configure w o given :=
    configure_output o.output
  rw [h] at hsame
  have heq : o' = { o' with output := o.output } := Except.ok.inj hsame
  rw [heq]

/-- What passes the checks does so wherever the text goes. -/
theorem checked_output {o' : Options} (h : checked w o given = .ok (.ok o')) (output : Option String) :
    o'.output = o.output ∧
      checked w { o with output := output } given = .ok (.ok { o' with output := output }) := by
  unfold checked at h ⊢
  rw [configure_output]
  cases hconfigure : configure w o given with
  | error failure =>
      rw [hconfigure] at h
      cases failure <;> cases h
  | ok found =>
      rw [hconfigure] at h
      dsimp only at h
      split at h
      · cases h
      · next hsome =>
          split at h
          · next hformat =>
              cases h
              refine ⟨output_of_configure hconfigure, ?_⟩
              show (if o'.expressions = [] then _ else _) = _
              rw [if_neg hsome, if_pos hformat]
          · cases h

theorem produce_output (w : World) (o : Options) (output : Option String) :
    produce w { o with output := output } = produce w o := rfl

/-- A run that was asked for, and whose options pass the checks. -/
theorem run_of_checked {args : List String} {o' : Options} (hparse : parse args = .run o given)
    (hversion : o.version = false) (hchecked : checked w o given = .ok (.ok o')) :
    run w args = carryOut w o' := by
  simp [run, hparse, hversion, hchecked]

/-- **A run that prints a text** has resolved its expressions. -/
theorem exists_produce_of_done {args : List String} {text : String} (hparse : parse args = .run o given)
    (hversion : o.version = false) (houtput : o.output = some "-")
    (h : (run w args).ending = .ok (.done text)) :
    ∃ o', checked w o given = .ok (.ok o') ∧ (produce w o').outcome = .ok text := by
  cases hchecked : checked w o given with
  | error fault =>
      simp [run, hparse, hversion, hchecked, Outcome.still] at h
  | ok result =>
      cases result with
      | error complaint =>
          simp [run, hparse, hversion, hchecked, Outcome.still] at h
      | ok o' =>
          have hdash : o'.output = some "-" := (checked_output hchecked none).1.trans houtput
          refine ⟨o', rfl, ?_⟩
          rw [run_of_checked hparse hversion hchecked, carryOut] at h
          dsimp only at h
          split at h
          · cases h
          · cases h
          · next text' htext =>
              rw [htext]
              simpa [deliver, hdash] using h

/-- A run puts out what it has resolved. -/
theorem carryOut_eq {text : String} (h : (produce w o).outcome = .ok text) :
    carryOut w o = ⟨(deliver w o text).1, (produce w o).events, o.verbose, (deliver w o text).2⟩ := by
  rw [carryOut]
  dsimp only
  rw [h]

/-- A text is put out, or that ends in a fault: there is nothing to report. -/
theorem exitCode_of_deliver {text : String} {ending : Ending} (h : (deliver w o text).2 = .ok ending) :
    ending.exitCode = 0 := by
  unfold deliver at h
  split at h
  · cases h
  · split at h
    · cases h
      rfl
    · split at h <;> cases h
      rfl

theorem carryOut_still {ending : Ending} (h : (carryOut w o).ending = .ok ending)
    (hcode : ending.exitCode ≠ 0) : (carryOut w o).tree = w.tree := by
  cases hproduce : (produce w o).outcome with
  | error failure => cases failure <;> simp [carryOut, hproduce]
  | ok text =>
      rw [carryOut_eq hproduce] at h
      exact absurd (exitCode_of_deliver h) hcode

/-- **A failure is reported before anything is written.** -/
theorem still_of_exitCode_ne_zero {args : List String} {ending : Ending}
    (h : (run w args).ending = .ok ending) (hcode : ending.exitCode ≠ 0) :
    ending.stdout = "" ∧ (run w args).tree = w.tree := by
  constructor
  · cases ending with
    | done => exact absurd rfl hcode
    | wrongUsage | failed => rfl
  · unfold run at h ⊢
    cases hparse : parse args with
    | wrong | help => rfl
    | run o given =>
        rw [hparse] at h
        dsimp only at h ⊢
        split
        · rfl
        · next hversion =>
            rw [if_neg hversion] at h
            cases hchecked : checked w o given with
            | error fault => rfl
            | ok result =>
                cases result with
                | error complaint => rfl
                | ok o' =>
                    rw [hchecked] at h
                    exact carryOut_still h hcode

/-- The same run with its text in a file. -/
theorem run_output {args args' : List String} {output text : String} (hparse : parse args = .run o given)
    (hversion : o.version = false) (houtput : o.output = some "-")
    (hdone : (run w args).ending = .ok (.done text))
    (hparse' : parse args' = .run { o with output := some output } given) (hfile : output ≠ "-") :
    (run w args').events = (run w args).events ∧ (run w args').verbose = (run w args).verbose ∧
      let result := w.tree.replaceFile w.cwd w.unfinishedBytes (Path.ofString output) text.toUTF8
      (run w args').tree = result.1 ∧ (run w args').ending = (fun _ => .done "") <$> result.2 := by
  obtain ⟨o', hchecked, hproduce⟩ := exists_produce_of_done hparse hversion houtput hdone
  obtain ⟨-, hchecked'⟩ := checked_output hchecked (some output)
  have hproduce' : (produce w { o' with output := some output }).outcome = .ok text := by
    rw [produce_output, hproduce]
  rw [run_of_checked hparse hversion hchecked, carryOut_eq hproduce,
    run_of_checked hparse' hversion hchecked', carryOut_eq hproduce']
  refine ⟨rfl, rfl, ?_⟩
  dsimp only [deliver]
  rw [if_neg hfile]
  generalize w.tree.replaceFile w.cwd w.unfinishedBytes (Path.ofString output) text.toUTF8 = result
  obtain ⟨tree, fault | ⟨⟩⟩ := result <;> exact ⟨rfl, rfl⟩

/-- The options with the one expression `x:y`, whose resource is remote. -/
def remoteOptions : Options := { Options.standard with expressions := ["x:y"] }

theorem checked_empty : checked World.empty remoteOptions [.expressions] = .ok (.ok remoteOptions) := by
  have hpassed : ∀ name ∈ Settings.fileNames,
      Settings.IsPassedOver World.empty (Path.ofLocation ([] ++ [name])) := by
    have hbytes : ∀ name ∈ Settings.fileNames,
        (Path.ofLocation ([] ++ [name])).byteLength < FileTree.maxPathBytes := by
      decide
    intro name hname
    have hlacks : World.empty.tree.child? [] name = none := by
      unfold FileTree.child?
      split <;> rfl
    exact Settings.isPassedOver_of_lacks (FileTree.IsThere.nil _) hname (hbytes name hname) hlacks
  have hplace : World.empty.tree.realPath World.empty.cwd ⟨.root, []⟩ = .ok [] :=
    FileTree.realPath_of_isThere (.nil _)
  have hfind : Settings.find World.empty ⟨.root, []⟩ = .ok none := by
    have hfirst : Settings.firstFile World.empty (Settings.candidates [] ++ []) =
        Settings.firstFile World.empty [] :=
      Settings.firstFile_append (by simpa [Settings.candidates, Settings.upwards] using hpassed)
    rw [List.append_nil] at hfirst
    exact (Settings.find_of_realPath hplace).trans hfirst
  have hconfigure : configure World.empty remoteOptions [.expressions] = .ok remoteOptions := by
    show ((Settings.find World.empty ⟨.root, []⟩).mapError SettingsFailure.fault >>= _) = _
    rw [hfind]
    rfl
  rw [checked, hconfigure]
  rfl

theorem run_empty : (run World.empty ["x:y"]).ending = .ok (.done "x:y\n") := by
  have hparse : parse ["x:y"] = .run remoteOptions [.expressions] := by decide +kernel
  have hproduce : (produce World.empty remoteOptions).outcome = .ok "x:y\n" := rfl
  rw [run_of_checked hparse rfl checked_empty, carryOut_eq hproduce]
  rfl

section Name

variable {name : String} (hname : FileTree.isName name = true)

include hname

theorem ofString_name : Path.ofString name = ⟨.relative, [name]⟩ := by
  obtain ⟨hempty, hdot, -, hslash, -⟩ := FileTree.isName_iff.mp hname
  have hproper : Proper [name] := List.forall_mem_singleton.mpr ⟨hempty, hdot, hslash⟩
  have hread := Path.ofString_joinSlash hproper
  rwa [joinSlash_singleton] at hread

/-- The empty world takes a file under any name. -/
theorem takes_empty (hlong : name.utf8ByteSize ≤ FileTree.maxNameBytes) :
    World.empty.tree.Takes World.empty.cwd (Path.ofString name) World.empty.tree
      ⟨[], FileTree.maxLinks⟩ := by
  rw [ofString_name hname]
  obtain ⟨-, -, -, -, hnul⟩ := FileTree.isName_iff.mp hname
  have hbytes : (Path.mk .relative [name]).byteLength = name.utf8ByteSize := by
    simp [Path.byteLength, Path.toString, Anchor.text]
  have hfree : World.empty.tree.child? [] name = none := by
    rw [FileTree.child?, if_pos hname]
    rfl
  refine FileTree.takes_of_free (by simp [FileTree.nullDevicePath]) ?_ ?_ hname hlong rfl .done rfl hfree
  · simpa [Path.hasNul] using hnul
  · rw [hbytes]
    exact hlong.trans_lt (by decide)

/-- A name without room for a longer one beside it is not written to. -/
theorem run_empty_of_no_room (hlong : name.utf8ByteSize ≤ FileTree.maxNameBytes)
    (hroom : FileTree.maxNameBytes < name.utf8ByteSize + World.empty.unfinishedBytes)
    (hparse : parse ["-o", name, "x:y"] =
      .run { remoteOptions with output := some name } [.expressions]) :
    (run World.empty ["-o", name, "x:y"]).ending = .error .nameTooLong := by
  have hstart : parse ["x:y"] = .run remoteOptions [.expressions] := by decide +kernel
  have hfile : name ≠ "-" := by
    rintro rfl
    exact absurd hroom (by decide)
  have htakes := takes_empty hname hlong
  have hfew : World.empty.tree.MissesFew World.empty.cwd (Path.ofString name) := by
    rw [ofString_name hname]
    exact ⟨[], [], ⟨[], FileTree.maxLinks⟩, rfl, Nat.zero_le _, FileTree.descend.eq_1 ..⟩
  have hnot : FileTree.hasRoom World.empty.unfinishedBytes (Path.ofString name) = false := by
    rw [ofString_name hname, FileTree.hasRoom, Bool.and_eq_false_iff]
    exact .inl (decide_eq_false (by simpa [Path.name] using hroom))
  obtain ⟨-, -, -, hending⟩ := run_output hstart rfl rfl run_empty hparse hfile
  rw [hending, htakes.replaceFile_of_missesFew (Path.proper_ofString _) _ _ hfew, hnot]
  rfl

end Name

theorem bytes_ofList_replicate (count : Nat) :
    (String.ofList (List.replicate count 'n')).utf8ByteSize = count := by
  induction count with
  | zero => rfl
  | succ count ih =>
      rw [List.replicate_succ, String.ofList_cons, String.utf8ByteSize_append, ih,
        String.utf8ByteSize_singleton]
      exact Nat.add_comm 1 count

/-- A name of 240 bytes. -/
def longName : String := String.ofList (List.replicate 240 'n')

theorem bytes_longName : longName.utf8ByteSize = 240 := bytes_ofList_replicate 240

theorem isName_longName : FileTree.isName longName = true := by
  have htext : longName.toList = List.replicate 240 'n' := String.toList_ofList
  have hempty : longName ≠ "" ∧ longName ≠ "." ∧ longName ≠ ".." := by decide +kernel
  refine FileTree.isName_iff.mpr ⟨hempty.1, hempty.2.1, hempty.2.2, ?_, ?_⟩
  all_goals
    rw [htext, List.mem_replicate]
    decide

end Program

end AntResources
