import AntResources.Proofs.Packaging
import AntResources.Proofs.TaskPools

/-!
# AntResources.Proofs.ArchiveScans

**Archives are listed in their order, however they are scanned.** The scans of some archives are tasks
that are numbered in the order of the archives, so by what is known of pools neither the number of
workers nor the order in which scans complete has a part in the result (`gather_eq_ok_iff`): it is the
list of what the archives hold, one archive after the other, without repeats.
-/

namespace AntResources.Source

variable (w : World) (e : Expression) (roots : List ArchiveRoot)

/-! ### The scans as tasks -/

theorem pairwise_index_scanTasks :
    (scanTasks w e roots).Pairwise fun s t => s.index < t.index := by
  have hindexes : (scanTasks w e roots).map Task.index =
      (List.range' 0 roots.length).map Int.ofNat := by
    rw [← List.zipIdx_map_snd 0 roots, scanTasks, List.map_map, List.map_map]
    rfl
  refine List.pairwise_map.mp ?_
  rw [hindexes]
  exact List.pairwise_map.mpr (List.Pairwise.imp Int.ofNat_lt.mpr List.pairwise_lt_range')

theorem map_outcome_scanTasks : (scanTasks w e roots).map Task.outcome = roots.map (scan w e) := by
  have hroots : roots.map (scan w e) = (roots.zipIdx.map Prod.fst).map (scan w e) := by
    rw [List.zipIdx_map_fst]
  rw [hroots, scanTasks, List.map_map, List.map_map]
  rfl

/-! ### The results together -/

variable {w e roots} {workers : Int} {completed : List (Task Failure (List Locator))}

/-- What a listing of archives comes to, if it ends well. -/
theorem gather_eq_ok_iff (hperm : completed.Perm (scanTasks w e roots)) {ls : List Locator} :
    gather workers (scanTasks w e roots) completed = .ok ls ↔
      ∃ scans : List (List Locator), roots.map (scan w e) = scans.map .ok ∧
        ls = Locator.unique scans.flatten := by
  have hrun : ∀ results, TaskPool.run workers (scanTasks w e roots) completed = .ok results ↔
      TaskPool.sequential (scanTasks w e roots) = .ok results := fun results =>
    TaskPool.run_eq_ok_iff hperm (pairwise_index_scanTasks w e roots)
  unfold gather
  rw [bind_eq_ok_iff]
  constructor
  · intro h
    obtain ⟨results, hresults, hls⟩ := h
    have houtcomes := TaskPool.outcomes_of_sequential_eq_ok ((hrun results).mp hresults)
    rw [map_outcome_scanTasks] at houtcomes
    refine ⟨results.map (·.2), houtcomes, ?_⟩
    rw [← List.flatMap_def]
    exact (Except.ok.inj hls).symm
  · intro h
    obtain ⟨scans, hscans, rfl⟩ := h
    have hall : ∀ task ∈ scanTasks w e roots, ∃ value, task.outcome = .ok value := by
      intro task htask
      have hmem : task.outcome ∈ scans.map (Except.ok (ε := Failure)) := by
        rw [← hscans, ← map_outcome_scanTasks]
        exact List.mem_map_of_mem htask
      obtain ⟨value, -, hvalue⟩ := List.mem_map.mp hmem
      exact ⟨value, hvalue.symm⟩
    obtain ⟨results, hresults⟩ := TaskPool.exists_sequential_eq_ok_iff.mpr hall
    have houtcomes := TaskPool.outcomes_of_sequential_eq_ok hresults
    rw [map_outcome_scanTasks, hscans] at houtcomes
    have hvalues : scans = results.map (·.2) :=
      (List.map_inj_right fun _ _ => Except.ok.inj).mp houtcomes
    refine ⟨results, (hrun results).mpr hresults, ?_⟩
    rw [hvalues, ← List.flatMap_def]
    rfl

/-- **What a listing of archives comes to**: the scans one after the other, without repeats. -/
theorem outcome_listArchives_eq_mapM (w : World) (e : Expression) (roots : List ArchiveRoot)
    (workers : Int) : (listArchives w workers e roots).outcome =
      (fun scans => Locator.unique scans.flatten) <$> roots.mapM (scan w e) := by
  have hscans : roots.mapM (scan w e) =
      List.map Prod.snd <$> TaskPool.sequential (scanTasks w e roots) := by
    have hid : ∀ {α : Type} (f : α → Except Failure (List Locator)) (xs : List α),
        xs.mapM f = (xs.map f).mapM id := fun f xs => (List.mapM_map (f := f) (g := id)).symm
    rw [TaskPool.map_snd_sequential, hid, hid Task.outcome, map_outcome_scanTasks]
  rw [outcome_listArchives, gather, TaskPool.run_self (pairwise_index_scanTasks w e roots), hscans]
  cases TaskPool.sequential (scanTasks w e roots) with
  | error failure => rfl
  | ok results => simp [List.flatMap_def, pure, Except.pure]

/-- **The order in which scans complete does not show.** Some archives can be listed exactly if each of
them can be scanned. Then the result is what the scans find, in the order of the archives and without
repeats, for any number of workers and any order of completion, and so also for one worker. Otherwise
the failure is that of a scan that fails. -/
theorem gather_any_order (w : World) (e : Expression) (roots : List ArchiveRoot) (workers : Int)
    (completed : List (Task Failure (List Locator))) (hperm : completed.Perm (scanTasks w e roots)) :
    ((∃ ls, gather workers (scanTasks w e roots) completed = .ok ls) ↔
      ∀ root ∈ roots, ∃ found, scan w e root = .ok found) ∧
    (∀ ls, gather workers (scanTasks w e roots) completed = .ok ls →
      (∃ scans : List (List Locator), roots.map (scan w e) = scans.map .ok ∧
        ls = Locator.unique scans.flatten) ∧
      ∀ others, (listArchives w others e roots).outcome = .ok ls) ∧
    (∀ failure, gather workers (scanTasks w e roots) completed = .error failure →
      ∃ root ∈ roots, scan w e root = .error failure) := by
  refine ⟨?_, fun ls h => ?_, fun failure h => ?_⟩
  · simp only [gather_eq_ok_iff hperm, ← mapM_eq_ok_iff]
    rw [← exists_mapM_eq_ok_iff]
    constructor
    · intro h
      obtain ⟨ls, scans, hscans, -⟩ := h
      exact ⟨scans, hscans⟩
    · intro h
      obtain ⟨scans, hscans⟩ := h
      exact ⟨_, scans, hscans, rfl⟩
  · have hscans := (gather_eq_ok_iff hperm).mp h
    refine ⟨hscans, fun others => ?_⟩
    rw [outcome_listArchives]
    exact (gather_eq_ok_iff (List.Perm.refl _)).mpr hscans
  · have hfails : TaskPool.run workers (scanTasks w e roots) completed = .error failure := by
      unfold gather at h
      cases hrun : TaskPool.run workers (scanTasks w e roots) completed with
      | error f =>
          rw [hrun, error_bind] at h
          rw [Except.error.inj h]
      | ok results =>
          rw [hrun] at h
          cases h
    obtain ⟨task, htask, houtcome⟩ := TaskPool.exists_failing_of_run_eq_error hperm
      (pairwise_index_scanTasks w e roots) hfails
    have hmem : Except.error failure ∈ roots.map (scan w e) := by
      rw [← map_outcome_scanTasks, ← houtcome]
      exact List.mem_map_of_mem htask
    exact List.mem_map.mp hmem

/-- One archive twice, as the root of all its members and as that of a folder in it, the scans of which
complete in the other order. -/
theorem gather_reversed_packedTwice :
    let e : Expression := ⟨"classpath:a/**", false, some "classpath", ["a"], ["**"], false⟩
    let tasks := scanTasks packedTwice e [⟨⟨.relative, ["z.zip"]⟩, "a"⟩, ⟨⟨.relative, ["z.zip"]⟩, ""⟩]
    tasks.reverse.Perm tasks ∧ ∃ ls, gather 4 tasks tasks.reverse = .ok ls ∧
      (listArchives packedTwice 1 e [⟨⟨.relative, ["z.zip"]⟩, "a"⟩,
        ⟨⟨.relative, ["z.zip"]⟩, ""⟩]).outcome = .ok ls := by
  intro e tasks
  obtain ⟨archive, hopen, hheld⟩ := packedTwice_openArchive
  have hnamed := hheld.name_ne_empty ⟨by decide, by unfold AreNames; decide⟩
  have hperm : tasks.reverse.Perm tasks := List.reverse_perm tasks
  obtain ⟨hlisted, hsame, -⟩ := gather_any_order packedTwice e
    [⟨⟨.relative, ["z.zip"]⟩, "a"⟩, ⟨⟨.relative, ["z.zip"]⟩, ""⟩] 4 tasks.reverse hperm
  obtain ⟨ls, hls⟩ := hlisted.mpr fun root hroot => by
    simp only [List.mem_cons, List.not_mem_nil, or_false] at hroot
    rcases hroot with rfl | rfl
    · exact ⟨_, scan_of_openArchive hopen hnamed e "a"⟩
    · exact ⟨_, scan_of_openArchive hopen hnamed e ""⟩
  exact ⟨hperm, ls, hls, (hsame ls hls).2 1⟩

end AntResources.Source
