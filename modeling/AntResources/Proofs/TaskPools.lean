import Mathlib.Data.List.Nodup
import Mathlib.Data.List.Perm.Basic
import AntResources.Proofs.Sequencing
import AntResources.TaskPool

/-!
# AntResources.Proofs.TaskPools

**The order in which tasks complete leaves no trace in their results.** A pool enters each result under
the number of its task, and numbers are not used twice, so what it has collected in the end is what the
tasks come to one by one, in the order of their completion (`collect_eq`). Sorting by number then gives
the same list for every such order (`pooled_eq_ok_iff`), namely that of a run in which one task follows
the other. A failure is that of some task in both cases (`exists_failing_of_run_eq_error`).

Tasks that do not stand in the order of their numbers are where the two ways of running them come
apart: one after the other they leave their results as they stand (`results_of_run`).
-/

namespace AntResources

variable {ε α : Type}

/-- What a task comes to, under its number. -/
def Task.result (task : Task ε α) : Except ε (Int × α) := (task.index, ·) <$> task.outcome

theorem Task.result_eq_ok_iff {task : Task ε α} {r : Int × α} :
    task.result = .ok r ↔ task.index = r.1 ∧ task.outcome = .ok r.2 := by
  obtain ⟨i, v⟩ := r
  rw [result, map_eq_ok_iff]
  constructor
  · intro h
    obtain ⟨value, hvalue, hr⟩ := h
    obtain ⟨rfl, rfl⟩ := Prod.mk.inj hr
    exact ⟨rfl, hvalue⟩
  · intro h
    obtain ⟨rfl, hvalue⟩ := h
    exact ⟨v, hvalue, rfl⟩

/-- The task that succeeds with the value of a result, under its number. -/
def Task.succeeding (r : Int × α) : Task ε α := ⟨r.1, .ok r.2⟩

/-- Steps in another order have the same results, in another order. -/
theorem exists_perm_of_mapM_eq_ok {α β : Type} {f : α → Except ε β} {xs ys : List α}
    {rs : List β} (hperm : xs.Perm ys) (h : xs.mapM f = .ok rs) :
    ∃ ss, ys.mapM f = .ok ss ∧ rs.Perm ss := by
  have hall := exists_mapM_eq_ok_iff.mp ⟨rs, h⟩
  obtain ⟨ss, hss⟩ := exists_mapM_eq_ok_iff.mpr fun y hy => hall y (hperm.mem_iff.mpr hy)
  refine ⟨ss, hss, ?_⟩
  have hmap : (rs.map (Except.ok (ε := ε))).Perm (ss.map .ok) := by
    rw [← mapM_eq_ok_iff.mp h, ← mapM_eq_ok_iff.mp hss]
    exact hperm.map f
  exact (List.map_perm_map_iff fun _ _ => Except.ok.inj).mp hmap

namespace TaskPool

/-! ### One after the other -/

theorem sequential_eq_mapM (tasks : List (Task ε α)) : sequential tasks = tasks.mapM Task.result := by
  induction tasks with
  | nil => rfl
  | cons task rest ih =>
      rw [List.mapM_cons, sequential, ih, Task.result]
      cases task.outcome <;> rfl

/-- The results of a run carry the numbers of its tasks. -/
theorem map_fst_of_mapM_result {tasks : List (Task ε α)} {results : List (Int × α)}
    (h : tasks.mapM Task.result = .ok results) : results.map (·.1) = tasks.map Task.index := by
  induction tasks generalizing results with
  | nil =>
      obtain rfl : [] = results := Except.ok.inj h
      rfl
  | cons task rest ih =>
      rw [List.mapM_cons, bind_eq_ok_iff] at h
      obtain ⟨r, hr, hrest⟩ := h
      obtain ⟨others, hothers, hresults⟩ := bind_eq_ok_iff.mp hrest
      obtain rfl : r :: others = results := Except.ok.inj hresults
      rw [List.map_cons, List.map_cons, ih hothers, (Task.result_eq_ok_iff.mp hr).1]

/-- The outcomes of the tasks of a run that ends well. -/
theorem outcomes_of_sequential_eq_ok {tasks : List (Task ε α)} {results : List (Int × α)}
    (h : sequential tasks = .ok results) :
    tasks.map Task.outcome = (results.map (·.2)).map .ok := by
  rw [sequential_eq_mapM, mapM_eq_ok_iff] at h
  have hvalue : ∀ task : Task ε α, Prod.snd <$> task.result = task.outcome := by
    intro task
    rw [Task.result]
    cases task.outcome <;> rfl
  have hmap := congrArg (List.map (Prod.snd <$> ·)) h
  rw [List.map_map, List.map_map] at hmap
  simpa [Function.comp_def, hvalue] using hmap

/-- The results of a sequence of tasks, without their numbers. -/
theorem map_snd_sequential (tasks : List (Task ε α)) :
    List.map Prod.snd <$> sequential tasks = tasks.mapM Task.outcome := by
  induction tasks with
  | nil => rfl
  | cons task rest ih =>
      rw [List.mapM_cons, ← ih, sequential]
      cases task.outcome with
      | error e => rfl
      | ok value => cases sequential rest <;> rfl

/-- A run ends well exactly if each of its tasks does. -/
theorem exists_sequential_eq_ok_iff {tasks : List (Task ε α)} :
    (∃ results, sequential tasks = .ok results) ↔
      ∀ task ∈ tasks, ∃ value, task.outcome = .ok value := by
  rw [sequential_eq_mapM, exists_mapM_eq_ok_iff]
  refine forall₂_congr fun task _ => ?_
  rw [Task.result]
  cases task.outcome <;> simp

/-! ### In a pool -/

/-- A result with a new number comes behind those that are there. -/
theorem record_of_not_mem {index : Int} {value : α} {results : List (Int × α)}
    (h : index ∉ results.map (·.1)) : record index value results = results ++ [(index, value)] := by
  induction results with
  | nil => rfl
  | cons r results ih =>
      rw [List.map_cons, List.mem_cons, not_or] at h
      rw [record, if_neg fun heq => h.1 heq.symm, ih h.2]
      rfl

/-- What a pool has collected in the end, if no number is used twice. -/
theorem collect_eq {results : List (Int × α)} {completed : List (Task ε α)}
    (h : (results.map (·.1) ++ completed.map Task.index).Nodup) :
    collect results completed = (results ++ ·) <$> completed.mapM Task.result := by
  induction completed generalizing results with
  | nil => simp [collect, pure, Except.pure]
  | cons task rest ih =>
      rw [collect, List.mapM_cons, Task.result]
      cases task.outcome with
      | error e => rfl
      | ok value =>
          have hnew : task.index ∉ results.map (·.1) := fun hmem =>
            (List.nodup_append.mp h).2.2 _ hmem _ List.mem_cons_self rfl
          have hnext : ((results ++ [(task.index, value)]).map (·.1) ++
              rest.map Task.index).Nodup := by
            simpa using h
          rw [map_ok, ok_bind, ok_bind, record_of_not_mem hnew, ih hnext]
          cases rest.mapM Task.result with
          | error e => rfl
          | ok others => simp [pure, Except.pure]

/-- Comparison by number. -/
def byIndex (r s : Int × α) : Bool := r.1 ≤ s.1

theorem pooled_eq {completed : List (Task ε α)} (h : (completed.map Task.index).Nodup) :
    pooled completed = (List.mergeSort · byIndex) <$> completed.mapM Task.result := by
  rw [pooled, collect_eq (by simpa using h)]
  cases completed.mapM Task.result <;> rfl

theorem pairwise_mergeSort_byIndex (results : List (Int × α)) :
    (results.mergeSort byIndex).Pairwise fun r s => r.1 ≤ s.1 := by
  have hordered : (results.mergeSort byIndex).Pairwise fun r s => byIndex r s = true :=
    List.pairwise_mergeSort (fun a b c => by simpa [byIndex] using Int.le_trans)
      (fun a b => by simpa [byIndex] using Int.le_total a.1 b.1) results
  exact hordered.imp fun h => by simpa [byIndex] using h

/-- Sorting puts results with different numbers into ascending order. -/
theorem pairwise_lt_mergeSort_byIndex {results : List (Int × α)} (h : (results.map (·.1)).Nodup) :
    (results.mergeSort byIndex).Pairwise fun r s => r.1 < s.1 := by
  have hdistinct : ((results.mergeSort byIndex).map (·.1)).Nodup :=
    ((List.mergeSort_perm results byIndex).map _).nodup_iff.mpr h
  exact ((pairwise_mergeSort_byIndex results).and (List.pairwise_map.mp hdistinct)).imp
    fun h => Int.lt_iff_le_and_ne.mpr h

/-- Results in any order are the same once they are sorted by number. -/
theorem mergeSort_byIndex_eq {found results : List (Int × α)} (hperm : found.Perm results)
    (hsorted : results.Pairwise fun r s => r.1 < s.1) : found.mergeSort byIndex = results := by
  have hnumbers : (results.map (·.1)).Nodup := List.pairwise_map.mpr (hsorted.imp Int.ne_of_lt)
  have hsame := (List.mergeSort_perm found byIndex).trans hperm
  refine hsame.eq_of_pairwise (fun r s hr hs hrs hsr => ?_) (pairwise_mergeSort_byIndex found)
    (hsorted.imp Int.le_of_lt)
  exact List.inj_on_of_nodup_map hnumbers (hsame.mem_iff.mp hr) hs (Int.le_antisymm hrs hsr)

section AnyOrder

variable {tasks completed : List (Task ε α)} (hperm : completed.Perm tasks)
  (hsorted : tasks.Pairwise fun s t => s.index < t.index)

include hperm hsorted

theorem nodup_index_completed : (completed.map Task.index).Nodup := by
  rw [(hperm.map Task.index).nodup_iff]
  exact List.pairwise_map.mpr (hsorted.imp Int.ne_of_lt)

/-- **A pool comes to what one task after the other does**, whatever the order of completion. -/
theorem pooled_eq_ok_iff {results : List (Int × α)} :
    pooled completed = .ok results ↔ sequential tasks = .ok results := by
  have hascending : ∀ {rs : List (Int × α)}, tasks.mapM Task.result = .ok rs →
      rs.Pairwise fun r s => r.1 < s.1 := by
    intro rs hrs
    have hmap : (rs.map (·.1)).Pairwise (· < ·) := by
      rw [map_fst_of_mapM_result hrs]
      exact List.pairwise_map.mpr hsorted
    exact List.pairwise_map.mp hmap
  rw [pooled_eq (nodup_index_completed hperm hsorted), sequential_eq_mapM, map_eq_ok_iff]
  constructor
  · intro h
    obtain ⟨found, hfound, rfl⟩ := h
    obtain ⟨rs, hrs, hsame⟩ := exists_perm_of_mapM_eq_ok hperm hfound
    rw [hrs, mergeSort_byIndex_eq hsame (hascending hrs)]
  · intro h
    obtain ⟨found, hfound, hsame⟩ := exists_perm_of_mapM_eq_ok hperm.symm h
    exact ⟨found, hfound, mergeSort_byIndex_eq hsame.symm (hascending h)⟩

/-- The number of workers and the order of completion have no part in the results of a run. -/
theorem run_eq_ok_iff {workers : Int} {results : List (Int × α)} :
    run workers tasks completed = .ok results ↔ sequential tasks = .ok results := by
  unfold run
  split
  · rfl
  · exact pooled_eq_ok_iff hperm hsorted

/-- The failure of a run is that of one of its tasks. -/
theorem exists_failing_of_run_eq_error {workers : Int} {e : ε}
    (h : run workers tasks completed = .error e) : ∃ task ∈ tasks, task.outcome = .error e := by
  have hfailing : ∀ {ts : List (Task ε α)}, ts.mapM Task.result = .error e →
      ∃ task ∈ ts, task.outcome = .error e := by
    intro ts hts
    obtain ⟨before, task, after, rfl, -, htask⟩ := mapM_eq_error_iff.mp hts
    exact ⟨task, by simp, map_eq_error_iff.mp htask⟩
  unfold run at h
  split at h
  · rw [sequential_eq_mapM] at h
    exact hfailing h
  · rw [pooled_eq (nodup_index_completed hperm hsorted), map_eq_error_iff] at h
    obtain ⟨task, htask, hfails⟩ := hfailing h
    exact ⟨task, hperm.mem_iff.mp htask, hfails⟩

end AnyOrder

/-- Tasks that complete in their order leave what one after the other does, also where one fails. -/
theorem run_self {tasks : List (Task ε α)} (hsorted : tasks.Pairwise fun s t => s.index < t.index)
    (workers : Int) : run workers tasks tasks = sequential tasks := by
  cases hseq : sequential tasks with
  | ok results => exact (run_eq_ok_iff (List.Perm.refl _) hsorted).mpr hseq
  | error e =>
      unfold run
      split
      · exact hseq
      · rw [pooled_eq (nodup_index_completed (List.Perm.refl _) hsorted), ← sequential_eq_mapM, hseq,
          map_error]

/-! ### Tasks that all succeed -/

theorem mapM_result_eq_ok_iff {tasks : List (Task ε α)} {results : List (Int × α)} :
    tasks.mapM Task.result = .ok results ↔ tasks = results.map .succeeding := by
  rw [mapM_eq_ok_iff]
  induction tasks generalizing results with
  | nil => cases results <;> simp
  | cons task rest ih =>
      obtain ⟨index, outcome⟩ := task
      cases results <;> simp [Task.result_eq_ok_iff, Task.succeeding, ih]

/-- What a pool returns where all its tasks succeed: their results, sorted. -/
theorem pooled_of_succeeding {completed : List (Task ε α)} {results : List (Int × α)}
    (hperm : completed.Perm (results.map .succeeding)) (hnodup : (results.map (·.1)).Nodup) :
    pooled completed = .ok (results.mergeSort byIndex) := by
  obtain ⟨found, hfound, hsame⟩ :=
    exists_perm_of_mapM_eq_ok hperm.symm (mapM_result_eq_ok_iff.mpr rfl)
  have hnumbers : (completed.map Task.index).Nodup := by
    rw [← map_fst_of_mapM_result hfound]
    exact (hsame.map _).nodup_iff.mp hnodup
  rw [pooled_eq hnumbers, hfound, map_ok,
    mergeSort_byIndex_eq (hsame.symm.trans (List.mergeSort_perm results byIndex).symm)
      (pairwise_lt_mergeSort_byIndex hnodup)]

/-- What a run returns where all its tasks succeed. A single task runs by itself with any number of
workers, but there is nothing to sort. -/
theorem run_of_succeeding {workers : Int} {completed : List (Task ε α)} {results : List (Int × α)}
    (hperm : completed.Perm (results.map .succeeding)) (hnodup : (results.map (·.1)).Nodup) :
    run workers (results.map .succeeding) completed =
      .ok (if workers ≤ 1 then results else results.mergeSort byIndex) := by
  have hsequential : sequential (results.map (.succeeding (ε := ε))) = .ok results := by
    rw [sequential_eq_mapM, mapM_result_eq_ok_iff]
  rw [run, List.length_map]
  split_ifs with hsequence hworkers hworkers
  · exact hsequential
  · -- A list with at most one result is sorted already.
    cases results with
    | nil => simpa using hsequential
    | cons r rest =>
        obtain rfl : rest = [] := by
          simpa using hsequence.resolve_left hworkers
        simpa using hsequential
  · exact absurd (.inl hworkers) hsequence
  · exact pooled_of_succeeding hperm hnodup

/-- Sorting changes results with different numbers exactly if they are not in ascending order. -/
theorem mergeSort_byIndex_eq_self_iff {results : List (Int × α)}
    (hnodup : (results.map (·.1)).Nodup) :
    results.mergeSort byIndex = results ↔ results.Pairwise fun r s => r.1 < s.1 := by
  constructor
  · intro h
    rw [← h]
    exact pairwise_lt_mergeSort_byIndex hnodup
  · exact mergeSort_byIndex_eq (List.Perm.refl results)

/-- **The results of tasks that all succeed** are those of each task once, whatever the order of
completion. A pool sorts them by number, while they stay in the order of the tasks if these run one
after the other. Therefore two runs of the same tasks return the same list exactly if both are made in
a pool, or neither is, or the tasks stand in ascending order. -/
theorem results_of_run (workers : Int) {tasks completed : List (Task ε α)}
    (hnodup : (tasks.map Task.index).Nodup)
    (hsucceed : ∀ task ∈ tasks, ∃ value, task.outcome = .ok value)
    (hperm : completed.Perm tasks) :
    ∃ results, run workers tasks completed = .ok results ∧
      (results.map Task.succeeding).Perm tasks ∧
      (workers ≤ 1 → results.map Task.succeeding = tasks) ∧
      ((results.Pairwise fun r s => r.1 < s.1) ↔
        1 < workers ∨ tasks.Pairwise fun s t => s.index < t.index) ∧
      ∀ (workers' : Int) (completed' : List (Task ε α)), completed'.Perm tasks →
        (run workers' tasks completed' = .ok results ↔
          ((workers' ≤ 1 ↔ workers ≤ 1) ∨ tasks.Pairwise fun s t => s.index < t.index)) := by
  obtain ⟨values, hvalues⟩ := exists_sequential_eq_ok_iff.mpr hsucceed
  rw [sequential_eq_mapM] at hvalues
  obtain rfl := mapM_result_eq_ok_iff.mp hvalues
  have hnumbers : (values.map (·.1)).Nodup := by
    rw [map_fst_of_mapM_result hvalues]
    exact hnodup
  have hascending : ((values.map (Task.succeeding (ε := ε))).Pairwise fun s t => s.index < t.index) ↔
      values.Pairwise fun r s => r.1 < s.1 := List.pairwise_map
  have hsame := mergeSort_byIndex_eq_self_iff hnumbers
  refine ⟨_, run_of_succeeding hperm hnumbers, ?_, ?_, ?_, ?_⟩
  · split_ifs
    · exact List.Perm.refl _
    · exact (List.mergeSort_perm values byIndex).map _
  · intro hworkers
    rw [if_pos hworkers]
  · rw [hascending]
    split_ifs with hworkers
    · exact ⟨.inr, fun h => h.resolve_left (Int.not_lt.mpr hworkers)⟩
    · exact iff_of_true (pairwise_lt_mergeSort_byIndex hnumbers) (.inl (Int.not_le.mp hworkers))
  · intro workers' completed' hperm'
    rw [hascending, run_of_succeeding hperm' hnumbers, Except.ok.injEq, ← hsame]
    split_ifs with hworkers' hworkers hworkers <;> simp [hworkers, hworkers', eq_comm]

/-- Two tasks that stand in descending order. -/
def descendingTasks : List (Task Unit String) := [⟨1, .ok "b"⟩, ⟨0, .ok "a"⟩]

/-- One worker leaves the results of the two in that order, and two workers do not. -/
theorem results_of_run_descendingTasks :
    ∃ results, run 1 descendingTasks descendingTasks = .ok results ∧
      results.map Task.succeeding = descendingTasks ∧
      ¬ (results.Pairwise fun r s => r.1 < s.1) ∧
      run 2 descendingTasks descendingTasks ≠ .ok results := by
  have hdescending : ¬ descendingTasks.Pairwise fun s t => s.index < t.index := by decide
  have hnumbers : (descendingTasks.map Task.index).Nodup := by decide
  have hsucceed : ∀ task ∈ descendingTasks, ∃ value, task.outcome = .ok value := by
    simp [descendingTasks]
  obtain ⟨results, hrun, -, horder, hsorted, hsame⟩ :=
    results_of_run 1 hnumbers hsucceed (List.Perm.refl _)
  refine ⟨results, hrun, horder (by decide), ?_, ?_⟩
  · rw [hsorted, not_or]
    exact ⟨by decide, hdescending⟩
  · rw [Ne, hsame 2 _ (List.Perm.refl _), not_or]
    exact ⟨by decide, hdescending⟩

end TaskPool

end AntResources
