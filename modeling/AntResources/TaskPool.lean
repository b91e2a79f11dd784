/-!
# AntResources.TaskPool

Running numbered tasks, each of which succeeds with a value or fails with an error. A failure ends
the run and is its only result.

With at most one worker, or one task only, the tasks run one after the other and their results keep
that order. Otherwise they run in a pool: they complete in some order, which the caller of `run`
gives, and the results are sorted by task number.

* `sequential`, `started` — one after the other, and the tasks that this begins;
* `pooled` — what a pool returns for the tasks in their order of completion;
* `run` — the choice between the two.
-/

namespace AntResources

/-- A numbered task and what it comes to. -/
structure Task (ε α : Type) where
  index : Int
  outcome : Except ε α

namespace TaskPool

variable {ε α : Type}

/-- Run the tasks in order up to the first failure. -/
def sequential : List (Task ε α) → Except ε (List (Int × α))
  | [] => .ok []
  | task :: rest => do
    let value ← task.outcome
    let values ← sequential rest
    pure ((task.index, value) :: values)

/-- The numbers of the tasks that `sequential` begins: all up to the first that fails. -/
def started : List (Task ε α) → List Int
  | [] => []
  | task :: rest =>
    match task.outcome with
    | .error _ => [task.index]
    | .ok _ => task.index :: started rest

/-- Enter a result under its number. A number that is there already takes the new value. -/
def record (index : Int) (value : α) : List (Int × α) → List (Int × α)
  | [] => [(index, value)]
  | (i, v) :: rest => if i = index then (i, value) :: rest else (i, v) :: record index value rest

/-- Collect the results of a pool whose tasks complete in the order of `completed`. -/
def collect (results : List (Int × α)) : List (Task ε α) → Except ε (List (Int × α))
  | [] => .ok results
  | task :: rest => do
    let value ← task.outcome
    collect (record task.index value results) rest

/-- The results of a pool whose tasks complete in the order of `completed`, by task number. -/
def pooled (completed : List (Task ε α)) : Except ε (List (Int × α)) :=
  (collect [] completed).map fun results => results.mergeSort fun a b => a.1 ≤ b.1

/-- Run `tasks` with at most `maxWorkers` at a time. If they run in a pool, they complete in the
order of `completed`, which holds the same tasks. -/
def run (maxWorkers : Int) (tasks completed : List (Task ε α)) : Except ε (List (Int × α)) :=
  if maxWorkers ≤ 1 ∨ tasks.length ≤ 1 then sequential tasks else pooled completed

end TaskPool

end AntResources
