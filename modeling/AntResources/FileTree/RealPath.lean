import AntResources.FileTree.Basic

/-!
# AntResources.FileTree.RealPath

The location that a path means once every link on it is followed, whether something is there or
not. Unlike a look-up this sets no bound on the number of links: it stops only at a link that is
met again while its own target is still being followed.

* `Step`, `settle` — following the links on a path, one step after the other;
* `asWritten` — what is left of a path that goes round in circles, taken as it is written;
* `settled` — a path with its links followed, which may still be relative;
* `realPath` — the location, if it can be reached.
-/

namespace AntResources.FileTree

open Text

/-! ## Links -/

/-- The target of the link at a path, if there is a link. Nothing is found at a path that is too
long, nor through a folder that may not be searched. -/
def linkTarget? (t : FileTree) (cwd : Location) (p : Path) : Option String :=
  if maxPathBytes ≤ p.byteLength then none
  else
    match t.descend maxLinks (start cwd p) p.parent.parts with
    | .error _ => none
    | .ok above =>
      if !t.isOpenAt above.location then none
      else
        match t.child? above.location p.name with
        | some (.link target) => some target
        | _ => none

/-! ## Steps -/

/-- One thing to be done on the way along a path. -/
inductive Step where
  /-- Go on along a segment. -/
  | segment (text : String)
  /-- The target of the link at a path has been followed to its end. -/
  | arrive (link : Path)
deriving DecidableEq, Repr

/-- The way along segments. -/
def Step.along (segments : List String) : List Step := segments.map Step.segment

/-- The start of the way along a path or the target of a link, which is relative to `here` if it has
no slash at its start. -/
def startOf (here : Path) (rooted : Bool) : Path := if rooted then ⟨.root, []⟩ else here

/-- What is left of a way, taken as it is written. After a link the text goes on below it, unless a
doubled slash follows the link, which starts at the root again. -/
def asWritten (here : Path) : List Step → Path
  | [] => here
  | .arrive _ :: .segment "" :: .segment s :: steps => asWritten ⟨.root, [s]⟩ steps
  | .arrive _ :: steps => asWritten here steps
  | .segment s :: steps => asWritten (here.child s) steps

/-- How many links are being followed at the start of a way. -/
def openLinks (steps : List Step) : Nat :=
  steps.countP fun
    | .arrive _ => true
    | _ => false

/-- Follow a way from a path that is free of links. `known` holds the links met so far, each with
the path that it leads to, or with none while its target is being followed: if it is met then, the
rest of the way is taken as it is written. `unmet` bounds how many links there are still to meet. -/
def settle (t : FileTree) (cwd : Location) (unmet : Nat) (known : List (Path × Option Path))
    (here : Path) : List Step → Except Fault Path
  | [] => .ok here
  | .arrive link :: steps => settle t cwd unmet ((link, some here) :: known) here steps
  | .segment s :: steps =>
    if s = "" ∨ s = "." then settle t cwd unmet known here steps
    else if s = ".." then settle t cwd unmet known here.up steps
    else if s.toList.contains '\x00' then .error .nulInPath
    else
      let next := here.child s
      match t.linkTarget? cwd next with
      | none => settle t cwd unmet known next steps
      | some target =>
        match known.lookup next with
        | some (some there) => settle t cwd unmet known there steps
        | some none => .ok (asWritten next (.arrive next :: steps))
        | none =>
          match unmet with
          | 0 => .ok (asWritten next (.arrive next :: steps))
          | unmet + 1 =>
            if maxNesting ≤ openLinks steps then .error .nestedTooDeep
            else
              settle t cwd unmet ((next, none) :: known)
                (startOf here (target.toList.head? = some '/'))
                (Step.along (splitSlash target) ++ .arrive next :: steps)
termination_by steps => (unmet, steps.length)

/-- A bound on the number of paths free of other links that lead to a link. There is the one from
the root, and of relative ones no more than a path can have segments. -/
def maxLinkPaths (t : FileTree) : Nat := t.nodes.length * maxPathBytes

/-! ## Real paths -/

/-- The path that a path means once its links are followed: relative as long as neither the path
nor a target starts at the root. -/
def settled (t : FileTree) (cwd : Location) (p : Path) : Except Fault Path :=
  t.settle cwd t.maxLinkPaths [] (startOf ⟨.relative, []⟩ (p.anchor ≠ .relative))
    (Step.along p.parts)

/-- The location that a path means, free of links and `..`. There need not be anything, but getting
there may not mean going through links without end. -/
def realPath (t : FileTree) (cwd : Location) (p : Path) : Except Fault Location := do
  let l := (← absolute cwd (← t.settled cwd p)).parts
  match t.find [] (Path.ofLocation l) with
  | .error .linkLoop => .error .linkLoop
  | .error .nul => .error .nulInPath
  | _ => .ok l

end AntResources.FileTree
