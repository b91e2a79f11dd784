import AntResources.Listing

/-!
# AntResources.Expansion

The resources that a list of expressions stands for: those of all inclusions, in the order in which
they are first listed, without those of any exclusion. Where an exclusion stands in the list makes
no difference. Empty texts are passed over, and the first failure ends it all.

* `Contribution` — what one expression adds or takes away;
* `Contribution.ofText`, `contributions` — reading and listing the expressions;
* `combine` — putting the contributions together;
* `expand` — all of it.
-/

namespace AntResources

/-- What one expression adds or takes away. -/
structure Contribution where
  exclusion : Bool
  resources : List Locator
deriving DecidableEq, Repr

namespace Contribution

/-- The settings under which expressions are expanded. -/
structure Setup where
  lookup : Lookup
  maxWorkers : Int

/-- What an expression contributes. -/
def ofExpression (w : World) (setup : Setup) (e : Expression) : Trace Contribution := do
  let source ← Source.choose setup.lookup e
  let resources ← source.list w setup.maxWorkers e
  Trace.tell (.listed e.exclusion e.raw resources.length source.origin)
  pure ⟨e.exclusion, resources⟩

/-- What the expression in a text contributes. -/
def ofText (w : World) (setup : Setup) (text : String) : Trace Contribution :=
  match Expression.parse text with
  | none => Trace.fail (.emptyExpression text)
  | some e => ofExpression w setup e

/-- The resources that the inclusions add, repeats included. -/
def included (cs : List Contribution) : List Locator :=
  (cs.filter (!·.exclusion)).flatMap resources

/-- The resources that the exclusions take away. -/
def excluded (cs : List Contribution) : List Locator :=
  (cs.filter (·.exclusion)).flatMap resources

/-- Put contributions together. -/
def combine (cs : List Contribution) : List Locator :=
  (Locator.unique (included cs)).filter fun l => !(excluded cs).contains l

end Contribution

open Contribution (Setup)

/-- What the expressions in some texts contribute. Empty texts contribute nothing. -/
def contributions (w : World) (setup : Setup) (texts : List String) : Trace (List Contribution) :=
  (texts.filter (· ≠ "")).mapM (Contribution.ofText w setup)

/-- The resources that the expressions in some texts stand for. -/
def expand (w : World) (setup : Setup) (texts : List String) : Trace (List Locator) := do
  pure (Contribution.combine (← contributions w setup texts))

end AntResources
