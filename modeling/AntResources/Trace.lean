import AntResources.Failure
import AntResources.Number.Shortest

/-!
# AntResources.Trace

Operations that leave a trace. An operation has an outcome, a value or a failure, and the events on
the way there, which stay also where it fails. The log is a view of the events, and so is the list
of the requests that were made.

* `Event` — what can happen, with `Event.logLine`;
* `Trace` — events and outcome, as a monad: what comes after a failure does not happen.
-/

namespace AntResources

/-! ## Events -/

/-- The way in which the resources of an expression are listed. -/
inductive Origin where
  /-- Members of archives. -/
  | archive
  /-- Files in a tree of folders. -/
  | tree
  /-- A remote location. -/
  | remote
deriving DecidableEq, Repr

/-- A step of an operation. -/
inductive Event where
  /-- A root was looked up on the search path. -/
  | rootResolved (root : String) (count : Nat)
  /-- The listing of some archives begins. -/
  | scanningArchives (count : Nat) (raw : String)
  /-- The listing of a folder of the search path begins. -/
  | scanningFolder (folder : Path) (raw : String)
  /-- The listing of some archives ended. -/
  | membersMatched (count : Nat) (raw : String) (archives : Nat)
  /-- The listing of a folder ended. -/
  | filesMatched (count : Nat) (raw : String) (folder : Path)
  /-- The resources of an expression are known. -/
  | listed (exclusion : Bool) (raw : String) (count : Nat) (origin : Origin)
  /-- A request was sent, with how many seconds it may take, if that is limited. -/
  | fetching (url : String) (timeout : Option Binary64)
deriving DecidableEq, Repr

namespace Event

/-- The name under which the log shows a way of listing. -/
def originName : Origin → String
  | .archive => "ArchiveMatcher"
  | .tree => "TreeMatcher"
  | .remote => "RemoteMatcher"

/-- The part of the program that the log names as the source of an event. -/
def source : Event → String
  | .rootResolved .. => "resglob.resolver.locations"
  | .scanningArchives .. | .scanningFolder .. | .membersMatched .. | .filesMatched .. =>
    "resglob.resolver.matchers"
  | .listed .. => "resglob.resolver.resolver"
  | .fetching .. => "resglob.reading"

/-- An event in words. -/
def message : Event → String
  | .rootResolved root count =>
    "Resolved classpath root " ++ Text.quote root ++ " to " ++ toString count ++ " location(s)"
  | .scanningArchives count raw =>
    "Scanning " ++ toString count ++ " archive(s) for " ++ Text.quote raw
  | .scanningFolder folder raw =>
    "Scanning directory " ++ folder.toString ++ " for " ++ Text.quote raw
  | .membersMatched count raw archives =>
    "Matched " ++ toString count ++ " archive member(s) for " ++ Text.quote raw ++ " in "
      ++ toString archives ++ " archive(s)"
  | .filesMatched count raw folder =>
    "Matched " ++ toString count ++ " file(s) for " ++ Text.quote raw ++ " under "
      ++ folder.toString
  | .listed exclusion raw count origin =>
    (if exclusion then "Excluding " else "Including ") ++ Text.quote raw ++ ": " ++ toString count
      ++ " resource(s) via " ++ originName origin
  | .fetching url _ => "Fetching " ++ url

/-- The line for an event in the log. -/
def logLine (e : Event) : String := "DEBUG " ++ e.source ++ ": " ++ e.message ++ "\n"

end Event

/-! ## Traces -/

/-- The events of an operation, and what came of it. -/
structure Trace (α : Type) where
  events : List Event
  outcome : Except Failure α

namespace Trace

variable {α β : Type}

/-- An operation that takes no steps. -/
def ofExcept (outcome : Except Failure α) : Trace α := ⟨[], outcome⟩

/-- Fail with a resource error. -/
def fail (e : ResourceError) : Trace α := ⟨[], .error (.resource e)⟩

/-- Go through an event. -/
def tell (e : Event) : Trace Unit := ⟨[e], .ok ()⟩

/-- One operation after another. -/
def bind (t : Trace α) (f : α → Trace β) : Trace β :=
  match t.outcome with
  | .error e => ⟨t.events, .error e⟩
  | .ok a => ⟨t.events ++ (f a).events, (f a).outcome⟩

instance : Monad Trace where
  pure a := ⟨[], .ok a⟩
  bind := bind

@[simp] theorem outcome_pure (a : α) : (pure a : Trace α).outcome = .ok a := rfl

@[simp] theorem events_pure (a : α) : (pure a : Trace α).events = [] := rfl

@[simp] theorem outcome_tell (e : Event) : (tell e).outcome = .ok () := rfl

@[simp] theorem outcome_fail (e : ResourceError) :
    (fail e : Trace α).outcome = .error (.resource e) := rfl

@[simp] theorem outcome_ofExcept (x : Except Failure α) : (ofExcept x).outcome = x := rfl

/-- The outcome of a sequence does not depend on the events. -/
@[simp] theorem outcome_bind (t : Trace α) (f : α → Trace β) :
    (t >>= f).outcome = t.outcome >>= fun a => (f a).outcome := by
  show (Trace.bind t f).outcome = _
  unfold Trace.bind
  cases t.outcome <;> rfl

end Trace

end AntResources
