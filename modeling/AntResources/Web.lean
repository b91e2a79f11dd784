/-!
# AntResources.Web

Remote resources: what a request for each location is answered with.
-/

namespace AntResources

/-- What a request is answered with. -/
inductive Reply where
  /-- No answer came back, for the given reason. -/
  | failed (reason : String)
  | response (status : Int) (reason : String) (text : String)
deriving DecidableEq, Repr

/-- The answers by location. A location that is not among them cannot be reached. -/
abbrev Web := List (String × Reply)

namespace Web

/-- The words for a response whose status is an error. -/
def statusError? (status : Int) (reason url : String) : Option String :=
  let sayAs (side : String) : String :=
    toString status ++ " " ++ side ++ " Error: " ++ reason ++ " for url: " ++ url
  if 400 ≤ status ∧ status < 500 then some (sayAs "Client")
  else if 500 ≤ status ∧ status < 600 then some (sayAs "Server")
  else none

/-- Request a location: the text of the response, or the reason why there is none. -/
def fetch (web : Web) (url : String) : Except String String :=
  match web.lookup url with
  | none => .error "no route"
  | some (.failed reason) => .error reason
  | some (.response status reason text) =>
    match statusError? status reason url with
    | some error => .error error
    | none => .ok text

end Web

end AntResources
