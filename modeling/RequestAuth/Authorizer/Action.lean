import RequestAuth.Authorizer.Basic

/-!
# What callers do with an authorizer

`perform` does any one action, and `performAll` any number of them in order.
-/

namespace RequestAuth.Authorizer

variable {σ : Type}

/-- What a caller does. -/
inductive Action (σ : Type) where
  /-- Asks for the value of the authorization header. -/
  | authorization
  /-- Asks for the headers of a request about a compartment. -/
  | authorize (compartment : Option String)
  /-- Has the headers of a request about a compartment set. -/
  | sign (request : Http.Headers) (compartment : Option String)
  /-- Asks for the region. -/
  | region
  /-- Asks for a claim of the session token. -/
  | claim (name : String)
  /-- Closes the cache of signatures. -/
  | close
  /-- Makes one more handle. -/
  | acquire
  /-- Gives a handle up. -/
  | release
  /-- Sends a call for the value of the authorization header off under a number. -/
  | start (id : Nat)
  /-- Waits for what comes of a call that was sent off. -/
  | collect (id : Nat)
  /-- Lets time pass. -/
  | sleep (d : Nat)
  /-- Changes what the provider finds. -/
  | change (f : World σ → World σ)

/-- Whether an action needs a handle of the authorizer. -/
def Action.needsHandle : Action σ → Bool
  | .authorization | .authorize _ | .sign .. | .region | .claim _ | .close | .acquire
  | .start _ => true
  | .release | .collect _ | .sleep _ | .change _ => false

/-- What an action is answered by. -/
inductive Answer where
  /-- Nothing. -/
  | done
  /-- The value of the authorization header, if there is one this time. -/
  | authorization (answer : Except Error (Option String))
  /-- The headers of a request, if there are any this time. -/
  | headers (answer : Except Error (Option Http.Headers))
  /-- Whether a request was dealt with, and its headers. -/
  | signed (answer : Except Error Unit) (request : Http.Headers)
  /-- The region, if it is known. -/
  | region (found : Option String)
  /-- A claim, if there is one of that name. -/
  | claim (answer : Except Error (Option String))
  /-- What has come of a call that was sent off. -/
  | collected (answer : Option (Option (Except Error (Option String))))
  /-- There is no handle. -/
  | noHandle

/-- Does an action. -/
def perform (authorizer : Authorizer σ) (action : Action σ) (s : State σ) : Answer × State σ :=
  if action.needsHandle ∧ s.handles = 0 then (.noHandle, s)
  else match action with
    | .authorization =>
      let (answer, s) := authorizer.authorization s
      (.authorization answer, s)
    | .authorize compartment =>
      let (answer, s) := authorizer.authorize compartment s
      (.headers answer, s)
    | .sign request compartment =>
      let ((answer, request), s) := authorizer.sign request compartment s
      (.signed answer request, s)
    | .region => (.region (Authorizer.region s), s)
    | .claim name =>
      let (answer, s) := authorizer.claim name s
      (.claim answer, s)
    | .close => (.done, s.close)
    | .acquire => (.done, { s with handles := s.handles + 1 })
    | .release => (.done, { s with handles := s.handles - 1 }.abandon)
    | .start id => (.done, authorizer.start id s)
    | .collect id =>
      let (answer, s) := authorizer.collect id s
      (.collected answer, s)
    | .sleep d => (.done, s.advance authorizer.cache d)
    | .change f =>
      (.done, { s with outside := { s.outside with world := f s.outside.world } })

/-- Does actions in order. -/
def performAll (authorizer : Authorizer σ) : List (Action σ) → State σ → List Answer × State σ
  | [], s => ([], s)
  | action :: actions, s =>
    let (answer, s) := authorizer.perform action s
    let (answers, s) := performAll authorizer actions s
    (answer :: answers, s)

end RequestAuth.Authorizer
