import ItemStore.Config.Basic

/-
  The client of the service, which is made when it is first used and then kept. Making it opens
  a session and then the client; a failure of either is a failure to connect, and the next use
  tries again.
-/

namespace ItemStore

/-- What a client is made with. -/
structure ClientSettings where
  region : String
  endpoint : Option String
  retries : Int
  timeout : Number.Binary64
  poolSize : Int
  deriving Inhabited

/-- A step in making a client. -/
inductive ClientStep where
  | session (region : String)
  | client (settings : ClientSettings)
  deriving Inhabited

namespace Config

/-- What the client is made with; an empty endpoint is none. -/
def clientSettings (c : Config) : ClientSettings :=
  { region := c.region, endpoint := c.endpoint.filter (· ≠ ""), retries := c.retries
    timeout := c.timeout, poolSize := c.poolSize }

/-- The failure to connect for a cause. -/
def notConnected (cause : Failure) : Failure :=
  .connection ("Failed to connect to DynamoDB: " ++ cause.text) (some cause) []

/-- The failure of a negative number of retries. -/
def negativeRetries (n : Int) : Failure :=
  .incident
    { name := "InvalidMaxRetryAttemptsError"
      message := "Value provided to \"max_attempts\": " ++ intText n ++
        " must be an integer greater than or equal to 0." }

/-- The steps of making a client, and why none is made, where the session may be refused. -/
def connect (c : Config) (refusal : Option Failure) : List ClientStep × Option Failure :=
  let session := ClientStep.session c.region
  match refusal with
  | some cause => ([session], some (notConnected cause))
  | none =>
    if c.retries < 0 then ([session], some (notConnected (negativeRetries c.retries)))
    else ([session, .client c.clientSettings], none)

/-- The outcomes of a number of uses, each telling whether the client was made for it, and the
steps that were taken. -/
def uses (c : Config) (refusal : Option Failure) :
    (isMade : Bool) → Nat → List (Outcome Bool) × List ClientStep
  | _, 0 => ([], [])
  | true, n + 1 =>
    let (outcomes, steps) := uses c refusal true n
    (.ok false :: outcomes, steps)
  | false, n + 1 =>
    let (taken, problem) := c.connect refusal
    let (outcomes, steps) := uses c refusal problem.isNone n
    match problem with
    | some f => (.error f :: outcomes, taken ++ steps)
    | none => (.ok true :: outcomes, taken ++ steps)

end Config

end ItemStore
