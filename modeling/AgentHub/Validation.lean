import AgentHub.Text

/-!
# Input validation

The checks of `validation.rs`: priorities, NUL bytes, required texts, and the message schemas
with their inference from a topic and their fitting of a body.
-/

namespace AgentHub.Validation

open AgentHub.Text

inductive AgentBusError where
  | invalidParams (message : String)
  | internal (message : String)
  deriving DecidableEq, Repr

def validPriorities : List String := ["low", "normal", "high", "urgent"]

def maxTopicLen : Nat := 256

def maxBodyLen : Nat := 262144

def validatePriority (p : String) : Except AgentBusError Unit :=
  if validPriorities.contains p then .ok ()
  else .error (.invalidParams
    (s!"invalid priority '{p}'; must be one of: " ++ join ", " validPriorities))

def rejectNulBytes (val name : String) : Except AgentBusError Unit :=
  if containsChar val (Char.ofNat 0) then
    .error (.invalidParams s!"{name} must not contain NUL bytes (\\x00)")
  else .ok ()

/-- The first field with a NUL byte gives the error. -/
def rejectNulInFields : List (String × String) → Except AgentBusError Unit
  | [] => .ok ()
  | (value, name) :: rest => do
    rejectNulBytes value name
    rejectNulInFields rest

def nonEmpty (val name : String) : Except AgentBusError String :=
  let trimmed := trim val
  if trimmed.isEmpty then .error (.invalidParams s!"{name} must not be empty")
  else if name = "topic" ∧ len trimmed > maxTopicLen then
    .error (.invalidParams s!"{name} exceeds maximum length of {maxTopicLen}")
  else if name = "body" ∧ len trimmed > maxBodyLen then
    .error (.invalidParams s!"{name} exceeds maximum length of {maxBodyLen}")
  else if name = "topic" ∨ name = "body" then do
    rejectNulBytes trimmed name
    return trimmed
  else .ok trimmed

/-! ### Message schemas -/

inductive MessageSchema where
  | finding
  | status
  | benchmark
  deriving DecidableEq, Repr

def MessageSchema.asStr : MessageSchema → String
  | .finding => "finding"
  | .status => "status"
  | .benchmark => "benchmark"

def MessageSchema.parse (value : String) : Except AgentBusError MessageSchema :=
  if value = "finding" then .ok .finding
  else if value = "status" then .ok .status
  else if value = "benchmark" then .ok .benchmark
  else .error (.invalidParams
    s!"unknown schema '{value}'; must be finding, status, or benchmark")

/-- The schema a topic stands for. -/
def topicSchema (topic : String) : Option MessageSchema :=
  if contains topic "findings" || startsWith topic "review" then some .finding
  else if topic = "status" ∨ topic = "ownership" ∨ topic = "coordination" ∨ topic = "handoff" then
    some .status
  else if topic = "benchmark" then some .benchmark
  else none

/-- The schema in force for a transport, an explicit name and a topic; an unknown explicit name
falls through to the topic. -/
def enforceSchemaForTransport (transport : String) (explicit : Option String) (topic : String) :
    Option MessageSchema :=
  match explicit.bind fun name => (MessageSchema.parse name).toOption with
  | some schema => some schema
  | none =>
    match topicSchema topic with
    | some schema => some schema
    | none => if transport = "mcp" ∨ transport = "http" then some .status else none

def resolveMessageSchema (transport : String) (explicit : Option String) (topic : String) :
    Except AgentBusError (Option MessageSchema) :=
  match explicit with
  | some name => (MessageSchema.parse name).map some
  | none => .ok (enforceSchemaForTransport transport none topic)

/-- The severity `auto_fit_finding` reads off the words of a body. -/
def detectSeverity (body : String) : String :=
  let upper := toUppercase body
  if contains upper "CRITICAL" then "CRITICAL"
  else if contains upper "HIGH" || contains upper "SECURITY" ||
      contains upper "VULNERABILITY" then "HIGH"
  else if contains upper "MEDIUM" || contains upper "WARNING" then "MEDIUM"
  else "LOW"

def autoFitFinding (body : String) : String :=
  if contains body "FINDING:" || contains body "FIX" || contains body "COMPLETE" then body
  else "FINDING: " ++ body ++ "\nSEVERITY: " ++ detectSeverity body

def autoFitBenchmark (body : String) : String :=
  if containsChar body '=' then body else "summary=" ++ body

/-- `fit_schema`, behind `auto_fit_schema` and its quiet form: a body that satisfies the schema's
words, and the body itself where the schema is free-form or absent. -/
def autoFitSchema (body : String) : Option MessageSchema → String
  | none => body
  | some .finding => autoFitFinding body
  | some .benchmark => autoFitBenchmark body
  | some .status => body

def validateMessageSchema (body : String) : Option MessageSchema → Except AgentBusError Unit
  | none => .ok ()
  | some .finding =>
    if !contains body "FINDING:" && !contains body "FIX" && !contains body "TAGGED:" &&
        !contains body "COMPLETE" then
      .error (.invalidParams
        "Schema 'finding' requires FINDING:, FIX, TAGGED:, or COMPLETE in body")
    else if contains body "FINDING:" && !contains body "SEVERITY:" then
      .error (.invalidParams "Schema 'finding' requires SEVERITY: when FINDING: is present")
    else .ok ()
  | some .status =>
    if (trim body).isEmpty then
      .error (.invalidParams "Schema 'status' requires non-empty body")
    else .ok ()
  | some .benchmark =>
    if !containsChar body '=' then
      .error (.invalidParams "Schema 'benchmark' requires key=value metrics in body")
    else .ok ()

end AgentHub.Validation
