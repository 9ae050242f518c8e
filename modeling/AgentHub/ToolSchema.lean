import AgentHub.Json.Value
import AgentHub.Validation

/-!
# Tool argument schemas

The argument contract of the four tools whose calls can be retained, and `validateToolArguments`,
which checks an argument map against it: required keys, unknown keys, then the type, the allowed
values and the range of each argument.
-/

namespace AgentHub.ToolSchema

open AgentHub.Json AgentHub.Text AgentHub.Validation

inductive SchemaType where
  | array
  | boolean
  | integer
  | object
  | string
  deriving DecidableEq, Repr

def SchemaType.name : SchemaType → String
  | .array => "array"
  | .boolean => "boolean"
  | .integer => "integer"
  | .object => "object"
  | .string => "string"

/-- One entry of a tool's `properties`: its `type`, and the `enum`, `minimum`, `maximum` and
`items.type` it may carry. -/
structure PropertySchema where
  type : SchemaType
  allowed : Option (List Value) := none
  minimum : Option Int := none
  maximum : Option Int := none
  items : Option SchemaType := none

structure ToolDefinition where
  name : String
  properties : List (String × PropertySchema)
  required : List String

def stringOf (names : List String) : PropertySchema :=
  { type := .string, allowed := some (names.map .str) }

def textProperty : PropertySchema := { type := .string }

def textArray : PropertySchema := { type := .array, items := some .string }

def secondsProperty : PropertySchema :=
  { type := .integer, minimum := some 1, maximum := some 86400 }

def postMessage : ToolDefinition where
  name := "post_message"
  properties :=
    [("sender", textProperty),
     ("recipient", textProperty),
     ("topic", textProperty),
     ("body", textProperty),
     ("tags", textArray),
     ("thread_id", textProperty),
     ("priority", stringOf ["low", "normal", "high", "urgent"]),
     ("request_ack", { type := .boolean }),
     ("reply_to", textProperty),
     ("metadata", { type := .object }),
     ("schema", stringOf ["finding", "status", "benchmark"])]
  required := ["sender", "recipient", "topic", "body"]

def ackMessage : ToolDefinition where
  name := "ack_message"
  properties := [("agent", textProperty), ("message_id", textProperty), ("body", textProperty)]
  required := ["agent", "message_id"]

def setPresence : ToolDefinition where
  name := "set_presence"
  properties :=
    [("agent", textProperty),
     ("status", textProperty),
     ("session_id", textProperty),
     ("capabilities", textArray),
     ("ttl_seconds", secondsProperty),
     ("metadata", { type := .object })]
  required := ["agent"]

def claimResource : ToolDefinition where
  name := "claim_resource"
  properties :=
    [("resource", textProperty),
     ("agent", textProperty),
     ("reason", textProperty),
     ("mode", stringOf ["shared", "shared_namespaced", "exclusive"]),
     ("namespace", textProperty),
     ("scope_kind", textProperty),
     ("scope_path", textProperty),
     ("repo_scopes", textArray),
     ("thread_id", textProperty),
     ("lease_ttl_seconds", secondsProperty),
     ("scope", stringOf ["repo", "machine"])]
  required := ["resource", "agent"]

/-- The definitions of the four retained operations; the other tools are never looked up here. -/
def toolDefinitions : List ToolDefinition := [postMessage, ackMessage, setPresence, claimResource]

/-! ### Checking a value -/

def valueMatchesSchemaType (value : Value) : SchemaType → Bool
  | .array => value.asArray.isSome
  | .boolean => value.asBool.isSome
  | .integer => value.asI64.isSome || value.asU64.isSome
  | .object => match value with | .obj _ => true | _ => false
  | .string => value.asStr.isSome

/-- `json_integer_as_i128`. -/
def jsonInteger (value : Value) : Option Int :=
  value.asI64 <|> value.asU64.map Int.ofNat

/-- The violations of one item of an array, reported with its index. -/
def validateItems (key : String) (itemType : SchemaType) : Nat → List Value → List String
  | _, [] => []
  | index, item :: rest =>
    (if valueMatchesSchemaType item itemType then []
      else [s!"{key}[{index}] must be {itemType.name}"]) ++ validateItems key itemType (index + 1) rest

def validateSchemaValue (key : String) (value : Value) (schema : PropertySchema) : List String :=
  if !valueMatchesSchemaType value schema.type then [s!"{key} must be {schema.type.name}"]
  else
    (match schema.allowed with
      | some allowed => if allowed.contains value then [] else [s!"{key} is not an allowed value"]
      | none => []) ++
    (match schema.type, jsonInteger value with
      | .integer, some actual =>
        (if schema.minimum.any fun minimum => actual < minimum then
          [s!"{key} is below the minimum"] else []) ++
        (if schema.maximum.any fun maximum => maximum < actual then
          [s!"{key} exceeds the maximum"] else [])
      | _, _ => []) ++
    (match schema.type, schema.items, value.asArray with
      | .array, some itemType, some values => validateItems key itemType 0 values
      | _, _, _ => [])

def validateToolArguments (name : String) (args : Fields) : Except AgentBusError Unit :=
  match toolDefinitions.find? fun tool => tool.name == name with
  | none => .error (.internal s!"unknown tool: {name}")
  | some tool =>
    let missing := tool.required.filter fun key => !args.containsKey key
    let unknown := args.keys.filter fun key => (tool.properties.lookup key).isNone
    let violations := args.flatMap fun kv =>
      match tool.properties.lookup kv.1 with
      | some schema => validateSchemaValue kv.1 kv.2 schema
      | none => []
    if missing ≠ [] then
      .error (.invalidParams
        (s!"missing required argument(s) for {name}: " ++ join ", " (sorted missing)))
    else if unknown ≠ [] then
      .error (.invalidParams
        (s!"unknown argument(s) for {name}: " ++ join ", " (sorted unknown)))
    else if violations ≠ [] then
      .error (.invalidParams
        (s!"invalid argument(s) for {name}: " ++ join "; " (sorted violations)))
    else .ok ()

end AgentHub.ToolSchema
