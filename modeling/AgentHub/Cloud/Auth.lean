import AgentHub.Cloud.Post

/-!
# Bearer tokens of the Worker

`authenticate` looks the bearer token of a request up in the token map of the secret
`AGENT_BUS_TOKENS`.  A secret that is no map accepts no token, and an entry that is not well formed
accepts not its own.
-/

namespace AgentHub.Cloud

open AgentHub.Json

/-- What `authenticate` reads of the environment. -/
structure AuthEnv where
  tokens : Option String
  authToken : Option String
  devAllowSharedToken : Option String

/-- `MIN_TOKEN_LEN`. -/
def minTokenLen : Nat := 32

/-- All differences are taken together, those of the lengths and of each pair of bytes. -/
def timingSafeEqual (a b : String) : Bool :=
  let ab := utf8 a.toList
  let bb := utf8 b.toList
  (List.range (max ab.length bb.length)).foldl
    (fun diff i => diff ||| ((ab.getD i 0).toNat ^^^ (bb.getD i 0).toNat))
    (ab.length ^^^ bb.length) == 0

/-! ### The token map -/

structure TokenMapEntry where
  agent : String
  host : Option String
  role : Role
  hub : Option String
  agent_ne : agent ≠ ""
  hub_named : role = .hub → ∃ name, hub = some name ∧ name ≠ ""

def Role.ofText : String → Option Role
  | "agent" => some .agent
  | "hub" => some .hub
  | "operator" => some .operator
  | _ => none

def validEntryKeys : List String := ["agent", "host", "role", "hub"]

/-- A property that is a text, or `undefined`. -/
def optionalString : Option Value → Option (Option String)
  | none => some none
  | some (.str s) => some (some s)
  | some _ => none

/-- The last of the checks: a hub is named. -/
def namedEntry (agent : String) (host : Option String) (role : Role) (hub : Option String) :
    Option TokenMapEntry :=
  if h : agent ≠ "" ∧ (role = .hub → ∃ name, hub = some name ∧ name ≠ "") then
    some ⟨agent, host, role, hub, h.1, h.2⟩
  else none

/-- `isValidEntry`, with the entry a document is found to be. -/
def validEntry : Value → Option TokenMapEntry
  | .obj fields =>
    if fields.all fun kv => validEntryKeys.contains kv.1 then do
      let agent ← (Fields.get fields "agent").bind Value.asStr
      let host ← optionalString (Fields.get fields "host")
      let role ← ((Fields.get fields "role").bind Value.asStr).bind Role.ofText
      let hub ← optionalString (Fields.get fields "hub")
      namedEntry agent host role hub
    else none
  | _ => none

section Numbers

variable (numbers : Js.Numbers)

/-- `JSON.parse` of a text, which has no limit of depth. -/
def jsonParse (text : String) : Option Value :=
  match parseValue text.toList.length text.toList with
  | .ok (v, rest) => if skipBlanks rest = [] then some (Js.parse numbers v) else none
  | .error _ => none

def parseTokenMap (json : Option String) : List (String × TokenMapEntry) :=
  match (json.filter (· ≠ "")).bind (jsonParse numbers) with
  | some (.obj parsed) =>
    (Js.ownProperties parsed).filterMap fun kv =>
      if minTokenLen ≤ Js.length kv.1 then (validEntry kv.2).map (kv.1, ·) else none
  | _ => []

end Numbers

/-! ### Requests -/

/-- A name that is not empty. -/
def named (text : Option String) : Option String := text.filter (· ≠ "")

def TokenMapEntry.identity (entry : TokenMapEntry) : Identity where
  agent := entry.agent
  host := named entry.host
  role := entry.role
  hub := if entry.role = .hub then entry.hub else none
  agent_ne := entry.agent_ne
  host_ne := by
    intro hhost
    have hne := (Option.filter_eq_some_iff.1 hhost).2
    exact of_decide_eq_true hne rfl
  hub_iff := by
    constructor
    · intro hrole
      obtain ⟨name, hname, -⟩ := entry.hub_named hrole
      rw [if_pos hrole, hname]
      rfl
    · intro hsome
      by_contra hrole
      rw [if_neg hrole] at hsome
      cases hsome
  hub_ne := by
    intro hhub
    by_cases hrole : entry.role = .hub
    · obtain ⟨name, hname, hne⟩ := entry.hub_named hrole
      rw [if_pos hrole, hname] at hhub
      exact hne (Option.some.inj hhub)
    · rw [if_neg hrole] at hhub
      cases hhub

/-- The identity of the shared token, with the least privilege. -/
def devShared : Identity where
  agent := "dev-shared"
  host := none
  role := .agent
  hub := none
  agent_ne := by decide
  host_ne := unnamed
  hub_iff := agent_hub_iff
  hub_ne := unnamed

/-- The token after `Bearer `, if there is one. -/
def bearerToken (header : Option String) : Option String :=
  named ((header.filter fun text => Text.startsWith text "Bearer ").map fun text =>
    String.ofList (text.toList.drop "Bearer ".length))

/-- The shared token is only looked at where it is allowed. -/
def sharesToken (env : AuthEnv) (token : String) : Bool :=
  env.devAllowSharedToken = some "1" &&
    (named env.authToken).any fun shared =>
      minTokenLen ≤ Js.length shared && timingSafeEqual token shared

def authenticate (numbers : Js.Numbers) (env : AuthEnv) (header : Option String) :
    Option Identity := do
  let token ← bearerToken header
  match (parseTokenMap numbers env.tokens).find? fun kv => timingSafeEqual token kv.1 with
  | some (_, entry) => some entry.identity
  | none => if sharesToken env token then some devShared else none

end AgentHub.Cloud
