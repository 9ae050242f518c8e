import AgentHub.Json.Document
import AgentHub.Json.Pretty
import AgentHub.Text

/-!
# The token map of the cloud

The manifest of `agent-bus cloud-tokens`, its token map (a document with the metadata of each token),
and what the commands check of them.
-/

namespace AgentHub.CloudTokens

open AgentHub.Json

/-! ### The manifest -/

/-- A path after `expand_path`; the last name is absent where there is none. -/
structure Path where
  directory : String
  leaf : Option String
  deriving DecidableEq

structure Storage where
  tokensMapPath : Path
  clientTokenPath : Path
  clientTokenRole : String
  clientTokenAgent : String
  clientTokenHost : Option String

structure AntiLockout where
  keepPreviousMapBackup : Bool
  requireBwItemBeforeWranglerPut : Bool

structure Identity where
  id : String
  role : String
  agent : String
  host : Option String
  hub : Option String

structure DeployedMapAuthority where
  sourceKind : String
  authorityReference : String
  baselinePath : Path
  baselineSha256 : String
  candidateSha256 : String

structure Manifest where
  cloudBaseUrl : String
  workerName : Option String
  storage : Storage
  antiLockout : AntiLockout
  /-- `bitwarden.item_name`. -/
  itemName : String
  identities : List Identity
  deployedMapAuthority : Option DeployedMapAuthority

/-- What the tool runs on. -/
structure Platform where
  doubles : Doubles
  /-- `resolved_storage_path`, the file a path leads to. -/
  place : Path → String
  /-- The names of devices that are refused besides the null sink. -/
  isDevice : String → Bool
  /-- The debug text of a host. -/
  debug : Option String → String
  /-- `sha256_hex16`. -/
  fingerprint : String → String
  /-- The hexadecimal SHA-256. -/
  sha256 : List UInt8 → String

/-! ### Checks -/

def require (holds : Bool) (message : String) : Except String Unit :=
  if holds then .ok () else .error message

section Paths

variable (platform : Platform)

/-- A last name up to its first dot, dots and blanks at its end left out, in upper case. -/
def baseOf (leaf : String) : String :=
  let ends (c : Char) : Bool := c == '.' || c == ' '
  String.ofList
    (((leaf.toList.reverse.dropWhile ends).reverse.takeWhile (· ≠ '.')).map Char.toUpper)

/-- `validate_secret_path`, with the last name. -/
def secretLeaf (path : Path) : Except String String :=
  match path.leaf with
  | none => .error "secret path has no filename"
  | some leaf => do
    require (baseOf leaf != "$NULL") "literal null-sink filenames are refused"
    require (!platform.isDevice leaf) "reserved Windows device filenames are refused"
    return leaf

def validateSecretPath (path : Path) : Except String Unit := (secretLeaf platform path).map fun _ => ()

def pendingClientPath (client : Path) : Except String Path := do
  let leaf ← secretLeaf platform client
  let pending : Path := { client with leaf := some (leaf ++ ".pending") }
  validateSecretPath platform pending
  return pending

def validateStoragePaths (storage : Storage) : Except String Unit := do
  validateSecretPath platform storage.tokensMapPath
  validateSecretPath platform storage.clientTokenPath
  let pending ← pendingClientPath platform storage.clientTokenPath
  let map := platform.place storage.tokensMapPath
  let client := platform.place storage.clientTokenPath
  let pending := platform.place pending
  require (map ≠ client && map ≠ pending && client ≠ pending)
    "token map and client credential paths must be distinct"

end Paths

/-! ### Metadata -/

structure TokenMeta where
  agent : String
  role : String
  host : Option String
  hub : Option String
  deriving DecidableEq

/-- An optional text; a null is none. -/
def optionalText : Option Value → Option (Option String)
  | none | some .null => some none
  | some (.str s) => some (some s)
  | some _ => none

/-- `serde_json::from_value` of a `TokenMeta`, from an object or from the list of its fields. -/
def TokenMeta.ofValue : Value → Option TokenMeta
  | .obj fields => do
    let agent ← (Fields.get fields "agent").bind Value.asStr
    let role ← (Fields.get fields "role").bind Value.asStr
    let host ← optionalText (Fields.get fields "host")
    let hub ← optionalText (Fields.get fields "hub")
    return { agent, role, host, hub }
  | .arr [agent, role, host, hub] => do
    let agent ← agent.asStr
    let role ← role.asStr
    let host ← optionalText (some host)
    let hub ← optionalText (some hub)
    return { agent, role, host, hub }
  | _ => none

/-- `serde_json::to_value`. -/
def TokenMeta.toValue (data : TokenMeta) : Value :=
  .obj (Fields.compact
    [("agent", some (.str data.agent)), ("host", data.host.map .str), ("hub", data.hub.map .str),
      ("role", some (.str data.role))])

/-- `identity_matches`. -/
def TokenMeta.identityMatches (data : TokenMeta) (ident : Identity) : Bool :=
  data.role = ident.role && data.agent = ident.agent && data.host = ident.host && data.hub = ident.hub

/-- The metadata is that of the client that is selected. -/
def TokenMeta.isClient (storage : Storage) (data : TokenMeta) : Bool :=
  data.role = storage.clientTokenRole && data.agent = storage.clientTokenAgent &&
    data.host = storage.clientTokenHost

def isRole (role : String) : Bool := ["agent", "hub", "operator"].contains role

/-! ### The map -/

/-- `validate_token_map`, for one entry. -/
def validateEntry (entry : String × Value) : Except String Unit :=
  if Text.len entry.1 < 32 || entry.1.toList.any Text.isWhitespace then
    .error "invalid token-map key"
  else
    match TokenMeta.ofValue entry.2 with
    | none => .error "invalid token metadata"
    | some data =>
      if data.agent.isEmpty || !isRole data.role ||
          (data.role = "hub" && (data.hub.getD "").isEmpty) then
        .error "invalid token identity binding"
      else .ok ()

def validateTokenMap (map : Fields) : Except String Unit :=
  if map.isEmpty then
    .error "operational token map must not be empty; revocation is a separate operation"
  else map.forM validateEntry

section Maps

variable (platform : Platform)

/-- `serde_json::from_str` of a map of documents. -/
def parseTokenMap (text : List Char) : Option Fields :=
  (readDocument platform.doubles text).bind fun v =>
    match v with
    | .obj map => some map
    | _ => none

/-- `read_token_map`, of the text of a file. -/
def readTokenMap (text : String) : Except String Fields :=
  match parseTokenMap platform text.toList with
  | none => .error "parse token map object"
  | some map => do
    validateTokenMap map
    return map

/-- `serde_json::from_slice` of a document. -/
def fromSlice (bytes : List UInt8) : Option Value :=
  (Json.fromSlice bytes).toOption.bind (document platform.doubles)

def recoveredTokenMap (item : Value) : Except String Fields :=
  match (item.field? "notes").bind Value.asStr with
  | none => .error "existing recovery item has no notes"
  | some notes =>
    match parseTokenMap platform notes.toList with
    | none => .error "parse recovered token map"
    | some recovered => do
      validateTokenMap recovered
      return recovered

def assertNoOnsiteReuse (map : Fields) (onsite : Option String) : Except String Unit :=
  require (!map.any fun entry => onsite = some (platform.fingerprint entry.1))
    "refusing token map: cloud token fingerprint matches on-site hub auth_token"

/-! ### Equality -/

/-- The text of a zero, of either sign. -/
def isZero (x : FloatText) : Bool := x.text = "0.0".toList || x.text = "-0.0".toList

mutual

/-- A document with its zeros without signs. -/
def unsigned : Value → Value
  | .float x => if isZero x then .float ⟨"0.0".toList, by decide⟩ else .float x
  | .arr items => .arr (unsignedItems items)
  | .obj fields => .obj (unsignedFields fields)
  | v => v

def unsignedItems : List Value → List Value
  | [] => []
  | v :: vs => unsigned v :: unsignedItems vs

def unsignedFields : List (String × Value) → List (String × Value)
  | [] => []
  | (k, v) :: kvs => (k, unsigned v) :: unsignedFields kvs

end

/-- Equality of documents, where 0.0 and -0.0 are equal. -/
def same (v w : Value) : Bool := unsigned v = unsigned w

/-! ### The authority -/

mutual

/-- `canonical_metadata`. -/
def canonicalMetadata : Value → Value
  | .arr items => .arr (canonicalItems items)
  | .obj fields => .obj (Fields.ofPairs (canonicalFields fields))
  | v => v

def canonicalItems : List Value → List Value
  | [] => []
  | v :: vs => canonicalMetadata v :: canonicalItems vs

def canonicalFields : List (String × Value) → List (String × Value)
  | [] => []
  | (k, v) :: kvs => (k, canonicalMetadata v) :: canonicalFields kvs

end

def tokenMapSha256 (map : Fields) : String := platform.sha256 (toVec (canonicalMetadata (.obj map)))

/-- 64 digits in lower case. -/
def isSha256 (hash : String) : Bool :=
  Text.len hash = 64 && hash.toList.all fun c => c.isDigit || ('a' ≤ c && c ≤ 'f')

/-- The evidence the manifest has of the deployed map. -/
def establishedEvidence (m : Manifest) : Except String DeployedMapAuthority :=
  match m.deployedMapAuthority with
  | none =>
    .error "deployed-map authority UNKNOWN; upload refused; preserve the opaque deployed secret"
  | some evidence =>
    if evidence.sourceKind ≠ "independently-verified-stored-baseline" ||
        (Text.trim evidence.authorityReference).isEmpty ||
        !isSha256 evidence.baselineSha256 || !isSha256 evidence.candidateSha256 then
      .error "independently established stored-baseline evidence required; upload refused"
    else .ok evidence

/-- The baseline is none of the files the tool writes. -/
def requireDistinctBaseline (m : Manifest) (baseline : Path) : Except String Unit := do
  let pending ← pendingClientPath platform m.storage.clientTokenPath
  require
    ([m.storage.tokensMapPath, m.storage.clientTokenPath, pending].all fun path =>
      platform.place baseline ≠ platform.place path)
    "authoritative baseline must be distinct from mutable toolkit files"

/-- The candidate has every entry of the baseline. -/
def preserves (baseline candidate : Fields) : Bool :=
  baseline.all fun entry => (Fields.get candidate entry.1).any (same · entry.2)

end Maps

/-! ### The client -/

/-- The tokens of the client. -/
def clientTokens (storage : Storage) : Fields → Except String (List String)
  | [] => .ok []
  | (token, value) :: map =>
    match TokenMeta.ofValue value with
    | none => .error "invalid token metadata"
    | some data => do
      let tokens ← clientTokens storage map
      return if data.isClient storage then token :: tokens else tokens

/-- The token of the client: the one that is there, if it is one, or else the only one. -/
def chooseClient (platform : Platform) (storage : Storage) (map : Fields) (current : Option String) :
    Except String String := do
  let tokens ← clientTokens storage map
  match tokens.find? fun token => current = some token, tokens with
  | some token, _ => .ok token
  | none, [token] => .ok token
  | none, [] =>
    let host := platform.debug storage.clientTokenHost
    .error s!"no token for role={storage.clientTokenRole} agent={storage.clientTokenAgent} host={host}"
  | none, _ =>
    .error "multiple client tokens match; restore the existing client file or use rotate"

/-- `hex_bytes`. -/
def hexBytes (bytes : List UInt8) : String :=
  String.ofList
    (bytes.flatMap fun b => [Nat.digitChar (b.toNat / 16), Nat.digitChar (b.toNat % 16)])

end AgentHub.CloudTokens
