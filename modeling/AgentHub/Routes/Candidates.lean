import AgentHub.Text
import Mathlib.Data.List.Lex
import Mathlib.Data.List.DropRight
import Mathlib.Data.BitVec

/-!
# Hub candidates and their credentials

A client has an ordered list of hub URLs, each with a role and a source for its bearer token.
`HubAuth.credentialForUrl` decides which token a request may carry; the global token goes neither
to a cloud candidate nor to a public host, nor stands in for a token a candidate names itself.

What the client reads of its surroundings is a `CredentialEnv`.  Parsing a URL is a `UrlCrate`; a
parsed `Url` is its components, and its origin and its text are made of those.
-/

namespace AgentHub.Routes

/-! ### URLs -/

inductive Host where
  | domain (name : String)
  | ipv4 (address : BitVec 32)
  | ipv6 (address : BitVec 128)
  deriving DecidableEq

/-- The port a scheme has without being given one, for the two schemes a hub may have. -/
def defaultPort (scheme : String) : Option Nat :=
  if scheme = "http" then some 80 else if scheme = "https" then some 443 else none

/-- A parsed URL.  A port that is the default of its scheme is not kept. -/
structure Url where
  scheme : String
  username : String
  password : Option String
  host : Option Host
  port : Option Nat
  path : String
  query : Option String
  fragment : Option String
  port_ne_default : ∀ p ∈ port, defaultPort scheme ≠ some p

/-- The parser, and how it spells a host. -/
structure UrlCrate where
  parse : String → Option Url
  hostText : Host → String

/-- `Url::origin` of an `http` or `https` URL. -/
structure Origin where
  scheme : String
  host : Option Host
  port : Option Nat
  deriving DecidableEq

def Url.origin (url : Url) : Origin :=
  ⟨url.scheme, url.host, url.port.orElse fun _ => defaultPort url.scheme⟩

/-- The host and the port as a URL spells them. -/
def authorityText (crate : UrlCrate) (host : Option Host) (port : Option Nat) : String :=
  ((host.map crate.hostText).getD "") ++ ((port.map fun p => ":" ++ toString p).getD "")

/-- `Origin::ascii_serialization`. -/
def Origin.asciiSerialization (crate : UrlCrate) (origin : Origin) : String :=
  origin.scheme ++ "://" ++
    authorityText crate origin.host (origin.port.filter fun p => defaultPort origin.scheme ≠ some p)

/-- `Url::as_str`. -/
def Url.asStr (crate : UrlCrate) (url : Url) : String :=
  url.scheme ++ "://" ++
    (if url.username = "" ∧ url.password = none then ""
      else url.username ++ ((url.password.map (":" ++ ·)).getD "") ++ "@") ++
    authorityText crate url.host url.port ++ url.path ++ ((url.query.map ("?" ++ ·)).getD "") ++
    ((url.fragment.map ("#" ++ ·)).getD "")

/-- `trim_end_matches`. -/
def trimEndMatches (p : Char → Bool) (s : String) : String :=
  String.ofList (s.toList.rdropWhile p)

def trimEndSlashes (s : String) : String := trimEndMatches (· == '/') s

/-- The checks `parse_hub_url` makes of what the parser returned for a text. -/
def hubUrlError (value : String) (parsed : Url) (allowQuery : Bool) : Option String :=
  if (value.toList.take (Text.len parsed.scheme + 3)).map Char.toLower ≠
      (parsed.scheme ++ "://").toList ∨ Text.containsChar value '\\' then
    some "URL must be an absolute HTTP URL without backslashes"
  else if ¬(parsed.scheme = "http" ∨ parsed.scheme = "https") ∨ parsed.host = none then
    some "URL must use http or https and include a host"
  else if parsed.username ≠ "" ∨ parsed.password ≠ none then some "URL userinfo is not allowed"
  else if parsed.fragment ≠ none ∨ (allowQuery = false ∧ parsed.query ≠ none) then
    some "URL fragment or base query is not allowed"
  else none

/-- `parse_hub_url`. -/
def parseHubUrl (crate : UrlCrate) (value : String) (allowQuery : Bool) : Except String Url :=
  if value.toList.any fun c => Text.isWhitespace c || Text.isControl c then
    .error "URL contains whitespace or control characters"
  else match crate.parse value with
    | none => .error "invalid absolute HTTP URL"
    | some parsed =>
      match hubUrlError value parsed allowQuery with
      | some error => .error error
      | none => .ok parsed

/-- `base_key`. -/
def baseKey (crate : UrlCrate) (url : Url) : String := trimEndSlashes (url.asStr crate)

/-! ### Public hosts -/

/-- `private_ipv4`. -/
def privateIpv4 (address : BitVec 32) : Bool :=
  let a := (address >>> 24).toNat % 256
  let b := (address >>> 16).toNat % 256
  -- `is_private`, `is_loopback`, `is_link_local`, `is_unspecified`, then 100.64.0.0/10
  (a == 10 || (a == 172 && 16 ≤ b && b ≤ 31) || (a == 192 && b == 168)) || a == 127 ||
    (a == 169 && b == 254) || address == 0 || (a == 100 && 64 ≤ b && b ≤ 127)

/-- `public_host`. -/
def publicHost (url : Url) : Bool :=
  match url.host with
  | some (.ipv4 address) => !privateIpv4 address
  | some (.ipv6 address) =>
    let first := (address >>> 112).toNat
    !(address == 1 || address == 0 || first &&& 0xfe00 == 0xfc00 || first &&& 0xffc0 == 0xfe80 ||
      (address >>> 32 == 0xffff && privateIpv4 (address.setWidth 32)))
  | some (.domain name) =>
    let host := String.ofList ((trimEndMatches (· == '.') name).toList.map Char.toLower)
    Text.containsChar host '.' && host != "home.arpa" &&
      !(List.any [".localhost", ".lan", ".local", ".internal", ".home.arpa"] fun suffix =>
        suffix.toList.isSuffixOf host.toList)
  | none => true

/-! ### Candidates -/

inductive HubRole where
  | authoritative
  | fallback
  | cloud
  deriving DecidableEq, Repr

inductive CandidateAuth where
  | global
  | tokenFile (path : String)
  | tokenEnv (name : String)
  deriving DecidableEq

structure HubCandidate where
  url : String
  role : HubRole
  auth : CandidateAuth
  sites : List String
  hub : Option String
  deriving DecidableEq

/-- `windows(2).all(|w| w[0] == w[1])`. -/
def adjacentEqual : List (Option String) → Bool
  | a :: b :: rest => a == b && adjacentEqual (b :: rest)
  | _ => true

/-- The URLs of a list in order, each other than the ones before it under `base_key`. -/
def canonicalKeys (crate : UrlCrate) (seen : List String) : List HubCandidate → Except String Unit
  | [] => pure ()
  | candidate :: rest => do
    let url ← parseHubUrl crate candidate.url false
    if baseKey crate url ∈ seen then throw "duplicate canonical hub URL"
    canonicalKeys crate (baseKey crate url :: seen) rest

/-- `validate_candidates`. -/
def validateCandidates (crate : UrlCrate) (candidates : List HubCandidate) : Except String Unit := do
  canonicalKeys crate [] candidates
  let authorities := candidates.filter fun c => c.role = .authoritative
  let sameHub := authorities.map HubCandidate.hub
  let routesToOneHub := (sameHub.head?.any Option.isSome) && adjacentEqual sameHub
  if 1 < authorities.length ∧ ¬routesToOneHub then
    throw ("multiple authoritative candidates: " ++
      Text.join ", " (authorities.map HubCandidate.url))

/-! ### Tokens -/

inductive IoErrorKind where
  | notFound
  | other (name : String)
  deriving DecidableEq

/-- What the client reads of its surroundings, and how the platform spells and joins paths. -/
structure CredentialEnv where
  var : String → Option String
  readToString : String → Except IoErrorKind String
  homeDir : Option String
  realProfileDir : Option String
  /-- `settings::same_location`. -/
  sameLocation : String → String → Bool
  /-- `Path::join`. -/
  joinPath : String → String → String
  /-- `{:?}` of a path. -/
  quoted : String → String

/-- `{:?}` of an error kind. -/
def IoErrorKind.debug : IoErrorKind → String
  | .notFound => "NotFound"
  | .other name => name

structure BearerToken where
  value : String
  deriving DecidableEq

def isTokenByte (c : Char) : Bool := c.isAlphanum || "-._~+/".toList.contains c

/-- `token_value`. -/
def tokenValue (raw : String) : Except String BearerToken :=
  let token := Text.trim raw
  let body := trimEndMatches (· == '=') token
  if body = "" ∨ ¬body.toList.all isTokenByte then .error "credential is empty or malformed"
  else .ok ⟨token⟩

/-- `valid_env_name`. -/
def validEnvName (name : String) : Bool :=
  match name.toList with
  | [] => false
  | c :: cs => (c.isAlpha || c == '_') && cs.all fun c => c.isAlphanum || c == '_'

/-- `expand_tilde_under`. -/
def expandTildeUnder (env : CredentialEnv) (value home : String) : String :=
  if value = "~" then home else env.joinPath home (String.ofList (value.toList.drop 2))

/-- `expanded_token_paths`. -/
def expandedTokenPaths (env : CredentialEnv) (value : String) :
    Except String (String × Option String) :=
  if value = "~" ∨ Text.startsWith value "~/" ∨ Text.startsWith value "~\\" then
    match env.homeDir.orElse fun _ => env.realProfileDir with
    | none => .error "cannot expand ~ without a home directory"
    | some primaryHome =>
      .ok (expandTildeUnder env value primaryHome,
        (env.realProfileDir.filter fun real => !env.sameLocation real primaryHome).map
          (expandTildeUnder env value))
  else .ok (value, none)

def unreadable (env : CredentialEnv) (path : String) (kind : IoErrorKind) : String :=
  "cannot read token_file " ++ env.quoted path ++ ": " ++ kind.debug

/-- The text of a token file, of its fallback when there is no such file. -/
def readTokenFile (env : CredentialEnv) (path : String) : Except String String := do
  let (primary, fallback) ← expandedTokenPaths env path
  match env.readToString primary, fallback with
  | .ok raw, _ => .ok raw
  | .error .notFound, some fallback => (env.readToString fallback).mapError (unreadable env path)
  | .error kind, _ => .error (unreadable env path kind)

/-- `HubCandidate::authorization`. -/
def HubCandidate.authorization (crate : UrlCrate) (candidate : HubCandidate)
    (globalToken : Option String) (env : CredentialEnv) : Except String (Option BearerToken) :=
  match parseHubUrl crate candidate.url false with
  | .error error => .error error
  | .ok url =>
    match candidate.auth with
    | .global =>
      if candidate.role = .cloud ∨ publicHost url then
        .error ("candidate requires its own token_file or token_env; " ++
          "global credentials are forbidden")
      else match globalToken.filter fun raw => Text.trim raw ≠ "" with
        | none => .ok none
        | some raw => (tokenValue raw).map some
    | .tokenFile path =>
      if Text.trim path = "" ∨ path.toList.any Text.isControl then
        .error "invalid token_file reference"
      else (readTokenFile env path).bind fun raw => (tokenValue raw).map some
    | .tokenEnv name =>
      if ¬validEnvName name then .error "invalid token_env reference"
      else match env.var name with
        | none => .error ("token_env " ++ name ++ " is not set")
        | some raw =>
          ((tokenValue raw).map some).mapError fun _ =>
            "token_env " ++ name ++ " is empty or malformed"

/-! ### The token of a request -/

structure HubAuth where
  globalToken : Option String
  candidates : List HubCandidate

/-- `HubAuth::credential_for`. -/
def HubAuth.credentialFor (crate : UrlCrate) (auth : HubAuth) (candidate : HubCandidate)
    (env : CredentialEnv) : Except String (Option BearerToken) :=
  candidate.authorization crate auth.globalToken env

/-- A base path covers a request path at a segment boundary. -/
def coversPath (path requestPath : String) : Bool :=
  path == "" || requestPath == path ||
    (path.toList ++ ['/']).isPrefixOf requestPath.toList

/-- The candidate a scan has found so far, and how long its base path is. -/
abbrev Match := Option HubCandidate × Nat

/-- One turn of the scan for the candidate a request falls under. -/
def matchCandidate (crate : UrlCrate) (request : Url) (found : Match) (candidate : HubCandidate) :
    Except String Match := do
  let base ← parseHubUrl crate candidate.url false
  let path := trimEndSlashes base.path
  if base.origin = request.origin ∧ coversPath path request.path then
    if found.1.isSome ∧ Text.len path = found.2 then throw "ambiguous canonical hub URL match"
    if found.1 = none ∨ found.2 < Text.len path then return (some candidate, Text.len path)
  return found

def servicePaths : List String := ["/admin/service", "/admin/service/control", "/health"]

/-- The candidate made up for a request to a service endpoint of a private host. -/
def serviceCandidate (crate : UrlCrate) (request : Url) : HubCandidate where
  url := request.origin.asciiSerialization crate ++ request.path
  role := .fallback
  auth := .global
  sites := []
  hub := none

/-- `HubAuth::credential_for_url`. -/
def HubAuth.credentialForUrl (crate : UrlCrate) (auth : HubAuth) (url : String)
    (env : CredentialEnv) : Except String (Option BearerToken) :=
  match parseHubUrl crate url true with
  | .error error => .error error
  | .ok request =>
    match auth.candidates.foldlM (matchCandidate crate request) (none, 0) with
    | .error error => .error error
    | .ok (some candidate, _) => auth.credentialFor crate candidate env
    | .ok (none, _) =>
      if publicHost request ∨ request.path ∉ servicePaths then
        .error "unmatched request URL is not a private service endpoint"
      else (serviceCandidate crate request).authorization crate auth.globalToken env

end AgentHub.Routes
