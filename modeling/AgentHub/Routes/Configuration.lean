import AgentHub.Json.Document
import AgentHub.Network.Location
import AgentHub.Routes.Resolve
import Mathlib.Data.List.Sort

/-!
# The configured candidates

Five tiers of configuration can name the hubs: a JSON list, a list of URLs and one URL in the
environment, then a JSON list and one URL in the file.  The first tier that is given is taken as a
whole.  An entry of a JSON list is a URL, or an object that also names a role, a credential source,
sites and a hub.

How a text is quoted in an error is the parameter `debug`.
-/

namespace AgentHub.Routes

open AgentHub.Json AgentHub.Network

/-! ### Entries -/

/-- The explicit configuration of one candidate. -/
structure CandidateSpec where
  url : String
  role : Option HubRole
  auth : CandidateAuth
  sites : List String
  hub : Option String
  deriving DecidableEq

/-- A candidate of which only the URL is given. -/
def CandidateSpec.ofUrl (url : String) : CandidateSpec where
  url
  role := none
  auth := .global
  sites := []
  hub := none

/-- `HubRole::parse`. -/
def HubRole.parse (value : String) : Option HubRole :=
  match (Text.trim value).map Char.toLower with
  | "authoritative" => some .authoritative
  | "fallback" => some .fallback
  | "cloud" => some .cloud
  | _ => none

/-- `text_field`. -/
def textField (fields : Fields) (name : String) : Except String (Option String) :=
  match fields.get name with
  | none => .ok none
  | some (.str text) =>
    if Text.trim text = "" then .error s!"{name} must not be blank" else .ok (some (Text.trim text))
  | some _ => .error s!"{name} must be a string"

def candidateKeys : List String := ["url", "role", "token_file", "token_env", "sites", "hub"]

/-- The credential source of an entry. -/
def parseAuth : Option String → Option String → Except String CandidateAuth
  | some _, some _ => .error "token_file and token_env are mutually exclusive"
  | some path, none =>
    if path.toList.any Text.isControl then .error "token_file contains invalid characters"
    else .ok (.tokenFile path)
  | none, some name =>
    if validEnvName name then .ok (.tokenEnv name)
    else .error "token_env must be an environment variable name"
  | none, none => .ok .global

/-- The sites of an entry, each once. -/
def parseSites (sites : List String) : List Value → Except String (List String)
  | [] => .ok sites
  | item :: items =>
    match (item.asStr.map Text.trim).filter validSiteName with
    | none => .error "sites entries must match [A-Za-z0-9._-]\x7b1,64\x7d"
    | some site => parseSites (if site ∈ sites then sites else sites ++ [site]) items

section Parse

variable (crate : UrlCrate) (doubles : Doubles) (debug : String → String)

/-- `parse_candidate_object`. -/
def parseCandidateObject (fields : Fields) : Except String CandidateSpec := do
  match fields.keys.find? (· ∉ candidateKeys) with
  | some name => throw ("unknown candidate key " ++ debug name)
  | none => pure ()
  let url ← textField fields "url"
  let url ← match url with
    | some url => .ok url
    | none => .error "url is required"
  let role ← textField fields "role"
  let role ← match role with
    | none => .ok none
    | some raw =>
      match HubRole.parse raw with
      | some role => .ok (some role)
      | none => .error "unknown role; expected authoritative, fallback, or cloud"
  let file ← textField fields "token_file"
  let variable' ← textField fields "token_env"
  let auth ← parseAuth file variable'
  let sites ← match fields.get "sites" with
    | none => .ok []
    | some (.arr items) => parseSites [] items
    | some _ => .error "sites must be an array of site names"
  let hub ← textField fields "hub"
  let hub ← match hub with
    | none => .ok none
    | some hub =>
      if validSiteName (Text.trim hub) then .ok (some (Text.trim hub))
      else .error "hub must match [A-Za-z0-9._-]\x7b1,64\x7d"
  return { url, role, auth, sites, hub }

/-- The entry at a place of a list, unless it is blank. -/
def parseEntry (index : Nat) : Value → Except String (Option CandidateSpec)
  | .str raw => if Text.trim raw = "" then .ok none else .ok (some (.ofUrl (Text.trim raw)))
  | .obj fields =>
    match parseCandidateObject debug fields with
    | .ok spec => .ok (some spec)
    | .error error => .error s!"candidate entry {index + 1}: {error}"
  | _ => .error s!"candidate entry {index + 1} must be a URL string or object"

/-- Two entries of one URL say the same. -/
def CandidateSpec.agrees (a b : CandidateSpec) : Bool :=
  a.role = b.role && a.auth = b.auth && a.sites = b.sites && a.hub = b.hub

/-- The loop of `parse_candidate_entries`: of the entries of one canonical URL the first is kept. -/
def parseEntries (index : Nat) (seen : List (String × CandidateSpec)) :
    List Value → Except String (List CandidateSpec)
  | [] => .ok []
  | entry :: entries =>
    match parseEntry debug index entry with
    | .error error => .error error
    | .ok none => parseEntries (index + 1) seen entries
    | .ok (some spec) =>
      match parseHubUrl crate spec.url false with
      | .error error => .error s!"candidate entry {index + 1} url: {error}"
      | .ok url =>
        match seen.lookup (baseKey crate url) with
        | some previous =>
          if previous.agrees spec then parseEntries (index + 1) seen entries
          else .error s!"candidate entry {index + 1} conflicts with a duplicate URL"
        | none => do
          let specs ← parseEntries (index + 1) ((baseKey crate url, spec) :: seen) entries
          return spec :: specs

/-- `parse_candidate_entries`. -/
def parseCandidateEntries : Value → Except String (List CandidateSpec)
  | .arr entries => parseEntries crate debug 0 [] entries
  | _ => .error "candidate configuration must be an array"

mutual

/-- No object of the document has a key twice. -/
def uniqueKeys : Value → Bool
  | .arr items => uniqueKeysItems items
  | .obj fields => decide (fields.map Prod.fst).Nodup && uniqueKeysFields fields
  | _ => true

def uniqueKeysItems : List Value → Bool
  | [] => true
  | v :: vs => uniqueKeys v && uniqueKeysItems vs

def uniqueKeysFields : List (String × Value) → Bool
  | [] => true
  | (_, v) :: vs => uniqueKeys v && uniqueKeysFields vs

end

/-- A document read as `UniqueJson`. -/
def uniqueJson (raw : String) : Option Value :=
  (fromStr raw.toList).toOption.bind fun doc =>
    if uniqueKeys doc then document doubles doc else none

/-- `parse_candidate_json`. -/
def parseCandidateJson (raw : String) : Except String (List CandidateSpec) :=
  match uniqueJson doubles raw with
  | none => .error "invalid candidate JSON"
  | some value => parseCandidateEntries crate debug value

/-! ### Tiers -/

/-- The part of the configuration file that names hubs. -/
structure ConfigFile where
  serverUrl : Option String
  serverUrls : Option Value
  configurationError : Option String

/-- A URL that is not blank. -/
def givenUrl (raw : Option String) : Option String := (raw.map Text.trim).filter (· ≠ "")

/-- The URLs of a list separated by commas. -/
def splitUrls (raw : Option String) : List String :=
  match raw with
  | none => []
  | some raw =>
    ((raw.toList.splitOn ',').map fun part => Text.trim (String.ofList part)).filter (· ≠ "")

/-- `legacy_specs`. -/
def legacySpecs (urls : List String) : List CandidateSpec := urls.map .ofUrl

/-- The entries of the first tier that is given. -/
def tierEntries (cfg : ConfigFile) (json list single : Option String) :
    Except String (List CandidateSpec) :=
  match json with
  | some raw =>
    match parseCandidateJson crate doubles debug raw with
    | .error error => .error error
    | .ok [] => .error "AGENT_BUS_SERVER_CANDIDATES must contain at least one hub"
    | .ok entries => .ok entries
  | none =>
    if splitUrls list ≠ [] then .ok (legacySpecs (splitUrls list))
    else match givenUrl single with
      | some url => .ok (legacySpecs [url])
      | none =>
        match cfg.serverUrls with
        | some raw =>
          match parseCandidateEntries crate debug raw with
          | .error error => .error error
          | .ok [] => .ok (legacySpecs (givenUrl cfg.serverUrl).toList)
          | .ok entries => .ok entries
        | none => .ok (legacySpecs (givenUrl cfg.serverUrl).toList)

/-- The specs by their URLs, ordered by them. -/
abbrev Specs := List (String × CandidateSpec)

/-- The loop over the entries: equal ones are taken once. -/
def collectSpecs (urls : List String) (specs : Specs) :
    List CandidateSpec → Except String (List String × Specs)
  | [] => .ok (urls, specs)
  | entry :: entries =>
    match specs.lookup entry.url with
    | some existing =>
      if existing = entry then collectSpecs urls specs entries
      else .error "conflicting hub candidate definitions"
    | none =>
      collectSpecs (urls ++ [entry.url])
        (specs.orderedInsert (fun a b => a.1 ≤ b.1) (entry.url, entry)) entries

/-- The spec of a URL: under its text, or else under its canonical form. -/
def specFor (specs : Specs) (url : String) : Option CandidateSpec :=
  match specs.lookup url with
  | some spec => some spec
  | none =>
    match parseHubUrl crate url false with
    | .error _ => none
    | .ok parsed =>
      (specs.map Prod.snd).find? fun spec =>
        match parseHubUrl crate spec.url false with
        | .error _ => false
        | .ok other => baseKey crate parsed == baseKey crate other

/-- The role of a place that names none. -/
def defaultRole (index : Nat) : HubRole := if index = 0 then .authoritative else .fallback

/-- `build_candidates`. -/
def buildCandidatesFrom (urls : List String) (specs : Specs) : List HubCandidate :=
  urls.zipIdx.map fun p =>
    let spec := specFor crate specs p.1
    { url := p.1
      role := (spec.bind CandidateSpec.role).getD (defaultRole p.2)
      auth := (spec.map CandidateSpec.auth).getD .global
      sites := (spec.map CandidateSpec.sites).getD []
      hub := spec.bind CandidateSpec.hub }

/-- The error of a check, if it fails. -/
def errorOf {α : Type} : Except String α → Option String
  | .ok _ => none
  | .error error => some error

/-- `resolve_candidate_tiers`. -/
def resolveCandidateTiers (cfg : ConfigFile) (json list single : Option String) :
    List HubCandidate × Option String :=
  match cfg.configurationError with
  | some error => ([], some error)
  | none =>
    match tierEntries crate doubles debug cfg json list single with
    | .error error => ([], some error)
    | .ok entries =>
      match collectSpecs [] [] entries with
      | .error error => ([], some error)
      | .ok (urls, specs) =>
        let candidates := buildCandidatesFrom crate urls specs
        (candidates, errorOf (validateCandidates crate candidates))

end Parse

end AgentHub.Routes
