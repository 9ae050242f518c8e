import AgentHub.CloudTokens.Map
import AgentHub.Machine
import AgentHub.Stopping

/-!
# The commands of the token map

`mint`, `rotate`, `write-client`, `activate` and `wrangler-put` of `agent-bus cloud-tokens` as programs:
what they read and write, the external commands they invoke, and the order of it all.  A command may be
stopped, by a failure or from outside, before and after each of its calls.
-/

namespace AgentHub.CloudTokens

open AgentHub.Json AgentHub.Program

/-! ### Calls -/

/-- What a command does outside itself. -/
inductive Call where
  /-- `action_manifest`. -/
  | manifest
  /-- `lock_token_map`. -/
  | lock
  /-- `onsite_hub_token_fp`. -/
  | onsite
  | isFile (path : Path)
  /-- `fs::read_to_string`; none where there is no file. -/
  | read (path : Path)
  /-- Random bytes. -/
  | draw (count : Nat)
  /-- `backup_map`, to a new file. -/
  | backup (contents : String)
  /-- The file of `write_secret_file`, which is replaced as a whole. -/
  | write (path : Path) (contents : String)
  | remove (path : Path)
  /-- An external command with its arguments and its input. -/
  | invoke (program : String) (args : List String) (input : Option (List UInt8))
  /-- An authenticated request to the Worker. -/
  | smoke (url token : String)
  /-- Whether there is the directory of the Worker. -/
  | workerDirectory

def Call.Reply : Call → Type
  | .manifest | .lock | .backup _ | .write _ _ | .remove _ | .smoke _ _ => Unit
  | .onsite => Option String
  | .isFile _ | .workerDirectory => Bool
  | .read _ => Option String
  | .draw _ => List UInt8
  | .invoke _ _ _ => List UInt8

abbrev Prog := Program Call Call.Reply String

section Commands

variable (platform : Platform) (m : Manifest)

/-- A text as `write_secret_file` writes it. -/
def ended (contents : String) : String :=
  if contents.toList.getLast? = some '\n' then contents else contents ++ "\n"

def writeSecretFile (path : Path) (contents : String) : Prog Unit := do
  check (validateSecretPath platform path)
  perform (Call.write path contents)

def lockTokenMap (dryRun : Bool) : Prog Unit := do
  if dryRun then return
  else
    check (validateSecretPath platform m.storage.tokensMapPath)
    perform Call.lock

def isFile (path : Path) : Prog Bool := perform (Call.isFile path)

/-- The text of a file that must be there. -/
def readText (path : Path) (missing : String) : Prog String := do
  match ← perform (Call.read path) with
  | none => .fail missing
  | some text => return text

/-- `read_token_map`. -/
def readMap (path : Path) : Prog Fields := do
  let text ← readText path "read token map"
  check (readTokenMap platform text)

/-- The map of the commands that must have one, checked against the token of the hub. -/
def readCheckedMap : Prog Fields := do
  let map ← readMap platform m.storage.tokensMapPath
  let onsite ← perform Call.onsite
  check (assertNoOnsiteReuse platform map onsite)
  return map

/-! ### `cmd_mint_mode` -/

/-- `new_token_hex`. -/
def newTokenHex (count : Nat) : Prog String := do
  let bytes ← perform (Call.draw count)
  return hexBytes bytes

/-- A token is drawn again, so many times, while it will not do. -/
def redraw (suits : String → Bool) : Nat → String → Prog String
  | 0, tok => pure tok
  | n + 1, tok =>
    if suits tok then pure tok
    else do
      let tok ← newTokenHex 32
      redraw suits n tok

/-- A token that is neither in the map nor that of the hub. -/
def freshToken (map : Fields) (onsite : Option String) : Prog String := do
  let suits (tok : String) : Bool :=
    !Fields.containsKey map tok && onsite ≠ some (platform.fingerprint tok)
  let tok ← newTokenHex 32
  let tok ← redraw suits 8 tok
  if Fields.containsKey map tok then .fail "could not generate a unique token"
  else return tok

/-- What the manifest must say of an identity. -/
def checkIdentity (ident : Identity) : Except String Unit := do
  require (!ident.agent.isEmpty && isRole ident.role) s!"bad role on {ident.id}: {ident.role}"
  require (ident.role ≠ "hub" || !(ident.hub.getD "").isEmpty)
    s!"hub identity {ident.id} requires hub field"

/-- The identity is that of the client. -/
def Identity.selected (ident : Identity) (storage : Storage) : Bool :=
  ident.role = storage.clientTokenRole && ident.agent = storage.clientTokenAgent &&
    ident.host = storage.clientTokenHost

def Identity.data (ident : Identity) : TokenMeta :=
  { agent := ident.agent, role := ident.role, host := ident.host, hub := ident.hub }

/-- The loop over the identities: each that has no token gets one, and the client gets another when
the client is rotated. -/
def mintIdentities (onsite : Option String) (rotate : Bool) :
    List Identity → Fields → Option String → Prog (Fields × Option String)
  | [], map, rotated => pure (map, rotated)
  | ident :: idents, map, rotated => do
    check (checkIdentity ident)
    let rotates := rotate && ident.selected m.storage
    let present := map.any fun entry => (TokenMeta.ofValue entry.2).any (·.identityMatches ident)
    if present && !rotates then mintIdentities onsite rotate idents map rotated
    else
      let tok ← freshToken platform map onsite
      if rotates && rotated.isSome then .fail "multiple selected client identities"
      else
        mintIdentities onsite rotate idents (Fields.insert map tok ident.data.toValue)
          (if rotates then some tok else rotated)

/-- The map a minting starts from. -/
def startMap : Prog Fields := do
  if ← isFile m.storage.tokensMapPath then readMap platform m.storage.tokensMapPath
  else return []

/-- The text of a map in a file. -/
def mapText (map : Fields) : String := String.ofList (pretty (.obj map)) ++ "\n"

/-- `backup_map` of a map that was there, where the manifest says so. -/
def backupMap (there : Bool) (original : Fields) (dryRun : Bool) : Prog Unit :=
  if there && m.antiLockout.keepPreviousMapBackup && !dryRun then
    perform (Call.backup (String.ofList (pretty (.obj original))))
  else pure ()

/-- The map is written, the one before it backed up, and the token of the client that is rotated is
staged. -/
def saveMap (original map : Fields) (rotated : Option String) (dryRun : Bool) : Prog Unit := do
  let there ← isFile m.storage.tokensMapPath
  backupMap m there original dryRun
  if dryRun then return
  else
    writeSecretFile platform m.storage.tokensMapPath (mapText map)
    match rotated with
    | none => return
    | some token =>
      let pending ← check (pendingClientPath platform m.storage.clientTokenPath)
      writeSecretFile platform pending token

def cmdMintMode (rotate dryRun : Bool) : Prog Unit := do
  perform Call.manifest
  check (validateStoragePaths platform m.storage)
  lockTokenMap platform m dryRun
  let onsite ← perform Call.onsite
  let original ← startMap platform m
  let (map, rotated) ← mintIdentities platform m onsite rotate m.identities original none
  check (assertNoOnsiteReuse platform map onsite)
  if rotate && rotated.isNone then .fail "rotation identity is absent from the manifest roster"
  else saveMap platform m original map rotated dryRun

/-! ### `cmd_write_client` -/

def cmdWriteClient (dryRun : Bool) : Prog Unit := do
  perform Call.manifest
  check (validateStoragePaths platform m.storage)
  lockTokenMap platform m dryRun
  let map ← readCheckedMap platform m
  let current ← perform (Call.read m.storage.clientTokenPath)
  let token ← check (chooseClient platform m.storage map (current.map Text.trim))
  if dryRun then return
  else writeSecretFile platform m.storage.clientTokenPath token

/-! ### `cmd_activate` -/

/-- A reply of Bitwarden. -/
def readReply (raw : List UInt8) (message : String) : Except String Value :=
  match fromSlice platform raw with
  | none => .error message
  | some v => .ok v

def requireUnlockedBw : Prog Unit := do
  let raw ← perform (Call.invoke "bw" ["status"] none)
  let status ← check (readReply platform raw "parse Bitwarden status")
  check (require ((status.field? "status").bind Value.asStr = some "unlocked")
    "unlock Bitwarden before recovery or upload")

/-- The map in a reply of Bitwarden, which must be the map that is there. -/
def checkRecovery (map : Fields) (raw : List UInt8) : Except String Unit := do
  let item ← readReply platform raw "parse Bitwarden recovery item"
  let recovered ← recoveredTokenMap platform item
  require (same (.obj recovered) (.obj map))
    "Bitwarden recovery differs from the local map; upload refused"

def verifyRecovery (map : Fields) : Prog Unit := do
  requireUnlockedBw platform
  let raw ← perform (Call.invoke "bw" ["get", "item", m.itemName] none)
  check (checkRecovery platform map raw)

/-- The staged token, if it is a token of the client. -/
def checkStaged (map : Fields) (text : String) : Except String String :=
  let token := Text.trim text
  match Fields.get map token with
  | none => .error "staged credential is absent from the map"
  | some value =>
    match TokenMeta.ofValue value with
    | none => .error "invalid staged credential metadata"
    | some data => do
      require (data.isClient m.storage)
        "staged credential does not match the selected client identity"
      return token

def cmdActivate (dryRun : Bool) : Prog Unit := do
  perform Call.manifest
  check (validateStoragePaths platform m.storage)
  let pending ← check (pendingClientPath platform m.storage.clientTokenPath)
  lockTokenMap platform m dryRun
  let map ← readCheckedMap platform m
  let text ← readText pending "read staged client credential"
  let token ← check (checkStaged m map text)
  if dryRun then return
  else
    verifyRecovery platform m map
    perform (Call.smoke m.cloudBaseUrl token)
    writeSecretFile platform m.storage.clientTokenPath token
    perform (Call.remove pending)

/-! ### `cmd_upload` -/

def checkBaseline (evidence : DeployedMapAuthority) (baseline candidate : Fields) :
    Except String Unit := do
  require (tokenMapSha256 platform baseline = evidence.baselineSha256 &&
      tokenMapSha256 platform candidate = evidence.candidateSha256)
    "stored-baseline or candidate authority binding differs; upload refused"

/-- `authority_baseline`. -/
def authorityBaseline (candidate : Fields) : Prog Fields := do
  let evidence ← check (establishedEvidence m)
  check (validateStoragePaths platform m.storage)
  check (requireDistinctBaseline platform m evidence.baselinePath)
  let baseline ← readMap platform evidence.baselinePath
  check (checkBaseline platform evidence baseline candidate)
  return baseline

def requireDeploymentAuthority (candidate : Fields) : Prog Unit := do
  let baseline ← authorityBaseline platform m candidate
  check (require (preserves baseline candidate)
    "candidate omits or changes an authoritative baseline entry; upload refused")

def isWorkerName (worker : String) : Bool :=
  !worker.isEmpty && worker.toList.all fun c => c.isAlphanum || c == '-' || c == '_'

def workerDirectory : Prog Bool := perform Call.workerDirectory

def cmdUpload (dryRun : Bool) : Prog Unit := do
  perform Call.manifest
  check (require m.antiLockout.requireBwItemBeforeWranglerPut
    "the recovery upload gate cannot be disabled")
  lockTokenMap platform m dryRun
  let map ← readCheckedMap platform m
  requireDeploymentAuthority platform m map
  verifyRecovery platform m map
  let worker := m.workerName.getD "agentbus-cloud"
  check (require (isWorkerName worker) "invalid Worker name")
  let there ← workerDirectory
  if !there then .fail "cloud Worker directory is missing"
  else if dryRun then return
  else
    let _ ← perform (Call.invoke "wrangler"
      ["secret", "put", "AGENT_BUS_TOKENS", "--name", worker] (some (toVec (.obj map))))

/-! ### The world -/

/-- What has happened outside the files. -/
inductive Event where
  | wrote (path : Path) (contents : String)
  | invoked (program : String) (args : List String) (input : Option (List UInt8)) (reply : List UInt8)
  deriving DecidableEq

/-- What outlives a command: the files, by the places their paths lead to, the backups, and what has
been written and invoked, the latest first. -/
structure World where
  files : String → Option String
  backups : List String
  events : List Event

/-- What surrounds a call: whether the command is stopped before it or after it, and what is answered
from outside. -/
structure Moment where
  before : Bool
  after : Bool
  onsite : Option String
  bytes : Nat → UInt8
  reply : List UInt8
  workerDirectory : Bool

def Call.effect (c : Call) (moment : Moment) (w : World) : World × c.Reply :=
  match c with
  | .manifest | .lock | .smoke _ _ => (w, ())
  | .onsite => (w, moment.onsite)
  | .isFile path => (w, (w.files (platform.place path)).isSome)
  | .read path => (w, w.files (platform.place path))
  | .draw count => (w, (List.range count).map moment.bytes)
  | .backup contents => ({ w with backups := ended contents :: w.backups }, ())
  | .write path contents =>
    ({ w with
        files := Function.update w.files (platform.place path) (some (ended contents))
        events := .wrote path (ended contents) :: w.events }, ())
  | .remove path => ({ w with files := Function.update w.files (platform.place path) none }, ())
  | .invoke program args input =>
    ({ w with events := .invoked program args input moment.reply :: w.events }, moment.reply)
  | .workerDirectory => (w, moment.workerDirectory)

def stops : Stops Call Call.Reply World Moment where
  effect c := c.effect platform
  before := Moment.before
  after := Moment.after

inductive Action where
  | mint
  | rotate
  | writeClient
  | activate
  | upload
  deriving DecidableEq

def Action.program (dryRun : Bool) : Action → Prog Unit
  | .mint => cmdMintMode platform m false dryRun
  | .rotate => cmdMintMode platform m true dryRun
  | .writeClient => cmdWriteClient platform m dryRun
  | .activate => cmdActivate platform m dryRun
  | .upload => cmdUpload platform m dryRun

/-- A command that is run, with what surrounds its calls. -/
structure Command where
  action : Action
  dryRun : Bool
  moments : Nat → Moment

/-- One command after the other, with one manifest; it shows their errors. -/
def tool : Machine World Command (Option String) where
  step w command :=
    let ended := (command.action.program platform m command.dryRun).run (stops platform).serve
      "stopped" command.moments w
    (ended.1, [match ended.2 with | .ok _ => none | .error e => some e])

end Commands

end AgentHub.CloudTokens
