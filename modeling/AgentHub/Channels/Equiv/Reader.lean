import AgentHub.Channels.Claims
import AgentHub.Cloud.Equiv.Dates
import AgentHub.Hub.Equiv.Claims
import AgentHub.Json.Equiv.RoundTrip
import AgentHub.Json.Equiv.Utf8
import AgentHub.Sync.Message

/-!
# A library for concrete runs

`OwnershipClaim` as `serde` reads it, which gives back what it writes, and the timestamps with six
digits that `format_timestamp` writes.
-/

namespace AgentHub.Channels

open AgentHub.Json AgentHub.Outbox AgentHub.Hub AgentHub.Sync

/-! ### Claims -/

def readStatus (v : Value) : Option ClaimStatus :=
  v.asStr.bind fun text =>
    [ClaimStatus.pending, .granted, .contested, .reviewAssigned].find? fun status =>
      status.asStr = text

def readMode (v : Value) : Option ResourceLeaseMode :=
  v.asStr.bind fun text => (parseLeaseMode text).toOption

def readScope (v : Value) : Option ResourceScope :=
  v.asStr.bind fun text => (parseResourceScope text).toOption

def readReroute (v : Value) : Option RerouteSuggestion := do
  let text (name : String) : Option String := (v.field? name).bind Value.asStr
  return {
    originalResource := ← text "original_resource"
    suggestedResource := ← text "suggested_resource"
    isolationHint := ← text "isolation_hint"
    reason := ← text "reason" }

/-- `serde_json::from_value::<OwnershipClaim>` of an object. -/
def claimOfValue (v : Value) : Option OwnershipClaim := do
  let text (name : String) : Option String := (v.field? name).bind Value.asStr
  let resource ← text "resource"
  let agent ← text "agent"
  let priorityArgument ← text "priority_argument"
  let timestamp ← text "timestamp"
  let status ← readDefault readStatus .pending (v.field? "status")
  let mode ← readDefault readMode .exclusive (v.field? "mode")
  let leaseNamespace ← readOption Value.asStr (v.field? "namespace")
  let scopeKind ← readOption Value.asStr (v.field? "scope_kind")
  let scopePath ← readOption Value.asStr (v.field? "scope_path")
  let repoScopes ← readDefault readTexts [] (v.field? "repo_scopes")
  let threadId ← readOption Value.asStr (v.field? "thread_id")
  let leaseTtlSeconds ← readDefault Value.asU64 claimTtlSecs (v.field? "lease_ttl_seconds")
  let expiresAt ← readOption Value.asStr (v.field? "expires_at")
  let scope ← readDefault readScope .repo (v.field? "scope")
  let rerouteSuggestion ← readOption readReroute (v.field? "reroute_suggestion")
  return {
    resource, agent, priorityArgument, timestamp, status, mode, leaseNamespace, scopeKind
    scopePath, repoScopes, threadId, leaseTtlSeconds := UInt64.ofNat leaseTtlSeconds
    expiresAt, scope, rerouteSuggestion }

theorem readStatus_asStr (status : ClaimStatus) :
    readStatus (.str status.asStr) = some status := by
  cases status <;> rfl

theorem readMode_str (mode : ResourceLeaseMode) :
    readMode (.str (leaseModeStr mode)) = some mode := by
  cases mode <;> rfl

theorem readScope_str (scope : ResourceScope) :
    readScope (.str (resourceScopeStr scope)) = some scope := by
  cases scope <;> rfl

theorem readReroute_value (r : RerouteSuggestion) : readReroute r.value = some r := by
  simp [readReroute, RerouteSuggestion.value, Value.field?, Fields.get, List.lookup_cons,
    Value.asStr]

/-- A text that may be missing. -/
theorem readOption_str (text : Option String) :
    readOption Value.asStr (text.map Value.str) = some text := by
  cases text <;> rfl

theorem readTexts_slot (texts : List String) :
    readDefault readTexts [] (if texts = [] then none else some (.arr (texts.map .str))) =
      some texts := by
  split
  · simp_all [readDefault]
  · simp [readDefault, readTexts, Value.asArray, mapM_asStr, -List.mapM_map]

theorem readReroute_slot (r : Option RerouteSuggestion) :
    readOption readReroute (r.map RerouteSuggestion.value) = some r := by
  cases r with
  | none => rfl
  | some r =>
    have hread := readReroute_value r
    simp only [RerouteSuggestion.value] at hread
    simp [readOption, RerouteSuggestion.value, hread]

/-- A field that is there is read. -/
theorem readDefault_some {α : Type} (read : Value → Option α) (default : α) (v : Value) :
    readDefault read default (some v) = read v := rfl

theorem asU64_toNat (n : UInt64) : Value.asU64 (.int n.toNat) = some n.toNat := by
  have hlt := n.toNat_lt
  simp only [Value.asU64]
  rw [if_pos ⟨by omega, by exact_mod_cast hlt⟩]
  simp

theorem readTtl_slot (n : UInt64) :
    readDefault Value.asU64 claimTtlSecs (some (.int n.toNat)) = some n.toNat := by
  rw [readDefault_some, asU64_toNat]

/-- A field of a claim as it is written. -/
theorem field_of_slot {claim : OwnershipClaim} (i : Nat) {slot : String × Option Value}
    (h : claim.slots[i]? = some slot) : claim.value.field? slot.1 = slot.2 := by
  show Fields.get (Fields.compact claim.slots) slot.1 = slot.2
  rw [get_compact claim.slots_nodup, lookup_of_mem claim.slots_nodup (List.mem_of_getElem? h)]
  rfl

theorem text_of_slot {claim : OwnershipClaim} (i : Nat) {name text : String}
    (h : claim.slots[i]? = some (name, some (.str text))) :
    (claim.value.field? name).bind Value.asStr = some text := by
  rw [field_of_slot i h]
  rfl

/-- A field is read by what reads it in its slot. -/
theorem read_of_slot {α : Type} {claim : OwnershipClaim} (read : Option Value → Option α) (i : Nat)
    {slot : String × Option Value} {a : α} (h : claim.slots[i]? = some slot)
    (hread : read slot.2 = some a) : read (claim.value.field? slot.1) = some a := by
  rw [field_of_slot i h, hread]

theorem bind_of_some {α β : Type} {x : Option α} {f : α → Option β} {a : α} (h : x = some a) :
    x >>= f = f a := by
  rw [h]
  rfl

/-- A claim is read back from its fields. -/
theorem claimOfValue_value (claim : OwnershipClaim) : claimOfValue claim.value = some claim := by
  have hstatus := read_of_slot (readDefault readStatus .pending) 4 rfl
    (readStatus_asStr claim.status)
  have hmode := read_of_slot (readDefault readMode .exclusive) 5 rfl (readMode_str claim.mode)
  have hrepo := read_of_slot (readDefault readTexts []) 9 rfl (readTexts_slot claim.repoScopes)
  have httl := read_of_slot (readDefault Value.asU64 claimTtlSecs) 11 rfl
    (readTtl_slot claim.leaseTtlSeconds)
  have hscope := read_of_slot (readDefault readScope .repo) 13 rfl (readScope_str claim.scope)
  have hreroute := read_of_slot (readOption readReroute) 14 rfl
    (readReroute_slot claim.rerouteSuggestion)
  have htext : ∀ (i : Nat) {name : String} {text : Option String},
      claim.slots[i]? = some (name, text.map .str) →
      readOption Value.asStr (claim.value.field? name) = some text := fun i _ text h =>
    read_of_slot (readOption Value.asStr) i h (readOption_str text)
  unfold claimOfValue
  refine (bind_of_some (text_of_slot 0 rfl)).trans ?_
  refine (bind_of_some (text_of_slot 1 rfl)).trans ?_
  refine (bind_of_some (text_of_slot 2 rfl)).trans ?_
  refine (bind_of_some (text_of_slot 3 rfl)).trans ?_
  refine (bind_of_some hstatus).trans ?_
  refine (bind_of_some hmode).trans ?_
  refine (bind_of_some (htext 6 rfl)).trans ?_
  refine (bind_of_some (htext 7 rfl)).trans ?_
  refine (bind_of_some (htext 8 rfl)).trans ?_
  refine (bind_of_some hrepo).trans ?_
  refine (bind_of_some (htext 10 rfl)).trans ?_
  refine (bind_of_some httl).trans ?_
  refine (bind_of_some (htext 12 rfl)).trans ?_
  refine (bind_of_some hscope).trans ?_
  refine (bind_of_some hreroute).trans ?_
  rw [UInt64.ofNat_toNat]
  rfl

/-- `serde_json::from_str::<OwnershipClaim>`. -/
def readClaimText (text : String) : Option OwnershipClaim :=
  (fromStr text.toList).toOption.bind claimOfValue

theorem depth_claim (claim : OwnershipClaim) : claim.value.depth ≤ 2 := by
  have hfields : Value.depthFields (Fields.compact claim.slots) ≤ 1 := by
    refine depthFields_le fun kv hkv => ?_
    obtain ⟨⟨k, o⟩, hmem, hsome⟩ := List.mem_filterMap.mp hkv
    obtain ⟨v, hv, rfl⟩ := Option.map_eq_some_iff.mp hsome
    exact claim.depth_slots (k, o) hmem v hv
  simp only [OwnershipClaim.value, Value.depth]
  omega

theorem readClaimText_text (claim : OwnershipClaim) :
    readClaimText (claimText claim) = some claim := by
  have hdepth : claim.value.depth ≤ maxDepth := by
    have hle := depth_claim claim
    unfold maxDepth
    omega
  unfold readClaimText claimText jsonText
  rw [String.toList_ofList, fromStr_print _ hdepth]
  exact claimOfValue_value claim

/-! ### Timestamps -/

/-- The nanoseconds of a text of `format_timestamp`. -/
def nanosOfText (text : String) : Option Int :=
  (Cloud.isoDates.parseTimestampUtcMs text).map fun ms =>
    ms * 1000000 + 1000 * (Nat.ofDigitChars 10 ((text.toList.drop 23).take 3) 0 : Int)

def sampleLibrary : Library where
  parseRfc3339 := nanosOfText
  toLowercase text := String.ofList (text.toList.map Char.toLower)
  readClaim := readClaimText
  readClaim_text := readClaimText_text

/-! ### The library with a shorter evaluation -/

/-- The characters of a text, from its bytes where each is one. -/
def asciiChars (s : String) : List Char :=
  let bytes := s.toByteArray.data.toList
  if bytes.all fun b => b.toNat < 128 then bytes.map fun b => Char.ofNat b.toNat else s.toList

theorem asciiChars_eq (s : String) : asciiChars s = s.toList := by
  have hbytes : s.toByteArray.data.toList = utf8 s.toList := by
    have hencoded : (utf8 s.toList).toByteArray = s.toByteArray := String.utf8Encode_toList
    rw [← hencoded, List.data_toByteArray]
  unfold asciiChars
  dsimp only
  rw [hbytes]
  split
  · next hall => exact map_utf8 (by simpa using hall)
  · rfl

def asciiLibrary : Library where
  parseRfc3339 := nanosOfText
  toLowercase text := String.ofList (text.toList.map Char.toLower)
  readClaim text := (fromStr (asciiChars text)).toOption.bind claimOfValue
  readClaim_text claim := by
    rw [asciiChars_eq]
    exact readClaimText_text claim

theorem asciiLibrary_eq : asciiLibrary = sampleLibrary := by
  have hread : (fun text => (fromStr (asciiChars text)).toOption.bind claimOfValue) =
      readClaimText := by
    funext text
    rw [asciiChars_eq]
    rfl
  unfold asciiLibrary sampleLibrary
  congr

end AgentHub.Channels
