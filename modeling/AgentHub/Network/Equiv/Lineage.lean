import AgentHub.Network.Equiv.Fleet
import AgentHub.Sync.Equiv.Entry

/-!
# No echo between hubs

A message keeps the origin of the hub it was first written at: in the row the cloud stores, in the
page another hub reads, and in the entry it ingests.  The hub that ingested it therefore never
pushes it, and the only rows of it are those of its origin (`no_echo`).
-/

namespace AgentHub.Network

open AgentHub.Json AgentHub.Cloud AgentHub.Cloud.BusLog AgentHub.Sync

variable {d : Deployment} {s : Fleet} {tr : List FleetEvent} {a b : HubName} {id : StreamId}

/-- The entry of a hub is a message first written at `a`: the local write itself, or what was
ingested from the row of such an entry. -/
inductive FirstWritten (tr : List FleetEvent) (a : HubName) : HubName → StreamId → Prop where
  | appended {id : StreamId} (h : .appended a id ∈ tr) : FirstWritten tr a a id
  | ingested {c b : HubName} {cid id : StreamId} {row : Row} {m : Message}
    (hfirst : FirstWritten tr a c cid) (hstored : .stored c cid row ∈ tr)
    (hin : .ingested b id m ∈ tr) (hrow : m.streamId = some row.streamId) : FirstWritten tr a b id

/-- What was ingested from a stored row has the origin of the hub that stored it. -/
theorem FleetInv.origin_of_stored (h : FleetInv d s tr) {c : HubName} {cid : StreamId} {row : Row}
    {m : Message} (hstored : .stored c cid row ∈ tr) (hin : .ingested b id m ∈ tr)
    (hrow : m.streamId = some row.streamId) : m.originHub = some c.text := by
  obtain ⟨horigin, hinserted, -⟩ := h.stored c cid row hstored
  obtain ⟨⟨row', hinserted', hread⟩, -⟩ := h.ingested b id m hin
  obtain ⟨horigin', -, hstream'⟩ := Row.read_fields hread
  rw [hrow] at hstream'
  have hseq := Row.streamId_injective (Option.some.inj hstream')
  rw [horigin', ← h.unique row row' hinserted hinserted' hseq, horigin]

/-- The entries of a stream are told apart by their ids. -/
theorem FleetInv.entry_unique (h : FleetInv d s tr) {x y : Entry} (hx : x ∈ (s.sites b).stream)
    (hy : y ∈ (s.sites b).stream) (heq : x.id = y.id) : x = y := by
  obtain ⟨t, hasc, -⟩ := h.sites b
  by_contra hne
  have hids : (s.sites b).stream.Pairwise fun x y => x.id ≠ y.id := hasc.imp fun hlt => hlt.ne
  have hsymm : Std.Symm fun x y : Entry => x.id ≠ y.id := ⟨fun _ _ hxy => hxy.symm⟩
  exact hids.forall hx hy hne heq

/-- An entry that was ingested is read with its origin. -/
theorem FleetInv.entry_of_ingested (h : FleetInv d s tr) {m : Message}
    (hin : .ingested b id m ∈ tr) :
    ∃ entry ∈ (s.sites b).stream, entry.id = id ∧
      (entry.message (d.codec b)).originHub = m.originHub := by
  obtain ⟨-, -, origin, horigin, hne, hentry⟩ := h.ingested b id m hin
  refine ⟨_, hentry, rfl, ?_⟩
  rw [horigin]
  exact decode_originHub (d.codec b) m hne

/-- An entry that was ingested is in no batch of its hub. -/
theorem FleetInv.not_pushed (h : FleetInv d s tr) {m : Message} (hin : .ingested b id m ∈ tr)
    {batch : List (StreamId × Message)} (hbatch : .pushed b batch ∈ tr) :
    id ∉ batch.map Prod.fst := by
  intro hid
  obtain ⟨x, hx, rfl⟩ := List.mem_map.1 hid
  obtain ⟨entry, hentry, rfl, hpushable⟩ := h.pushed b batch hbatch x hx
  obtain ⟨other, hother, heq, horigin⟩ := h.entry_of_ingested hin
  obtain ⟨-, hne, origin, hm, -⟩ := h.ingested b _ m hin
  obtain rfl := h.entry_unique hother hentry heq
  -- the message is of another hub
  rw [hm] at horigin hne
  rw [pushable, horigin, Bool.and_eq_true] at hpushable
  have hsame : origin = b.text := by simpa using hpushable.1
  exact hne (congrArg some hsame)

/-- A message first written at `a` is the local write there, and elsewhere one ingested with that
origin. -/
theorem FirstWritten.cases (h : FleetInv d s tr) (hfirst : FirstWritten tr a b id) :
    (b = a ∧ .appended a id ∈ tr) ∨
      (b ≠ a ∧ ∃ m, .ingested b id m ∈ tr ∧ m.originHub = some a.text) := by
  induction hfirst with
  | appended h => exact Or.inl ⟨rfl, h⟩
  | @ingested c b cid id row m hfirst hstored hin hrow ih =>
    right
    have horigin := h.origin_of_stored hstored hin hrow
    -- only its origin stores it
    have hc : c = a := by
      rcases ih with ⟨hc, -⟩ | ⟨-, m', hin', -⟩
      · exact hc
      · obtain ⟨-, -, batch, hbatch, hid⟩ := h.stored c cid row hstored
        exact absurd hid (h.not_pushed hin' hbatch)
    subst hc
    refine ⟨?_, m, hin, horigin⟩
    rintro rfl
    exact (h.ingested b id m hin).2.1 horigin

/-- **No echo between hubs.**  In every run a message first written at hub `a` is stored in the cloud
only under `a`, is kept by every other hub in an entry with the origin `a`, and is in no push batch
of a hub other than `a`; and every message of a push batch is internal. -/
theorem no_echo (d : Deployment) (is : List FleetInput) :
    let s := ((Fleet.machine d).exec {} is).1
    let tr := ((Fleet.machine d).exec {} is).2
    (∀ a b id, FirstWritten tr a b id →
      (∀ row, .stored b id row ∈ tr → b = a ∧ row.originHub = a.text) ∧
      (b ≠ a → ∃ entry ∈ (s.sites b).stream, entry.id = id ∧
        (entry.message (d.codec b)).originHub = some a.text ∧
        ∀ other ∈ (s.sites b).stream, other.id = id → other = entry) ∧
      ∀ batch, .pushed b batch ∈ tr → id ∈ batch.map Prod.fst → b = a) ∧
    ∀ b batch, .pushed b batch ∈ tr → ∀ x ∈ batch, x.2.effectiveSensitivity = .internal := by
  intro s tr
  have h : FleetInv d s tr := fleetInv_exec d is
  constructor
  · intro a b id hfirst
    -- the entry was appended where it is, or ingested from another site
    rcases hfirst.cases h with ⟨rfl, -⟩ | ⟨hne, m, hin, horigin⟩
    · exact ⟨fun row hrow => ⟨rfl, (h.stored b id row hrow).1⟩, fun habs => absurd rfl habs,
        fun _ _ _ => rfl⟩
    · refine ⟨?_, ?_, ?_⟩
      · intro row hrow
        obtain ⟨-, -, batch, hbatch, hid⟩ := h.stored b id row hrow
        exact absurd hid (h.not_pushed hin hbatch)
      · intro _
        obtain ⟨entry, hentry, hid, hkept⟩ := h.entry_of_ingested hin
        refine ⟨entry, hentry, hid, hkept.trans horigin, ?_⟩
        intro other hother heq
        exact h.entry_unique hother hentry (heq.trans hid.symm)
      · intro batch hbatch hid
        exact absurd hid (h.not_pushed hin hbatch)
  · -- a push takes nothing that is not internal
    intro b batch hbatch x hx
    obtain ⟨-, -, -, hpushable⟩ := h.pushed b batch hbatch x hx
    rw [pushable, Bool.and_eq_true] at hpushable
    simpa using hpushable.2

/-! ### A run -/

def hubA : HubName := ⟨"hub-a", by decide⟩

def hubB : HubName := ⟨"hub-b", by decide⟩

def sampleDeployment : Deployment where
  worker := sampleWorker
  codec := fun _ => sampleCodec
  config := fun name => { sampleConfig with hub := name.text }
  pageSize := fun _ => pullPageSize
  hub_eq := fun _ => rfl

/-- A message is written at one hub and pushed, and another hub pulls it. -/
def sampleRun : List FleetInput :=
  [.site hubA (.start .saved), .site hubA (.append (StreamId.mk 5 0) sampleFields),
   .site hubA .tick, .site hubA (.store true StreamId.zero .saved), .serve hubA sampleMoment,
   .deliver hubA .saved,
   .site hubB (.start .saved), .site hubB .tick, .site hubB (.store true StreamId.zero .saved),
   .site hubB (.store true StreamId.zero .saved), .serve hubB sampleMoment, .deliver hubB .saved,
   .site hubB (.store true (StreamId.mk 7 0) .saved)]

/-- Where the ingested messages of a run came from. -/
def ingestedOrigins (tr : List FleetEvent) : List (HubName × Option String) :=
  tr.filterMap fun
    | .ingested name _ m => some (name, m.originHub)
    | _ => none

example : ingestedOrigins ((Fleet.machine sampleDeployment).exec {} sampleRun).2 =
    [(hubB, some "hub-a")] := by
  decide +kernel

end AgentHub.Network
