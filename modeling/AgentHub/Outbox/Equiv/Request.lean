import AgentHub.Checks
import AgentHub.Outbox.Request

/-!
# What a valid request is

`validate_eq_ok` takes `validate` apart into its checks; the lemmas after it say what these mean for
the times of a request.  Identifiers are told apart by their texts: `Uuid.toString_injective`.
-/

namespace AgentHub.Outbox

open AgentHub.Json AgentHub.Validation AgentHub.ToolSchema

/-! ### Identifiers -/

theorem hexNibble_hexChar : ∀ d : Fin 16, Uuid.hexNibble (Uuid.hexChar d) = some d := by decide

theorem mapM_hexNibble (ds : List (Fin 16)) :
    (ds.map Uuid.hexChar).mapM Uuid.hexNibble = some ds := by
  induction ds with
  | nil => rfl
  | cons d ds ih => simp [hexNibble_hexChar, ih]

/-- The five groups of the hyphenated form. -/
theorem exists_groups {α : Type} {cs : List α} (hlen : cs.length = 32) :
    ∃ a b c d e : List α, cs = a ++ (b ++ (c ++ (d ++ e))) ∧ a.length = 8 ∧ b.length = 4 ∧
      c.length = 4 ∧ d.length = 4 ∧ e.length = 12 := by
  refine ⟨cs.take 8, (cs.drop 8).take 4, (cs.drop 12).take 4, (cs.drop 16).take 4, cs.drop 20,
    ?_, by simp [hlen], by simp [hlen], by simp [hlen], by simp [hlen], by simp [hlen]⟩
  have h8 := List.take_append_drop 8 cs
  have h12 := List.take_append_drop 4 (cs.drop 8)
  have h16 := List.take_append_drop 4 (cs.drop 12)
  have h20 := List.take_append_drop 4 (cs.drop 16)
  simp only [List.drop_drop, Nat.reduceAdd] at h12 h16 h20
  rw [h20, h16, h12, h8]

theorem Uuid.parse_toString (u : Uuid) : Uuid.parse u.toString = some u := by
  obtain ⟨ds, hlen⟩ := u
  have hlen' : (ds.map hexChar).length = 32 := by simpa using hlen
  have hmap := mapM_hexNibble ds
  unfold parse toString toChars
  simp only [String.toList_ofList]
  generalize ds.map hexChar = cs at hlen' hmap
  obtain ⟨a, b, c, d, e, rfl, ha, hb, hc, hd, he⟩ := exists_groups hlen'
  match a, b, c, d, e, ha, hb, hc, hd, he with
  | [_, _, _, _, _, _, _, _], [_, _, _, _], [_, _, _, _], [_, _, _, _],
    [_, _, _, _, _, _, _, _, _, _, _, _], _, _, _, _, _ =>
    simp only [List.cons_append, List.nil_append] at hmap
    simp [hmap, hlen]

theorem Uuid.toString_injective : Function.Injective Uuid.toString := by
  intro u v h
  have hu := u.parse_toString
  rw [h, v.parse_toString, Option.some.injEq] at hu
  exact hu.symm

/-! ### Checks -/

theorem sanitize_eq_ok {α : Type} {x : Except AgentBusError α} {a : α} :
    sanitize x = .ok a ↔ x = .ok a := by
  cases x <;> simp [sanitize]

namespace ReplayRequest

variable {r : ReplayRequest}

theorem lifetimeMs_le {ms : Nat} (h : r.lifetimeMs = .ok ms) : ms ≤ 86400000 := by
  have hday : ∀ ttl : Nat, (if 1 ≤ ttl ∧ ttl ≤ 86400 then Except.ok (ttl * 1000) else
      .error OutboxError.invalidRequest) = .ok ms → ms ≤ 86400000 := by
    intro ttl hms
    split at hms
    · simp only [Except.ok.injEq] at hms
      omega
    · cases hms
  unfold lifetimeMs at h
  cases hoperation : r.operation <;> simp only [hoperation, Except.ok.injEq] at h
  case send => omega
  case ack => omega
  all_goals
    repeat' split at h
    all_goals
      simp only [bind, Except.bind] at h
      first
        | cases h; done
        | exact hday _ h

/-- The checks of `validate`. -/
theorem validate_eq_ok :
    r.validate = .ok () ↔
      validateToolArguments r.operation.toolName r.arguments = .ok () ∧
      r.timesPlausible = true ∧
      (∀ key ∈ requiredTexts r.operation, checkRequiredText r.arguments key = .ok ()) ∧
      (r.operation = .claimRequest → checkClaim r.arguments = .ok ()) ∧
      (r.operation = .presence → checkPresence r.arguments = .ok ()) ∧
      (r.operation = .send → checkSend r.arguments r.surface = .ok ()) ∧
      r.checkLifetime = .ok () ∧
      encodedLen r.serialize ≤ recordLimit := by
  unfold validate
  rw [check_bind_eq_ok, sanitize_eq_ok, check_if_eq_ok, check_bind_eq_ok, forM_eq_ok,
    check_if_eq_ok, check_if_eq_ok, check_if_eq_ok, check_bind_eq_ok]
  have hfits : (if encodedLen r.serialize > recordLimit then Except.error OutboxError.capacity
      else pure ()) = .ok () ↔ encodedLen r.serialize ≤ recordLimit := by
    split <;> simp [pure, Except.pure] <;> omega
  rw [hfits]
  simp

/-- A claim or a presence expires after it was made, within a day. -/
theorem lifetime_of_validate (h : r.validate = .ok ()) (hages : r.operation.ages = true) :
    r.createdMs.toNat < r.expiresMs.toNat ∧
      r.expiresMs.toNat - r.createdMs.toNat ≤ 86400000 := by
  obtain ⟨-, htimes, -, -, -, -, hlifetime, -⟩ := validate_eq_ok.mp h
  constructor
  · simp only [timesPlausible, hages, if_true, Bool.and_eq_true, decide_eq_true_eq] at htimes
    exact UInt64.lt_iff_toNat_lt.mp htimes.2
  · simp only [checkLifetime, hages, if_true, bind_eq_ok] at hlifetime
    obtain ⟨ms, hms, heq⟩ := hlifetime
    have hspan : r.expiresMs.toNat - r.createdMs.toNat = ms := by
      by_contra hne
      simp [hne] at heq
    rw [hspan]
    exact lifetimeMs_le hms

end ReplayRequest

end AgentHub.Outbox
