import AgentHub.Text.Search
import AgentHub.Validation

/-!
# Fitting a body to a schema

`auto_fit_schema` should be a projection onto the bodies that `validate_message_schema` accepts.  It
is one except on two kinds of findings: a body that declares a finding without its severity is left
as it is and refused, and one that is only tagged is accepted and yet rewritten
(`autoFitSchema_projects_iff`).
-/

namespace AgentHub.Validation

open AgentHub.Text

/-! ### Projections -/

/-- The schema fits the body to one it accepts, leaves it alone where it accepts it, and fits a
fitted body no further. -/
def Projects (body : String) (schema : Option MessageSchema) : Prop :=
  validateMessageSchema (autoFitSchema body schema) schema = .ok () ∧
  (validateMessageSchema body schema = .ok () → autoFitSchema body schema = body) ∧
  autoFitSchema (autoFitSchema body schema) schema = autoFitSchema body schema

/-- A finding is declared without its severity. -/
def unsevered (body : String) : Bool := contains body "FINDING:" && !contains body "SEVERITY:"

/-- The words that keep a finding from being fitted. -/
def marked (body : String) : Bool :=
  contains body "FINDING:" || contains body "FIX" || contains body "COMPLETE"

/-- Of the words a finding may have, only the tag. -/
def onlyTagged (body : String) : Bool := contains body "TAGGED:" && !marked body

/-! ### Findings -/

section Finding

variable {body : String}

theorem autoFitFinding_of_marked (h : marked body = true) : autoFitFinding body = body := if_pos h

theorem autoFitFinding_of_not_marked (h : marked body = false) :
    autoFitFinding body = "FINDING: " ++ body ++ "\nSEVERITY: " ++ detectSeverity body :=
  if_neg (by rw [show (contains body "FINDING:" || contains body "FIX" ||
    contains body "COMPLETE") = false from h]; exact Bool.false_ne_true)

/-- A fitted body declares a finding and its severity. -/
theorem contains_fitted (body severity : String) :
    contains ("FINDING: " ++ body ++ "\nSEVERITY: " ++ severity) "FINDING:" = true ∧
      contains ("FINDING: " ++ body ++ "\nSEVERITY: " ++ severity) "SEVERITY:" = true := by
  have hfinding : "FINDING: ".toList = "FINDING:".toList ++ [' '] := by decide
  have hseverity : "\nSEVERITY: ".toList = '\n' :: "SEVERITY:".toList ++ [' '] := by decide
  constructor
  · refine contains_iff.2 ⟨[], ' ' :: (body.toList ++ "\nSEVERITY: ".toList ++ severity.toList), ?_⟩
    simp only [String.toList_append, hfinding, List.append_assoc, List.nil_append,
      List.cons_append]
  · refine contains_iff.2 ⟨"FINDING: ".toList ++ body.toList ++ ['\n'], ' ' :: severity.toList, ?_⟩
    simp only [String.toList_append, hseverity, List.append_assoc, List.cons_append,
      List.nil_append]

theorem fitted_ne (body severity : String) :
    "FINDING: " ++ body ++ "\nSEVERITY: " ++ severity ≠ body := by
  intro heq
  have hlength := congrArg String.length heq
  simp only [String.length_append] at hlength
  have hfinding : "FINDING: ".length = 9 := by decide
  omega

theorem marked_autoFitFinding (body : String) : marked (autoFitFinding body) = true := by
  cases h : marked body with
  | true => rwa [autoFitFinding_of_marked h]
  | false =>
    rw [autoFitFinding_of_not_marked h, marked, (contains_fitted body _).1]
    rfl

theorem validate_finding_iff :
    validateMessageSchema body (some .finding) = .ok () ↔
      (marked body = true ∨ contains body "TAGGED:" = true) ∧ unsevered body = false := by
  unfold validateMessageSchema marked unsevered
  cases contains body "FINDING:" <;> cases contains body "FIX" <;>
    cases contains body "TAGGED:" <;> cases contains body "COMPLETE" <;>
    cases contains body "SEVERITY:" <;> simp

theorem unsevered_autoFitFinding : unsevered (autoFitFinding body) = unsevered body := by
  cases h : marked body with
  | true => rw [autoFitFinding_of_marked h]
  | false =>
    have hfitted := (contains_fitted body (detectSeverity body)).2
    have hnone : contains body "FINDING:" = false := by
      unfold marked at h
      simp only [Bool.or_eq_false_iff] at h
      exact h.1.1
    rw [autoFitFinding_of_not_marked h, unsevered, unsevered, hfitted, hnone]
    simp

theorem finding_projects_iff :
    Projects body (some .finding) ↔ unsevered body = false ∧ onlyTagged body = false := by
  have hidem : autoFitFinding (autoFitFinding body) = autoFitFinding body :=
    autoFitFinding_of_marked (marked_autoFitFinding body)
  unfold Projects
  rw [validate_finding_iff, validate_finding_iff]
  show ((marked (autoFitFinding body) = true ∨ _) ∧ unsevered (autoFitFinding body) = false) ∧
    (_ → autoFitFinding body = body) ∧ autoFitFinding (autoFitFinding body) = autoFitFinding body ↔ _
  rw [marked_autoFitFinding, unsevered_autoFitFinding]
  constructor
  · rintro ⟨⟨-, hsevered⟩, hkeeps, -⟩
    refine ⟨hsevered, ?_⟩
    rw [Bool.eq_false_iff]
    intro htagged
    simp only [onlyTagged, Bool.and_eq_true, Bool.not_eq_true'] at htagged
    -- a body tagged but not marked is fitted although it is valid
    have hfit := hkeeps ⟨.inr htagged.1, hsevered⟩
    rw [autoFitFinding_of_not_marked htagged.2] at hfit
    exact fitted_ne body _ hfit
  · rintro ⟨hsevered, htagged⟩
    refine ⟨⟨.inl rfl, hsevered⟩, ?_, hidem⟩
    rintro ⟨hmarked | hword, -⟩
    · exact autoFitFinding_of_marked hmarked
    · cases hmarked : marked body with
      | true => exact autoFitFinding_of_marked hmarked
      | false =>
        rw [onlyTagged, hword, hmarked] at htagged
        cases htagged

end Finding

/-! ### Benchmarks -/

theorem containsChar_autoFitBenchmark (body : String) :
    containsChar (autoFitBenchmark body) '=' = true := by
  unfold autoFitBenchmark
  split
  · assumption
  · have hsummary : '=' ∈ "summary=".toList := by decide
    rw [containsChar_iff, String.toList_append]
    exact List.mem_append_left _ hsummary

theorem validate_benchmark_iff {body : String} :
    validateMessageSchema body (some .benchmark) = .ok () ↔ containsChar body '=' = true := by
  unfold validateMessageSchema
  cases containsChar body '=' <;> simp

theorem benchmark_projects (body : String) : Projects body (some .benchmark) := by
  unfold Projects
  rw [validate_benchmark_iff, validate_benchmark_iff]
  have hfitted := containsChar_autoFitBenchmark body
  exact ⟨hfitted, fun hmetrics => if_pos hmetrics, if_pos hfitted⟩

/-! ### All schemas -/

theorem nonEmpty_eq_ok {val name trimmed : String} (h : nonEmpty val name = .ok trimmed) :
    trimmed = trim val ∧ (trim val).isEmpty = false := by
  unfold nonEmpty at h
  dsimp only at h
  split_ifs at h with hempty
  · cases hnul : rejectNulBytes (trim val) name with
    | error e =>
      rw [hnul] at h
      cases h
    | ok u =>
      rw [hnul] at h
      exact ⟨(Except.ok.inj h).symm, by simpa using hempty⟩
  · exact ⟨(Except.ok.inj h).symm, by simpa using hempty⟩

/-- **Fitting is a projection onto the valid bodies**, for all schemas but the finding; and for a
finding exactly where the body neither declares a finding without its severity nor has the tag as
its only word. -/
theorem autoFitSchema_projects_iff {body trimmed : String}
    (h : nonEmpty body "body" = .ok trimmed) (schema : Option MessageSchema) :
    Projects body schema ↔
      (schema = some .finding → unsevered body = false ∧ onlyTagged body = false) := by
  cases schema with
  | none => exact iff_of_true ⟨rfl, fun _ => rfl, rfl⟩ (by simp)
  | some schema =>
    cases schema with
    | finding =>
      rw [finding_projects_iff]
      exact ⟨fun hplain _ => hplain, fun hplain => hplain rfl⟩
    | status =>
      have hvalid : validateMessageSchema body (some .status) = .ok () := by
        unfold validateMessageSchema
        rw [(nonEmpty_eq_ok h).2]
        rfl
      exact iff_of_true ⟨hvalid, fun _ => rfl, rfl⟩ (by simp)
    | benchmark => exact iff_of_true (benchmark_projects body) (by simp)

/-- A plain body is fitted. -/
theorem leak_projects : Projects "leak" (some .finding) := by
  have haccepted : nonEmpty "leak" "body" = .ok "leak" := by decide
  exact (autoFitSchema_projects_iff haccepted (some .finding)).2 fun _ => by decide

/-- A finding without its severity is neither fitted nor accepted. -/
theorem finding_not_fitted :
    nonEmpty "FINDING: leak" "body" = .ok "FINDING: leak" ∧
      ¬Projects "FINDING: leak" (some .finding) := by
  refine ⟨by decide, fun h => ?_⟩
  have hunsevered : unsevered "FINDING: leak" = true := by decide
  rw [(finding_projects_iff.1 h).1] at hunsevered
  cases hunsevered

end AgentHub.Validation
