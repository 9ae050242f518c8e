import AgentHub.Cloud.Equiv.Content
import AgentHub.Cloud.Post
import AgentHub.Validation.Equiv.Schema

/-!
# Two fittings of one message

The Worker folds the case of a topic before it looks for a schema, and trims with the blanks of
JavaScript; the hub does neither.  Where the topic and the body give no occasion for that, both
store the same body under the same schema (`fitted_alike_iff`).
-/

namespace AgentHub.Cloud

open AgentHub.Json AgentHub.Validation

/-! ### Topics -/

/-- The topic is about findings or reviews. -/
def namesFindings (topic : String) : Bool :=
  Text.contains topic "findings" || Text.startsWith topic "review"

/-- Folding the case of a topic and trimming it by other blanks makes no difference to the words
that are looked for. -/
def TopicsAgree (topic : String) : Prop :=
  namesFindings (Text.trim topic) = namesFindings (toLowerCase (Js.trim topic)) ∧
    (Text.trim topic = "benchmark" ↔ toLowerCase (Js.trim topic) = "benchmark")

/-- The schema of a topic over HTTP. -/
def httpSchema (topic : String) : MessageSchema := (topicSchema topic).getD .status

theorem httpSchema_eq (topic : String) :
    httpSchema topic =
      if namesFindings topic then .finding else if topic = "benchmark" then .benchmark
      else .status := by
  unfold httpSchema topicSchema namesFindings
  split
  · rfl
  · split
    · rename_i hstatus
      have hne : topic ≠ "benchmark" := by
        rintro rfl
        revert hstatus
        decide
      rw [if_neg hne]
      rfl
    · split <;> rfl

theorem resolve_http (topic : String) :
    resolveMessageSchema "http" none topic = .ok (some (httpSchema topic)) := by
  unfold resolveMessageSchema Validation.enforceSchemaForTransport httpSchema
  cases topicSchema topic <;> simp

theorem resolve_explicit (schema : MessageSchema) (topic : String) :
    resolveMessageSchema "http" (some schema.asStr) topic = .ok (some schema) := by
  cases schema <;> rfl

theorem enforce_explicit (schema : MessageSchema) (topic : String) :
    Cloud.enforceSchemaForTransport (some (.str schema.asStr)) topic = schema := by
  cases schema <;> rfl

theorem httpSchema_eq_iff {a b : String} :
    httpSchema a = httpSchema b ↔
      namesFindings a = namesFindings b ∧ (a = "benchmark" ↔ b = "benchmark") := by
  have hbenchmark : namesFindings "benchmark" = false := by decide
  have hnot : ∀ t : String, namesFindings t = true → t ≠ "benchmark" := by
    rintro t ht rfl
    rw [hbenchmark] at ht
    cases ht
  rw [httpSchema_eq, httpSchema_eq]
  cases ha : namesFindings a with
  | true =>
    cases hb : namesFindings b with
    | true => simp [hnot a ha, hnot b hb]
    | false => by_cases hname : b = "benchmark" <;> simp [hname]
  | false =>
    cases hb : namesFindings b with
    | true => by_cases hname : a = "benchmark" <;> simp [hname]
    | false => by_cases hname : a = "benchmark" <;> by_cases hname' : b = "benchmark" <;>
        simp [hname, hname']

/-! ### Bodies -/

section Bodies

/-- Words of the schemas have no blanks at their ends. -/
theorem contains_hub {pat : String} (body : String) (hne : pat.toList ≠ [])
    (hhead : ∀ c ∈ pat.toList.head?, Text.isWhitespace c = false)
    (hlast : ∀ c ∈ pat.toList.getLast?, Text.isWhitespace c = false) :
    Text.contains (Text.trim body) pat = Text.contains body pat := by
  rw [Bool.eq_iff_iff, Text.contains_iff, Text.contains_iff, Text.trim, String.toList_ofList]
  exact Text.infix_trimmed hne hhead hlast

theorem contains_cloud {pat : String} (body : String) (hne : pat.toList ≠ [])
    (hhead : ∀ c ∈ pat.toList.head?, Js.isSpace c = false)
    (hlast : ∀ c ∈ pat.toList.getLast?, Js.isSpace c = false) :
    Text.contains (Js.trim body) pat = Text.contains body pat := by
  rw [Bool.eq_iff_iff, Text.contains_iff, Text.contains_iff, Js.trim, String.toList_ofList]
  exact Text.infix_trimmed hne hhead hlast

/-- A character that neither side takes for a blank. -/
def solid (c : Char) : Bool := !Text.isWhitespace c && !Js.isSpace c

theorem not_blank_of_solid {o : Option Char} (h : o.all solid = true) :
    ∀ c ∈ o, Text.isWhitespace c = false ∧ Js.isSpace c = false := by
  intro c hc
  obtain rfl : o = some c := hc
  simpa [solid] using h

/-- Both sides find the same words. -/
theorem contains_trims (body pat : String) (hne : pat.toList ≠ [])
    (hhead : pat.toList.head?.all solid = true) (hlast : pat.toList.getLast?.all solid = true) :
    Text.contains (Text.trim body) pat = Text.contains (Js.trim body) pat := by
  have hhead := not_blank_of_solid hhead
  have hlast := not_blank_of_solid hlast
  rw [contains_hub body hne (fun c hc => (hhead c hc).1) fun c hc => (hlast c hc).1,
    contains_cloud body hne (fun c hc => (hhead c hc).2) fun c hc => (hlast c hc).2]

theorem marked_trims (body : String) : marked (Text.trim body) = marked (Js.trim body) := by
  unfold marked
  rw [contains_trims body "FINDING:" (by decide) (by decide) (by decide),
    contains_trims body "FIX" (by decide) (by decide) (by decide),
    contains_trims body "COMPLETE" (by decide) (by decide) (by decide)]

theorem contains_equals (body : String) :
    Text.contains body "=" = Text.containsChar body '=' := by
  have hpat : "=".toList = ['='] := by decide
  rw [Bool.eq_iff_iff, Text.contains_iff, Text.containsChar_iff, hpat, List.singleton_infix_iff]

theorem metrics_trims (body : String) :
    Text.containsChar (Text.trim body) '=' = Text.containsChar (Js.trim body) '=' := by
  rw [← contains_equals, ← contains_equals]
  exact contains_trims body "=" (by decide) (by decide) (by decide)

end Bodies

/-! ### Fitted bodies -/

section Fitted

variable {a b : String}

def severities : List String := ["CRITICAL", "HIGH", "MEDIUM", "LOW"]

theorem detectSeverity_mem (body : String) : detectSeverity body ∈ severities := by
  unfold detectSeverity severities
  dsimp only
  split_ifs <;> simp

/-- The last letter of a fitted body tells its severity. -/
theorem severity_of_fitted {s t : String} (hs : s ∈ severities) (ht : t ∈ severities)
    (h : a ++ s = b ++ t) : s = t := by
  have hletters : ∀ s ∈ severities, ∀ t ∈ severities,
      s.toList.getLast? = t.toList.getLast? → s = t := by decide
  have hsome : ∀ s ∈ severities, s.toList.getLast?.isSome = true := by decide
  have hlast : ∀ (front : String), ∀ s ∈ severities,
      (front ++ s).toList.getLast? = s.toList.getLast? := by
    intro front s hs
    obtain ⟨c, hc⟩ := Option.isSome_iff_exists.1 (hsome s hs)
    rw [String.toList_append, List.getLast?_append, hc, Option.some_or]
  refine hletters s hs t ht ?_
  rw [← hlast a s hs, ← hlast b t ht, h]

theorem autoFitFinding_inj (hmarked : marked a = marked b)
    (h : autoFitFinding a = autoFitFinding b) : a = b := by
  cases ha : marked a with
  | true =>
    rwa [autoFitFinding_of_marked ha, autoFitFinding_of_marked (hmarked ▸ ha)] at h
  | false =>
    rw [autoFitFinding_of_not_marked ha, autoFitFinding_of_not_marked (hmarked ▸ ha)] at h
    have hseverity := severity_of_fitted (detectSeverity_mem a) (detectSeverity_mem b) h
    rw [hseverity, String.append_left_inj, String.append_left_inj, String.append_right_inj] at h
    exact h

theorem autoFitBenchmark_inj
    (hmetrics : Text.containsChar a '=' = Text.containsChar b '=')
    (h : autoFitBenchmark a = autoFitBenchmark b) : a = b := by
  unfold autoFitBenchmark at h
  rw [hmetrics] at h
  split at h
  · exact h
  · exact (String.append_right_inj _).1 h

/-- Bodies with the same words are fitted to the same text only if they are the same. -/
theorem autoFitSchema_inj (hmarked : marked a = marked b)
    (hmetrics : Text.containsChar a '=' = Text.containsChar b '=') (schema : MessageSchema)
    (h : Validation.autoFitSchema a (some schema) = Validation.autoFitSchema b (some schema)) :
    a = b := by
  cases schema with
  | finding => exact autoFitFinding_inj hmarked h
  | status => exact h
  | benchmark => exact autoFitBenchmark_inj hmetrics h

theorem requires_ok_iff {p q : Bool} {first second : String} :
    (do require p first
        require q second : Checked Unit) = .ok () ↔ p = true ∧ q = true := by
  cases p <;> cases q <;> simp [require, bind, Except.bind]

/-- Both validators accept the same bodies that neither side finds blank. -/
theorem validate_iff {body : String} {schema : MessageSchema}
    (hblank : schema = .status → (Text.trim body).isEmpty = false ∧ (Js.trim body).isEmpty = false) :
    validateMessageSchema body schema = .ok () ↔
      Validation.validateMessageSchema body (some schema) = .ok () := by
  cases schema with
  | finding =>
    rw [validate_finding_iff]
    unfold validateMessageSchema marked unsevered
    rw [requires_ok_iff]
    cases Text.contains body "FINDING:" <;> cases Text.contains body "FIX" <;>
      cases Text.contains body "TAGGED:" <;> cases Text.contains body "COMPLETE" <;>
      cases Text.contains body "SEVERITY:" <;> decide
  | status =>
    simp [validateMessageSchema, Validation.validateMessageSchema, hblank rfl, require]
  | benchmark =>
    rw [validate_benchmark_iff, ← contains_equals]
    simp [validateMessageSchema, require_eq_ok]

end Fitted

/-! ### Both sides -/

/-- The same schema and the same body, and both validators of one mind about it. -/
def FitAlike (explicit : Option MessageSchema) (topicHub bodyHub topicCloud bodyCloud : String) :
    Prop :=
  ∃ schema,
    resolveMessageSchema "http" (explicit.map MessageSchema.asStr) topicHub = .ok (some schema) ∧
    enforceSchemaForTransport (explicit.map fun named => .str named.asStr) topicCloud = schema ∧
    autoFitSchema bodyCloud schema = Validation.autoFitSchema bodyHub (some schema) ∧
    (validateMessageSchema (autoFitSchema bodyCloud schema) schema = .ok () ↔
      Validation.validateMessageSchema (Validation.autoFitSchema bodyHub (some schema))
        (some schema) = .ok ())

section Both

variable {topic body topicHub bodyHub topicCloud bodyCloud : String}

/-- **The Worker and the hub fit messages alike** exactly where the case and the blanks of the topic
make no difference, unless a schema is named, and both trim the body to the same text. -/
theorem fitted_alike_iff (explicit : Option MessageSchema)
    (htopicHub : Validation.nonEmpty topic "topic" = .ok topicHub)
    (hbodyHub : Validation.nonEmpty body "body" = .ok bodyHub)
    (htopicCloud : Cloud.nonEmpty topic "topic" Cloud.maxTopicLen = .ok topicCloud)
    (hbodyCloud : Cloud.nonEmpty body "body" Cloud.maxBodyLen = .ok bodyCloud) :
    FitAlike explicit topicHub bodyHub topicCloud bodyCloud ↔
      (explicit = none → TopicsAgree topic) ∧ Text.trim body = Js.trim body := by
  obtain ⟨rfl, -⟩ := Validation.nonEmpty_eq_ok htopicHub
  obtain ⟨rfl, hhub⟩ := Validation.nonEmpty_eq_ok hbodyHub
  obtain ⟨rfl, -⟩ := nonEmpty_ok htopicCloud
  obtain ⟨rfl, hcloud⟩ := nonEmpty_ok hbodyCloud
  have hbodies : ∀ schema : MessageSchema,
      autoFitSchema (Js.trim body) schema =
          Validation.autoFitSchema (Text.trim body) (some schema) ↔
        Text.trim body = Js.trim body := by
    intro schema
    constructor
    · intro hsame
      exact autoFitSchema_inj (marked_trims body) (metrics_trims body) schema hsame.symm
    · intro hsame
      rw [hsame]
      rfl
  have hvalid : Text.trim body = Js.trim body → ∀ schema : MessageSchema,
      validateMessageSchema (autoFitSchema (Js.trim body) schema) schema = .ok () ↔
        Validation.validateMessageSchema
          (Validation.autoFitSchema (Text.trim body) (some schema)) (some schema) = .ok () := by
    intro hsame schema
    rw [(hbodies schema).2 hsame]
    refine validate_iff ?_
    rintro rfl
    -- A status is stored as it was trimmed.
    have hstored : Validation.autoFitSchema (Text.trim body) (some .status) = Text.trim body := rfl
    rw [hstored]
    constructor
    · rw [Text.trim_trim]
      exact hhub
    · rw [hsame, Js.trim_trim, String.isEmpty_eq_false_iff]
      exact hcloud
  cases explicit with
  | none =>
    have hschemas : httpSchema (Text.trim topic) = httpSchema (toLowerCase (Js.trim topic)) ↔
        TopicsAgree topic := httpSchema_eq_iff
    constructor
    · rintro ⟨schema, hresolve, henforce, hfit, -⟩
      rw [Option.map_none, resolve_http] at hresolve
      obtain rfl : httpSchema (Text.trim topic) = schema := by
        injection Except.ok.inj hresolve
      exact ⟨fun _ => hschemas.1 henforce.symm, (hbodies _).1 hfit⟩
    · rintro ⟨htopics, hsame⟩
      refine ⟨httpSchema (Text.trim topic), resolve_http _, ?_, (hbodies _).2 hsame, hvalid hsame _⟩
      exact (hschemas.2 (htopics rfl)).symm
  | some named =>
    constructor
    · rintro ⟨schema, -, -, hfit, -⟩
      exact ⟨nofun, (hbodies _).1 hfit⟩
    · rintro ⟨-, hsame⟩
      exact ⟨named, resolve_explicit named _, enforce_explicit named _, (hbodies _).2 hsame,
        hvalid hsame _⟩

end Both

/-- A report on a topic in lower case is fitted alike. -/
theorem review_fitted : FitAlike none "review" "leak" "review" "leak" := by
  have htopic : Validation.nonEmpty "review" "topic" = .ok "review" := by decide
  have hbody : Validation.nonEmpty "leak" "body" = .ok "leak" := by decide
  have htopic' : Cloud.nonEmpty "review" "topic" Cloud.maxTopicLen = .ok "review" := by
    decide
  have hbody' : Cloud.nonEmpty "leak" "body" Cloud.maxBodyLen = .ok "leak" := by decide
  refine (fitted_alike_iff none htopic hbody htopic' hbody').2 ⟨fun _ => ?_, by decide⟩
  unfold TopicsAgree
  decide

/-- A capital letter makes the Worker store a finding where the hub stores a status. -/
theorem capital_fitted_apart :
    Validation.nonEmpty "Review" "topic" = .ok "Review" ∧
      Validation.nonEmpty "leak" "body" = .ok "leak" ∧
      Cloud.nonEmpty "Review" "topic" Cloud.maxTopicLen = .ok "Review" ∧
      Cloud.nonEmpty "leak" "body" Cloud.maxBodyLen = .ok "leak" ∧
      resolveMessageSchema "http" none "Review" = .ok (some .status) ∧
      Cloud.enforceSchemaForTransport none "Review" = .finding ∧
      ¬FitAlike none "Review" "leak" "Review" "leak" := by
  have hhub : resolveMessageSchema "http" none "Review" = .ok (some .status) := by decide
  have hcloud : Cloud.enforceSchemaForTransport none "Review" = .finding := by decide
  refine ⟨by decide, by decide, by decide, by decide, hhub, hcloud,
    ?_⟩
  rintro ⟨schema, hresolve, henforce, -⟩
  rw [Option.map_none, hhub] at hresolve
  rw [Option.map_none, hcloud] at henforce
  subst henforce
  exact absurd hresolve (by decide)

end AgentHub.Cloud
