import AgentHub.CloudTokens.Commands
import AgentHub.CloudTokens.Equiv.Map

/-!
# What the commands keep

After any commands with one manifest, each stopped anywhere or not at all, the token map has every entry
it had, as it was; what was handed to `wrangler` has the entries of the authoritative baseline and was
read back from the recovery item; and what the tool has written for the client, or staged for it, is a
token of the client in the map: `credentials_kept`.  Each command keeps this from one of its calls to
the next (`Safe`).
-/

namespace AgentHub.CloudTokens

open AgentHub.Json AgentHub.Program

/-! ### Texts -/

theorem ended_of_notMem {contents : String} (h : '\n' ∉ contents.toList) :
    ended contents = contents ++ "\n" := by
  refine if_neg fun hlast => h ?_
  exact List.mem_of_getLast? hlast

theorem ended_mapText (map : Fields) : ended (mapText map) = mapText map := by
  refine if_pos ?_
  rw [mapText, String.toList_append]
  exact List.getLast?_concat

theorem newline_notMem_hexBytes (bytes : List UInt8) : '\n' ∉ (hexBytes bytes).toList := by
  have hdigit : ∀ n < 16, Nat.digitChar n ≠ '\n' := by decide
  unfold hexBytes
  rw [String.toList_ofList]
  intro hmem
  obtain ⟨b, -, hb⟩ := List.mem_flatMap.1 hmem
  have hlt := b.toNat_lt
  rcases List.mem_pair.1 hb with h | h
  · exact hdigit _ (by omega) h.symm
  · exact hdigit _ (by omega) h.symm

theorem newline_notMem_of_unblank {token : String}
    (h : ∀ c ∈ token.toList, Text.isWhitespace c = false) : '\n' ∉ token.toList := by
  intro hmem
  exact absurd (h _ hmem) (by decide)

section Worlds

variable (platform : Platform) (m : Manifest)

/-! ### The world of the commands -/

/-- The map file has a token with a value. -/
def Entry (w : World) (token : String) (value : Value) : Prop :=
  ∃ text map, w.files (platform.place m.storage.tokensMapPath) = some text ∧
    parseTokenMap platform text.toList = some map ∧ Fields.get map token = some value

/-- The map file has a token of the client that is selected. -/
def ClientToken (w : World) (token : String) : Prop :=
  ∃ value data, Entry platform m w token value ∧ TokenMeta.ofValue value = some data ∧
    data.isClient m.storage = true

/-- The tool has written to a path. -/
def Wrote (w : World) (path : Path) : Prop := ∃ contents, .wrote path contents ∈ w.events

/-- The files a token of the client is written to. -/
def ClientFile (path : Path) : Prop :=
  path = m.storage.clientTokenPath ∨
    pendingClientPath platform m.storage.clientTokenPath = .ok path

/-- A map that was handed to `wrangler`, with what it was handed over on: the evidence, the baseline,
the reply of Bitwarden and the map in it. -/
structure Upload (w : World) (before : List Event) (input : Option (List UInt8))
    (evidence : DeployedMapAuthority) (map baseline recovered : Fields) (raw : List UInt8) : Prop where
  handed : input = some (toVec (.obj map))
  /-- It was in the map file, and its entries still are. -/
  entries : ∀ token value, Fields.get map token = some value → Entry platform m w token value
  established : m.deployedMapAuthority = some evidence
  apart : requireDistinctBaseline platform m evidence.baselinePath = .ok ()
  stored : ∃ text, w.files (platform.place evidence.baselinePath) = some text ∧
    readTokenMap platform text = .ok baseline
  bound : tokenMapSha256 platform baseline = evidence.baselineSha256
  /-- It has every entry of the baseline. -/
  preserved : ∀ token value, Fields.get baseline token = some value →
    ∃ v, Fields.get map token = some v ∧ same v value = true
  /-- The last command before was that for the recovery item, which had the same map. -/
  readBack : before.head? = some (.invoked "bw" ["get", "item", m.itemName] none raw)
  recovers : ∃ item, fromSlice platform raw = some item ∧
    recoveredTokenMap platform item = .ok recovered
  equal : same (.obj recovered) (.obj map) = true

/-- An upload that was called for. -/
def Uploaded (w : World) (before : List Event) (input : Option (List UInt8)) : Prop :=
  ∃ evidence map baseline recovered raw,
    Upload platform m w before input evidence map baseline recovered raw

/-- What holds between the calls of the commands. -/
structure Good (w : World) : Prop where
  /-- What is in a file for the client that the tool has written. -/
  staged : ∀ path, ClientFile platform m path → Wrote w path →
    ∀ contents, w.files (platform.place path) = some contents →
      ∃ token, ClientToken platform m w token ∧ contents = token ++ "\n"
  /-- The file of the client stays once it is written. -/
  there : Wrote w m.storage.clientTokenPath →
    ∃ contents, w.files (platform.place m.storage.clientTokenPath) = some contents
  uploads : ∀ args input reply before, .invoked "wrangler" args input reply :: before <:+ w.events →
    Uploaded platform m w before input

/-- Every entry of the map file stays. -/
def Kept (w w' : World) : Prop :=
  ∀ token value, Entry platform m w token value → Entry platform m w' token value

/-- What holds after some calls of a command that began in `w₀`. -/
structure Safe (w₀ w : World) : Prop where
  good : Good platform m w
  kept : Kept platform m w₀ w

end Worlds

section Steps

variable {platform : Platform} {m : Manifest} {w w' w₀ : World}

/-! ### Files that are apart -/

/-- A client file is none of the map. -/
theorem place_ne_of_validate (hvalid : validateStoragePaths platform m.storage = .ok ())
    {path : Path} (hpath : ClientFile platform m path) :
    platform.place m.storage.tokensMapPath ≠ platform.place path := by
  obtain ⟨pending, hpending, hclient, hstaged, -⟩ := apart_of_validate hvalid
  rcases hpath with rfl | hpath
  · exact hclient
  · obtain rfl := Except.ok.inj (hpending.symm.trans hpath)
    exact hstaged

/-- Two client files at one place are one. -/
theorem clientFile_injective (hvalid : validateStoragePaths platform m.storage = .ok ())
    {path other : Path} (hpath : ClientFile platform m path) (hother : ClientFile platform m other)
    (h : platform.place path = platform.place other) : path = other := by
  obtain ⟨pending, hpending, -, -, hne⟩ := apart_of_validate hvalid
  rcases hpath with rfl | hpath
  · rcases hother with rfl | hother
    · rfl
    · obtain rfl := Except.ok.inj (hpending.symm.trans hother)
      exact absurd h hne
  · obtain rfl := Except.ok.inj (hpending.symm.trans hpath)
    rcases hother with rfl | hother
    · exact absurd h.symm hne
    · exact Except.ok.inj (hpath.symm.trans hother)

/-- The baseline is at another place than what the tool writes. -/
theorem baseline_ne {baseline path : Path}
    (hapart : requireDistinctBaseline platform m baseline = .ok ())
    (hpath : path = m.storage.tokensMapPath ∨ ClientFile platform m path) :
    platform.place baseline ≠ platform.place path := by
  obtain ⟨pending, hpending, hmap, hclient, hstaged⟩ := apart_of_baseline hapart
  rcases hpath with rfl | rfl | hpath
  · exact hmap
  · exact hclient
  · obtain rfl := Except.ok.inj (hpending.symm.trans hpath)
    exact hstaged

/-! ### Entries that stay -/

theorem Kept.refl (w : World) : Kept platform m w w := fun _ _ h => h

theorem Kept.trans {w'' : World} (h : Kept platform m w w') (h' : Kept platform m w' w'') :
    Kept platform m w w'' := fun token value hentry => h' token value (h token value hentry)

/-- The map file stays as it is. -/
theorem kept_of_file (h : w'.files (platform.place m.storage.tokensMapPath) =
    w.files (platform.place m.storage.tokensMapPath)) : Kept platform m w w' := by
  rintro token value ⟨text, map, htext, hmap⟩
  exact ⟨text, map, by rw [h, htext], hmap⟩

theorem ClientToken.kept {token : String} (h : ClientToken platform m w token)
    (hkept : Kept platform m w w') : ClientToken platform m w' token := by
  obtain ⟨value, data, hentry, hdata⟩ := h
  exact ⟨value, data, hkept token value hentry, hdata⟩

/-- What was handed over before stays so, while the baseline is what it is. -/
theorem Uploaded.kept {before : List Event} {input : Option (List UInt8)}
    (h : Uploaded platform m w before input) (hkept : Kept platform m w w')
    (hbaseline : ∀ baseline, requireDistinctBaseline platform m baseline = .ok () →
      w'.files (platform.place baseline) = w.files (platform.place baseline)) :
    Uploaded platform m w' before input := by
  obtain ⟨evidence, map, baseline, recovered, raw, hupload⟩ := h
  refine ⟨evidence, map, baseline, recovered, raw, { hupload with entries := ?_, stored := ?_ }⟩
  · intro token value hget
    exact hkept token value (hupload.entries token value hget)
  · rw [hbaseline _ hupload.apart]
    exact hupload.stored

/-! ### Calls -/

/-- A call that changes no file and writes none. -/
theorem Safe.of_files (h : Safe platform m w₀ w) (hfiles : w'.files = w.files)
    (hevents : ∀ path, Wrote w' path → Wrote w path)
    (huploads : ∀ args input reply before,
      .invoked "wrangler" args input reply :: before <:+ w'.events →
      (.invoked "wrangler" args input reply :: before <:+ w.events) ∨
        Uploaded platform m w before input) :
    Safe platform m w₀ w' := by
  have hkept : Kept platform m w w' := kept_of_file (by rw [hfiles])
  refine ⟨{ staged := ?_, there := ?_, uploads := ?_ }, h.kept.trans hkept⟩
  · intro path hpath hwrote contents hfile
    rw [hfiles] at hfile
    obtain ⟨token, htoken, rfl⟩ := h.good.staged path hpath (hevents path hwrote) contents hfile
    exact ⟨token, htoken.kept hkept, rfl⟩
  · intro hwrote
    rw [hfiles]
    exact h.good.there (hevents _ hwrote)
  · intro args input reply before hsuffix
    have hold : Uploaded platform m w before input := by
      rcases huploads args input reply before hsuffix with hsuffix | hupload
      · exact h.good.uploads args input reply before hsuffix
      · exact hupload
    exact hold.kept hkept fun _ _ => by rw [hfiles]

/-- An external command that is no upload. -/
theorem Safe.invoked (h : Safe platform m w₀ w) {program : String} (hprogram : program ≠ "wrangler")
    (args : List String) (input : Option (List UInt8)) (reply : List UInt8) :
    Safe platform m w₀ { w with events := .invoked program args input reply :: w.events } := by
  refine h.of_files rfl ?_ ?_
  · rintro path ⟨contents, hwrote⟩
    exact ⟨contents, (List.mem_cons.1 hwrote).resolve_left nofun⟩
  · intro args input reply before hsuffix
    rcases List.suffix_cons_iff.1 hsuffix with heq | hsuffix
    · exact absurd (Event.invoked.inj (List.cons.inj heq).1).1.symm hprogram
    · exact Or.inl hsuffix

/-- An upload. -/
theorem Safe.uploaded (h : Safe platform m w₀ w) {args : List String} {input : Option (List UInt8)}
    {reply : List UInt8} (hupload : Uploaded platform m w w.events input) :
    Safe platform m w₀ { w with events := .invoked "wrangler" args input reply :: w.events } := by
  refine h.of_files rfl ?_ ?_
  · rintro path ⟨contents, hwrote⟩
    exact ⟨contents, (List.mem_cons.1 hwrote).resolve_left nofun⟩
  · intro args input reply before hsuffix
    rcases List.suffix_cons_iff.1 hsuffix with heq | hsuffix
    · obtain ⟨hevent, rfl⟩ := List.cons.inj heq
      obtain ⟨-, -, rfl, -⟩ := Event.invoked.inj hevent
      exact Or.inr hupload
    · exact Or.inl hsuffix

/-- The world after a path was written. -/
def World.write (w : World) (platform : Platform) (path : Path) (contents : String) : World :=
  { w with
    files := Function.update w.files (platform.place path) (some (ended contents))
    events := .wrote path (ended contents) :: w.events }

theorem World.files_write {path : Path} {place : String} (h : place ≠ platform.place path)
    (contents : String) : (w.write platform path contents).files place = w.files place :=
  Function.update_of_ne h _ _

theorem World.files_write_self (path : Path) (contents : String) :
    (w.write platform path contents).files (platform.place path) = some (ended contents) :=
  Function.update_self _ _ _

theorem wrote_write {path other : Path} {contents : String}
    (h : Wrote (w.write platform path contents) other) : other = path ∨ Wrote w other := by
  obtain ⟨contents', hwrote⟩ := h
  rcases List.mem_cons.1 hwrote with heq | hwrote
  · exact Or.inl (Event.wrote.inj heq).1
  · exact Or.inr ⟨contents', hwrote⟩

theorem uploads_write (h : Good platform m w) {path : Path}
    (hpath : path = m.storage.tokensMapPath ∨ ClientFile platform m path) {contents : String}
    (hkept : Kept platform m w (w.write platform path contents)) (args : List String)
    (input : Option (List UInt8)) (reply : List UInt8) (before : List Event)
    (hsuffix : .invoked "wrangler" args input reply :: before <:+
      (w.write platform path contents).events) :
    Uploaded platform m (w.write platform path contents) before input := by
  have hold : .invoked "wrangler" args input reply :: before <:+ w.events := by
    rcases List.suffix_cons_iff.1 hsuffix with heq | hsuffix
    · cases (List.cons.inj heq).1
    · exact hsuffix
  refine (h.uploads args input reply before hold).kept hkept ?_
  intro baseline hapart
  exact World.files_write (baseline_ne hapart hpath) contents

/-- What the map file has after it was written. -/
theorem entry_write {map : Fields} (hproper : Proper platform map) {token : String} {value : Value} :
    Entry platform m (w.write platform m.storage.tokensMapPath (mapText map)) token value ↔
      Fields.get map token = some value := by
  have htext : parseTokenMap platform (mapText map).toList = some map := by
    rw [mapText, String.toList_append, String.toList_ofList]
    exact hproper.parse_text (List.all_eq_true.1 rfl)
  have hfile : (w.write platform m.storage.tokensMapPath (mapText map)).files
      (platform.place m.storage.tokensMapPath) = some (ended (mapText map)) :=
    World.files_write_self _ _
  rw [ended_mapText] at hfile
  constructor
  · rintro ⟨text, map', hread, hparse, hget⟩
    obtain rfl := Option.some.inj (hfile.symm.trans hread)
    obtain rfl := Option.some.inj (htext.symm.trans hparse)
    exact hget
  · intro hget
    exact ⟨mapText map, map, hfile, htext, hget⟩

/-- **The map is written** with every entry it has, and others. -/
theorem Safe.wroteMap (h : Safe platform m w₀ w)
    (hvalid : validateStoragePaths platform m.storage = .ok ()) {map : Fields}
    (hproper : Proper platform map)
    (hextends : ∀ token value, Entry platform m w token value → Fields.get map token = some value) :
    Safe platform m w₀ (w.write platform m.storage.tokensMapPath (mapText map)) := by
  have hkept : Kept platform m w (w.write platform m.storage.tokensMapPath (mapText map)) :=
    fun token value hentry => (entry_write hproper).2 (hextends token value hentry)
  -- A client file is at another place, so that its last writing was before.
  have hwrote : ∀ path, ClientFile platform m path →
      Wrote (w.write platform m.storage.tokensMapPath (mapText map)) path → Wrote w path := by
    intro path hpath hwrote
    rcases wrote_write hwrote with rfl | hwrote
    · exact absurd rfl (place_ne_of_validate hvalid hpath)
    · exact hwrote
  refine ⟨{ staged := ?_, there := ?_, uploads := ?_ }, h.kept.trans hkept⟩
  · intro path hpath hnow contents hfile
    rw [World.files_write (place_ne_of_validate hvalid hpath).symm] at hfile
    obtain ⟨token, htoken, rfl⟩ := h.good.staged path hpath (hwrote path hpath hnow) contents hfile
    exact ⟨token, htoken.kept hkept, rfl⟩
  · intro hnow
    rw [World.files_write (place_ne_of_validate hvalid (Or.inl rfl)).symm]
    exact h.good.there (hwrote _ (Or.inl rfl) hnow)
  · exact uploads_write h.good (Or.inl rfl) hkept

/-- **A client file is written** with a token of the client. -/
theorem Safe.wroteClient (h : Safe platform m w₀ w)
    (hvalid : validateStoragePaths platform m.storage = .ok ()) {path : Path}
    (hpath : ClientFile platform m path) {token : String} (htoken : ClientToken platform m w token)
    (hline : '\n' ∉ token.toList) : Safe platform m w₀ (w.write platform path token) := by
  have hkept : Kept platform m w (w.write platform path token) :=
    kept_of_file (World.files_write (place_ne_of_validate hvalid hpath) token)
  -- the map lies elsewhere, so its entries stand
  refine ⟨{ staged := ?_, there := ?_, uploads := ?_ }, h.kept.trans hkept⟩
  · intro other hother hwrote contents hfile
    by_cases hplace : platform.place other = platform.place path
    · rw [hplace, World.files_write_self, ended_of_notMem hline] at hfile
      exact ⟨token, htoken.kept hkept, (Option.some.inj hfile).symm⟩
    · rw [World.files_write hplace] at hfile
      have hbefore : Wrote w other := by
        -- another place: whatever was written there before is unchanged
        rcases wrote_write hwrote with rfl | hwrote
        · exact absurd rfl hplace
        · exact hwrote
      obtain ⟨token', htoken', rfl⟩ := h.good.staged other hother hbefore contents hfile
      exact ⟨token', htoken'.kept hkept, rfl⟩
  · intro hwrote
    by_cases hplace : platform.place m.storage.clientTokenPath = platform.place path
    · rw [hplace]
      exact ⟨ended token, World.files_write_self path token⟩
    · rw [World.files_write hplace]
      rcases wrote_write hwrote with rfl | hwrote
      · exact absurd rfl hplace
      · exact h.good.there hwrote
  · exact uploads_write h.good (Or.inr hpath) hkept
-- earlier uploads were of baselines that lie elsewhere too

/-- The staged file is removed. -/
theorem Safe.removed (h : Safe platform m w₀ w)
    (hvalid : validateStoragePaths platform m.storage = .ok ()) {path : Path}
    (hpath : pendingClientPath platform m.storage.clientTokenPath = .ok path) :
    Safe platform m w₀
      { w with files := Function.update w.files (platform.place path) none } := by
  -- the pending file is neither the map nor the client file
  obtain ⟨pending, hpending, -, hmap, hclient⟩ := apart_of_validate hvalid
  obtain rfl := Except.ok.inj (hpending.symm.trans hpath)
  have hkept : Kept platform m w
      { w with files := Function.update w.files (platform.place pending) none } :=
    kept_of_file (Function.update_of_ne hmap _ _)
  refine ⟨{ staged := ?_, there := ?_, uploads := ?_ }, h.kept.trans hkept⟩
  · intro other hother hwrote contents hfile
    by_cases hplace : platform.place other = platform.place pending
    · have hnone : Function.update w.files (platform.place pending) none (platform.place other) =
          -- nothing is left at the removed place
          none := by rw [hplace, Function.update_self]
      cases hnone.symm.trans hfile
    · have hsame : Function.update w.files (platform.place pending) none (platform.place other) =
          w.files (platform.place other) := Function.update_of_ne hplace _ _
      obtain ⟨token, htoken, rfl⟩ := h.good.staged other hother hwrote contents (hsame.symm.trans hfile)
      exact ⟨token, htoken.kept hkept, rfl⟩
  · intro hwrote
    obtain ⟨contents, hfile⟩ := h.good.there hwrote
    exact ⟨contents, (Function.update_of_ne hclient _ _).trans hfile⟩
  · intro args input reply before hsuffix
    refine (h.good.uploads args input reply before hsuffix).kept hkept ?_
    intro baseline hapart
    exact Function.update_of_ne (baseline_ne hapart (Or.inr (Or.inr hpath))) _ _

end Steps

/-! ### Commands -/

section Commands

variable {platform : Platform} {m : Manifest} {w₀ w : World} {α β : Type}

/-- What a command comes to, from a world between two of its calls. -/
abbrev Leads (platform : Platform) (m : Manifest) (w₀ : World) (p : Prog α) (w : World)
    (Q : α → World → Prop) : Prop :=
  Ends (stops platform) "stopped" (Safe platform m w₀) p w Q

/-- A call that only looks. -/
theorem leads_look {c : Call} (h : Safe platform m w₀ w)
    (hlook : ∀ moment, (c.effect platform moment w).1 = w) :
    Leads platform m w₀ (perform c) w fun r t =>
      t = w ∧ ∃ moment, r = (c.effect platform moment w).2 := by
  refine ends_perform h fun moment => ?_
  have hsame : ((stops platform).effect c moment w).1 = w := hlook moment
  rw [hsame]
  exact ⟨h, rfl, moment, rfl⟩

theorem leads_check {result : Except String α} (h : Safe platform m w₀ w) :
    Leads platform m w₀ (check result) w fun a t => t = w ∧ result = .ok a :=
  ends_check h fun _ ha => ⟨rfl, ha⟩

/-- A part of a command that leaves the world as it is, and what follows it. -/
theorem leads_then {p : Prog α} {f : α → Prog β} {P : α → Prop} {Q : β → World → Prop}
    (hp : Leads platform m w₀ p w fun a t => t = w ∧ P a)
    (hf : ∀ a, P a → Leads platform m w₀ (f a) w Q) : Leads platform m w₀ (p >>= f) w Q := by
  refine ends_bind hp ?_
  rintro a t - ⟨rfl, ha⟩
  exact hf a ha

theorem leads_lock (h : Safe platform m w₀ w) (dryRun : Bool) :
    Leads platform m w₀ (lockTokenMap platform m dryRun) w fun _ t => t = w ∧ True := by
  cases dryRun with
  | true => exact ends_done h ⟨rfl, trivial⟩
  | false =>
    refine leads_then (leads_check h) fun _ _ => ?_
    exact ends_mono (leads_look h fun _ => rfl) fun _ _ ht => ⟨ht.1, trivial⟩

theorem leads_readText (h : Safe platform m w₀ w) (path : Path) (missing : String) :
    Leads platform m w₀ (readText path missing) w fun text t =>
      t = w ∧ w.files (platform.place path) = some text := by
  refine leads_then (leads_look h fun _ => rfl) ?_
  rintro r ⟨moment, hr⟩
  cases r with
  | none => exact ends_fail h
  | some text => exact ends_done h ⟨rfl, hr.symm⟩

theorem leads_readMap (h : Safe platform m w₀ w) (path : Path) :
    Leads platform m w₀ (readMap platform path) w fun map t => t = w ∧
      ∃ text, w.files (platform.place path) = some text ∧ readTokenMap platform text = .ok map := by
  refine leads_then (leads_readText h path _) fun text htext => ?_
  exact ends_mono (leads_check h) fun map _ ht => ⟨ht.1, text, htext, ht.2⟩

/-- The map of the map file. -/
structure IsMap (platform : Platform) (m : Manifest) (w : World) (map : Fields) : Prop where
  proper : Proper platform map
  valid : validateTokenMap map = .ok ()
  entry : ∀ token value, Entry platform m w token value ↔ Fields.get map token = some value

theorem isMap_of_read {text : String} {map : Fields}
    (hfile : w.files (platform.place m.storage.tokensMapPath) = some text)
    (hread : readTokenMap platform text = .ok map) : IsMap platform m w map := by
  obtain ⟨hparse, hvalid⟩ := readTokenMap_ok hread
  refine ⟨proper_of_parse hparse, hvalid, fun token value => ⟨?_, ?_⟩⟩
  · rintro ⟨text', map', hfile', hparse', hget⟩
    obtain rfl := Option.some.inj (hfile.symm.trans hfile')
    obtain rfl := Option.some.inj (hparse.symm.trans hparse')
    exact hget
  · intro hget
    exact ⟨text, map, hfile, hparse, hget⟩

theorem leads_readCheckedMap (h : Safe platform m w₀ w) :
    Leads platform m w₀ (readCheckedMap platform m) w fun map t => t = w ∧ IsMap platform m w map := by
  refine leads_then (leads_readMap h _) ?_
  rintro map ⟨text, hfile, hread⟩
  refine leads_then (leads_look h fun _ => rfl) fun onsite _ => ?_
  refine leads_then (leads_check h) fun _ _ => ?_
  exact ends_done h ⟨rfl, isMap_of_read hfile hread⟩

/-- A token of the client in the map is one in the map file, on one line. -/
theorem IsMap.clientToken {map : Fields} (hmap : IsMap platform m w map) {token : String}
    {value : Value} {data : TokenMeta} (hget : Fields.get map token = some value)
    (hdata : TokenMeta.ofValue value = some data) (hclient : data.isClient m.storage = true) :
    ClientToken platform m w token ∧ '\n' ∉ token.toList :=
  ⟨⟨value, data, (hmap.entry token value).2 hget, hdata, hclient⟩,
    newline_notMem_of_unblank (unblank_of_validate hmap.valid (mem_of_get hget))⟩

/-- A client file is written. -/
theorem leads_writeClient (h : Safe platform m w₀ w)
    (hvalid : validateStoragePaths platform m.storage = .ok ()) {path : Path}
    (hpath : ClientFile platform m path) {token : String} (htoken : ClientToken platform m w token)
    (hline : '\n' ∉ token.toList) :
    Leads platform m w₀ (writeSecretFile platform path token) w fun _ _ => True := by
  refine leads_then (leads_check h) fun _ _ => ends_perform h fun _ => ⟨?_, trivial⟩
  exact h.wroteClient hvalid hpath htoken hline

/-! ### Minting -/

/-- What a minting has made of a map. -/
structure Minted (platform : Platform) (m : Manifest) (original map : Fields)
    (rotated : Option String) : Prop where
  proper : Proper platform map
  extends_ : ∀ token value, Fields.get original token = some value →
    Fields.get map token = some value
  /-- The token the client is rotated to. -/
  client : ∀ token ∈ rotated, '\n' ∉ token.toList ∧ ∃ value data,
    Fields.get map token = some value ∧ TokenMeta.ofValue value = some data ∧
      data.isClient m.storage = true

/-- **One more token** in the map. -/
theorem Minted.insert {original map : Fields} {rotated : Option String}
    (h : Minted platform m original map rotated) {tok : String} (hfresh : Fields.get map tok = none)
    (hline : '\n' ∉ tok.toList) (ident : Identity) {rotates : Bool}
    (hrotates : rotates = true → ident.selected m.storage = true) :
    Minted platform m original (Fields.insert map tok ident.data.toValue)
      (if rotates then some tok else rotated) := by
  have hget : ∀ token value, Fields.get map token = some value →
      Fields.get (Fields.insert map tok ident.data.toValue) token = some value := by
    intro token value hvalue
    rw [Fields.get_insert, if_neg, hvalue]
    rintro rfl
    rw [hfresh] at hvalue
    cases hvalue
  refine ⟨h.proper.insert tok (document_toValue _) (depth_toValue _), ?_, ?_⟩
  · intro token value hvalue
    exact hget token value (h.extends_ token value hvalue)
  · intro token htoken
    split at htoken
    · next hselected =>
      obtain rfl := Option.some.inj htoken
      refine ⟨hline, ident.data.toValue, ident.data, ?_, ofValue_toValue _, hrotates hselected⟩
      rw [Fields.get_insert, if_pos rfl]
    · obtain ⟨hline', value, data, hvalue, hdata⟩ := h.client token htoken
      exact ⟨hline', value, data, hget token value hvalue, hdata⟩

theorem leads_newTokenHex (h : Safe platform m w₀ w) (count : Nat) :
    Leads platform m w₀ (newTokenHex count) w fun tok t => t = w ∧ '\n' ∉ tok.toList := by
  refine leads_then (leads_look h fun _ => rfl) fun bytes _ => ?_
  exact ends_done h ⟨rfl, newline_notMem_hexBytes bytes⟩

theorem leads_redraw (h : Safe platform m w₀ w) (suits : String → Bool) (n : Nat) {tok : String}
    (htok : '\n' ∉ tok.toList) :
    Leads platform m w₀ (redraw suits n tok) w fun tok t => t = w ∧ '\n' ∉ tok.toList := by
  induction n generalizing tok with
  | zero => exact ends_done h ⟨rfl, htok⟩
  | succ n ih =>
    rw [redraw]
    split
    · exact ends_done h ⟨rfl, htok⟩
    · exact leads_then (leads_newTokenHex h 32) fun tok htok => ih htok

/-- **A token that is drawn** is not in the map. -/
theorem leads_freshToken (h : Safe platform m w₀ w) (map : Fields) (onsite : Option String) :
    Leads platform m w₀ (freshToken platform map onsite) w fun tok t =>
      t = w ∧ Fields.get map tok = none ∧ '\n' ∉ tok.toList := by
  refine leads_then (leads_newTokenHex h 32) fun tok htok => ?_
  refine leads_then (leads_redraw h _ 8 htok) fun tok htok => ?_
  split
  · exact ends_fail h
  · next hfresh =>
    refine ends_done h ⟨rfl, ?_, htok⟩
    rwa [Fields.containsKey, Bool.not_eq_true, Option.isSome_eq_false_iff,
      Option.isNone_iff_eq_none] at hfresh

/-- The loop over the identities, by induction on them. -/
theorem leads_mintIdentities (h : Safe platform m w₀ w) (onsite : Option String) (rotate : Bool)
    (original : Fields) (idents : List Identity) {map : Fields} {rotated : Option String}
    (hminted : Minted platform m original map rotated) :
    Leads platform m w₀ (mintIdentities platform m onsite rotate idents map rotated) w fun out t =>
      t = w ∧ Minted platform m original out.1 out.2 := by
  induction idents generalizing map rotated with
  | nil => exact ends_done h ⟨rfl, hminted⟩
  | cons ident idents ih =>
    rw [mintIdentities]
    refine leads_then (leads_check h) fun _ _ => ?_
    dsimp only
    split
    · exact ih hminted
    · refine leads_then (leads_freshToken h map onsite) ?_
      rintro tok ⟨hfresh, hline⟩
      split
      · exact ends_fail h
      · refine ih (hminted.insert hfresh hline ident ?_)
        intro hrotates
        rw [Bool.and_eq_true] at hrotates
        exact hrotates.2

theorem leads_startMap (h : Safe platform m w₀ w) :
    Leads platform m w₀ (startMap platform m) w fun map t => t = w ∧ Proper platform map ∧
      ∀ token value, Entry platform m w token value → Fields.get map token = some value := by
  refine leads_then (leads_look h fun _ => rfl) ?_
  rintro there ⟨moment, hthere⟩
  split
  · refine ends_mono (leads_readMap h _) ?_
    rintro map t ⟨rfl, text, hfile, hread⟩
    have hmap := isMap_of_read hfile hread
    exact ⟨rfl, hmap.proper, fun token value => (hmap.entry token value).1⟩
  · next hnot =>
    refine ends_done h ⟨rfl, proper_nil, ?_⟩
    rintro token value ⟨text, -, hfile, -⟩
    refine absurd (hthere.trans ?_) hnot
    show (w.files (platform.place m.storage.tokensMapPath)).isSome = true
    rw [hfile]
    rfl

theorem Safe.backup (h : Safe platform m w₀ w) (backups : List String) :
    Safe platform m w₀ { w with backups } :=
  h.of_files rfl (fun _ hwrote => hwrote) fun _ _ _ _ hsuffix => Or.inl hsuffix

/-- What is written after a minting. -/
theorem leads_writeMap (h : Safe platform m w₀ w)
    (hvalid : validateStoragePaths platform m.storage = .ok ()) {original map : Fields}
    {rotated : Option String} (hminted : Minted platform m original map rotated)
    (horiginal : ∀ token value, Entry platform m w token value →
      Fields.get original token = some value) :
    Leads platform m w₀ (do
      writeSecretFile platform m.storage.tokensMapPath (mapText map)
      match rotated with
      | none => return
      | some token =>
        let pending ← check (pendingClientPath platform m.storage.clientTokenPath)
        writeSecretFile platform pending token) w fun _ _ => True := by
  have hwrite := h.wroteMap hvalid hminted.proper fun token value hentry =>
    hminted.extends_ token value (horiginal token value hentry)
  have hmap : Leads platform m w₀ (writeSecretFile platform m.storage.tokensMapPath (mapText map)) w
      fun _ t => t = w.write platform m.storage.tokensMapPath (mapText map) := by
    refine leads_then (leads_check h) fun _ _ => ends_perform h fun _ => ⟨hwrite, rfl⟩
  refine ends_bind hmap ?_
  rintro u t - rfl
  cases rotated with
  -- without a rotation the map is the only file
  | none => exact ends_done hwrite trivial
  | some token =>
    -- the new token is an entry of the map just written
    obtain ⟨hline, value, data, hget, hdata⟩ := hminted.client token rfl
    refine leads_then (leads_check hwrite) fun pending hpending => ?_
    exact leads_writeClient hwrite hvalid (Or.inr hpending)
      ⟨value, data, (entry_write hminted.proper).2 hget, hdata⟩ hline

theorem leads_saveMap (h : Safe platform m w₀ w)
    (hvalid : validateStoragePaths platform m.storage = .ok ()) {original map : Fields}
    {rotated : Option String} (hminted : Minted platform m original map rotated)
    (horiginal : ∀ token value, Entry platform m w token value →
      Fields.get original token = some value) (dryRun : Bool) :
    Leads platform m w₀ (saveMap platform m original map rotated dryRun) w fun _ _ => True := by
  refine leads_then (leads_look h fun _ => rfl) fun there _ => ?_
  have hbackup : Leads platform m w₀ (backupMap m there original dryRun) w
      fun _ t => t.files = w.files := by
    have hcases : ∀ keep : Bool, Leads platform m w₀
        (if keep then perform (Call.backup (String.ofList (pretty (.obj original)))) else pure ()) w
        fun _ t => t.files = w.files := by
      intro keep
      cases keep with
      | true => exact ends_perform h fun _ => ⟨h.backup _, rfl⟩
      | false => exact ends_done h rfl
    exact hcases _
  refine ends_bind hbackup fun _ t ht hfiles => ?_
  cases dryRun with
  | true => exact ends_done ht trivial
  | false =>
    refine leads_writeMap ht hvalid hminted fun token value hentry => horiginal token value ?_
    exact kept_of_file (by rw [hfiles]) token value hentry

/-- **A minting or a rotation.** -/
theorem leads_mintMode (h : Safe platform m w₀ w) (rotate dryRun : Bool) :
    Leads platform m w₀ (cmdMintMode platform m rotate dryRun) w fun _ _ => True := by
  refine leads_then (leads_look h fun _ => rfl) fun _ _ => ?_
  refine leads_then (leads_check h) fun _ hvalid => ?_
  refine leads_then (leads_lock h dryRun) fun _ _ => ?_
  refine leads_then (leads_look h fun _ => rfl) fun onsite _ => ?_
  refine leads_then (leads_startMap h) ?_
  rintro original ⟨hproper, horiginal⟩
  have hstart : Minted platform m original original none := ⟨hproper, fun _ _ hget => hget, nofun⟩
  refine leads_then (leads_mintIdentities h onsite rotate original m.identities hstart) ?_
  rintro ⟨map, rotated⟩ hminted
  refine leads_then (leads_check h) fun _ _ => ?_
  split
  · exact ends_fail h
  · exact leads_saveMap h hvalid hminted horiginal dryRun

/-! ### The file of the client -/

theorem leads_writeClientCommand (h : Safe platform m w₀ w) (dryRun : Bool) :
    Leads platform m w₀ (cmdWriteClient platform m dryRun) w fun _ _ => True := by
  refine leads_then (leads_look h fun _ => rfl) fun _ _ => ?_
  refine leads_then (leads_check h) fun _ hvalid => ?_
  refine leads_then (leads_lock h dryRun) fun _ _ => ?_
  refine leads_then (leads_readCheckedMap h) fun map hmap => ?_
  refine leads_then (leads_look h fun _ => rfl) fun current _ => ?_
  refine leads_then (leads_check h) fun token hchosen => ?_
  obtain ⟨value, data, hentry, hdata, hclient⟩ := chooseClient_ok hchosen
  obtain ⟨htoken, hline⟩ := hmap.clientToken (hmap.proper.get_of_mem hentry) hdata hclient
  cases dryRun with
  | true => exact ends_done h trivial
  | false => exact leads_writeClient h hvalid (Or.inl rfl) htoken hline

/-- The reply of Bitwarden is the last event, and it has the map. -/
theorem leads_verifyRecovery (h : Safe platform m w₀ w) (map : Fields) :
    Leads platform m w₀ (verifyRecovery platform m map) w fun _ t =>
      t.files = w.files ∧ ∃ raw, t.events.head? =
        some (.invoked "bw" ["get", "item", m.itemName] none raw) ∧
          checkRecovery platform map raw = .ok () := by
  have hunlocked : Leads platform m w₀ (requireUnlockedBw platform) w fun _ t =>
      t.files = w.files := by
    have hstatus : Leads platform m w₀ (perform (Call.invoke "bw" ["status"] none)) w
        fun _ t => t.files = w.files :=
      ends_perform h fun moment => ⟨h.invoked (by decide) _ _ _, rfl⟩
    refine ends_bind hstatus fun raw t ht hfiles => ?_
    refine leads_then (leads_check ht) fun _ _ => ?_
    exact ends_mono (leads_check ht) fun _ _ hu => by rw [hu.1, hfiles]
  refine ends_bind hunlocked fun _ t ht hfiles => ?_
  have hitem : Leads platform m w₀ (perform (Call.invoke "bw" ["get", "item", m.itemName] none)) t
      fun raw u => u.files = t.files ∧
        u.events.head? = some (.invoked "bw" ["get", "item", m.itemName] none raw) :=
    ends_perform ht fun moment => ⟨ht.invoked (by decide) _ _ _, rfl, rfl⟩
  refine ends_bind hitem ?_
  rintro raw u hu ⟨hsame, hlast⟩
  refine ends_mono (leads_check hu) ?_
  rintro _ v ⟨rfl, hrecovery⟩
  exact ⟨hsame.trans hfiles, raw, hlast, hrecovery⟩

theorem checkStaged_ok {map : Fields} {text token : String}
    (h : checkStaged m map text = .ok token) : ∃ value data,
      Fields.get map token = some value ∧ TokenMeta.ofValue value = some data ∧
        data.isClient m.storage = true := by
  unfold checkStaged at h
  dsimp only at h
  split at h
  · cases h
  · next value hget =>
    split at h
    · cases h
    · next data hdata =>
      obtain ⟨hclient, htoken⟩ := check_bind_eq_ok.1 h
      obtain rfl := Except.ok.inj htoken
      exact ⟨value, data, hget, hdata, require_ok hclient⟩

/-- **An activation.** -/
theorem leads_activate (h : Safe platform m w₀ w) (dryRun : Bool) :
    Leads platform m w₀ (cmdActivate platform m dryRun) w fun _ _ => True := by
  refine leads_then (leads_look h fun _ => rfl) fun _ _ => ?_
  refine leads_then (leads_check h) fun _ hvalid => ?_
  refine leads_then (leads_check h) fun pending hpending => ?_
  refine leads_then (leads_lock h dryRun) fun _ _ => ?_
  refine leads_then (leads_readCheckedMap h) fun map hmap => ?_
  refine leads_then (leads_readText h pending _) fun text _ => ?_
  refine leads_then (leads_check h) fun token hstaged => ?_
  obtain ⟨value, data, hget, hdata, hclient⟩ := checkStaged_ok hstaged
  have htoken : ClientToken platform m w token ∧ '\n' ∉ token.toList :=
    hmap.clientToken hget hdata hclient
  cases dryRun with
  | true => exact ends_done h trivial
  | false =>
    refine ends_bind (leads_verifyRecovery h map) ?_
    rintro _ t ht ⟨hfiles, -⟩
    refine leads_then (leads_look ht fun _ => rfl) fun _ _ => ?_
    have hclient : ClientToken platform m t token := htoken.1.kept (kept_of_file (by rw [hfiles]))
    have hwrite := ht.wroteClient hvalid (Or.inl rfl) hclient htoken.2
    have hwritten : Leads platform m w₀ (writeSecretFile platform m.storage.clientTokenPath token) t
        fun _ u => Safe platform m w₀ u := by
      refine leads_then (leads_check ht) fun _ _ => ends_perform ht fun _ => ⟨hwrite, hwrite⟩
    refine ends_bind hwritten fun _ u hu _ => ?_
    exact ends_perform hu fun _ => ⟨hu.removed hvalid hpending, trivial⟩

/-! ### Uploads -/

theorem checkRecovery_ok {map : Fields} {raw : List UInt8}
    (h : checkRecovery platform map raw = .ok ()) : ∃ item recovered,
      fromSlice platform raw = some item ∧ recoveredTokenMap platform item = .ok recovered ∧
        same (.obj recovered) (.obj map) = true := by
  obtain ⟨item, hitem, h⟩ := bind_eq_ok.1 h
  obtain ⟨recovered, hrecovered, h⟩ := bind_eq_ok.1 h
  refine ⟨item, recovered, ?_, hrecovered, require_ok h⟩
  unfold readReply at hitem
  split at hitem
  · cases hitem
  · next v hv =>
    obtain rfl := Except.ok.inj hitem
    exact hv

theorem established_ok {evidence : DeployedMapAuthority} (h : establishedEvidence m = .ok evidence) :
    m.deployedMapAuthority = some evidence := by
  unfold establishedEvidence at h
  split at h
  · cases h
  · next evidence' hevidence =>
    split at h
    · cases h
    · obtain rfl := Except.ok.inj h
      exact hevidence

/-- The authority of a map: the baseline, which has no entry that the map has not. -/
theorem leads_requireDeploymentAuthority (h : Safe platform m w₀ w) (map : Fields) :
    Leads platform m w₀ (requireDeploymentAuthority platform m map) w fun _ t => t = w ∧
      ∃ evidence baseline text, m.deployedMapAuthority = some evidence ∧
        requireDistinctBaseline platform m evidence.baselinePath = .ok () ∧
        w.files (platform.place evidence.baselinePath) = some text ∧
        readTokenMap platform text = .ok baseline ∧
        tokenMapSha256 platform baseline = evidence.baselineSha256 ∧
        preserves baseline map = true := by
  have hbaseline : Leads platform m w₀ (authorityBaseline platform m map) w fun baseline t => t = w ∧
      ∃ evidence text, m.deployedMapAuthority = some evidence ∧
        requireDistinctBaseline platform m evidence.baselinePath = .ok () ∧
        w.files (platform.place evidence.baselinePath) = some text ∧
        readTokenMap platform text = .ok baseline ∧
        tokenMapSha256 platform baseline = evidence.baselineSha256 := by
    refine leads_then (leads_check h) fun evidence hevidence => ?_
    -- the evidence, its baseline apart from the map, and the digest it is bound to
    refine leads_then (leads_check h) fun _ _ => ?_
    refine leads_then (leads_check h) fun _ hapart => ?_
    refine leads_then (leads_readMap h _) ?_
    rintro baseline ⟨text, hfile, hread⟩
    refine leads_then (leads_check h) fun _ hbound => ?_
    have hhash := require_ok hbound
    rw [Bool.and_eq_true, decide_eq_true_eq] at hhash
    exact ends_done h ⟨rfl, evidence, text, established_ok hevidence, hapart, hfile, hread, hhash.1⟩
  refine leads_then hbaseline ?_
  rintro baseline ⟨evidence, text, hevidence, hapart, hfile, hread, hbound⟩
  refine ends_mono (leads_check h) ?_
  rintro _ t ⟨rfl, hpreserves⟩
  exact ⟨rfl, evidence, baseline, text, hevidence, hapart, hfile, hread, hbound,
    require_ok hpreserves⟩

/-- **An upload.** -/
theorem leads_upload (h : Safe platform m w₀ w) (dryRun : Bool) :
    Leads platform m w₀ (cmdUpload platform m dryRun) w fun _ _ => True := by
  refine leads_then (leads_look h fun _ => rfl) fun _ _ => ?_
  refine leads_then (leads_check h) fun _ _ => ?_
  refine leads_then (leads_lock h dryRun) fun _ _ => ?_
  refine leads_then (leads_readCheckedMap h) fun map hmap => ?_
  refine leads_then (leads_requireDeploymentAuthority h map) ?_
  rintro _ ⟨evidence, baseline, text, hevidence, hapart, hfile, hread, hbound, hpreserves⟩
  -- what the vault holds is read back and compared
  refine ends_bind (leads_verifyRecovery h map) ?_
  rintro _ t ht ⟨hfiles, raw, hlast, hrecovery⟩
  obtain ⟨item, recovered, hitem, hrecovered, hequal⟩ := checkRecovery_ok hrecovery
  refine leads_then (leads_check ht) fun _ _ => ?_
  refine leads_then (leads_look ht fun _ => rfl) fun there _ => ?_
  have hupload : Uploaded platform m t t.events (some (toVec (.obj map))) := by
    refine ⟨evidence, map, baseline, recovered, raw, ?_⟩
    exact
      { handed := rfl
        entries := fun token value hget =>
          kept_of_file (by rw [hfiles]) token value ((hmap.entry token value).2 hget)
        established := hevidence
        apart := hapart
        stored := ⟨text, by rw [hfiles, hfile], hread⟩
        bound := hbound
        preserved := fun token value hget => get_of_preserves hpreserves hget
        readBack := hlast
        recovers := ⟨item, hitem, hrecovered⟩
        equal := hequal }
  split
  · -- wrangler is not there
    exact ends_fail ht
  · cases dryRun with
    | true => exact ends_done ht trivial
    -- the map is handed over only here
    | false =>
      have hwrangler : Leads platform m w₀ (perform (Call.invoke "wrangler"
          ["secret", "put", "AGENT_BUS_TOKENS", "--name", m.workerName.getD "agentbus-cloud"]
          (some (toVec (.obj map))))) t fun _ u => Safe platform m w₀ u :=
        ends_perform ht fun _ => ⟨ht.uploaded hupload, ht.uploaded hupload⟩
      exact ends_bind hwrangler fun _ u hu _ => ends_done hu trivial

/-! ### Runs -/

/-- **Every command**, stopped anywhere or not at all. -/
theorem safe_step (h : Good platform m w) (command : Command) :
    Safe platform m w ((tool platform m).step w command).1 := by
  have hsafe : Safe platform m w w := ⟨h, Kept.refl w⟩
  have hleads : Leads platform m w (command.action.program platform m command.dryRun) w
      fun _ _ => True := by
    cases command.action with
    | mint => exact leads_mintMode hsafe false command.dryRun
    | rotate => exact leads_mintMode hsafe true command.dryRun
    | writeClient => exact leads_writeClientCommand hsafe command.dryRun
    | activate => exact leads_activate hsafe command.dryRun
    | upload => exact leads_upload hsafe command.dryRun
  exact (run_of_ends hleads command.moments).1

/-- A world in which the tool has done nothing. -/
def World.initial (files : String → Option String) : World := ⟨files, [], []⟩

theorem good_initial (files : String → Option String) : Good platform m (.initial files) where
  staged := by
    rintro path - ⟨contents, hwrote⟩
    cases hwrote
  there := by
    rintro ⟨contents, hwrote⟩
    cases hwrote
  uploads := fun _ _ _ _ hsuffix => by cases List.suffix_nil.1 hsuffix

theorem good_exec (files : String → Option String) (commands : List Command) :
    Good platform m ((tool platform m).exec (.initial files) commands).1 :=
  (tool platform m).exec_induction (P := fun _ w _ => Good platform m w) (good_initial files)
    (fun _ _ _ command hw => (safe_step hw command).good) commands

theorem kept_exec (files : String → Option String) (commands more : List Command) :
    Kept platform m ((tool platform m).exec (.initial files) commands).1
      ((tool platform m).exec (.initial files) (commands ++ more)).1 := by
  induction more using List.reverseRecOn with
  | nil =>
    rw [List.append_nil]
    exact Kept.refl _
  | append_singleton more command ih =>
    rw [← List.append_assoc, (tool platform m).exec_snoc_fst]
    exact ih.trans (safe_step (good_exec files (commands ++ more)) command).kept

end Commands

/-- **Credentials are kept.**  From any files, over any commands with one manifest, each stopped at any
of its calls or not at all: the map file has the entries it had, with their metadata; what was handed to
`wrangler` has every entry of the authoritative baseline and was read back from the recovery item; and
what the tool has written for the client, or staged, is a token of the client in the map. -/
theorem credentials_kept (platform : Platform) (m : Manifest) (files : String → Option String)
    (commands more : List Command) :
    Kept platform m ((tool platform m).exec (.initial files) commands).1
        ((tool platform m).exec (.initial files) (commands ++ more)).1 ∧
      Good platform m ((tool platform m).exec (.initial files) (commands ++ more)).1 :=
  ⟨kept_exec files commands more, good_exec files (commands ++ more)⟩

end AgentHub.CloudTokens
