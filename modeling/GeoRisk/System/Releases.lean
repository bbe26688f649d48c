import Mathlib.Data.Char
import Mathlib.Data.List.Lex
import Mathlib.Data.Prod.Lex
import GeoRisk.Kit.Query
import GeoRisk.Processing.Prompts
import GeoRisk.System.Policy

/-!
# Releases of the prompts

A release registers its prompts under names and versions.  The first extraction of a release that
sends a prompt records its text and hash under these; `check_prompts.py` compares what is recorded
with what is registered.

* `registry`                   what is registered now;
* `promptRow`                  `_get_or_create_prompt` with all columns, of which the pipeline reads
                               three (`promptRow_forgets`);
* `checkPrompts`               the script;
* `releaseFire`                releases that pass the script go live, and send their prompt;
* `attributed_of_run`          then each extraction names the text that was sent for it, and the script
                               stops exactly the releases that would change a text that was sent.
-/

namespace GeoRisk
open Kit

/-- a prompt of either shape -/
inductive ReleasedPrompt
  | whole (p : PromptTemplate)
  | cached (p : CachedPromptTemplate)

namespace ReleasedPrompt

def name : ReleasedPrompt → Text
  | whole p => p.name
  | cached p => p.name

def version : ReleasedPrompt → Text
  | whole p => p.version
  | cached p => p.version

def hash (sha : Text → Text) : ReleasedPrompt → Text
  | whole p => p.hash sha
  | cached p => p.hash sha

/-- the text that is hashed -/
def text : ReleasedPrompt → Text
  | whole p => p.template
  | cached p => p.systemTemplate ++ [splitSentinel] ++ p.userTemplate

theorem hash_text (sha : Text → Text) (p : ReleasedPrompt) : p.hash sha = sha p.text := by
  cases p with
  | whole p => rfl
  | cached p => rfl

/-- the key in the registry -/
def key (p : ReleasedPrompt) : Text × Text := (p.name, p.version)

end ReleasedPrompt

/-- a version of the program: what it registers, and the prompt that extraction sends -/
structure Release where
  registry : List ReleasedPrompt
  distinct : (registry.map ReleasedPrompt.key).Nodup
  sent : CachedPromptTemplate
  registered : .cached sent ∈ registry

/-- `REGISTRY` -/
def registry : List ReleasedPrompt :=
  [.whole extractEventV1, .whole escalationSuffixV1, .cached extractEventV2,
    .whole escalationSuffixV2]

/-- this version -/
def currentRelease : Release where
  registry := registry
  distinct := by decide +kernel
  sent := extractEventV2
  registered := by simp [registry]

/-! ## what is recorded -/

/-- a row of `prompts` with all its columns -/
structure PromptRow where
  id : Nat
  name : Text
  version : Text
  purpose : Option Text
  template : Text
  templateHash : Text

def PromptRow.key (p : PromptRow) : Text × Text := (p.name, p.version)

/-- the columns that the pipeline reads -/
def PromptRow.prompt (p : PromptRow) : Prompt := ⟨p.id, p.name, p.version⟩

/-- `_get_or_create_prompt`: the counter, the rows and the key of the row -/
def promptRow (sha : Text → Text) (next : Nat) (rows : List PromptRow)
    (template : CachedPromptTemplate) : Nat × List PromptRow × Nat :=
  match rows.find? fun p => p.name = template.name ∧ p.version = template.version with
  | some p => (next, rows, p.id)
  | none =>
    (next + 1, rows ++ [{
      id := next, name := template.name, version := template.version
      purpose := some template.purpose
      template := template.systemTemplate ++ template.userTemplate
      templateHash := template.hash sha }], next)

/-! ## `check_prompts.py` -/

/-- what is recorded under a key; a later row takes the place of an earlier one -/
def recordedHash (rows : List PromptRow) (key : Text × Text) : Option Text :=
  (rows.reverse.find? fun p => decide (p.key = key)).map (·.templateHash)

/-- the line about a registered prompt, or its violation -/
def checkPrompt (sha : Text → Text) (rows : List PromptRow) (p : ReleasedPrompt) :
    Except Text Text :=
  let label := p.name ++ [' '] ++ p.version
  match recordedHash rows p.key with
  | none => .ok (label ++ txt ": not yet recorded (hash " ++ (p.hash sha).take 12 ++ [')'])
  | some recorded =>
    if recorded ≠ p.hash sha then
      .error (label ++ txt ": template hash " ++ (p.hash sha).take 12 ++
        txt " does not match the recorded " ++ recorded.take 12 ++
        txt " -- the prompt was edited without a version bump")
    else .ok (label ++ txt ": unchanged")

def violationOf : Except Text Text → Option Text
  | .error violation => some violation
  | .ok _ => none

/-- `main`, where the database is reached and where it is not -/
def checkPrompts (sha : Text → Text) (database : Except Text (List PromptRow)) (r : Release) :
    ScriptExit :=
  match database with
  | .error message => { code := 2, err := [txt "error: could not reach the database: " ++ message] }
  | .ok rows =>
    let checked := (sortBy (fun p => toLex p.key) r.registry).map (checkPrompt sha rows)
    let violations := checked.filterMap violationOf
    let out := checked.filterMap Except.toOption
    if violations.isEmpty then
      { code := 0, out := out ++ [txt "prompt integrity: OK (" ++ natText r.registry.length ++
        txt " registered)"] }
    else
      { code := 1, out := out, err := violations.map (txt "VIOLATION: " ++ ·) ++
        [txt ("\nBump the version in src/gri/processing/prompts.py instead of editing a" ++
          " released template.")] }

/-! ## releases -/

/-- the recorded prompts, the release that is live, and the extractions: the key of the row that each
names, with the prompt that was sent -/
structure Prompts where
  nextId : Nat := 0
  rows : List PromptRow := []
  live : Option Release := none
  extractions : List (Nat × CachedPromptTemplate) := []

inductive ReleaseAct
  /-- a release whose check passes goes live -/
  | release (r : Release)
  /-- the live release extracts -/
  | extract

def releaseFire (sha : Text → Text) (s : Prompts) : ReleaseAct → Option Prompts
  | .release r =>
    if (checkPrompts sha (.ok s.rows) r).code = 0 then some { s with live := some r } else none
  | .extract => s.live.map fun r =>
    let out := promptRow sha s.nextId s.rows r.sent
    { s with
      nextId := out.1
      rows := out.2.1
      extractions := s.extractions ++ [(out.2.2, r.sent)] }

/-- what a row says of a prompt that was sent -/
structure Records (sha : Text → Text) (row : PromptRow) (p : CachedPromptTemplate) : Prop where
  key : row.key = (p.name, p.version)
  hash : row.templateHash = p.hash sha

/-- what holds as long as only checked releases go live -/
structure Attributed (sha : Text → Text) (s : Prompts) : Prop where
  rows : Numbered PromptRow.id s.rows s.nextId
  distinct : (s.rows.map PromptRow.key).Nodup
  /-- the row of an extraction -/
  named : ∀ x ∈ s.extractions, ∃ row ∈ s.rows, row.id = x.1 ∧ Records sha row x.2
  /-- the extraction that made the row -/
  made : ∀ row ∈ s.rows, ∃ x ∈ s.extractions, x.1 = row.id ∧ Records sha row x.2 ∧
    row.template = x.2.systemTemplate ++ x.2.userTemplate
  /-- the live release agrees with all that is recorded -/
  live : ∀ r ∈ s.live, ∀ p ∈ r.registry, ∀ row ∈ s.rows, row.key = p.key →
    row.templateHash = p.hash sha

section
variable {sha : Text → Text} {s t : Prompts} {rows : List PromptRow} {r : Release}

/-! ## what the pipeline reads -/

/-- **The rows with all columns are those of the pipeline.** -/
theorem promptRow_forgets {env : CallEnv} {store after : Store} {id : Nat}
    (hrows : store.prompts = rows.map PromptRow.prompt)
    (h : getOrCreatePrompt env store = .ok (after, id)) :
    after.nextId = (promptRow sha store.nextId rows currentRelease.sent).1 ∧
      after.prompts = (promptRow sha store.nextId rows currentRelease.sent).2.1.map
        PromptRow.prompt ∧
      id = (promptRow sha store.nextId rows currentRelease.sent).2.2 := by
  have hfound : (store.prompts.find? fun p => p.name = promptName ∧ p.version = promptVersion) =
      (rows.find? fun p => p.name = currentRelease.sent.name ∧
        p.version = currentRelease.sent.version).map PromptRow.prompt := by
    rw [hrows, List.find?_map]
    rfl
  unfold getOrCreatePrompt at h
  rw [hfound] at h
  unfold promptRow
  cases hfind : rows.find? fun p => p.name = currentRelease.sent.name ∧
      p.version = currentRelease.sent.version with
  | some p =>
    rw [hfind] at h
    cases h
    exact ⟨rfl, hrows, rfl⟩
  | none =>
    rw [hfind] at h
    obtain ⟨_, _, h⟩ := bind_eq_ok.mp h
    cases h
    refine ⟨rfl, ?_, rfl⟩
    show store.prompts ++ _ = (rows ++ _).map PromptRow.prompt
    rw [hrows, List.map_append]
    rfl

/-! ## the check -/

theorem recordedHash_eq (h : (rows.map PromptRow.key).Nodup) (key : Text × Text) :
    recordedHash rows key = (lookup PromptRow.key key rows).map (·.templateHash) := by
  unfold recordedHash
  rw [← lookup_reverse h]
  rfl

/-- a prompt is reported where another text is recorded under its key -/
theorem violationOf_checkPrompt (h : (rows.map PromptRow.key).Nodup) (p : ReleasedPrompt) :
    violationOf (checkPrompt sha rows p) = none ↔
      ∀ row ∈ rows, row.key = p.key → row.templateHash = p.hash sha := by
  unfold checkPrompt
  rw [recordedHash_eq h]
  cases hl : lookup PromptRow.key p.key rows with
  | none =>
    refine ⟨fun _ row hrow hkey => ?_, fun _ => rfl⟩
    exact absurd (decide_eq_true hkey) (List.find?_eq_none.mp hl row hrow)
  | some row =>
    have hrow := lookup_mem hl
    have hkey := lookup_key hl
    simp only [Option.map_some]
    split
    · next hne => exact iff_of_false (Option.some_ne_none _) fun hall => hne (hall row hrow hkey)
    · next heq =>
      refine iff_of_true rfl fun other hother hother' => ?_
      rw [List.inj_on_of_nodup_map h hother hrow (hother'.trans hkey.symm)]
      exact not_not.mp heq

theorem checkPrompts_code (sha : Text → Text) (r : Release) (h : (rows.map PromptRow.key).Nodup) :
    ((checkPrompts sha (.ok rows) r).code = 0 ↔ ∀ p ∈ r.registry, ∀ row ∈ rows, row.key = p.key →
      row.templateHash = p.hash sha) ∧
      ((checkPrompts sha (.ok rows) r).code = 0 ∨ (checkPrompts sha (.ok rows) r).code = 1) := by
  have hviolations : (((sortBy (fun p => toLex p.key) r.registry).map
      (checkPrompt sha rows)).filterMap violationOf) = [] ↔ ∀ p ∈ r.registry, ∀ row ∈ rows,
        row.key = p.key → row.templateHash = p.hash sha := by
    rw [List.filterMap_eq_nil_iff, List.forall_mem_map]
    refine forall_congr' fun p => ?_
    rw [(perm_sortBy _ _).mem_iff, violationOf_checkPrompt h]
  unfold checkPrompts
  simp only
  split
  · next hempty => exact ⟨iff_of_true rfl (hviolations.mp (List.isEmpty_iff.mp hempty)), Or.inl rfl⟩
  · next hsome =>
    refine ⟨iff_of_false one_ne_zero fun hall => ?_, Or.inr rfl⟩
    exact hsome (List.isEmpty_iff.mpr (hviolations.mpr hall))

/-! ## one extraction -/

/-- the row of an extraction, where its release agrees with what is recorded -/
theorem attributed_extract (h : Attributed sha s) (hr : s.live = some r) :
    Attributed sha {
      nextId := (promptRow sha s.nextId s.rows r.sent).1
      rows := (promptRow sha s.nextId s.rows r.sent).2.1
      live := s.live
      extractions := s.extractions ++ [((promptRow sha s.nextId s.rows r.sent).2.2, r.sent)] } := by
  unfold promptRow
  cases hfind : s.rows.find? fun p => p.name = r.sent.name ∧ p.version = r.sent.version with
  | some row =>
    have hrow := List.mem_of_find?_eq_some hfind
    have hfound := List.find?_some hfind
    have hkey : row.key = (r.sent.name, r.sent.version) :=
      Prod.ext (of_decide_eq_true hfound).1 (of_decide_eq_true hfound).2
    have hhash : row.templateHash = r.sent.hash sha := h.live r hr _ r.registered row hrow hkey
    refine ⟨h.rows, h.distinct, ?_, fun row hrow => ?_, h.live⟩
    · rw [List.forall_mem_append, List.forall_mem_singleton]
      exact ⟨h.named, row, hrow, rfl, hkey, hhash⟩
    · obtain ⟨x, hx, hmade⟩ := h.made row hrow
      exact ⟨x, List.mem_append_left _ hx, hmade⟩
  | none =>
    have hnew := List.find?_eq_none.mp hfind
    refine ⟨h.rows.append (Nat.le_refl _) (Nat.lt_succ_self _), ?_, ?_, ?_, fun r' hr' p hp => ?_⟩
    · refine nodup_insert h.distinct fun row hrow hsame => hnew row hrow ?_
      exact decide_eq_true ⟨congrArg Prod.fst hsame, congrArg Prod.snd hsame⟩
    · rw [List.forall_mem_append, List.forall_mem_singleton]
      refine ⟨fun x hx => ?_, _, List.mem_append_right _ (List.mem_singleton_self _), rfl, rfl, rfl⟩
      obtain ⟨row, hrow, hnamed⟩ := h.named x hx
      exact ⟨row, List.mem_append_left _ hrow, hnamed⟩
    · rw [List.forall_mem_append, List.forall_mem_singleton]
      refine ⟨fun row hrow => ?_, _, List.mem_append_right _ (List.mem_singleton_self _), rfl,
        ⟨rfl, rfl⟩, rfl⟩
      obtain ⟨x, hx, hmade⟩ := h.made row hrow
      exact ⟨x, List.mem_append_left _ hx, hmade⟩
    · rw [hr] at hr'
      cases hr'
      rw [List.forall_mem_append, List.forall_mem_singleton]
      refine ⟨h.live r hr p hp, fun hkey => ?_⟩
      -- under the key of the new row the release has no other prompt
      have hsame := List.inj_on_of_nodup_map r.distinct hp r.registered hkey.symm
      rw [hsame]
      rfl

/-! ## runs -/

theorem attributed_step {a : ReleaseAct} (h : Attributed sha s) (ha : releaseFire sha s a = some t) :
    Attributed sha t := by
  cases a with
  | release r =>
    unfold releaseFire at ha
    simp only at ha
    split at ha
    · next hcode =>
      cases ha
      refine ⟨h.rows, h.distinct, h.named, h.made, fun r' hr' => ?_⟩
      cases hr'
      exact (checkPrompts_code sha r h.distinct).1.mp hcode
    · cases ha
  | extract =>
    obtain ⟨r, hr, rfl⟩ := Option.map_eq_some_iff.mp ha
    exact attributed_extract h hr

theorem attributed_empty : Attributed sha {} :=
  ⟨.nil, List.nodup_nil, fun _ hx => absurd hx List.not_mem_nil,
    fun _ hrow => absurd hrow List.not_mem_nil, fun _ hr => nomatch hr⟩

/-- one row for each key, so one text -/
theorem Attributed.same (h : Attributed sha s) (hsha : Function.Injective sha)
    (hsep : ∀ x ∈ s.extractions, splitSentinel ∉ x.2.systemTemplate)
    {x y : Nat × CachedPromptTemplate} (hx : x ∈ s.extractions) (hy : y ∈ s.extractions)
    (hkey : (x.2.name, x.2.version) = (y.2.name, y.2.version)) :
    x.2.systemTemplate = y.2.systemTemplate ∧ x.2.userTemplate = y.2.userTemplate := by
  obtain ⟨row, hrow, _, hrecx⟩ := h.named x hx
  obtain ⟨row', hrow', _, hrecy⟩ := h.named y hy
  have hsame := List.inj_on_of_nodup_map h.distinct hrow hrow'
    (hrecx.key.trans (hkey.trans hrecy.key.symm))
  have hhash : x.2.hash sha = y.2.hash sha := by
    rw [← hrecx.hash, ← hrecy.hash, hsame]
  exact CachedPromptTemplate.hash_injective hsha (hsep x hx) (hsep y hy) hhash

theorem Attributed.template (h : Attributed sha s) (hsha : Function.Injective sha)
    (hsep : ∀ x ∈ s.extractions, splitSentinel ∉ x.2.systemTemplate)
    {x : Nat × CachedPromptTemplate} (hx : x ∈ s.extractions) :
    ∃ row ∈ s.rows, row.id = x.1 ∧ row.key = (x.2.name, x.2.version) ∧
      row.template = x.2.systemTemplate ++ x.2.userTemplate := by
  obtain ⟨row, hrow, hid, hrec⟩ := h.named x hx
  obtain ⟨y, hy, _, hmade, htemplate⟩ := h.made row hrow
  obtain ⟨hsystem, huser⟩ := h.same hsha hsep hx hy (hrec.key.symm.trans hmade.key)
  refine ⟨row, hrow, hid, hrec.key, ?_⟩
  rw [htemplate, hsystem, huser]

/-- **Where each release passed `check_prompts.py` before it went live, each extraction names a row
with the name, the version and the text of the prompt that was sent for it, and what was sent under
one name and version is one text; and the script stops exactly the releases that register another
text, halves and separator, under the name and version of one that was sent.** -/
theorem attributed_of_run {as : List ReleaseAct} (hsha : Function.Injective sha)
    (hrun : exec (releaseFire sha) {} as = some s)
    (hsep : ∀ x ∈ s.extractions, splitSentinel ∉ x.2.systemTemplate) :
    (∀ x ∈ s.extractions,
      (∃ row ∈ s.rows, row.id = x.1 ∧ row.key = (x.2.name, x.2.version) ∧
        row.template = x.2.systemTemplate ++ x.2.userTemplate) ∧
      ∀ y ∈ s.extractions, (x.2.name, x.2.version) = (y.2.name, y.2.version) →
        x.2.systemTemplate = y.2.systemTemplate ∧ x.2.userTemplate = y.2.userTemplate) ∧
    ∀ r, (checkPrompts sha (.ok s.rows) r).code = 1 ↔ ∃ p ∈ r.registry, ∃ x ∈ s.extractions,
      p.key = (x.2.name, x.2.version) ∧ p.text ≠ (ReleasedPrompt.cached x.2).text := by
  have h : Attributed sha s :=
    exec_invariant _ (fun _ _ _ h ha => attributed_step h ha) hrun attributed_empty
  refine ⟨fun x hx => ⟨h.template hsha hsep hx, fun y hy hkey => h.same hsha hsep hx hy hkey⟩,
    fun r => ?_⟩
  obtain ⟨hclean, hcode⟩ := checkPrompts_code sha r h.distinct
  have hone : (checkPrompts sha (.ok s.rows) r).code = 1 ↔
      ¬ (checkPrompts sha (.ok s.rows) r).code = 0 := by omega
  have hsame : ∀ (p : ReleasedPrompt) (x : CachedPromptTemplate),
      x.hash sha = p.hash sha ↔ p.text = (ReleasedPrompt.cached x).text := by
    intro p x
    rw [p.hash_text, show x.hash sha = sha (ReleasedPrompt.cached x).text from rfl, hsha.eq_iff,
      eq_comm]
  rw [hone, hclean]
  push Not
  refine exists_congr fun p => and_congr_right fun _ => ?_
  constructor
  · rintro ⟨row, hrow, hkey, hne⟩
    obtain ⟨x, hx, _, hrec, _⟩ := h.made row hrow
    refine ⟨x, hx, hkey.symm.trans hrec.key, fun he => hne ?_⟩
    exact hrec.hash.trans ((hsame p x.2).mpr he)
  · rintro ⟨x, hx, hkey, hne⟩
    obtain ⟨row, hrow, _, hrec⟩ := h.named x hx
    refine ⟨row, hrow, hrec.key.trans hkey.symm, fun he => hne ?_⟩
    exact (hsame p x.2).mp (hrec.hash.symm.trans he)

end

/-! ## a run -/

namespace Sample

def promptOf (version instructions : String) : CachedPromptTemplate :=
  ⟨txt "extract_event", txt version, [], txt instructions, txt "Source: "⟩

def releaseOf (p : CachedPromptTemplate) : Release :=
  ⟨[.cached p], List.nodup_singleton _, p, List.mem_singleton_self _⟩

/-- a release goes live and extracts, and so does the next one, under a new version -/
def releases : List ReleaseAct :=
  [.release (releaseOf (promptOf "v1" "Read the notice.")), .extract,
    .release (releaseOf (promptOf "v2" "Read the whole notice.")), .extract, .extract]

/-- an edited text under an old version -/
def edited : Release := releaseOf (promptOf "v1" "Read the whole notice.")

end Sample

theorem attributed_of_run_releases : ∃ s, exec (releaseFire id) {} Sample.releases = some s ∧
    s.rows.length = 2 ∧ s.extractions.length = 3 ∧
    (∀ x ∈ s.extractions, ∃ row ∈ s.rows, row.id = x.1 ∧ row.key = (x.2.name, x.2.version) ∧
      row.template = x.2.systemTemplate ++ x.2.userTemplate) ∧
    (checkPrompts id (.ok s.rows) Sample.edited).code = 1 ∧
    ∃ p ∈ Sample.edited.registry, ∃ x ∈ s.extractions, p.key = (x.2.name, x.2.version) ∧
      p.text ≠ (ReleasedPrompt.cached x.2).text := by
  have h : (exec (releaseFire id) {} Sample.releases).map (fun s =>
      (s.rows.length, s.extractions.length, decide (∀ x ∈ s.extractions,
        splitSentinel ∉ x.2.systemTemplate), (checkPrompts id (.ok s.rows) Sample.edited).code)) =
          some (2, 3, true, 1) := by decide +kernel
  obtain ⟨s, hs, hlen⟩ := Option.map_eq_some_iff.mp h
  obtain ⟨hrows, hlen⟩ := Prod.mk.inj hlen
  obtain ⟨hextractions, hlen⟩ := Prod.mk.inj hlen
  obtain ⟨hsep, hcode⟩ := Prod.mk.inj hlen
  have hall := attributed_of_run Function.injective_id hs (of_decide_eq_true hsep)
  exact ⟨s, hs, hrows, hextractions, fun x hx => (hall.1 x hx).1, hcode,
    (hall.2 Sample.edited).mp hcode⟩

end GeoRisk
