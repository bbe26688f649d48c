import GeoRisk.System.Steps

/-!
# The terms of the sources

`check_source_terms.py` reads every source and fails where the policy is broken.  Two of its checks
ask for a `terms_url`, which no constraint of the table asks for.

* `Source.violations`, `Source.warnings`    what the loop of `main` notes about a source;
* `checkSourceTerms`                        `main`: its exit code and what it prints;
* `audit_passes`                            it passes in every run of the system;
* `Acquired`                                a document belongs to a finished run of a source that
                                            nothing blocks, and has text only where full text may be
                                            kept;
* `acquired_of_run`                         so does every document of every run;
* `Sample.firstTick`                        a run, from the registry to a record.
-/

namespace GeoRisk
open Kit

/-! ## `check_source_terms.py` -/

/-- `ROBOTS_MAX_AGE` -/
def robotsMaxAge : Int := 30 * DateTime.microsPerDay

/-- the line about the source, if the condition holds -/
def Source.noted (x : Source) (condition : Bool) (message : Text) : List Text :=
  if condition then [x.slug ++ message] else []

def Source.violations (x : Source) (t : Terms) : List Text :=
  x.noted (x.enabled && t.termsReviewedAt.isNone)
    (txt ": enabled with no recorded terms review (NG-2)") ++
  x.noted (x.storeFullText && t.termsReviewedAt.isNone)
    (txt ": stores full text with no terms review (NG-2)") ++
  x.noted (x.enabled && !truthy t.termsUrl) (txt ": enabled with no terms_url recorded") ++
  x.noted (x.enabled && !t.endpointVerified) (txt ": enabled with an unverified endpoint") ++
  x.noted (x.enabled && !t.formatConfirmed)
    (txt ": enabled with an unconfirmed parse -- the adapter config is" ++
      txt " still the registry's starting hypothesis") ++
  x.noted (x.storeFullText && !truthy t.termsUrl)
    (txt ": stores full text with no terms_url recorded")

def Source.warnings (x : Source) (t : Terms) (now : DateTime) : List Text :=
  match t.robotsCheckedAt with
  | none => x.noted x.enabled (txt ": robots.txt has never been checked")
  | some checked =>
    let age := now.micros - checked.micros
    x.noted (x.enabled && decide (robotsMaxAge < age))
      (txt ": robots.txt check is " ++ natText (age / DateTime.microsPerDay).toNat ++ txt " days old")

/-- how the script ends, with the lines on its two outputs -/
structure ScriptExit where
  code : Nat
  out : List Text := []
  err : List Text := []

/-- `main`, where the database is reached and where it is not -/
def checkSourceTerms (database : Except Text Sources) (collate : Text → Text → Bool)
    (now : DateTime) : ScriptExit :=
  match database with
  | .error message => { code := 2, err := [txt "error: could not reach the database: " ++ message] }
  | .ok s =>
    let sources := s.store.sources.insertionSort fun a b => collate a.slug b.slug = true
    if sources.isEmpty then
      { code := 0, out := [txt "no sources registered yet (expected before Phase 1)"] }
    else
      let violations := sources.flatMap fun x => x.violations (s.terms x.id)
      let warnings := sources.flatMap fun x => x.warnings (s.terms x.id) now
      let checked := txt "checked " ++ natText sources.length ++ txt " source(s), " ++
        natText (sources.countP (·.enabled)) ++ txt " enabled"
      let out := checked :: warnings.map fun w => txt "warning: " ++ w
      if violations.isEmpty then { code := 0, out := out ++ [txt "source terms policy: OK"] }
      else { code := 1, out := out, err := violations.map fun v => txt "VIOLATION: " ++ v }

section
variable {U : Unicode} {sha : Text → Text} {P : CallEnv → Prop} {s t : Sources}

theorem noted_eq_nil {x : Source} {condition : Bool} {message : Text} :
    x.noted condition message = [] ↔ condition = false := by
  unfold Source.noted
  cases condition with
  | true => simp
  | false => simp

/-- **The loop notes nothing about a row exactly if it complies**, and names the page of the terms
where it asks for it. -/
theorem violations_eq_nil {x : Source} {terms : Terms} : x.violations terms = [] ↔
    (x.enabled = true → terms.blockers = [] ∧ truthy terms.termsUrl = true) ∧
    (x.storeFullText = true → terms.termsReviewedAt.isSome = true ∧ truthy terms.termsUrl = true) := by
  have hflags : (∀ flag, terms.flag flag = true) ↔
      terms.endpointVerified = true ∧ terms.formatConfirmed = true := by
    constructor
    · intro h
      exact ⟨h .endpointVerified, h .formatConfirmed⟩
    · rintro ⟨he, hf⟩ (_ | _)
      · exact he
      · exact hf
  unfold Source.violations
  simp only [List.append_eq_nil_iff, noted_eq_nil, blockers_eq_nil, hflags, ← Option.not_isSome]
  cases x.enabled <;> cases x.storeFullText <;> cases terms.termsReviewedAt.isSome <;>
    cases truthy terms.termsUrl <;> cases terms.endpointVerified <;>
    cases terms.formatConfirmed <;> decide

theorem Compliant.violations {x : Source} {terms : Terms} (h : Compliant terms x) :
    x.violations terms = [] := by
  refine violations_eq_nil.mpr ⟨fun he => ?_, fun hf => ?_⟩
  · have hb := h.enabled he
    exact ⟨hb, h.termsUrl (blockers_eq_nil.mp hb).1⟩
  · have hr := h.fullText hf
    exact ⟨hr, h.termsUrl hr⟩

/-- the script passes where it notes nothing -/
theorem checkSourceTerms_clean (collate : Text → Text → Bool) (now : DateTime)
    (h : ∀ x ∈ s.store.sources, x.violations (s.terms x.id) = []) :
    (checkSourceTerms (.ok s) collate now).code = 0 ∧
      (checkSourceTerms (.ok s) collate now).err = [] := by
  have hnone : ((s.store.sources.insertionSort fun a b => collate a.slug b.slug = true).flatMap
      fun x => x.violations (s.terms x.id)) = [] := by
    rw [List.flatMap_eq_nil_iff]
    intro x hx
    exact h x ((List.perm_insertionSort _ _).mem_iff.mp hx)
  unfold checkSourceTerms
  simp only
  split
  · exact ⟨rfl, rfl⟩
  · rw [hnone]
    exact ⟨rfl, rfl⟩

/-- **In every run of the system, with one call at a time, however it is interrupted, the audit of
the committed database finds nothing.** -/
theorem audit_passes {as : List SystemAct} {s : System}
    (hrun : exec (systemFire U sha) .empty as = some s) (collate : Text → Text → Bool)
    (now : DateTime) : (checkSourceTerms (.ok s.committed) collate now).code = 0 ∧
      (checkSourceTerms (.ok s.committed) collate now).err = [] := by
  have hlawful := (evolved_of_run hrun).lawful
  exact checkSourceTerms_clean collate now fun x hx => (hlawful.rows x hx).violations

/-! ## what may be stored -/

/-- the document was stored by a finished run of the source, which nothing blocks, and has text only
where the source may keep it -/
structure AcquiredBy (s : Sources) (d : RawDocument) (x : Source) (run : IngestionRun) : Prop where
  source : x ∈ s.store.sources ∧ x.id = d.sourceId
  terms : (s.terms x.id).blockers = []
  fetched : run ∈ s.store.runs ∧ d.fetchRunId = some run.id ∧ run.sourceId = x.id
  finished : run.status ≠ .running ∧ run.finishedAt.isSome = true
  text : d.rawBody.isSome = true ∨ d.cleanText.isSome = true → x.storeFullText = true

def Acquired (s : Sources) (d : RawDocument) : Prop := ∃ x run, AcquiredBy s d x run

theorem Acquired.change {d : RawDocument} (h : Acquired s d) (hl : Lawful s) (hc : Change U sha P s t) :
    Acquired t d := by
  obtain ⟨x, run, hf⟩ := h
  obtain ⟨y, hy, hid, _, hkept, hstill⟩ := change_keeps_source hl hc hf.source.1
  refine ⟨y, run, ⟨hy, hid.trans hf.source.2⟩, hkept.blockers hf.terms, ⟨?_, hf.fetched.2.1, ?_⟩,
    hf.finished, fun ht => hstill (hf.text ht)⟩
  · cases change_intake hc with
    | none hdocuments hruns =>
      rw [hruns]
      exact hf.fetched.1
    | ran source now run' added hx hb hin hterms =>
      rw [hin.runs hl.runs]
      exact List.mem_append_left _ hf.fetched.1
  · rw [hid]
    exact hf.fetched.2.2

/-- the documents of a run are acquired by it -/
theorem acquired_added {source : Source} {now : DateTime} {run : IngestionRun}
    {added : List RawDocument} (hl : Lawful s) (hc : Change U sha P s t)
    (hx : s.store.source? source.id = some source) (hb : (s.terms source.id).blockers = [])
    (hin : Intake U sha s.store source now run added t.store) : ∀ d ∈ added, Acquired t d := by
  intro d hd
  obtain ⟨y, hy, hid, _, hkept, hstill⟩ := change_keeps_source hl hc (lookup_mem hx)
  obtain ⟨hsource, hrun, htext⟩ := (hin.taken d hd).fields
  refine ⟨y, run, ⟨hy, hid.trans hsource.symm⟩, hkept.blockers hb, ⟨?_, hrun, ?_⟩, hin.closed,
    fun ht => hstill (htext ht)⟩
  · rw [hin.runs hl.runs]
    exact List.mem_append_right _ (List.mem_singleton_self run)
  · rw [hid]
    exact hin.row.2

/-- **Every document is acquired.** -/
theorem Evolved.acquired (h : Evolved U sha P s) : ∀ d ∈ s.store.documents, Acquired s d := by
  refine h.invariant (I := fun s => ∀ d ∈ s.store.documents, Acquired s d)
    (fun _ hd => absurd hd List.not_mem_nil) ?_
  intro s t hs hI hc
  have hl := hs.lawful
  have hold : ∀ d ∈ s.store.documents, Acquired t d := fun d hd => (hI d hd).change hl hc
  cases change_intake hc with
  | none hdocuments hruns =>
    rw [hdocuments]
    exact hold
  | ran source now run added hx hb hin hterms =>
    obtain ⟨next, sources, hafter⟩ := hin.tables
    have hdocuments : t.store.documents = s.store.documents ++ added := by rw [hafter]
    rw [hdocuments, List.forall_mem_append]
    exact ⟨hold, acquired_added hl hc hx hb hin⟩

/-- **In every run of the system, with one call at a time, each stored document came from a finished
run of a source whose terms a human has reviewed, naming their page, and whose endpoint and format
were confirmed; and a document has a body or text only where full text of the source may be kept.**
-/
theorem acquired_of_run {as : List SystemAct} {s : System}
    (hrun : exec (systemFire U sha) .empty as = some s) :
    ∀ d ∈ s.session.committed.documents, ∃ x run, AcquiredBy s.committed d x run ∧
      truthy (s.terms x.id).termsUrl = true := by
  have hs := evolved_of_run hrun
  intro d hd
  obtain ⟨x, run, hf⟩ := hs.acquired d hd
  exact ⟨x, run, hf, (hs.lawful.rows x hf.source.1).termsUrl (blockers_eq_nil.mp hf.terms).1⟩

end

/-! ## a run -/

namespace Sample

/-- the terms of the source allow its full text to be kept -/
def licensing : ReviewArgs := { enabling with storeFullText := true }

def notice : ParsedItem where
  sourceUid := none
  url := txt "https://example.org/n1"
  title := some (txt "Port of Aden")
  bodyText := some text
  publishedAt := none
  canonicalUrl := none
  language := none

def responded : SourceEnv where
  fetch := .returned { url := portNotices.feedUrl, statusCode := 200, retrievedAt := ⟨0⟩ }
  items := .ok [(notice, .stored)]
  finishedAt := ⟨0⟩

/-- a source is seeded, reviewed and polled, and its notice is processed -/
def firstTickWith (env : CallEnv) : List SystemAct :=
  [.seed [portNotices] true, .review licensing ⟨0⟩ true, .poll (wake ⟨0⟩),
    .poll (.source responded false), .poll (.finish true), .queue (.start settings),
    .queue (.round (round env)), .queue (.finish ⟨0⟩ true)]

def firstTick : List SystemAct := firstTickWith (env .moderate)

/-- the notice is stored and becomes a record -/
theorem firstTick_done : ∃ s, exec (systemFire Unicode.latin id) .empty firstTick = some s ∧
    s.session.committed.documents.length = 1 ∧ s.session.committed.events.length = 1 ∧
    s.idle = true := by
  have h : (exec (systemFire Unicode.latin id) .empty firstTick).map (fun s =>
      (s.session.committed.documents.length, s.session.committed.events.length, s.idle)) =
        some (1, 1, true) := by decide +kernel
  obtain ⟨s, hs, hcounts⟩ := Option.map_eq_some_iff.mp h
  obtain ⟨hdocuments, hcounts⟩ := Prod.mk.inj hcounts
  exact ⟨s, hs, hdocuments, Prod.mk.inj hcounts⟩

theorem firstTick_document : ∃ s, exec (systemFire Unicode.latin id) .empty firstTick = some s ∧
    ∃ d, d ∈ s.session.committed.documents := by
  obtain ⟨s, hs, hdocuments, _⟩ := firstTick_done
  apply Exists.intro s
  exact ⟨hs, List.exists_mem_of_length_pos (by omega)⟩

theorem firstTick_event : ∃ s, exec (systemFire Unicode.latin id) .empty firstTick = some s ∧
    ∃ e, e ∈ s.session.committed.events := by
  obtain ⟨s, hs, _, hevents, _⟩ := firstTick_done
  apply Exists.intro s
  exact ⟨hs, List.exists_mem_of_length_pos (by omega)⟩

/-- one call is all that the tick makes -/
theorem firstTickWith_meets {P : CallEnv → Prop} {env : CallEnv}
    (h : P { env with allowEscalation := true }) : ∀ a ∈ firstTickWith env, a.Meets P := by
  unfold firstTickWith
  simp only [List.forall_mem_cons]
  exact ⟨trivial, trivial, trivial, trivial, trivial, trivial, h, trivial,
    fun _ ha => absurd ha List.not_mem_nil⟩

end Sample

theorem audit_passes_firstTick :
    ∃ s, exec (systemFire Unicode.latin id) .empty Sample.firstTick = some s ∧
      s.session.committed.documents.length = 1 ∧
      (checkSourceTerms (.ok s.committed) (fun _ _ => true) ⟨0⟩).code = 0 := by
  obtain ⟨s, hs, hdocuments, _⟩ := Sample.firstTick_done
  exact ⟨s, hs, hdocuments, (audit_passes hs _ ⟨0⟩).1⟩

theorem acquired_of_run_firstTick :
    ∃ s, exec (systemFire Unicode.latin id) .empty Sample.firstTick = some s ∧
      ∃ d ∈ s.session.committed.documents, ∃ x run, AcquiredBy s.committed d x run ∧
        truthy (s.terms x.id).termsUrl = true := by
  obtain ⟨s, hs, d, hd⟩ := Sample.firstTick_document
  exact ⟨s, hs, d, hd, acquired_of_run hs d hd⟩

end GeoRisk
