import Mathlib.Logic.Relation
import GeoRisk.Ingest.Intake
import GeoRisk.Ingest.Registry
import GeoRisk.Queue.Retries

/-!
# The whole system

One database and what writes it: `seed_sources.py`, `review_source_terms.py`, the two halves of a
tick of the one worker and the reviewers.  One call runs at a time: the two scripts and a decision
run between two ticks only.  A tick is a step for each source and for each document, and the worker
may die between any two of them.

* `System`, `systemFire`    the parts as one step function over one session;
* `Change`                  what a step may write, with what is known when it is written;
* `Evolved`                 what changes make of the empty database;
* `Compliant`               an enabled source has no blockers, and full text needs a terms review;
* `system_step`             every step changes the session, returns to the last commit, or commits;
* `system_of_run`,
  `changes_of_run`          so every committed database has evolved by changes, and a run leads it on by
                            changes.
-/

namespace GeoRisk
open Kit

/-- the database with the session of the worker, and where the worker is -/
structure System where
  session : Session Store
  terms : Nat → Terms := fun _ => {}
  polling : Option Polling := none
  processing : Option Running := none

namespace System

def empty : System := { session := .start .empty }

def committed (s : System) : Sources := ⟨s.session.committed, s.terms⟩
def current (s : System) : Sources := ⟨s.session.current, s.terms⟩

/-- between two ticks -/
def idle (s : System) : Bool := s.polling.isNone && s.processing.isNone

def put (s : System) (t : Sources) : System :=
  { s with session := .start t.store, terms := t.terms }

def poller (s : System) : Poller := { session := s.session, running := s.polling }
def worker (s : System) : Worker := { session := s.session, running := s.processing }

def polled (s : System) (p : Poller) : System :=
  { s with session := p.session, polling := p.running }

def worked (s : System) (w : Worker) : System :=
  { s with session := w.session, processing := w.running }

end System

/-- the steps of the first half of `run_once` -/
def PollAct.isTick : PollAct → Bool
  | .start _ _ _ | .source _ _ | .finish _ => true
  | .enable _ | .record _ => false

/-- the steps of the second half -/
def QueueAct.isTick : QueueAct → Bool
  | .record _ => false
  | _ => true

inductive SystemAct
  | seed (configs : List SourceConfig) (commits : Bool)
  | review (args : ReviewArgs) (now : DateTime) (commits : Bool)
  | decide (eventId : Nat) (input : DecisionInput)
  | poll (a : PollAct)
  | queue (a : QueueAct)
  /-- the worker dies -/
  | stop

section
variable (U : Unicode) (sha : Text → Text) (P : CallEnv → Prop)

def systemFire (s : System) : SystemAct → Option System
  | .seed configs commits =>
    if s.idle then some (s.put (seedSources s.committed configs commits)) else none
  | .review args now commits =>
    if s.idle then some (s.put (reviewSource s.committed args now commits).sources) else none
  | .decide eventId input =>
    if s.idle then
      (fire U s.session.committed (.decide eventId input)).map fun t =>
        { s with session := .start t }
    else none
  | .poll a =>
    if s.processing.isNone && a.isTick then (pollFire U sha s.poller a).map s.polled else none
  | .queue a =>
    if s.polling.isNone && a.isTick then (queueFire U s.worker a).map s.worked else none
  | .stop => some { s with session := s.session.rollback, polling := none, processing := none }

/-- what is known of the surroundings of every call of `process_document` in the step -/
def SystemAct.Meets : SystemAct → Prop
  | .queue (.round env) => P { env.call with allowEscalation := true }
  | _ => True

/-- the document waits for an answer -/
structure Waits (s : Store) (documentId : Nat) : Prop where
  unanswered : terminal s.extractions documentId = false
  retried : errorRows s.extractions documentId < maxErrorRows

/-- what a step writes -/
inductive Change (s : Sources) : Sources → Prop
  | seeded (config : SourceConfig) (t : Sources) (h : seedSource s config = some t) : Change s t
  | reviewed (args : ReviewArgs) (now : DateTime) (code : Nat) (source row : Source) (terms : Terms)
      (t : Sources) (hx : source ∈ s.store.sources)
      (hr : reviewRow args now source (s.terms source.id) = (code, some (row, terms)))
      (h : s.update row terms = some t) : Change s t
  | ingested (source : Source) (env : SourceEnv) (now : DateTime) (after : Store)
      (run : IngestionRun) (hx : s.store.source? source.id = some source)
      (hb : (s.terms source.id).blockers = [])
      (h : (ingestSource U sha s.store source env now).result = .ok (after, run)) :
      Change s ⟨after, s.terms⟩
  | processed (documentId : Nat) (env : CallEnv) (after : Store) (hw : Waits s.store documentId)
      (hP : P env) (h : fire U s.store (.process documentId env) = some after) :
      Change s ⟨after, s.terms⟩
  | decided (eventId : Nat) (input : DecisionInput) (after : Store)
      (h : fire U s.store (.decide eventId input) = some after) : Change s ⟨after, s.terms⟩

def Changes : Sources → Sources → Prop := Relation.ReflTransGen (Change U sha P)

end

def Sources.empty : Sources := ⟨.empty, fun _ => {}⟩

/-- what changes make of the empty database -/
def Evolved (U : Unicode) (sha : Text → Text) (P : CallEnv → Prop) (s : Sources) : Prop :=
  Changes U sha P .empty s

section
variable {U : Unicode} {sha : Text → Text} {P : CallEnv → Prop} {s t : Sources}

/-- **What holds of the empty database and is kept by every change holds of every database that has
grown.** -/
theorem Evolved.invariant {I : Sources → Prop} (h0 : I .empty)
    (hI : ∀ s t, Evolved U sha P s → I s → Change U sha P s t → I t) (h : Evolved U sha P s) : I s := by
  induction h with
  | refl => exact h0
  | tail hs hst ih => exact hI _ _ hs ih hst

theorem Evolved.changes (h : Evolved U sha P s) (hst : Changes U sha P s t) : Evolved U sha P t :=
  Relation.ReflTransGen.trans h hst

/-- what every change keeps between two databases, changes keep -/
theorem Changes.relation {R : Sources → Sources → Prop} (hrefl : ∀ s, R s s)
    (htrans : ∀ {a b c}, R a b → R b c → R a c)
    (hR : ∀ s t, Evolved U sha P s → Change U sha P s t → R s t) (hs : Evolved U sha P s)
    (h : Changes U sha P s t) : R s t := by
  induction h with
  | refl => exact hrefl s
  | tail hsb hbc ih => exact htrans ih (hR _ _ (hs.changes hsb) hbc)

end

/-! ## the table of sources -/

/-- what a review writes down: who, which page, what was found, under which licence -/
def Terms.texts : List (Terms → Option Text) :=
  [Terms.termsReviewedBy, Terms.termsUrl, Terms.termsNote, Terms.licence]

/-- what was recorded about a source is there still, or something in its place -/
structure Terms.Kept (t t' : Terms) : Prop where
  reviewed : t.termsReviewedAt.isSome = true → t'.termsReviewedAt.isSome = true
  flags : ∀ flag, t.flag flag = true → t'.flag flag = true
  texts : ∀ text ∈ Terms.texts, truthy (text t) = true → truthy (text t') = true
  robots : t.robotsCheckedAt.isSome = true → t'.robotsCheckedAt.isSome = true
  termsUrl : (t.termsReviewedAt.isSome = true → truthy t.termsUrl = true) →
    t'.termsReviewedAt.isSome = true → truthy t'.termsUrl = true

/-- what a change does to the sources and their terms -/
inductive SourcesEffect (s t : Sources) : Prop
  | none (hsources : t.store.sources = s.store.sources) (hterms : t.terms = s.terms)
  | added (row : Source) (terms : Terms) (hid : row.id = s.store.nextId)
      (hnext : row.id < t.store.nextId) (hoff : row.enabled = false)
      (hbare : row.storeFullText = false) (hnew : terms.termsReviewedAt = none)
      (hsources : t.store.sources = s.store.sources ++ [row])
      (hterms : t.terms = Function.update s.terms row.id terms)
  | put (x row : Source) (terms : Terms) (hx : x ∈ s.store.sources) (hid : row.id = x.id)
      (hslug : row.slug = x.slug) (hkept : (s.terms x.id).Kept terms)
      (henabled : row.enabled = true → x.enabled = true ∨ terms.blockers = [])
      (hfull : row.storeFullText = true →
        x.storeFullText = true ∨ terms.termsReviewedAt.isSome = true)
      (hstill : x.storeFullText = true → row.storeFullText = true)
      (hsources : t.store.sources = replace Source.id row s.store.sources)
      (hterms : t.terms = Function.update s.terms row.id terms)

section
variable {U : Unicode} {sha : Text → Text} {P : CallEnv → Prop} {s t : Sources} {terms : Terms}

theorem Terms.Kept.refl (t : Terms) : t.Kept t :=
  ⟨fun h => h, fun _ h => h, fun _ _ h => h, fun h => h, fun h => h⟩

theorem Terms.forall_texts {p : (Terms → Option Text) → Prop} : (∀ text ∈ Terms.texts, p text) ↔
    p Terms.termsReviewedBy ∧ p Terms.termsUrl ∧ p Terms.termsNote ∧ p Terms.licence := by
  simp [Terms.texts]

theorem blockers_eq_nil : terms.blockers = [] ↔
    terms.termsReviewedAt.isSome = true ∧ ∀ flag, terms.flag flag = true := by
  constructor
  · intro h
    have hflags := flag_of_blockers (List.isEmpty_iff.mpr h)
    refine ⟨?_, hflags⟩
    unfold Terms.blockers at h
    rw [List.append_eq_nil_iff, List.append_eq_nil_iff] at h
    cases hr : terms.termsReviewedAt with
    | some _ => rfl
    | none =>
      rw [hr] at h
      cases h.1.1
  · rintro ⟨hr, hflags⟩
    have he : terms.endpointVerified = true := hflags .endpointVerified
    have hf : terms.formatConfirmed = true := hflags .formatConfirmed
    unfold Terms.blockers
    rw [he, hf, ← Option.not_isSome, hr]
    rfl

theorem Terms.Kept.blockers {t t' : Terms} (h : t.Kept t') (hb : t.blockers = []) :
    t'.blockers = [] := by
  obtain ⟨hr, hflags⟩ := blockers_eq_nil.mp hb
  exact blockers_eq_nil.mpr ⟨h.reviewed hr, fun flag => h.flags flag (hflags flag)⟩

/-- what the constraints of the table ask of the terms -/
theorem allowed_terms {row : Source} (h : row.allowed terms = true) :
    (row.enabled = true → terms.blockers = []) ∧
      (row.storeFullText = true → terms.termsReviewedAt.isSome = true) := by
  unfold Source.allowed at h
  simp only [Bool.and_eq_true, Bool.or_eq_true, Bool.not_eq_true'] at h
  obtain ⟨⟨⟨_, hreviewed⟩, hfull⟩, hflags⟩ := h
  constructor
  · intro he
    obtain ⟨hv, hc⟩ := hflags.resolve_left (by rw [he]; exact Bool.noConfusion)
    refine blockers_eq_nil.mpr ⟨hreviewed.resolve_left (by rw [he]; exact Bool.noConfusion), ?_⟩
    intro flag
    cases flag with
    | endpointVerified => exact hv
    | formatConfirmed => exact hc
  · intro hf
    exact hfull.resolve_left (by rw [hf]; exact Bool.noConfusion)

theorem allowed_of_update {row : Source} (h : s.update row terms = some t) :
    row.allowed terms = true := by
  unfold Sources.update at h
  split at h
  · assumption
  · cases h

/-- a command that records a review names the reviewer, the page and what was found -/
theorem truthy_of_recording {args : ReviewArgs}
    (h : ¬(args.recordingReview && !args.missing.isEmpty) = true)
    (hr : args.recordingReview = true) :
    truthy args.reviewer = true ∧ truthy args.termsUrl = true ∧ truthy args.note = true := by
  rw [hr, Bool.true_and, Bool.not_eq_true', Bool.not_eq_false, List.isEmpty_iff] at h
  unfold ReviewArgs.missing at h
  rw [List.map_eq_nil_iff, List.filter_eq_nil_iff] at h
  refine ⟨?_, ?_, ?_⟩
  · simpa using h (txt "--reviewer", args.reviewer) (by simp)
  · simpa using h (txt "--terms-url", args.termsUrl) (by simp)
  · simpa using h (txt "--note", args.note) (by simp)

theorem kept_recordReview {args : ReviewArgs} (now : DateTime)
    (h : truthy args.reviewer = true ∧ truthy args.termsUrl = true ∧ truthy args.note = true) :
    terms.Kept (terms.recordReview args now) := by
  obtain ⟨hreviewer, hurl, hnote⟩ := h
  refine ⟨fun _ => rfl, fun flag hf => ?_, ?_, fun hr => ?_, fun _ _ => hurl⟩
  · cases flag <;> exact hf
  · refine Terms.forall_texts.mpr ⟨fun _ => hreviewer, fun _ => hurl, fun _ => hnote, fun hl => ?_⟩
    show truthy (if truthy args.licence then args.licence else terms.licence) = true
    split
    · assumption
    · exact hl
  · show (if args.robotsChecked then some now else terms.robotsCheckedAt).isSome = true
    split
    · rfl
    · exact hr

theorem kept_reviewed {args : ReviewArgs} (now : DateTime)
    (h : ¬(args.recordingReview && !args.missing.isEmpty) = true) :
    terms.Kept (terms.reviewed args now) := by
  -- the flags are only ever added to
  have hflags : ∀ t : Terms, terms.Kept t → terms.Kept { t with
      endpointVerified := t.endpointVerified || args.endpointVerified
      formatConfirmed := t.formatConfirmed || args.formatConfirmed } := by
    intro t hk
    refine ⟨hk.reviewed, fun flag hf => ?_, Terms.forall_texts.mpr (Terms.forall_texts.mp hk.texts),
      hk.robots, hk.termsUrl⟩
    have hf := hk.flags flag hf
    cases flag <;> exact Bool.or_eq_true_iff.mpr (Or.inl hf)
  unfold Terms.reviewed
  refine hflags _ ?_
  split
  · next hr => exact kept_recordReview now (truthy_of_recording h hr)
  · exact .refl _

/-- a command keeps the key of the row and what was recorded about it -/
theorem reviewRow_kept {args : ReviewArgs} {now : DateTime} {source row : Source} {t' : Terms}
    {code : Nat} (h : reviewRow args now source terms = (code, some (row, t'))) :
    row.id = source.id ∧ row.slug = source.slug ∧ terms.Kept t' ∧
      (source.storeFullText = true → row.storeFullText = true) := by
  have hor : source.storeFullText = true → (source.storeFullText || args.storeFullText) = true :=
    fun hf => by rw [hf, Bool.true_or]
  unfold reviewRow at h
  split at h
  · cases h
    exact ⟨rfl, rfl, .refl _, fun hf => hf⟩
  · split at h
    · cases h
    · next hm =>
      simp only at h
      split at h
      · split at h
        · cases h
          exact ⟨rfl, rfl, kept_reviewed now hm, hor⟩
        · cases h
          exact ⟨rfl, rfl, kept_reviewed now hm, hor⟩
      · cases h
        exact ⟨rfl, rfl, kept_reviewed now hm, hor⟩

theorem seedSource_effect {config : SourceConfig} (h : seedSource s config = some t) :
    SourcesEffect s t := by
  unfold seedSource at h
  cases hx : lookup Source.slug config.slug s.store.sources with
  | none =>
    simp only [hx] at h
    rw [insert_eq_some h]
    exact .added _ _ rfl (Nat.lt_succ_self _) rfl rfl rfl rfl rfl
  | some x =>
    simp only [hx] at h
    rw [update_eq_some h]
    refine .put x
      { x with
        name := config.name, publisher := config.publisher, feedUrl := config.feedUrl
        retrievalMethod := config.retrievalMethod }
      { s.terms x.id with homepageUrl := config.homepageUrl, notes := some config.notes }
      (lookup_mem hx) rfl rfl ⟨fun hr => hr, fun flag hf => ?_,
        Terms.forall_texts.mpr ⟨id, id, id, id⟩, fun hr => hr, fun hu => hu⟩ Or.inl Or.inl
      (fun hf => hf) rfl rfl
    cases flag <;> exact hf

theorem reviewed_effect {args : ReviewArgs} {now : DateTime} {code : Nat} {source row : Source}
    (hx : source ∈ s.store.sources)
    (hr : reviewRow args now source (s.terms source.id) = (code, some (row, terms)))
    (h : s.update row terms = some t) : SourcesEffect s t := by
  obtain ⟨hid, hslug, hkept, hstill⟩ := reviewRow_kept hr
  obtain ⟨henabled, hfull⟩ := allowed_terms (allowed_of_update h)
  rw [update_eq_some h]
  exact .put source row terms hx hid hslug hkept (fun he => Or.inr (henabled he))
    (fun hf => Or.inr (hfull hf)) hstill rfl rfl

/-- a run leaves the terms alone, and may disable its source -/
theorem ingested_effect {source : Source} {env : SourceEnv} {now : DateTime} {after : Store}
    {run : IngestionRun} (hx : s.store.source? source.id = some source)
    (h : (ingestSource U sha s.store source env now).result = .ok (after, run)) :
    SourcesEffect s ⟨after, s.terms⟩ := by
  obtain ⟨blocked, _, heff⟩ := ingestSource_ok h
  obtain ⟨base, fetch, succeeded, hbase, _, _, hsources⟩ := heff.sources
  have hrow : base.id = source.id ∧ base.slug = source.slug ∧
      (base.enabled = true → source.enabled = true) ∧
      base.storeFullText = source.storeFullText := by
    rcases hbase with rfl | ⟨reason, rfl⟩
    · exact ⟨rfl, rfl, fun he => he, rfl⟩
    · exact ⟨rfl, rfl, fun he => (by cases he), rfl⟩
  obtain ⟨hid, hslug, henabled, hfull⟩ := hrow
  refine .put source (recordFetchState base fetch now succeeded) (s.terms source.id)
    (lookup_mem hx) hid hslug (.refl _) (fun he => Or.inl (henabled he)) ?_ ?_ hsources ?_
  · intro hf
    left
    rw [← hfull]
    exact hf
  · intro hf
    rw [← hfull] at hf
    exact hf
  · show s.terms = Function.update s.terms base.id (s.terms source.id)
    rw [hid, Function.update_eq_self]

/-- **What a change does to the sources.** -/
theorem change_sources (h : Change U sha P s t) : SourcesEffect s t := by
  cases h with
  | seeded config t h => exact seedSource_effect h
  | reviewed args now code source row terms t hx hr h => exact reviewed_effect hx hr h
  | ingested source env now after run hx hb h => exact ingested_effect hx h
  | processed documentId env after hw hP h =>
    obtain ⟨_, hsources | ⟨_, he, _⟩⟩ := fire_sources h
    · exact .none hsources rfl
    · cases he
  | decided eventId input after h =>
    obtain ⟨_, hsources | ⟨_, he, _⟩⟩ := fire_sources h
    · exact .none hsources rfl
    · cases he

theorem change_nextId (h : Change U sha P s t) : s.store.nextId ≤ t.store.nextId := by
  cases h with
  | seeded config t h =>
    rcases seedSource_cases h with
      ⟨row, terms, _, _, _, rfl⟩ | ⟨_, _, _, row, terms, _, _, _, _, _, rfl⟩
    · exact Nat.le_succ _
    · exact le_refl _
  | reviewed args now code source row terms t hx hr h =>
    rw [update_eq_some h]
    exact le_refl _
  | ingested source env now after run hx hb h =>
    obtain ⟨added, hin⟩ := ingestSource_intake h
    exact le_of_lt hin.next
  | processed documentId env after hw hP h => exact (fire_sources h).1
  | decided eventId input after h => exact (fire_sources h).1

/-! ## documents and runs -/

/-- what a change does to the documents and to the rows of the runs -/
inductive IntakeEffect (U : Unicode) (sha : Text → Text) (s t : Sources) : Prop
  | none (hdocuments : t.store.documents = s.store.documents) (hruns : t.store.runs = s.store.runs)
  | ran (source : Source) (now : DateTime) (run : IngestionRun) (added : List RawDocument)
      (hx : s.store.source? source.id = some source) (hb : (s.terms source.id).blockers = [])
      (hin : Intake U sha s.store source now run added t.store) (hterms : t.terms = s.terms)

/-- **Documents come from the runs of sources that nothing blocks.** -/
theorem change_intake (h : Change U sha P s t) : IntakeEffect U sha s t := by
  cases h with
  | seeded config t h =>
    rcases seedSource_cases h with
      ⟨row, terms, _, _, _, rfl⟩ | ⟨_, _, _, row, terms, _, _, _, _, _, rfl⟩
    · exact .none rfl rfl
    · exact .none rfl rfl
  | reviewed args now code source row terms t hx hr h =>
    rw [update_eq_some h]
    exact .none rfl rfl
  | ingested source env now after run hx hb h =>
    obtain ⟨added, hin⟩ := ingestSource_intake h
    exact .ran source now run added hx hb hin rfl
  | processed documentId env after hw hP h =>
    obtain ⟨_, _, _, _, hun⟩ := fire_process h
    exact .none hun.documents hun.runs
  | decided eventId input after h =>
    obtain ⟨e, _, rfl | ⟨verb, changes, _, rfl⟩⟩ := fire_decide h
    · exact .none rfl rfl
    · exact .none rfl rfl

/-! ## the record -/

/-- the tables that only `process_document` and `apply_decision` write -/
structure SameRecord (s t : Store) : Prop where
  events : t.events = s.events
  clusters : t.clusters = s.clusters
  entities : t.entities = s.entities
  prompts : t.prompts = s.prompts
  chunks : t.chunks = s.chunks
  extractions : t.extractions = s.extractions

/-- what a change does to the record -/
inductive RecordEffect (U : Unicode) (P : CallEnv → Prop) (s t : Store) : Prop
  | same (h : SameRecord s t)
  | processed (documentId : Nat) (env : CallEnv) (hw : Waits s documentId) (hP : P env)
      (h : fire U s (.process documentId env) = some t)
  | decided (eventId : Nat) (input : DecisionInput)
      (h : fire U s (.decide eventId input) = some t)

/-- **The record is written by documents that wait and by decisions.** -/
theorem change_record (h : Change U sha P s t) : RecordEffect U P s.store t.store := by
  cases h with
  | seeded config t h =>
    rcases seedSource_cases h with
      ⟨row, terms, _, _, _, rfl⟩ | ⟨_, _, _, row, terms, _, _, _, _, _, rfl⟩
    · exact .same ⟨rfl, rfl, rfl, rfl, rfl, rfl⟩
    · exact .same ⟨rfl, rfl, rfl, rfl, rfl, rfl⟩
  | reviewed args now code source row terms t hx hr h =>
    rw [update_eq_some h]
    exact .same ⟨rfl, rfl, rfl, rfl, rfl, rfl⟩
  | ingested source env now after run hx hb h =>
    obtain ⟨added, hin⟩ := ingestSource_intake h
    obtain ⟨next, sources, hafter⟩ := hin.tables
    simp only [hafter]
    exact .same ⟨rfl, rfl, rfl, rfl, rfl, rfl⟩
  | processed documentId env after hw hP h => exact .processed documentId env hw hP h
  | decided eventId input after h => exact .decided eventId input h

/-! ## what holds of every database -/

/-- a row and what is recorded about its source -/
structure Compliant (terms : Terms) (x : Source) : Prop where
  enabled : x.enabled = true → terms.blockers = []
  fullText : x.storeFullText = true → terms.termsReviewedAt.isSome = true
  termsUrl : terms.termsReviewedAt.isSome = true → truthy terms.termsUrl = true

/-- keys are distinct and were drawn from the counter, and every row complies -/
structure Lawful (s : Sources) : Prop where
  sources : SourceKeys s.store
  documents : DocumentKeys s.store
  runs : Numbered IngestionRun.id s.store.runs s.store.nextId
  rows : ∀ x ∈ s.store.sources, Compliant (s.terms x.id) x

theorem Compliant.kept {t' : Terms} {x row : Source} (h : Compliant terms x) (hk : terms.Kept t')
    (henabled : row.enabled = true → x.enabled = true ∨ t'.blockers = [])
    (hfull : row.storeFullText = true → x.storeFullText = true ∨ t'.termsReviewedAt.isSome = true) :
    Compliant t' row := by
  refine ⟨fun he => ?_, fun hf => ?_, hk.termsUrl h.termsUrl⟩
  · rcases henabled he with he | hb
    · exact hk.blockers (h.enabled he)
    · exact hb
  · rcases hfull hf with hf | hr
    · exact hk.reviewed (h.fullText hf)
    · exact hr

/-- a run closes the row that it opened, and no other -/
theorem Intake.runs {source : Source} {now : DateTime} {run : IngestionRun}
    {added : List RawDocument} {before after : Store}
    (h : Intake U sha before source now run added after)
    (hk : Numbered IngestionRun.id before.runs before.nextId) : after.runs = before.runs ++ [run] := by
  obtain ⟨next, sources, hafter⟩ := h.tables
  have hne : ∀ r ∈ before.runs, IngestionRun.id r ≠ run.id := fun r hr =>
    Nat.ne_of_lt (h.row.1 ▸ hk.fresh r hr)
  rw [hafter]
  show replace IngestionRun.id run (before.runs ++ _) = _
  rw [replace_append, replace_of_ne hne]
  show _ ++ [if before.nextId = run.id then run else _] = _
  rw [if_pos h.row.1.symm]

theorem keys_change (hl : Lawful s) (h : Change U sha P s t) :
    DocumentKeys t.store ∧ Numbered IngestionRun.id t.store.runs t.store.nextId := by
  have hnext := change_nextId h
  cases change_intake h with
  | none hdocuments hruns =>
    exact ⟨hl.documents.of_documents hdocuments hnext, hl.runs.of_map (by rw [hruns]) hnext⟩
  | ran source now run added hx hb hin hterms =>
    refine ⟨hin.keys hl.documents, ?_⟩
    rw [hin.runs hl.runs]
    exact hl.runs.append (le_of_eq hin.row.1.symm) (hin.row.1 ▸ hin.next)

/-- **Every change keeps the keys and the rows.** -/
theorem lawful_change (hl : Lawful s) (h : Change U sha P s t) : Lawful t := by
  obtain ⟨hdocuments, hruns⟩ := keys_change hl h
  have hnext := change_nextId h
  cases change_sources h with
  | none hsources hterms =>
    refine ⟨hl.sources.of_map (by rw [hsources]) hnext, hdocuments, hruns, ?_⟩
    rw [hsources, hterms]
    exact hl.rows
  | added row terms hid hlt hoff hbare hnew hsources hterms =>
    refine ⟨?_, hdocuments, hruns, ?_⟩
    · unfold SourceKeys
      rw [hsources]
      exact hl.sources.append (le_of_eq hid.symm) hlt
    · rw [hsources, hterms]
      intro x hx
      rcases List.mem_append.mp hx with hx | hx
      · rw [hid, Function.update_of_ne (Nat.ne_of_lt (hl.sources.fresh x hx))]
        exact hl.rows x hx
      · rw [List.mem_singleton.mp hx, Function.update_self]
        refine ⟨fun he => ?_, fun hf => ?_, fun hr => ?_⟩
        · rw [hoff] at he
          cases he
        · rw [hbare] at hf
          cases hf
        · rw [hnew] at hr
          cases hr
  | put x row terms hx hid hslug hkept henabled hfull hstill hsources hterms =>
    refine ⟨hl.sources.of_map (by rw [hsources, map_replace]) hnext, hdocuments, hruns, ?_⟩
    rw [hsources, hterms]
    intro y hy
    rcases mem_replace hy with rfl | ⟨hy, hne⟩
    · rw [Function.update_self]
      exact (hl.rows x hx).kept hkept henabled hfull
    · rw [Function.update_of_ne hne]
      exact hl.rows y hy

theorem lawful_empty : Lawful .empty :=
  ⟨Numbered.nil, .empty, Numbered.nil, fun _ hx => absurd hx List.not_mem_nil⟩

theorem Evolved.lawful (h : Evolved U sha P s) : Lawful s :=
  h.invariant lawful_empty fun _ _ _ hl hst => lawful_change hl hst

/-- **A source keeps its row, with what was recorded about it.** -/
theorem change_keeps_source (hl : Lawful s) (h : Change U sha P s t) {x : Source}
    (hx : x ∈ s.store.sources) : ∃ y ∈ t.store.sources, y.id = x.id ∧ y.slug = x.slug ∧
      (s.terms x.id).Kept (t.terms y.id) ∧ (x.storeFullText = true → y.storeFullText = true) := by
  cases change_sources h with
  | none hsources hterms =>
    refine ⟨x, hsources ▸ hx, rfl, rfl, ?_, fun hf => hf⟩
    rw [hterms]
    exact .refl _
  | added row terms hid hlt hoff hbare hnew hsources hterms =>
    refine ⟨x, ?_, rfl, rfl, ?_, fun hf => hf⟩
    · rw [hsources]
      exact List.mem_append_left _ hx
    · rw [hterms, hid, Function.update_of_ne (Nat.ne_of_lt (hl.sources.fresh x hx))]
      exact .refl _
  | put old row terms hold hid hslug hkept henabled hfull hstill hsources hterms =>
    rw [hsources, hterms]
    by_cases hk : x.id = row.id
    · -- keys are distinct, so this is the row that is replaced
      have hsame : some x = some old := by
        rw [← lookup_of_mem hl.sources.nodup hx, ← lookup_of_mem hl.sources.nodup hold, hk, hid]
      cases hsame
      refine ⟨row, mem_replace_self hx hk, hid, hslug, ?_, hstill⟩
      rw [Function.update_self]
      exact hkept
    · refine ⟨x, mem_replace_of_ne hx hk, rfl, rfl, ?_, fun hf => hf⟩
      rw [Function.update_of_ne hk]
      exact .refl _

/-- documents stay where they are -/
theorem change_documents (h : Change U sha P s t) : s.store.documents <+: t.store.documents := by
  cases change_intake h with
  | none hdocuments hruns =>
    rw [hdocuments]
  | ran source now run added hx hb hin hterms =>
    obtain ⟨next, sources, hafter⟩ := hin.tables
    rw [hafter]
    exact List.prefix_append _ _

theorem change_keepsDocuments (h : Change U sha P s t) : KeepsDocuments s.store t.store := by
  intro id document hd
  obtain ⟨more, hmore⟩ := change_documents h
  unfold Store.document? at hd ⊢
  rw [← hmore]
  exact lookup_append hd more

end

/-! ## every step -/

section
variable {U : Unicode} {sha : Text → Text} {P : CallEnv → Prop} {s s' : System} {x t : Sources}

theorem changes_seed {configs : List SourceConfig} (commits : Bool) :
    Changes U sha P x (seedSources x configs commits) := by
  have hfold : ∀ (configs : List SourceConfig) (x t : Sources),
      configs.foldlM seedSource x = some t → Changes U sha P x t := by
    intro configs
    induction configs with
    | nil =>
      intro x t h
      cases h
      exact .refl
    | cons config configs ih =>
      intro x t h
      rw [List.foldlM_cons] at h
      obtain ⟨y, hy, h⟩ := Option.bind_eq_some_iff.mp h
      exact .head (.seeded config y hy) (ih y t h)
  unfold seedSources
  cases commits with
  | false => exact .refl
  | true =>
    rw [if_pos rfl]
    cases h : configs.foldlM seedSource x with
    | none => exact .refl
    | some t => exact hfold configs x t h

theorem changes_review (args : ReviewArgs) (now : DateTime) (commits : Bool) :
    Changes U sha P x (reviewSource x args now commits).sources := by
  unfold reviewSource
  split
  · exact .refl
  · split
    · exact .refl
    · cases hx : lookup Source.slug (args.slug.getD []) x.store.sources with
      | none => exact .refl
      | some source =>
        simp only
        rcases hr : reviewRow args now source (x.terms source.id) with ⟨code, _ | ⟨row, terms⟩⟩
        · exact .refl
        · simp only
          cases hu : x.update row terms with
          | none => exact .refl
          | some t =>
            cases commits with
            | false => exact .refl
            | true =>
              exact .single (.reviewed args now code source row terms t (lookup_mem hx) hr hu)

variable (U sha P) in
/-- the session is ahead of the last commit by changes, and what a tick has listed may be fetched,
or waits for an answer -/
structure System.Sound (s : System) : Prop where
  evolved : Evolved U sha P s.committed
  ahead : Changes U sha P s.committed s.current
  idle : s.polling = none → s.processing = none → s.session.current = s.session.committed
  listed : ∀ t ∈ s.polling, ∀ i ∈ t.ids, (s.terms i).blockers = []
  waiting : ∀ r ∈ s.processing, r.ids.Nodup ∧ ∀ i ∈ r.ids, Waits s.session.current i

theorem System.Sound.now (h : s.Sound U sha P) : Evolved U sha P s.current :=
  h.evolved.changes h.ahead

/-- between two ticks, after changes of the committed database -/
theorem System.Sound.between {session : Session Store} {terms : Nat → Terms}
    (h : Evolved U sha P ⟨session.committed, terms⟩) (hs : session.current = session.committed) :
    System.Sound U sha P { session := session, terms := terms } := by
  refine ⟨h, ?_, fun _ _ => hs, fun t ht => (by cases ht), fun r hr => (by cases hr)⟩
  show Changes U sha P ⟨session.committed, terms⟩ ⟨session.current, terms⟩
  rw [hs]
  exact .refl

/-! ### polling -/

/-- the run of a source returns, or the session is rolled back -/
theorem Poller.round_goes (p : Poller) (t : Polling) (id : Nat) (rest : List Nat) (env : SourceEnv)
    (handlerRaises : Bool) :
    (∃ source store row running log, p.session.current.source? id = some source ∧
        (ingestSource U sha p.session.current source env t.now).result = .ok (store, row) ∧
        running.ids = rest ∧ p.round U sha t id rest env handlerRaises =
          { session := p.session.write store, running := some running, log := log }) ∨
      ∃ running log, (∀ t' ∈ running, t'.ids = rest) ∧
        p.round U sha t id rest env handlerRaises =
          { session := p.session.rollback, running := running, log := log } := by
  have hraises : ∀ t' ∈ (if handlerRaises then none
      else some { t with ids := rest, blocked := false }), t'.ids = rest := by
    intro t' ht
    cases handlerRaises with
    | true => cases ht
    | false =>
      cases ht
      rfl
  unfold Poller.round
  cases hs : p.session.current.source? id with
  | none => exact Or.inr ⟨_, _, hraises, rfl⟩
  | some source =>
    simp only
    cases hres : (ingestSource U sha p.session.current source env t.now).result with
    | ok x =>
      obtain ⟨store, row⟩ := x
      exact Or.inl ⟨source, store, row, _, _, rfl, hres, rfl, rfl⟩
    | error e => exact Or.inr ⟨_, _, hraises, rfl⟩

theorem sound_poll {a : PollAct} (h : s.Sound U sha P) (hp : s.processing = none)
    (ht : a.isTick = true) {p : Poller} (ha : pollFire U sha s.poller a = some p) :
    (s.polled p).Sound U sha P ∧ Changes U sha P s.committed (s.polled p).committed := by
  have hwaiting : ∀ {current : Store}, ∀ r ∈ s.processing,
      r.ids.Nodup ∧ ∀ i ∈ r.ids, Waits current i := by
    intro current r hr
    rw [hp] at hr
    cases hr
  cases a with
  | start now collate held =>
    obtain ⟨_, rfl⟩ := pollFire_start ha
    refine ⟨⟨h.evolved, h.ahead, fun hn => (by cases hn), fun t ht i hi => ?_, hwaiting⟩, .refl⟩
    cases ht
    obtain ⟨y, hy, rfl, hen⟩ := mem_dueSources hi
    exact (h.now.lawful.rows y hy).enabled hen
  | source env handlerRaises =>
    obtain ⟨t, id, rest, hr, hids, rfl⟩ := pollFire_source ha
    have hrest : ∀ i ∈ rest, (s.terms i).blockers = [] := fun i hi =>
      h.listed t hr i (hids ▸ List.mem_cons_of_mem _ hi)
    rcases Poller.round_goes s.poller t id rest env handlerRaises with
      ⟨source, store, row, running, log, hs, hres, hrun, hround⟩ | ⟨running, log, hrun, hround⟩
    · rw [hround]
      have hid : source.id = id := lookup_key hs
      refine ⟨⟨h.evolved, h.ahead.tail ?_, fun hn => (by cases hn), fun u hu => ?_, hwaiting⟩, .refl⟩
      · refine .ingested source env t.now store row (hid ▸ hs) ?_ hres
        rw [hid]
        exact h.listed t hr id (hids ▸ List.mem_cons_self ..)
      · cases hu
        rw [hrun]
        exact hrest
    · rw [hround]
      refine ⟨⟨h.evolved, .refl, fun _ _ => rfl, fun u hu => ?_, hwaiting⟩, .refl⟩
      rw [hrun u hu]
      exact hrest
  | finish commits =>
    obtain ⟨t, _, rfl⟩ := pollFire_finish ha
    cases commits with
    | true =>
      exact ⟨⟨h.now, .refl, fun _ _ => rfl, fun u hu => (by cases hu), hwaiting⟩, h.ahead⟩
    | false =>
      exact ⟨⟨h.evolved, .refl, fun _ _ => rfl, fun u hu => (by cases hu), hwaiting⟩, .refl⟩
  | enable id => cases ht
  | record act => cases ht

/-! ### processing -/

theorem document?_of_handed {w : Worker} {env : Round} {settings : Settings}
    {document : RawDocument} (h : w.handed env = some (settings, document)) :
    w.session.current.document? document.id = some document := by
  unfold Worker.handed at h
  split at h
  · next settings' id rest tick hr =>
    split at h
    · next d ha =>
      cases h
      unfold admission at ha
      split at ha
      · cases ha
      · split at ha
        · cases ha
        · cases ha
        · split at ha
          · cases ha
          · next hd =>
            cases ha
            rw [show document.id = id from lookup_key hd]
            exact hd
    · cases h
  · cases h

/-- an attempt that returns is a call of `process_document` -/
theorem fire_of_attempt {store after : Store} {call : CallEnv} {document : RawDocument}
    {res : PipelineResult} (hd : store.document? document.id = some document)
    (h : (attempt U store call document).result = .ok (after, res)) :
    fire U store (.process document.id { call with allowEscalation := true }) = some after := by
  show (store.document? document.id).bind _ = _
  rw [hd, Option.bind_some]
  show (attempt U store call document).result.toOption.map Prod.fst = _
  rw [h]
  rfl

/-- an attempt on one document leaves the others waiting -/
theorem Waits.other {store after : Store} {call : CallEnv} {document : RawDocument}
    {res : PipelineResult} {i : Nat} (h : Waits store i) (hne : document.id ≠ i)
    (hok : (attempt U store call document).result = .ok (after, res)) : Waits after i := by
  obtain ⟨⟨rows, hrows, hspec⟩, _⟩ := rows_of_ok hok
  obtain ⟨hterminal, herrors⟩ := hspec.other hne
  constructor
  · rw [hrows, terminal_append, h.unanswered, hterminal]
    rfl
  · rw [hrows, errorRows_append, herrors, Nat.add_zero]
    exact h.retried

theorem sound_round {env : Round} (hP : P { env.call with allowEscalation := true })
    (h : s.Sound U sha P) {w : Worker}
    (he : RoundEffect U s.worker env w) :
    (s.worked w).Sound U sha P ∧ Changes U sha P s.committed (s.worked w).committed := by
  have hlisted : ∀ t ∈ s.polling, ∀ i ∈ t.ids, (s.terms i).blockers = [] := h.listed
  cases he with
  | passed r ids tick hr hids =>
    obtain ⟨hnd, hw⟩ := h.waiting r hr
    refine ⟨⟨h.evolved, h.ahead, fun _ hn => (by cases hn), hlisted, fun r' hr' => ?_⟩, .refl⟩
    cases hr'
    exact ⟨hnd.sublist hids, fun i hi => hw i (hids.subset hi)⟩
  | raised settings document rest tick tick' hx hr hk =>
    obtain ⟨hnd, hw⟩ := h.waiting _ hr
    refine ⟨⟨h.evolved, h.ahead, fun _ hn => (by cases hn), hlisted, fun r' hr' => ?_⟩, .refl⟩
    cases hr'
    exact ⟨(List.nodup_cons.mp hnd).2, fun i hi => hw i (List.mem_cons_of_mem _ hi)⟩
  | uncommitted settings document rest tick hx hr hk heach =>
    exact ⟨⟨h.evolved, .refl, fun _ _ => rfl, hlisted, fun r' hr' => (by cases hr')⟩, .refl⟩
  | kept settings document rest tick tick' after res session hx hr hk hok hcur hcom =>
    obtain ⟨hnd, hw⟩ := h.waiting _ hr
    have hchange : Change U sha P s.current ⟨after, s.terms⟩ :=
      .processed document.id { env.call with allowEscalation := true } after
        (hw document.id (List.mem_cons_self ..)) hP (fire_of_attempt (document?_of_handed hx) hok)
    have hahead : Changes U sha P s.committed ⟨after, s.terms⟩ := h.ahead.tail hchange
    have hwaiting : ∀ r' ∈ some (Running.mk settings rest tick'),
        r'.ids.Nodup ∧ ∀ i ∈ r'.ids, Waits session.current i := by
      intro r' hr'
      cases hr'
      obtain ⟨hnot, hnd⟩ := List.nodup_cons.mp hnd
      refine ⟨hnd, fun i hi => ?_⟩
      rw [hcur]
      exact (hw i (List.mem_cons_of_mem _ hi)).other (fun he => hnot (he ▸ hi)) hok
    cases hc : settings.commitEach with
    | true =>
      rw [hc, if_pos rfl] at hcom
      refine ⟨⟨?_, ?_, fun _ hn => (by cases hn), hlisted, hwaiting⟩, ?_⟩
      · show Evolved U sha P ⟨session.committed, s.terms⟩
        rw [hcom]
        exact h.evolved.changes hahead
      · show Changes U sha P ⟨session.committed, s.terms⟩ ⟨session.current, s.terms⟩
        rw [hcom, hcur]
        exact .refl
      · show Changes U sha P s.committed ⟨session.committed, s.terms⟩
        rw [hcom]
        exact hahead
    | false =>
      rw [hc, if_neg Bool.false_ne_true] at hcom
      refine ⟨⟨?_, ?_, fun _ hn => (by cases hn), hlisted, hwaiting⟩, ?_⟩
      · show Evolved U sha P ⟨session.committed, s.terms⟩
        rw [hcom]
        exact h.evolved
      · show Changes U sha P ⟨session.committed, s.terms⟩ ⟨session.current, s.terms⟩
        rw [hcom, hcur]
        exact hahead
      · show Changes U sha P s.committed ⟨session.committed, s.terms⟩
        rw [hcom]
        exact .refl

theorem sound_queue {a : QueueAct} (hP : (SystemAct.queue a).Meets P) (h : s.Sound U sha P)
    (ht : a.isTick = true) {w : Worker} (ha : queueFire U s.worker a = some w) :
    (s.worked w).Sound U sha P ∧ Changes U sha P s.committed (s.worked w).committed := by
  cases queueFire_cases ha with
  | recorded act store _ _ => cases ht
  | began settings ids tick hr hids =>
    refine ⟨⟨h.evolved, h.ahead, fun _ hn => (by cases hn), h.listed, fun r hr => ?_⟩, .refl⟩
    cases hr
    rcases hids with rfl | rfl
    · exact ⟨List.nodup_nil, fun _ hi => absurd hi List.not_mem_nil⟩
    · refine ⟨nodup_pendingDocumentIds h.now.lawful.documents.nodup _, fun i hi => ?_⟩
      obtain ⟨hterminal, herrors⟩ := mem_pendingDocumentIds hi
      exact ⟨hterminal, herrors⟩
  | round env w he => exact sound_round hP h he
  | ended a session ticks hs =>
    rcases hs with rfl | ⟨rfl, _⟩
    · exact ⟨⟨h.now, .refl, fun _ _ => rfl, h.listed, fun r hr => (by cases hr)⟩, h.ahead⟩
    · exact ⟨⟨h.evolved, .refl, fun _ _ => rfl, h.listed, fun r hr => (by cases hr)⟩, .refl⟩

/-! ### all steps -/

/-- **Every step keeps the system sound, and leads the committed database on by changes.** -/
theorem system_step {a : SystemAct} (hP : a.Meets P) (h : s.Sound U sha P)
    (ha : systemFire U sha s a = some s') :
    s'.Sound U sha P ∧ Changes U sha P s.committed s'.committed := by
  have hbetween : s.idle = true → ∀ t, Changes U sha P s.committed t →
      (s.put t).Sound U sha P ∧ Changes U sha P s.committed (s.put t).committed := by
    intro hidle t ht
    unfold System.idle at hidle
    rw [Bool.and_eq_true, Option.isNone_iff_eq_none, Option.isNone_iff_eq_none] at hidle
    unfold System.put
    rw [hidle.1, hidle.2]
    exact ⟨.between (h.evolved.changes ht) rfl, ht⟩
  cases a with
  | seed configs commits =>
    simp only [systemFire] at ha
    split at ha
    · next hidle =>
      cases ha
      exact hbetween hidle _ (changes_seed commits)
    · cases ha
  | review args now commits =>
    simp only [systemFire] at ha
    split at ha
    · next hidle =>
      cases ha
      exact hbetween hidle _ (changes_review args now commits)
    · cases ha
  | decide eventId input =>
    simp only [systemFire] at ha
    split at ha
    · next hidle =>
      obtain ⟨t, ht, rfl⟩ := Option.map_eq_some_iff.mp ha
      exact hbetween hidle ⟨t, s.terms⟩ (.single (.decided eventId input t ht))
    · cases ha
  | poll a =>
    simp only [systemFire] at ha
    split at ha
    · next hg =>
      rw [Bool.and_eq_true, Option.isNone_iff_eq_none] at hg
      obtain ⟨p, hp, rfl⟩ := Option.map_eq_some_iff.mp ha
      exact sound_poll h hg.1 hg.2 hp
    · cases ha
  | queue a =>
    simp only [systemFire] at ha
    split at ha
    · next hg =>
      rw [Bool.and_eq_true, Option.isNone_iff_eq_none] at hg
      obtain ⟨w, hw, rfl⟩ := Option.map_eq_some_iff.mp ha
      exact sound_queue hP h hg.2 hw
    · cases ha
  | stop =>
    cases ha
    exact ⟨.between h.evolved rfl, .refl⟩

theorem sound_empty : System.empty.Sound U sha P := .between .refl rfl

/-- **The committed database of every run has evolved by changes, and the database of the session
from it.** -/
theorem system_of_run {as : List SystemAct} (hP : ∀ a ∈ as, a.Meets P)
    (h : exec (systemFire U sha) .empty as = some s) : s.Sound U sha P := by
  refine exec_invariant_along (systemFire U sha) ?_ h
    (Along.of_forall (systemFire U sha) (fun a ha _ => hP a ha) _) sound_empty
  intro s a t hs ha hst
  exact (system_step ha hs hst).1

/-- **A run leads the committed database on by changes.** -/
theorem changes_of_run {as : List SystemAct} (hP : ∀ a ∈ as, a.Meets P) (hs : s.Sound U sha P)
    (h : exec (systemFire U sha) s as = some s') : Changes U sha P s.committed s'.committed := by
  have hboth : s'.Sound U sha P ∧ Changes U sha P s.committed s'.committed := by
    refine exec_invariant_along (systemFire U sha)
      (I := fun t => t.Sound U sha P ∧ Changes U sha P s.committed t.committed) ?_ h
      (Along.of_forall (systemFire U sha) (fun a ha _ => hP a ha) _) ⟨hs, .refl⟩
    intro t a u ⟨ht, hst⟩ ha hf
    obtain ⟨hu, htu⟩ := system_step ha ht hf
    exact ⟨hu, hst.trans htu⟩
  exact hboth.2

/-- nothing need be known of the calls -/
theorem SystemAct.meets_true (a : SystemAct) : a.Meets fun _ => True := by
  cases a with
  | queue a => cases a <;> exact trivial
  | _ => exact trivial

/-- the committed database of any run -/
theorem evolved_of_run {as : List SystemAct} (h : exec (systemFire U sha) .empty as = some s) :
    Evolved U sha (fun _ => True) s.committed :=
  (system_of_run (fun a _ => a.meets_true) h).evolved

end

end GeoRisk
