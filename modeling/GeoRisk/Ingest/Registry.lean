import GeoRisk.Ingest.Block

/-!
# What a reviewer has vouched for

`seed_sources.py` writes the registry into `sources`, `review_source_terms.py` records what a human
has checked, and the ticks of the worker fetch.  The flags `endpoint_verified` and `format_confirmed`
belong to the second tool, the endpoint they are about to the first.  A tick takes the url from the
row, and the adapter from the registry that is deployed with the worker.

* `seedSource`, `seedSources`      the loop of `seed_sources.py`, in its one transaction;
* `reviewRow`, `reviewSource`      `main` of `review_source_terms.py`;
* `sourceBySlug`, `adapterMethod`  the adapter of a source in the deployed registry;
* `registryFire`                   a run of either tool, or a step of a tick;
* `VouchedFetches`                 a fetch goes where a reviewer has looked: with the url and the
                                   method that the row had when each flag was last set;
* `Leaves`                         a seed that changes no endpoint behind a flag, and a run whose
                                   adapter is the one for the row's method;
* `vouched_of_leaves`              then every fetch is vouched for.
-/

namespace GeoRisk
open Kit

/-! ## the table `sources` -/

/-- the columns of `sources` that only the two tools write -/
structure Terms where
  homepageUrl : Option Text := none
  termsUrl : Option Text := none
  termsReviewedAt : Option DateTime := none
  termsReviewedBy : Option Text := none
  termsNote : Option Text := none
  licence : Option Text := none
  robotsCheckedAt : Option DateTime := none
  endpointVerified : Bool := false
  formatConfirmed : Bool := false
  notes : Option Text := none
  deriving DecidableEq, Repr

/-- the store with the other columns of its sources -/
structure Sources where
  store : Store
  terms : Nat → Terms

def retrievalMethods : List Text := [txt "rss", txt "api", txt "notice_html", txt "bulk_file"]

/-- the lengths of the columns and the `CheckConstraint`s of `sources` -/
def Source.allowed (x : Source) (t : Terms) : Bool :=
  decide (x.slug.length ≤ 64) && decide (x.name.length ≤ 200) && decide (x.publisher.length ≤ 200) &&
  decide (x.retrievalMethod.length ≤ 32) && (t.termsReviewedBy.all fun s => decide (s.length ≤ 200)) &&
  (t.licence.all fun s => decide (s.length ≤ 200)) &&
  retrievalMethods.contains x.retrievalMethod &&
  decide (1800 ≤ x.pollIntervalSeconds) && decide (x.pollIntervalSeconds ≤ 3600) &&
  (!x.enabled || t.termsReviewedAt.isSome) &&
  (!x.storeFullText || t.termsReviewedAt.isSome) &&
  (!x.enabled || (t.endpointVerified && t.formatConfirmed))

/-- the statement that writes a row, unless a constraint refuses it -/
def Sources.insert (s : Sources) (row : Source) (t : Terms) : Option Sources :=
  if row.allowed t then some ⟨s.store.addSource row, Function.update s.terms s.store.nextId t⟩
  else none

def Sources.update (s : Sources) (row : Source) (t : Terms) : Option Sources :=
  if row.allowed t then some ⟨s.store.putSource row, Function.update s.terms row.id t⟩ else none

/-! ## `seed_sources.py` -/

structure SourceConfig where
  slug : Text
  name : Text
  publisher : Text
  feedUrl : Text
  retrievalMethod : Text
  homepageUrl : Option Text := none
  pollIntervalSeconds : Nat := 1800
  nicheRationale : Text := []
  reviewNotes : Text := []

/-- `_notes` -/
def SourceConfig.notes (config : SourceConfig) : Text :=
  let parts := (if config.nicheRationale = [] then [] else [txt "Niche: " ++ config.nicheRationale]) ++
    if config.reviewNotes = [] then [] else [txt "Review: " ++ config.reviewNotes]
  (txt "\n\n").intercalate parts

/-- one round of the loop: a new row, or the fields `REFRESHABLE` of the row that is there -/
def seedSource (s : Sources) (config : SourceConfig) : Option Sources :=
  match lookup Source.slug config.slug s.store.sources with
  | none =>
    s.insert
      { id := s.store.nextId, slug := config.slug, name := config.name, publisher := config.publisher
        feedUrl := config.feedUrl, retrievalMethod := config.retrievalMethod
        pollIntervalSeconds := config.pollIntervalSeconds, enabled := false, storeFullText := false }
      { homepageUrl := config.homepageUrl, endpointVerified := false, formatConfirmed := false
        notes := some config.notes }
  | some existing =>
    s.update
      { existing with
        name := config.name, publisher := config.publisher, feedUrl := config.feedUrl
        retrievalMethod := config.retrievalMethod }
      { s.terms existing.id with homepageUrl := config.homepageUrl, notes := some config.notes }

/-- `main`; `commits` is the answer of the database to the commit -/
def seedSources (s : Sources) (configs : List SourceConfig) (commits : Bool) : Sources :=
  if commits then (configs.foldlM seedSource s).getD s else s

/-! ## `review_source_terms.py` -/

structure ReviewArgs where
  list : Bool := false
  slug : Option Text := none
  reviewer : Option Text := none
  termsUrl : Option Text := none
  note : Option Text := none
  licence : Option Text := none
  endpointVerified : Bool := false
  formatConfirmed : Bool := false
  storeFullText : Bool := false
  robotsChecked : Bool := false
  enable : Bool := false
  disable : Bool := false

def ReviewArgs.recordingReview (args : ReviewArgs) : Bool :=
  truthy args.reviewer || truthy args.termsUrl || truthy args.note

def ReviewArgs.missing (args : ReviewArgs) : List Text :=
  ([(txt "--reviewer", args.reviewer), (txt "--terms-url", args.termsUrl),
    (txt "--note", args.note)].filter fun x => !truthy x.2).map Prod.fst

def Terms.recordReview (t : Terms) (args : ReviewArgs) (now : DateTime) : Terms :=
  { t with
    termsReviewedAt := some now
    termsReviewedBy := args.reviewer
    termsUrl := args.termsUrl
    termsNote := args.note
    licence := if truthy args.licence then args.licence else t.licence
    robotsCheckedAt := if args.robotsChecked then some now else t.robotsCheckedAt }

/-- the columns after the review and the flags of a command -/
def Terms.reviewed (t : Terms) (args : ReviewArgs) (now : DateTime) : Terms :=
  let t := if args.recordingReview then t.recordReview args now else t
  { t with
    endpointVerified := t.endpointVerified || args.endpointVerified
    formatConfirmed := t.formatConfirmed || args.formatConfirmed }

def Terms.blockers (t : Terms) : List Text :=
  (if t.termsReviewedAt.isNone then [txt "no terms review recorded"] else []) ++
  (if t.endpointVerified then [] else [txt "endpoint not verified (--endpoint-verified)"]) ++
  if t.formatConfirmed then [] else [txt "format not confirmed (--format-confirmed)"]

/-- what the command does with the row it has found: its exit code and the row it writes -/
def reviewRow (args : ReviewArgs) (now : DateTime) (source : Source) (terms : Terms) :
    Nat × Option (Source × Terms) :=
  if args.disable then
    let operator := if truthy args.reviewer then args.reviewer.getD [] else txt "operator"
    (0, some ({ source with
      enabled := false, disabledReason := some (txt "disabled by " ++ operator) }, terms))
  else if args.recordingReview && !args.missing.isEmpty then (2, none)
  else
    let terms := terms.reviewed args now
    let source := { source with storeFullText := source.storeFullText || args.storeFullText }
    if args.enable then
      -- a refused `--enable` keeps the flags: the `return 1` leaves the scope without an exception
      if terms.blockers.isEmpty then
        (0, some ({ source with enabled := true, disabledReason := none }, terms))
      else (1, some (source, terms))
    else (0, some (source, terms))

/-- how the command ends; `reviewed` is the row it found, where its changes are committed -/
structure ReviewExit where
  code : Nat
  sources : Sources
  reviewed : Option Source := none

def reviewSource (s : Sources) (args : ReviewArgs) (now : DateTime) (commits : Bool) : ReviewExit :=
  if args.list then ⟨0, s, none⟩
  else if !truthy args.slug then ⟨2, s, none⟩
  else
    match lookup Source.slug (args.slug.getD []) s.store.sources with
    | none => ⟨2, s, none⟩
    | some source =>
      match reviewRow args now source (s.terms source.id) with
      | (code, none) => ⟨code, s, none⟩
      | (code, some (row, terms)) =>
        match s.update row terms with
        | some s' => if commits then ⟨code, s', some source⟩ else ⟨2, s, none⟩
        | none => ⟨2, s, none⟩

/-! ## the deployed registry -/

def sourceBySlug (registry : List SourceConfig) (slug : Text) : Except Text SourceConfig :=
  match lookup SourceConfig.slug slug registry with
  | some config => .ok config
  | none => .error (txt "unknown source slug: " ++ slug)

/-- `build_adapter`; the adapter stands for the method it is the engine of -/
def SourceConfig.buildAdapter (config : SourceConfig) : Except Text Text :=
  if config.retrievalMethod = txt "rss" then .ok (txt "rss")
  else if config.retrievalMethod = txt "api" then .ok (txt "api")
  else if config.retrievalMethod = txt "notice_html" then .ok (txt "notice_html")
  else .error (txt "no adapter engine for retrieval_method '" ++ config.retrievalMethod ++ txt "'")

/-- the method of the adapter that `ingest_source` parses the source with -/
def adapterMethod (registry : List SourceConfig) (slug : Text) : Except Text Text :=
  sourceBySlug registry slug >>= SourceConfig.buildAdapter

theorem buildAdapter_ok {config : SourceConfig} {method : Text}
    (h : config.buildAdapter = .ok method) : method = config.retrievalMethod := by
  unfold SourceConfig.buildAdapter at h
  split at h
  · next hm => rw [hm]; exact (Except.ok.inj h).symm
  · split at h
    · next hm => rw [hm]; exact (Except.ok.inj h).symm
    · split at h
      · next hm => rw [hm]; exact (Except.ok.inj h).symm
      · cases h

/-! ## the history of a source -/

inductive Flag
  | endpointVerified | formatConfirmed
  deriving DecidableEq

def Terms.flag (t : Terms) : Flag → Bool
  | .endpointVerified => t.endpointVerified
  | .formatConfirmed => t.formatConfirmed

/-- the command sets the flag -/
def ReviewArgs.sets (args : ReviewArgs) : Flag → Bool
  | .endpointVerified => !args.disable && args.endpointVerified
  | .formatConfirmed => !args.disable && args.formatConfirmed

/-- what a flag is about: where the source is fetched, and how -/
def Source.endpoint (x : Source) : Text × Text := (x.feedUrl, x.retrievalMethod)

inductive Vouch
  /-- a reviewer sets the flag on a row with this endpoint -/
  | set (flag : Flag) (sourceId : Nat) (endpoint : Text × Text)
  /-- a tick fetches the source from this endpoint -/
  | fetched (sourceId : Nat) (endpoint : Text × Text)
  deriving DecidableEq

def Vouch.next (flag : Flag) (sourceId : Nat) (last : Option (Text × Text)) :
    Vouch → Option (Text × Text)
  | .set f i endpoint => if f = flag ∧ i = sourceId then some endpoint else last
  | .fetched _ _ => last

/-- the endpoint of the row when the flag was last set on it -/
def lastSet (flag : Flag) (sourceId : Nat) (log : List Vouch) : Option (Text × Text) :=
  log.foldl (Vouch.next flag sourceId) none

/-- every fetch goes where the row pointed when each flag was last set -/
def VouchedFetches (log : List Vouch) : Prop :=
  ∀ before i endpoint after, log = before ++ .fetched i endpoint :: after →
    ∀ flag, lastSet flag i before = some endpoint

structure Registry where
  poller : Poller
  terms : Nat → Terms
  log : List Vouch := []

def Registry.empty : Registry := { poller := .idle .empty, terms := fun _ => {} }

def Registry.sources (r : Registry) : Sources := ⟨r.poller.session.committed, r.terms⟩

def Registry.put (r : Registry) (s : Sources) (log : List Vouch) : Registry :=
  { poller := { r.poller with session := .start s.store }, terms := s.terms, log := r.log ++ log }

/-- the flags a review sets -/
def ReviewArgs.vouches (args : ReviewArgs) (x : Source) : List Vouch :=
  ([Flag.endpointVerified, Flag.formatConfirmed].filter args.sets).map
    (Vouch.set · x.id x.endpoint)

/-- the row of the next source of the tick -/
def Poller.next (p : Poller) : Option Source :=
  match p.running with
  | some ⟨_, id :: _, _, _⟩ => p.session.current.source? id
  | _ => none

/-- the step under the deployed registry; `env.adapter` is left to say whether the constructor of
the adapter takes the options of the entry -/
def Poller.deploy (p : Poller) (deployed : List SourceConfig) : PollAct → PollAct
  | .source env handlerRaises =>
    .source { env with
      adapter := match p.next with
        | some x => adapterMethod deployed x.slug >>= fun _ => env.adapter
        | none => env.adapter } handlerRaises
  | a => a

/-- the fetch of a step of a tick: the url of the row, and the method of the adapter -/
def Poller.fetches (p : Poller) (deployed : List SourceConfig) : PollAct → List Vouch
  | .source env _ =>
    match p.next with
    | some x =>
      match adapterMethod deployed x.slug with
      | .ok method => if env.asks then [.fetched x.id (x.feedUrl, method)] else []
      | .error _ => []
    | none => []
  | _ => []

/-- the steps of a worker: not the ones by which a human enables a source or a source is added -/
def PollAct.isWork : PollAct → Bool
  | .enable _ | .record (.source _) => false
  | _ => true

inductive RegistryAct
  | seed (configs : List SourceConfig) (commits : Bool)
  | review (args : ReviewArgs) (now : DateTime) (commits : Bool)
  /-- a step of a worker; `deployed` is `CANDIDATE_SOURCES` of its code -/
  | tick (deployed : List SourceConfig) (a : PollAct)

def registryFire (U : Unicode) (sha : Text → Text) (r : Registry) : RegistryAct → Option Registry
  | .seed configs commits =>
    match r.poller.running with
    | some _ => none
    | none => some (r.put (seedSources r.sources configs commits) [])
  | .review args now commits =>
    match r.poller.running with
    | some _ => none
    | none =>
      let exit := reviewSource r.sources args now commits
      some (r.put exit.sources (exit.reviewed.elim [] args.vouches))
  | .tick deployed a =>
    if a.isWork then
      (pollFire U sha r.poller (r.poller.deploy deployed a)).map fun p =>
        { r with poller := p, log := r.log ++ r.poller.fetches deployed a }
    else none

/-- the configuration keeps the endpoint of a row that a reviewer has put a flag on -/
def SourceConfig.Keeps (config : SourceConfig) (s : Sources) : Prop :=
  ∀ x ∈ s.store.sources, x.slug = config.slug →
    ((s.terms x.id).endpointVerified || (s.terms x.id).formatConfirmed) = true →
      x.feedUrl = config.feedUrl ∧ x.retrievalMethod = config.retrievalMethod

instance (config : SourceConfig) (s : Sources) : Decidable (config.Keeps s) :=
  inferInstanceAs (Decidable (∀ x ∈ s.store.sources, x.slug = config.slug → _ → _))

/-- the entry of the deployed registry, if there is one, has the method of the row -/
def Source.Deployed (x : Source) (deployed : List SourceConfig) : Prop :=
  ∀ config ∈ lookup SourceConfig.slug x.slug deployed, config.retrievalMethod = x.retrievalMethod

instance (x : Source) (deployed : List SourceConfig) : Decidable (x.Deployed deployed) :=
  inferInstanceAs (Decidable (∀ config ∈ lookup SourceConfig.slug x.slug deployed, _))

/-- no seed that is committed changes the endpoint behind a flag, and a source that a tick runs has
the method of its row in the deployed registry -/
def Leaves (r : Registry) : RegistryAct → Prop
  | .seed configs commits => commits = true → ∀ config ∈ configs, config.Keeps r.sources
  | .review _ _ _ => True
  | .tick deployed (.source _ _) => ∀ x ∈ r.poller.next, x.Deployed deployed
  | .tick _ _ => True

instance (r : Registry) (a : RegistryAct) : Decidable (Leaves r a) :=
  match a with
  | .seed configs commits =>
    inferInstanceAs (Decidable (commits = true → ∀ config ∈ configs, config.Keeps r.sources))
  | .tick deployed (.source _ _) =>
    inferInstanceAs (Decidable (∀ x ∈ r.poller.next, x.Deployed deployed))
  | .review _ _ _ | .tick _ (.start _ _ _) | .tick _ (.finish _) | .tick _ (.enable _)
  | .tick _ (.record _) => .isTrue trivial

/-! ## what the tools write -/

section
variable {s s' : Sources} {log : List Vouch} {config : SourceConfig}

theorem Terms.flag_le {t : Terms} {flag : Flag} (h : t.flag flag = true) :
    (t.endpointVerified || t.formatConfirmed) = true := by
  cases flag with
  | endpointVerified => exact Bool.or_eq_true_iff.mpr (Or.inl h)
  | formatConfirmed => exact Bool.or_eq_true_iff.mpr (Or.inr h)

theorem insert_eq_some {row : Source} {t : Terms} (h : s.insert row t = some s') :
    s' = ⟨s.store.addSource row, Function.update s.terms s.store.nextId t⟩ := by
  unfold Sources.insert at h
  split at h
  · exact (Option.some.inj h).symm
  · cases h

theorem update_eq_some {row : Source} {t : Terms} (h : s.update row t = some s') :
    s' = ⟨s.store.putSource row, Function.update s.terms row.id t⟩ := by
  unfold Sources.update at h
  split at h
  · exact (Option.some.inj h).symm
  · cases h

/-- a round of the seeder adds a row without flags, or gives a row the endpoint of its
configuration -/
theorem seedSource_cases (h : seedSource s config = some s') :
    (∃ row t, row.slug = config.slug ∧ row.enabled = false ∧ (∀ flag, t.flag flag = false) ∧
      s' = ⟨s.store.addSource row, Function.update s.terms s.store.nextId t⟩) ∨
    ∃ x ∈ s.store.sources, x.slug = config.slug ∧ ∃ row t, row.id = x.id ∧ row.slug = x.slug ∧
      row.enabled = x.enabled ∧ row.endpoint = (config.feedUrl, config.retrievalMethod) ∧
      (∀ flag, t.flag flag = (s.terms x.id).flag flag) ∧
      s' = ⟨s.store.putSource row, Function.update s.terms row.id t⟩ := by
  unfold seedSource at h
  cases hx : lookup Source.slug config.slug s.store.sources with
  | none =>
    simp only [hx] at h
    exact Or.inl ⟨_, _, rfl, rfl, fun flag => by cases flag <;> rfl, insert_eq_some h⟩
  | some x =>
    simp only [hx] at h
    refine Or.inr ⟨x, lookup_mem hx, lookup_key hx, _, _, ?_, ?_, ?_, ?_, ?_, update_eq_some h⟩
    · rfl
    · rfl
    · rfl
    · rfl
    · intro flag
      cases flag <;> rfl

/-- where nothing blocks the command, both flags are set -/
theorem flag_of_blockers {t : Terms} (h : t.blockers.isEmpty = true) (flag : Flag) :
    t.flag flag = true := by
  unfold Terms.blockers at h
  rw [List.isEmpty_iff, List.append_eq_nil_iff, List.append_eq_nil_iff] at h
  obtain ⟨⟨_, he⟩, hf⟩ := h
  cases flag with
  | endpointVerified =>
    show t.endpointVerified = true
    by_contra hn
    rw [if_neg hn] at he
    cases he
  | formatConfirmed =>
    show t.formatConfirmed = true
    by_contra hn
    rw [if_neg hn] at hf
    cases hf

theorem flag_reviewed {args : ReviewArgs} (hd : args.disable = false) (t : Terms) (now : DateTime)
    (flag : Flag) : (t.reviewed args now).flag flag = (t.flag flag || args.sets flag) := by
  unfold Terms.reviewed
  cases hr : args.recordingReview <;> cases flag <;>
    simp only [Terms.flag, ReviewArgs.sets, Terms.recordReview, hd, Bool.not_false, Bool.true_and,
      Bool.false_eq_true, if_true, if_false]

/-- **The command sets the flags it is told to and keeps the endpoint; a row it enables has both
flags.** -/
theorem reviewRow_eq {args : ReviewArgs} {now : DateTime} {source row : Source} {t t' : Terms}
    {code : Nat} (h : reviewRow args now source t = (code, some (row, t'))) :
    row.id = source.id ∧ row.endpoint = source.endpoint ∧
      (∀ flag, t'.flag flag = (t.flag flag || args.sets flag)) ∧
      (row.enabled = true → source.enabled = true ∨ ∀ flag, t'.flag flag = true) := by
  unfold reviewRow at h
  split at h
  · next hd =>
    cases h
    refine ⟨rfl, rfl, fun flag => ?_, fun he => (by cases he)⟩
    cases flag <;> simp only [ReviewArgs.sets, hd, Bool.not_true, Bool.false_and, Bool.or_false]
  · next hd =>
    have hflag := flag_reviewed (Bool.eq_false_iff.mpr hd) t now
    split at h
    · cases h
    · simp only at h
      split at h
      · split at h
        · next hb =>
          cases h
          exact ⟨rfl, rfl, hflag, fun _ => Or.inr (flag_of_blockers hb)⟩
        · cases h
          exact ⟨rfl, rfl, hflag, Or.inl⟩
      · cases h
        exact ⟨rfl, rfl, hflag, Or.inl⟩

theorem reviewSource_cases (s : Sources) (args : ReviewArgs) (now : DateTime) (commits : Bool) :
    ((reviewSource s args now commits).sources = s ∧
      (reviewSource s args now commits).reviewed = none) ∨
    ∃ x ∈ s.store.sources, ∃ row t, row.id = x.id ∧ row.endpoint = x.endpoint ∧
      (∀ flag, t.flag flag = ((s.terms x.id).flag flag || args.sets flag)) ∧
      (row.enabled = true → x.enabled = true ∨ ∀ flag, t.flag flag = true) ∧
      (reviewSource s args now commits).reviewed = some x ∧
      (reviewSource s args now commits).sources =
        ⟨s.store.putSource row, Function.update s.terms row.id t⟩ := by
  unfold reviewSource
  split
  · exact Or.inl ⟨rfl, rfl⟩
  · split
    · exact Or.inl ⟨rfl, rfl⟩
    · cases hx : lookup Source.slug (args.slug.getD []) s.store.sources with
      | none => exact Or.inl ⟨rfl, rfl⟩
      | some x =>
        simp only
        rcases hr : reviewRow args now x (s.terms x.id) with ⟨code, _ | ⟨row, t⟩⟩
        · exact Or.inl ⟨rfl, rfl⟩
        · simp only
          obtain ⟨hid, hendpoint, hflags, henabled⟩ := reviewRow_eq hr
          cases hu : s.update row t with
          | none => exact Or.inl ⟨rfl, rfl⟩
          | some s' =>
            cases commits with
            | false => exact Or.inl ⟨rfl, rfl⟩
            | true =>
              exact Or.inr ⟨x, lookup_mem hx, row, t, hid, hendpoint, hflags, henabled, rfl,
                update_eq_some hu⟩

end

/-! ## rows vouched for -/

/-- an enabled row has both flags, and each flag was last set on the endpoint that the row has -/
structure VouchedRow (log : List Vouch) (t : Terms) (x : Source) : Prop where
  enabled : x.enabled = true → ∀ flag, t.flag flag = true
  vouched : ∀ flag, t.flag flag = true → lastSet flag x.id log = some x.endpoint

def VouchedRows (log : List Vouch) (s : Sources) : Prop :=
  ∀ x ∈ s.store.sources, VouchedRow log (s.terms x.id) x

section
variable {s s' : Sources} {log : List Vouch} {config : SourceConfig}

theorem lastSet_snoc (flag : Flag) (i : Nat) (log : List Vouch) (v : Vouch) :
    lastSet flag i (log ++ [v]) = Vouch.next flag i (lastSet flag i log) v := by
  unfold lastSet
  rw [List.foldl_append]
  rfl

theorem lastSet_vouches (flag : Flag) (i : Nat) (log : List Vouch) (args : ReviewArgs)
    (x : Source) : lastSet flag i (log ++ args.vouches x) =
      if args.sets flag = true ∧ x.id = i then some x.endpoint else lastSet flag i log := by
  unfold ReviewArgs.vouches lastSet
  rw [List.foldl_append]
  cases he : args.sets .endpointVerified <;> cases hf : args.sets .formatConfirmed <;>
    cases flag <;> simp [he, hf, Vouch.next]

theorem VouchedRow.congr {log' : List Vouch} {t : Terms} {x : Source} (h : VouchedRow log t x)
    (hl : ∀ flag, lastSet flag x.id log' = lastSet flag x.id log) : VouchedRow log' t x := by
  refine ⟨h.enabled, fun flag hf => ?_⟩
  rw [hl flag]
  exact h.vouched flag hf

/-- a new row, under a key that no row has -/
theorem vouchedRows_add {row : Source} {t : Terms} (hk : SourceKeys s.store)
    (h : VouchedRows log s) (hrow : VouchedRow log t { row with id := s.store.nextId }) :
    VouchedRows log ⟨s.store.addSource row, Function.update s.terms s.store.nextId t⟩ := by
  intro x hx
  show VouchedRow log (Function.update s.terms s.store.nextId t x.id) x
  rcases List.mem_append.mp hx with hx | hx
  · rw [Function.update_of_ne (Nat.ne_of_lt (hk.fresh x hx))]
    exact h x hx
  · rw [List.mem_singleton.mp hx, Function.update_self]
    exact hrow

/-- a row in the place of another, in the light of what was logged meanwhile -/
theorem vouchedRows_put {log' : List Vouch} {row : Source} {t : Terms} (h : VouchedRows log s)
    (hl : ∀ flag i, i ≠ row.id → lastSet flag i log' = lastSet flag i log)
    (hrow : VouchedRow log' t row) :
    VouchedRows log' ⟨s.store.putSource row, Function.update s.terms row.id t⟩ := by
  intro x hx
  show VouchedRow log' (Function.update s.terms row.id t x.id) x
  rcases mem_replace hx with rfl | ⟨hx, hne⟩
  · rw [Function.update_self]
    exact hrow
  · rw [Function.update_of_ne hne]
    exact (h x hx).congr fun flag => hl flag x.id hne

/-- a round of the seeder that keeps the endpoint behind the flags, and what it leaves for the
rounds after it -/
theorem vouched_seedSource (hk : SourceKeys s.store) (h : VouchedRows log s)
    (hc : config.Keeps s) (hs : seedSource s config = some s') :
    SourceKeys s'.store ∧ VouchedRows log s' ∧ ∀ c : SourceConfig, c.Keeps s → c.Keeps s' := by
  rcases seedSource_cases hs with ⟨row, t, _, hoff, hflags, rfl⟩ |
    ⟨x, hx, hslug, row, t, hid, hrow, henabled, hendpoint, hflags, rfl⟩
  · refine ⟨hk.append (le_refl _) (Nat.lt_succ_self _), vouchedRows_add hk h ⟨?_, ?_⟩, ?_⟩
    · intro he
      rw [show row.enabled = true from he] at hoff
      cases hoff
    · intro flag hf
      rw [hflags flag] at hf
      cases hf
    · intro c hkeeps y hy hyslug hf
      rcases List.mem_append.mp hy with hy | hy
      · simp only [Function.update_of_ne (Nat.ne_of_lt (hk.fresh y hy))] at hf
        exact hkeeps y hy hyslug hf
      · rw [List.mem_singleton.mp hy] at hf
        simp only [Function.update_self] at hf
        rw [show t.endpointVerified = false from hflags .endpointVerified,
          show t.formatConfirmed = false from hflags .formatConfirmed] at hf
        cases hf
  · have hold := h x hx
    have hsame : (t.endpointVerified || t.formatConfirmed) = true → row.endpoint = x.endpoint := by
      intro hf
      rw [show t.endpointVerified = _ from hflags .endpointVerified,
        show t.formatConfirmed = _ from hflags .formatConfirmed] at hf
      obtain ⟨hurl, hmethod⟩ := hc x hx hslug hf
      rw [hendpoint, Source.endpoint, hurl, hmethod]
    refine ⟨hk.of_map (map_replace _ _) (le_refl _),
      vouchedRows_put h (fun _ _ _ => rfl) ⟨?_, ?_⟩, ?_⟩
    · intro he flag
      rw [hflags flag]
      exact hold.enabled (henabled ▸ he) flag
    · intro flag hf
      rw [hid, hsame (Terms.flag_le hf)]
      rw [hflags flag] at hf
      exact hold.vouched flag hf
    · intro c hkeeps y hy hyslug hf
      rcases mem_replace hy with rfl | ⟨hy, hne⟩
      · simp only [Function.update_self] at hf
        have hend := Prod.mk.inj (hsame hf)
        rw [show t.endpointVerified = _ from hflags .endpointVerified,
          show t.formatConfirmed = _ from hflags .formatConfirmed] at hf
        rw [hend.1, hend.2]
        exact hkeeps x hx (hrow ▸ hyslug) hf
      · simp only [Function.update_of_ne hne] at hf
        exact hkeeps y hy hyslug hf

/-- **A seed that keeps the endpoints behind the flags keeps the rows vouched for.** -/
theorem vouched_seedSources {configs : List SourceConfig} {commits : Bool}
    (hk : SourceKeys s.store) (h : VouchedRows log s)
    (hc : commits = true → ∀ config ∈ configs, config.Keeps s) :
    SourceKeys (seedSources s configs commits).store ∧
      VouchedRows log (seedSources s configs commits) := by
  have hfold : ∀ (configs : List SourceConfig) (s s' : Sources), SourceKeys s.store →
      VouchedRows log s → (∀ config ∈ configs, config.Keeps s) →
      configs.foldlM seedSource s = some s' → SourceKeys s'.store ∧ VouchedRows log s' := by
    intro configs
    induction configs with
    | nil =>
      intro s s' hk h _ hs
      cases hs
      exact ⟨hk, h⟩
    | cons config configs ih =>
      intro s s' hk h hc hs
      rw [List.foldlM_cons] at hs
      obtain ⟨t, ht, hs⟩ := Option.bind_eq_some_iff.mp hs
      obtain ⟨hk', h', hkeeps⟩ := vouched_seedSource hk h (hc config (List.mem_cons_self ..)) ht
      exact ih t s' hk' h' (fun c hm => hkeeps c (hc c (List.mem_cons_of_mem _ hm))) hs
  unfold seedSources
  cases commits with
  | false => exact ⟨hk, h⟩
  | true =>
    rw [if_pos rfl]
    cases hs : configs.foldlM seedSource s with
    | none => exact ⟨hk, h⟩
    | some s' => exact hfold configs s s' hk h (hc rfl) hs

/-- **A review keeps the rows vouched for: what it sets, it sets on the endpoint that is there.** -/
theorem vouched_reviewSource (hk : SourceKeys s.store) (h : VouchedRows log s) (args : ReviewArgs)
    (now : DateTime) (commits : Bool) :
    SourceKeys (reviewSource s args now commits).sources.store ∧
      VouchedRows (log ++ (reviewSource s args now commits).reviewed.elim [] args.vouches)
        (reviewSource s args now commits).sources := by
  rcases reviewSource_cases s args now commits with ⟨hsame, hnone⟩ |
    ⟨x, hx, row, t, hid, hendpoint, hflags, henabled, hsome, hput⟩
  · rw [hsame, hnone, Option.elim_none, List.append_nil]
    exact ⟨hk, h⟩
  · rw [hsome, hput, Option.elim_some]
    have hold := h x hx
    refine ⟨hk.of_map (map_replace _ _) (le_refl _), vouchedRows_put h ?_ ⟨?_, ?_⟩⟩
    · intro flag i hi
      rw [lastSet_vouches, if_neg]
      exact fun he => hi (he.2.symm.trans hid.symm)
    · intro he flag
      rcases henabled he with he | hall
      · rw [hflags flag, hold.enabled he flag, Bool.true_or]
      · exact hall flag
    · intro flag hf
      rw [lastSet_vouches, hid, hendpoint]
      split
      · rfl
      · next hn =>
        rw [hflags flag, Bool.or_eq_true] at hf
        exact hold.vouched flag (hf.resolve_right fun hset => hn ⟨hset, rfl⟩)

end

/-! ## ticks -/

/-- both states of the session hold rows that are vouched for, and so do the keys that a tick has
still to fetch -/
structure Vouching (r : Registry) : Prop where
  keys : SourceKeys r.poller.session.committed
  keysNow : SourceKeys r.poller.session.current
  idle : r.poller.running = none → r.poller.session.current = r.poller.session.committed
  rows : VouchedRows r.log ⟨r.poller.session.committed, r.terms⟩
  rowsNow : VouchedRows r.log ⟨r.poller.session.current, r.terms⟩
  listed : ∀ t ∈ r.poller.running, ∀ i ∈ t.ids, ∀ flag, (r.terms i).flag flag = true
  fetches : VouchedFetches r.log

section
variable {U : Unicode} {sha : Text → Text} {p p' : Poller} {log : List Vouch} {terms : Nat → Terms}
  {store store' : Store}

/-- a run that returns keeps the endpoint of its source, and enables nothing -/
theorem SourceEffect.vouched {source : Source} {now : DateTime} {blocked : Bool} {run : IngestionRun}
    {id : Nat} (heff : SourceEffect source now blocked store store' run)
    (hs : store.source? id = some source) (hk : SourceKeys store)
    (h : VouchedRows log ⟨store, terms⟩) :
    SourceKeys store' ∧ VouchedRows log ⟨store', terms⟩ := by
  obtain ⟨base, fetch, succeeded, hbase, _, _, hsources⟩ := heff.sources
  have hold := h source (lookup_mem hs)
  have hrow : base.id = source.id ∧ base.endpoint = source.endpoint ∧
      (base.enabled = true → source.enabled = true) := by
    rcases hbase with rfl | ⟨reason, rfl⟩
    · exact ⟨rfl, rfl, fun he => he⟩
    · exact ⟨rfl, rfl, fun he => (by cases he)⟩
  obtain ⟨hid, hendpoint, henabled⟩ := hrow
  constructor
  · refine Numbered.of_map hk ?_ (le_of_lt heff.nextId)
    rw [hsources]
    exact map_replace _ _
  · intro x hx
    rw [show (Sources.mk store' terms).store.sources = _ from hsources] at hx
    rcases mem_replace hx with rfl | ⟨hx, _⟩
    · refine ⟨fun he => ?_, fun flag hf => ?_⟩
      · show ∀ flag, (terms base.id).flag flag = true
        rw [hid]
        exact hold.enabled (henabled he)
      · show lastSet flag base.id log = some base.endpoint
        rw [hid, hendpoint]
        refine hold.vouched flag ?_
        rw [← hid]
        exact hf
    · exact h x hx

theorem Poller.next_eq_some {x : Source} (h : p.next = some x) :
    ∃ t id rest, p.running = some t ∧ t.ids = id :: rest ∧ x.id = id ∧
      x ∈ p.session.current.sources := by
  unfold Poller.next at h
  split at h
  · next now id rest runs blocked hr => exact ⟨_, id, rest, hr, rfl, lookup_key h, lookup_mem h⟩
  · cases h

theorem adapterMethod_ok {x : Source} {deployed : List SourceConfig} {method : Text}
    (hd : x.Deployed deployed) (h : adapterMethod deployed x.slug = .ok method) :
    method = x.retrievalMethod := by
  unfold adapterMethod sourceBySlug at h
  cases hl : lookup SourceConfig.slug x.slug deployed with
  | none =>
    rw [hl] at h
    cases h
  | some config =>
    rw [hl] at h
    rw [buildAdapter_ok h]
    exact hd config hl

/-- a step of a tick fetches nothing, or the next source with the adapter that is deployed -/
theorem fetches_cases (p : Poller) (deployed : List SourceConfig) (a : PollAct) :
    p.fetches deployed a = [] ∨ ∃ env handlerRaises x method, a = .source env handlerRaises ∧
      p.next = some x ∧ adapterMethod deployed x.slug = .ok method ∧
      p.fetches deployed a = [.fetched x.id (x.feedUrl, method)] := by
  cases a with
  | source env handlerRaises =>
    simp only [Poller.fetches]
    cases hx : p.next with
    | none => exact Or.inl rfl
    | some x =>
      simp only
      cases hm : adapterMethod deployed x.slug with
      | error e => exact Or.inl rfl
      | ok method =>
        simp only
        split
        · exact Or.inr ⟨env, handlerRaises, x, method, rfl, rfl, hm, rfl⟩
        · exact Or.inl rfl
  | start now collate held => exact Or.inl rfl
  | finish commits => exact Or.inl rfl
  | enable id => exact Or.inl rfl
  | record act => exact Or.inl rfl

/-- a step of a tick puts no flag on a source -/
theorem lastSet_fetches (flag : Flag) (i : Nat) (log : List Vouch) (p : Poller)
    (deployed : List SourceConfig) (a : PollAct) :
    lastSet flag i (log ++ p.fetches deployed a) = lastSet flag i log := by
  rcases fetches_cases p deployed a with h | ⟨_, _, x, _, _, _, _, h⟩
  · rw [h, List.append_nil]
  · rw [h, lastSet_snoc]
    rfl

theorem vouchedRows_fetches {s : Sources} (h : VouchedRows log s) (p : Poller)
    (deployed : List SourceConfig) (a : PollAct) : VouchedRows (log ++ p.fetches deployed a) s :=
  fun x hx => (h x hx).congr fun flag => lastSet_fetches flag x.id log p deployed a

theorem VouchedFetches.snoc {v : Vouch} (h : VouchedFetches log)
    (hv : ∀ i endpoint, v = .fetched i endpoint → ∀ flag, lastSet flag i log = some endpoint) :
    VouchedFetches (log ++ [v]) := by
  intro before i endpoint after heq
  refine forall_entry_snoc
    (P := fun log v => ∀ i endpoint, v = .fetched i endpoint → ∀ flag,
      lastSet flag i log = some endpoint)
    (fun before v after hlog i endpoint hfetched => ?_) hv heq i endpoint rfl
  subst hfetched
  exact h before i endpoint after hlog

/-- flags are no fetches -/
theorem VouchedFetches.append_sets (h : VouchedFetches log) (flags : List Flag) (i : Nat)
    (endpoint : Text × Text) : VouchedFetches (log ++ flags.map (Vouch.set · i endpoint)) := by
  induction flags generalizing log with
  | nil =>
    rw [List.map_nil, List.append_nil]
    exact h
  | cons flag flags ih =>
    rw [List.map_cons, ← List.singleton_append, ← List.append_assoc]
    exact ih (h.snoc fun _ _ he => (by cases he))

/-- **A listed source is fetched where its flags were set.** -/
theorem Vouching.fetches_next {r : Registry} (h : Vouching r) {deployed : List SourceConfig}
    {a : PollAct} (hl : Leaves r (.tick deployed a)) :
    VouchedFetches (r.log ++ r.poller.fetches deployed a) := by
  rcases fetches_cases r.poller deployed a with
    hnone | ⟨env, handlerRaises, x, method, rfl, hx, hm, hfetch⟩
  · rw [hnone, List.append_nil]
    exact h.fetches
  · rw [hfetch, adapterMethod_ok (hl x hx) hm]
    refine h.fetches.snoc fun i endpoint he flag => ?_
    cases he
    obtain ⟨t, id, rest, hr, hids, hid, hmem⟩ := Poller.next_eq_some hx
    refine (h.rowsNow x hmem).vouched flag ?_
    rw [hid]
    refine h.listed t hr id ?_ flag
    rw [hids]
    exact List.mem_cons_self ..

/-- a committed store between two ticks -/
theorem Vouching.between {poller : Poller} (hrunning : poller.running = none)
    (hsession : poller.session = .start store) (hk : SourceKeys store)
    (h : VouchedRows log ⟨store, terms⟩) (hf : VouchedFetches log) :
    Vouching { poller := poller, terms := terms, log := log } := by
  refine ⟨?_, ?_, fun _ => ?_, ?_, ?_, fun t ht => ?_, hf⟩
  · exact (congrArg Session.committed hsession).symm ▸ hk
  · exact (congrArg Session.current hsession).symm ▸ hk
  · rw [hsession]
    rfl
  · rw [hsession]
    exact h
  · rw [hsession]
    exact h
  · rw [hrunning] at ht
    cases ht

/-- **A step of a tick keeps the rows vouched for.** -/
theorem vouching_work {r : Registry} {deployed : List SourceConfig} {a : PollAct} (h : Vouching r)
    (hl : Leaves r (.tick deployed a)) (hw : a.isWork = true)
    (ha : pollFire U sha r.poller (r.poller.deploy deployed a) = some p') :
    Vouching { r with poller := p', log := r.log ++ r.poller.fetches deployed a } := by
  have hrows := vouchedRows_fetches h.rows r.poller deployed a
  have hnow := vouchedRows_fetches h.rowsNow r.poller deployed a
  have hlog := h.fetches_next hl
  cases a with
  | start now collate held =>
    obtain ⟨hr, rfl⟩ := pollFire_start ha
    refine ⟨h.keys, h.keysNow, fun hn => (by cases hn), hrows, hnow, fun t ht i hi => ?_, hlog⟩
    cases ht
    obtain ⟨x, hx, rfl, hen⟩ := mem_dueSources hi
    exact (h.rowsNow x hx).enabled hen
  | source env handlerRaises =>
    obtain ⟨t, id, rest, hr, hids, rfl⟩ := pollFire_source ha
    have hrest : ∀ i ∈ rest, ∀ flag, (r.terms i).flag flag = true := by
      intro i hi
      refine h.listed t hr i ?_
      rw [hids]
      exact List.mem_cons_of_mem _ hi
    rcases Poller.round_cases r.poller t id rest _ handlerRaises with
      ⟨source, store, row, blocked, hs, _, heff, hround⟩ |
      ⟨blocked, running, _, _, hrunning, hround⟩
    · obtain ⟨hk, hv⟩ := heff.vouched hs h.keysNow hnow
      rw [hround]
      refine ⟨h.keys, hk, fun hn => (by cases hn), hrows, hv, fun u hu => ?_, hlog⟩
      cases hu
      exact hrest
    · rw [hround]
      refine ⟨h.keys, h.keys, fun _ => rfl, hrows, hrows, fun u hu => ?_, hlog⟩
      rcases hrunning with rfl | rfl
      · cases hu
      · cases hu
        exact hrest
  | finish commits =>
    obtain ⟨t, _, rfl⟩ := pollFire_finish ha
    cases commits with
    | true => exact .between rfl rfl h.keysNow hnow hlog
    | false => exact .between rfl rfl h.keys hrows hlog
  | enable id => cases hw
  | record act =>
    obtain ⟨_, store, hs, rfl⟩ := pollFire_record ha
    obtain ⟨hn, hsources | ⟨row, rfl, _⟩⟩ := fire_sources hs
    · refine .between rfl rfl (h.keys.of_map (by rw [hsources]) hn) ?_ hlog
      intro x hx
      rw [show (Sources.mk store r.terms).store.sources = _ from hsources] at hx
      exact hrows x hx
    · cases hw

/-! ## runs -/

theorem vouching_empty : Vouching .empty := by
  refine .between rfl rfl Numbered.nil ?_ ?_
  · intro x hx
    cases hx
  · intro before i endpoint after heq
    cases before <;> cases heq

/-- **A step that moves no endpoint behind a flag and fetches with the row's method keeps the rows
vouched for.** -/
theorem vouching_step {r r' : Registry} {a : RegistryAct} (h : Vouching r) (hl : Leaves r a)
    (ha : registryFire U sha r a = some r') : Vouching r' := by
  cases a with
  | seed configs commits =>
    simp only [registryFire] at ha
    split at ha
    · cases ha
    · next hr =>
      cases ha
      obtain ⟨hk, hv⟩ := vouched_seedSources (s := r.sources) h.keys h.rows hl
      unfold Registry.put
      rw [List.append_nil]
      exact .between hr rfl hk hv h.fetches
  | review args now commits =>
    simp only [registryFire] at ha
    split at ha
    · cases ha
    · next hr =>
      cases ha
      obtain ⟨hk, hv⟩ := vouched_reviewSource (s := r.sources) h.keys h.rows args now commits
      refine .between hr rfl hk hv ?_
      -- a review fetches nothing
      cases (reviewSource r.sources args now commits).reviewed with
      | none =>
        rw [Option.elim_none, List.append_nil]
        exact h.fetches
      | some x => exact h.fetches.append_sets _ x.id x.endpoint
  | tick deployed a =>
    simp only [registryFire] at ha
    split at ha
    · next hw =>
      obtain ⟨p', hp, rfl⟩ := Option.map_eq_some_iff.mp ha
      exact vouching_work h hl hw hp
    · cases ha

/-- **In every run of the two tools and of ticks in which no seed moves the endpoint behind a flag,
and the deployed registry has the method of each row that is run, every fetch uses the url and the
method that the row had when a reviewer last set its flags.** -/
theorem vouched_of_leaves (U : Unicode) (sha : Text → Text) {r : Registry} {as : List RegistryAct}
    (hrun : exec (registryFire U sha) .empty as = some r)
    (hl : Along (registryFire U sha) Leaves .empty as) : VouchedFetches r.log := by
  have h : Vouching r := by
    refine exec_invariant_along (registryFire U sha) ?_ hrun hl vouching_empty
    intro r a r' h hg ha
    exact vouching_step h hg ha
  exact h.fetches

end

/-! ## three runs -/

namespace Sample

def portNotices : SourceConfig where
  slug := txt "port-notices"
  name := txt "Port notices"
  publisher := txt "Port authority"
  feedUrl := txt "https://example.org/feed"
  retrievalMethod := txt "rss"
  nicheRationale := txt "Port closures."

/-- the entry of the registry after an edit -/
def moved : SourceConfig := { portNotices with
  feedUrl := txt "https://example.org/api", retrievalMethod := txt "api" }

def enabling : ReviewArgs where
  slug := some (txt "port-notices")
  reviewer := some (txt "A Human")
  termsUrl := some (txt "https://example.org/terms")
  note := some (txt "Terms permit automated retrieval.")
  endpointVerified := true
  formatConfirmed := true
  enable := true

/-- a source is seeded, reviewed, seeded again as it is, and fetched -/
def seededOnce : List RegistryAct :=
  [.seed [portNotices] true, .review enabling ⟨0⟩ true, .seed [portNotices] true,
    .tick [portNotices] (wake ⟨0⟩), .tick [portNotices] (asked timeout)]

/-- a reviewed source is seeded with another endpoint before it is fetched -/
def seededOver : List RegistryAct :=
  [.seed [portNotices] true, .review enabling ⟨0⟩ true, .seed [moved] true,
    .tick [moved] (wake ⟨0⟩), .tick [moved] (asked timeout)]

/-- the edited registry is deployed with the worker, and not seeded -/
def deployedOver : List RegistryAct :=
  [.seed [portNotices] true, .review enabling ⟨0⟩ true,
    .tick [moved] (wake ⟨0⟩), .tick [moved] (asked timeout)]

end Sample

/-- a seed makes a tick fetch an endpoint that no reviewer has seen -/
theorem seededOver_not_vouched :
    ¬ ∀ (U : Unicode) (sha : Text → Text) (as : List RegistryAct) (r : Registry),
      exec (registryFire U sha) .empty as = some r → VouchedFetches r.log := by
  intro h
  have hrun : (exec (registryFire Unicode.latin id) .empty Sample.seededOver).map (·.log) =
      some [.set .endpointVerified 0 (Sample.portNotices.feedUrl, txt "rss"),
        .set .formatConfirmed 0 (Sample.portNotices.feedUrl, txt "rss"),
        .fetched 0 (Sample.moved.feedUrl, txt "api")] := by decide +kernel
  obtain ⟨r, hr, hlog⟩ := Option.map_eq_some_iff.mp hrun
  have hset := h _ _ _ r hr [_, _] 0 _ [] hlog .endpointVerified
  exact absurd hset (by decide +kernel)

/-- a deployment makes a tick parse with an adapter that no reviewer has seen -/
example : (exec (registryFire Unicode.latin id) .empty Sample.deployedOver).map (·.log) =
    some [.set .endpointVerified 0 (Sample.portNotices.feedUrl, txt "rss"),
      .set .formatConfirmed 0 (Sample.portNotices.feedUrl, txt "rss"),
      .fetched 0 (Sample.portNotices.feedUrl, txt "api")] := by decide +kernel

theorem vouched_seededOnce :
    ∃ r, exec (registryFire Unicode.latin id) .empty Sample.seededOnce = some r ∧
      Vouch.fetched 0 (Sample.portNotices.feedUrl, txt "rss") ∈ r.log ∧ VouchedFetches r.log := by
  have hrun : (exec (registryFire Unicode.latin id) .empty Sample.seededOnce).map (·.log) =
      some [.set .endpointVerified 0 (Sample.portNotices.feedUrl, txt "rss"),
        .set .formatConfirmed 0 (Sample.portNotices.feedUrl, txt "rss"),
        .fetched 0 (Sample.portNotices.feedUrl, txt "rss")] := by decide +kernel
  obtain ⟨r, hr, hlog⟩ := Option.map_eq_some_iff.mp hrun
  refine ⟨r, hr, ?_, vouched_of_leaves _ _ hr (by decide +kernel)⟩
  rw [hlog]
  exact List.mem_cons_of_mem _ (List.mem_cons_of_mem _ (List.mem_singleton_self _))

end GeoRisk
