import GeoRisk.Ingest.Fetch

/-!
# The validators of a source

A poll sends the validators that are stored for its source, and stores those it is left with:
`fetch` keeps ours where a 304 sends none, and `record_fetch_state` keeps the stored one wherever
the response sends none, which a new representation need not.  A poll whose run raises, or whose tick
is rolled back, stores nothing of its answer.

* `Validators.after`      the validators of the latest representation, after one more answer;
* `Validators.merge`      what is stored after it;
* `fetch_recorded`        `fetch` and `record_fetch_state` together come to `merge`;
* `History`, `pollSource` the polls of one source, beside the validators of its latest
                          representation;
* `Current`               the stored validators are those of the latest representation;
* `Answer.Supersedes`     a new representation sends each validator that is stored;
* `Answer.Repeats`        the answer sends no validator that is not stored;
* `Superseded`            the first of a poll that is kept, the second of one that is lost;
* `current_iff_superseded`    the polls that keep the stored validators current.
-/

namespace GeoRisk
open Kit

structure Validators where
  etag : Option Text
  lastModified : Option Text
  deriving DecidableEq, Repr

def Source.validators (s : Source) : Validators := ⟨s.lastEtag, s.lastModifiedHeader⟩

/-- a header that was sent and is not empty -/
def Response.sent (r : Response) (name : Text) : Option Text := (r.header name).filter (· ≠ [])

def Response.validators (r : Response) : Validators :=
  ⟨r.sent (txt "etag"), r.sent (txt "last-modified")⟩

/-- a 304 sends no representation, and neither does an error -/
def Response.represents (r : Response) : Bool := decide (r.statusCode < 400 ∧ r.statusCode ≠ 304)

def Validators.or (v w : Validators) : Validators :=
  ⟨v.etag.or w.etag, v.lastModified.or w.lastModified⟩

/-- the validators of the latest representation, where they were `v` before the answer -/
def Validators.after (v : Validators) : Option Answer → Validators
  | some (.response r) =>
    if r.represents then r.validators else if r.statusCode = 304 then r.validators.or v else v
  | _ => v

/-- the validators of the answer, and the old ones where it sends none -/
def Validators.merge (v : Validators) : Option Answer → Validators
  | some (.response r) => if r.statusCode < 400 then r.validators.or v else v
  | _ => v

/-- the last answer of the server -/
def Fetching.answer (f : Fetching) : Option Answer := f.requests.getLast?.map (·.2)

def Fetch.returned? : Fetch → Option FetchResult
  | .returned fetch => some fetch
  | _ => none

/-- what `record_fetch_state` leaves of the validators `v` -/
def Validators.recorded (v : Validators) (fetch : Option FetchResult) : Validators :=
  ⟨((fetch.bind (·.etag)).filter (· ≠ [])).or v.etag,
    ((fetch.bind (·.lastModified)).filter (· ≠ [])).or v.lastModified⟩

theorem validators_recordFetchState (source : Source) (fetch : Option FetchResult) (now : DateTime)
    (succeeded : Bool) :
    (recordFetchState source fetch now succeeded).validators = source.validators.recorded fetch :=
  rfl

/-! ## one fetch -/

section
variable {fetcher : HttpFetcher} {env : FetchEnv} {url : Text} {v : Validators} {attempt : Nat}

theorem merge_retried {a : Answer} (h : a.retried = true) : v.merge (some a) = v := by
  cases a with
  | transportError message => rfl
  | response r =>
    have hlarge : ∀ s ∈ retryableStatuses, ¬s < 400 := by decide
    exact if_neg (hlarge _ (of_decide_eq_true h))

/-- the header or ours, recorded over ours, is the header recorded over ours -/
theorem recorded_orElse (header ours : Option Text) :
    ((orElse header ours).filter (· ≠ [])).or ours = (header.filter (· ≠ [])).or ours := by
  unfold orElse
  cases hh : header.filter (· ≠ []) with
  | none =>
    cases ours with
    | none => rfl
    | some x => cases x <;> rfl
  | some x =>
    have hx := (Option.filter_eq_some_iff.mp hh).2
    rw [Option.some_or, Option.filter_some, if_pos hx]
    rfl

theorem recorded_of_ends {result : Fetch}
    (h : pass fetcher env url v.etag v.lastModified attempt = .ends result) :
    v.recorded result.returned? = v.merge (some (env.answers attempt)) := by
  unfold pass at h
  cases ha : env.answers attempt with
  | transportError message =>
    simp only [ha] at h
    split at h <;> cases h
  | response r =>
    simp only [ha] at h
    show v.recorded result.returned? = if r.statusCode < 400 then r.validators.or v else v
    split at h
    · next hblock =>
      cases h
      have hlarge : ∀ s ∈ blockedStatuses, ¬s < 400 := by decide
      rw [if_neg (hlarge _ hblock)]
      rfl
    · split at h
      · next h304 =>
        cases h
        rw [if_pos (by omega)]
        exact congrArg₂ Validators.mk (recorded_orElse _ _) (recorded_orElse _ _)
      · split at h
        · split at h <;> cases h
        · split at h
          · next hlarge =>
            cases h
            rw [if_neg (not_lt.mpr hlarge)]
            rfl
          · next hsmall =>
            cases h
            rw [if_pos (not_le.mp hsmall)]
            rfl

theorem answer_cons (request : List (Text × Text) × Answer) (f : Fetching) (delays : List Double)
    (result : Fetch) :
    Fetching.answer ⟨request :: f.requests, delays, result⟩ = f.answer.or (some request.2) := by
  unfold Fetching.answer
  rw [List.getLast?_cons]
  cases f.requests.getLast? <;> rfl

theorem attempts_recorded (rest : List Nat) (e : Option Text) :
    v.recorded (attempts fetcher env url v.etag v.lastModified rest e).result.returned? =
      v.merge (attempts fetcher env url v.etag v.lastModified rest e).answer := by
  induction rest generalizing e with
  | nil => rfl
  | cons attempt rest ih =>
    rw [attempts]
    rcases @pass_cases fetcher env url v.etag v.lastModified attempt with
      ⟨result, hpass, _⟩ | ⟨error, hpass, hretried, _⟩ | ⟨error, delay, hpass, hretried, _⟩
    · simp only [hpass]
      exact recorded_of_ends hpass
    · simp only [hpass]
      exact (merge_retried hretried).symm
    · simp only [hpass]
      have hkept := merge_retried (v := v) hretried
      cases delay with
      | error x => exact hkept.symm
      | ok d =>
        simp only
        cases sleep d with
        | error x => exact hkept.symm
        | ok u =>
          simp only
          rw [answer_cons, ih]
          -- after the last attempt the answer is the one that was slept after
          cases (attempts fetcher env url v.etag v.lastModified rest (some error)).answer with
          | none => exact hkept.symm
          | some a => rfl

/-- **What is stored after a fetch: the validators of its answer, and the old ones where it sends
none.** -/
theorem fetch_recorded (fetcher : HttpFetcher) (env : FetchEnv) (url : Text) (v : Validators) :
    v.recorded (fetch fetcher env url v.etag v.lastModified).result.returned? =
      v.merge (fetch fetcher env url v.etag v.lastModified).answer := by
  rcases @fetch_cases fetcher env url v.etag v.lastModified with
    ⟨result, hfetch, hnone, _⟩ | ⟨hfetch, _⟩
  · rw [hfetch]
    cases result with
    | returned response => exact absurd rfl (hnone response)
    | _ => rfl
  · rw [hfetch]
    exact attempts_recorded _ none

end

/-! ## one poll -/

section
variable {U : Unicode} {sha : Text → Text} {store store' : Store} {source row : Source}
  {env : SourceEnv} {now : DateTime} {run run' : IngestionRun}

/-- a run that closes its row leaves the source that was put -/
theorem source?_of_close {opened : Store} {status : RunStatus} {error : Option Text}
    (hs : store.source? source.id = some source)
    (h : closeRun (opened.putSource row) env run status error = .ok (store', run'))
    (hsources : opened.sources = store.sources) (hid : row.id = source.id) :
    store'.source? source.id = some row := by
  obtain ⟨_, rfl⟩ := closeRun_ok h
  show lookup Source.id source.id (replace Source.id row opened.sources) = some row
  rw [hsources]
  exact lookup_replace hid hs

theorem ingestResponse_validators {opened : Store} {fetch : FetchResult}
    (hs : store.source? source.id = some source)
    (h : ingestResponse U sha opened source env now run fetch = .ok (store', run'))
    (hsources : opened.sources = store.sources) :
    ∃ row, store'.source? source.id = some row ∧
      row.validators = source.validators.recorded (some fetch) := by
  unfold ingestResponse at h
  simp only at h
  split at h
  · exact ⟨_, source?_of_close hs h hsources rfl, validators_recordFetchState ..⟩
  · obtain ⟨items, _, h⟩ := bind_eq_ok.mp h
    obtain ⟨⟨stored, outcome⟩, hstored, h⟩ := bind_eq_ok.mp h
    obtain ⟨hkept, _⟩ := storeItemsFrom_ok hstored
    exact ⟨_, source?_of_close hs h (hkept.trans hsources) rfl, validators_recordFetchState ..⟩

/-- **A run that returns records the validators of its fetch, if it has any, over those of its
source.** -/
theorem ingestSource_validators (hs : store.source? source.id = some source)
    (h : (ingestSource U sha store source env now).result = .ok (store', run')) :
    ∃ row, store'.source? source.id = some row ∧
      row.validators = source.validators.recorded env.fetch.returned? := by
  have hgoes : Goes U sha store source env now _ := ingestSource_goes
  generalize ingestSource U sha store source env now = r at h hgoes
  cases hgoes with
  | unasked message => cases h
  | blocked message _ hf =>
    rw [hf]
    exact ⟨_, source?_of_close hs h rfl rfl, validators_recordFetchState ..⟩
  | failed message _ hf =>
    rw [hf]
    exact ⟨_, source?_of_close hs h rfl rfl, validators_recordFetchState ..⟩
  | raises message => cases h
  | returned fetch _ hf =>
    rw [hf]
    exact ingestResponse_validators hs h rfl

end

/-! ## runs of polls -/

/-- the store, and the validators of the latest representation of one source -/
structure History where
  store : Store
  latest : Validators

/-- one poll of a source: what the server answers, what else its run meets, and whether the tick is
rolled back though the run returns: another source of it raises, or its commit fails -/
structure Poll where
  web : FetchEnv
  run : SourceEnv
  now : DateTime
  rolledBack : Bool := false

/-- a new representation sends each of the validators -/
def Answer.Supersedes (v : Validators) : Answer → Prop
  | .response r => r.represents = true →
    (v.etag = none ∨ r.sent (txt "etag") ≠ none) ∧
      (v.lastModified = none ∨ r.sent (txt "last-modified") ≠ none)
  | .transportError _ => True

/-- a new representation sends just these validators, and a 304 sends no other -/
def Answer.Repeats (v : Validators) : Answer → Prop
  | .response r => (r.represents = true → r.validators = v) ∧
    (r.statusCode = 304 →
      (r.sent (txt "etag") = none ∨ r.sent (txt "etag") = v.etag) ∧
        (r.sent (txt "last-modified") = none ∨ r.sent (txt "last-modified") = v.lastModified))
  | .transportError _ => True

instance (v : Validators) (a : Answer) : Decidable (a.Supersedes v) :=
  match a with
  | .response _ => inferInstanceAs (Decidable (_ → _ ∧ _))
  | .transportError _ => .isTrue trivial

instance (v : Validators) (a : Answer) : Decidable (a.Repeats v) :=
  match a with
  | .response _ => inferInstanceAs (Decidable ((_ → _ = _) ∧ (_ → _ ∧ _)))
  | .transportError _ => .isTrue trivial

section
variable (U : Unicode) (sha : Text → Text) (fetcher : HttpFetcher) (id : Nat)

def Poll.fetching (p : Poll) (source : Source) : Fetching :=
  fetch fetcher p.web source.feedUrl source.lastEtag source.lastModifiedHeader

/-- the last answer of the server, where the run comes as far as the fetch -/
def Poll.answer (p : Poll) (source : Source) : Option Answer :=
  if p.run.asks then (p.fetching fetcher source).answer else none

/-- the store after the poll, where its run returns and its tick is committed -/
def Poll.kept (p : Poll) (store : Store) (source : Source) : Option Store :=
  if p.rolledBack then none
  else
    (ingestSource U sha store source { p.run with fetch := (p.fetching fetcher source).result }
      p.now).result.toOption.map Prod.fst

/-- a poll; one that is not kept is rolled back, and nothing of it is stored -/
def pollSource (h : History) (p : Poll) : Option History := do
  let source ← h.store.source? id
  some ⟨(p.kept U sha fetcher h.store source).getD h.store,
    h.latest.after (p.answer fetcher source)⟩

def Current (h : History) : Prop :=
  ∀ source, h.store.source? id = some source → source.validators = h.latest

/-- where the poll is kept, a new representation sends each validator that is stored; where it is
lost, the answer sends none that is not -/
def Superseded (h : History) (p : Poll) : Prop :=
  ∀ source ∈ h.store.source? id, ∀ a ∈ p.answer fetcher source,
    if (p.kept U sha fetcher h.store source).isSome then a.Supersedes source.validators
    else a.Repeats source.validators

instance (h : History) (p : Poll) : Decidable (Superseded U sha fetcher id h p) :=
  inferInstanceAs (Decidable (∀ source ∈ h.store.source? id, ∀ a ∈ p.answer fetcher source, _))

end

section
variable {U : Unicode} {sha : Text → Text} {fetcher : HttpFetcher} {id : Nat} {h t : History}
  {p : Poll}

/-- a poll that is kept has merged the stored validators with those of its answer -/
theorem validators_of_kept {store store' : Store} {source : Source}
    (hs : store.source? source.id = some source) (hk : p.kept U sha fetcher store source = some store') :
    ∃ row, store'.source? source.id = some row ∧
      row.validators = source.validators.merge (p.answer fetcher source) := by
  unfold Poll.kept at hk
  split at hk
  · cases hk
  · obtain ⟨⟨after, run⟩, hrun, rfl⟩ := Option.map_eq_some_iff.mp hk
    have hok := eq_ok_of_toOption hrun
    have hasks : p.run.asks = true := by
      obtain ⟨blocked, hb, _⟩ := ingestSource_ok hok
      have hsome := congrArg Option.isSome hb
      rw [blocked_isSome] at hsome
      exact hsome
    obtain ⟨row, hrow, hv⟩ := ingestSource_validators hs hok
    refine ⟨row, hrow, ?_⟩
    rw [hv, Poll.answer, if_pos hasks]
    exact fetch_recorded fetcher p.web source.feedUrl source.validators

/-- what a poll does: where it is kept, the stored validators are merged with those of the answer;
the latest ones are replaced by them -/
theorem pollSource_eq_some (hp : pollSource U sha fetcher id h p = some t) :
    ∃ source row, h.store.source? id = some source ∧ t.store.source? id = some row ∧
      row.validators = (if (p.kept U sha fetcher h.store source).isSome then
        source.validators.merge (p.answer fetcher source) else source.validators) ∧
      t.latest = h.latest.after (p.answer fetcher source) := by
  obtain ⟨source, hs, hp⟩ := Option.bind_eq_some_iff.mp hp
  cases hp
  have hid : source.id = id := lookup_key hs
  subst hid
  cases hk : p.kept U sha fetcher h.store source with
  | none =>
    refine ⟨source, source, hs, hs, ?_, rfl⟩
    rw [hk]
    rfl
  | some store =>
    obtain ⟨row, hrow, hv⟩ := validators_of_kept hs hk
    refine ⟨source, row, hs, hrow, ?_, rfl⟩
    rw [hk]
    exact hv

theorem or_eq_left_iff {a b : Option Text} : a.or b = a ↔ b = none ∨ a ≠ none := by
  cases a <;> cases b <;> simp

/-- merging with the answer and being replaced by it come to the same exactly where the answer is no
representation, or leaves none of the old validators -/
theorem merge_eq_after_iff {v : Validators} {answer : Option Answer} :
    v.merge answer = v.after answer ↔ ∀ a ∈ answer, a.Supersedes v := by
  rcases answer with _ | ⟨r | message⟩
  · exact iff_of_true rfl nofun
  · have hall : (∀ a ∈ some (Answer.response r), a.Supersedes v) ↔
        Answer.Supersedes v (.response r) := by simp
    rw [hall]
    by_cases hr : r.represents = true
    · have hsmall : r.statusCode < 400 := (of_decide_eq_true hr).1
      have hiff : r.validators.or v = r.validators ↔
          (v.etag = none ∨ r.sent (txt "etag") ≠ none) ∧
            (v.lastModified = none ∨ r.sent (txt "last-modified") ≠ none) := by
        rw [← or_eq_left_iff, ← or_eq_left_iff]
        exact Validators.mk.injEq .. ▸ Iff.rfl
      simp only [Validators.merge, Validators.after]
      rw [if_pos hsmall, if_pos hr, hiff]
      exact ⟨fun h _ => h, fun h => h hr⟩
    · refine iff_of_true ?_ fun hrep => absurd hrep hr
      simp only [Validators.merge, Validators.after]
      rw [if_neg hr]
      by_cases h304 : r.statusCode = 304
      · rw [if_pos h304, if_pos (by omega)]
      · rw [if_neg h304, if_neg fun hsmall => hr (decide_eq_true ⟨hsmall, h304⟩)]
  · refine iff_of_true rfl fun a ha => ?_
    cases ha
    exact trivial

theorem or_eq_right_iff {a b : Option Text} : a.or b = b ↔ a = none ∨ a = b := by
  cases a <;> cases b <;> simp

/-- being replaced by the answer changes nothing exactly where the answer repeats the validators -/
theorem after_eq_self_iff {v : Validators} {answer : Option Answer} :
    v.after answer = v ↔ ∀ a ∈ answer, a.Repeats v := by
  rcases answer with _ | ⟨r | message⟩
  · exact iff_of_true rfl nofun
  · have hall : (∀ a ∈ some (Answer.response r), a.Repeats v) ↔
        Answer.Repeats v (.response r) := by simp
    rw [hall]
    simp only [Validators.after, Answer.Repeats]
    by_cases hr : r.represents = true
    · have h304 : r.statusCode ≠ 304 := (of_decide_eq_true hr).2
      rw [if_pos hr]
      exact ⟨fun h => ⟨fun _ => h, fun k => absurd k h304⟩, fun h => h.1 hr⟩
    · rw [if_neg hr]
      by_cases h304 : r.statusCode = 304
      · have hiff : r.validators.or v = v ↔
            (r.sent (txt "etag") = none ∨ r.sent (txt "etag") = v.etag) ∧
              (r.sent (txt "last-modified") = none ∨
                r.sent (txt "last-modified") = v.lastModified) := by
          rw [← or_eq_right_iff, ← or_eq_right_iff]
          exact Validators.mk.injEq .. ▸ Iff.rfl
        rw [if_pos h304, hiff]
        exact ⟨fun h => ⟨fun k => absurd k hr, fun _ => h⟩, fun h => h.2 h304⟩
      · rw [if_neg h304]
        exact iff_of_true rfl ⟨fun k => absurd k hr, fun k => absurd k h304⟩
  · refine iff_of_true rfl fun a ha => ?_
    cases ha
    exact trivial

/-- **A poll keeps the stored validators current exactly where it meets the condition.** -/
theorem current_iff_of_poll (hc : Current id h) (hp : pollSource U sha fetcher id h p = some t) :
    Current id t ↔ Superseded U sha fetcher id h p := by
  obtain ⟨source, row, hs, hrow, hv, hlatest⟩ := pollSource_eq_some hp
  have hcur : Current id t ↔ row.validators = t.latest := by
    constructor
    · intro ht
      exact ht row hrow
    · intro ht row' hrow'
      rw [hrow] at hrow'
      cases hrow'
      exact ht
  have hsup : Superseded U sha fetcher id h p ↔ ∀ a ∈ p.answer fetcher source,
      if (p.kept U sha fetcher h.store source).isSome then a.Supersedes source.validators
      else a.Repeats source.validators := by
    constructor
    · intro k
      exact k source hs
    · intro k source' hs'
      rw [Option.mem_def, hs] at hs'
      cases hs'
      exact k
  rw [hcur, hsup, hv, hlatest, ← hc source hs]
  cases p.kept U sha fetcher h.store source with
  | none => exact eq_comm.trans after_eq_self_iff
  | some store => exact merge_eq_after_iff

/-- **The stored validators stay those of the latest representation exactly in the runs where each
new representation sends every validator that is stored when it comes, and no poll with another
validator is lost.** -/
theorem current_iff_superseded {ps : List Poll}
    (hrun : exec (pollSource U sha fetcher id) h ps = some t) (h0 : Current id h) :
    (∀ qs u, qs <+: ps → exec (pollSource U sha fetcher id) h qs = some u → Current id u) ↔
      Along (pollSource U sha fetcher id) (Superseded U sha fetcher id) h ps :=
  forall_prefix_iff_along (pollSource U sha fetcher id) (J := fun _ => True)
    (fun _ _ _ _ _ => trivial) (fun _ _ _ _ hc hp => current_iff_of_poll hc hp) hrun trivial h0

end

namespace Sample

def timetable : Source where
  id := 0
  slug := txt "port-timetable"
  name := txt "Port timetable"
  publisher := txt "Port authority"
  feedUrl := txt "https://example.org/timetable"
  retrievalMethod := txt "rss"

def neverPolled : History := ⟨{ nextId := 1, sources := [timetable] }, ⟨none, none⟩⟩

theorem neverPolled_current : Current 0 neverPolled := by
  intro source hs
  cases hs
  rfl

/-- the server answers with a status and the two validators -/
def replying (status : Nat) (etag lastModified : Option Text) : Poll where
  web :=
    { answers := fun _ => .response
        { url := timetable.feedUrl
          statusCode := status
          header := fun name =>
            if name = txt "etag" then etag
            else if name = txt "last-modified" then lastModified
            else none }
      clock := fun _ => ⟨0⟩ }
  run := { fetch := .failed [], finishedAt := ⟨0⟩ }
  now := ⟨0⟩

/-- a representation, none that is newer, a new one, and a lost poll that finds none newer -/
def validatedPolls : List Poll :=
  [replying 200 (some (txt "v1")) (some (txt "Mon, 07 Sep 2026 08:00:00 GMT")),
    replying 304 none none,
    replying 200 (some (txt "v2")) (some (txt "Tue, 08 Sep 2026 08:00:00 GMT")),
    { replying 304 (some (txt "v2")) none with rolledBack := true }]

end Sample

/-- the validator of the first representation is still sent after one without any -/
theorem stale_validator :
    ¬ ∀ (U : Unicode) (sha : Text → Text) (fetcher : HttpFetcher) (id : Nat) (ps : List Poll)
      (h t : History), Current id h → exec (pollSource U sha fetcher id) h ps = some t →
        Current id t := by
  intro h
  have hrun : (exec (pollSource Unicode.latin id Sample.polite 0) Sample.neverPolled
      [Sample.replying 200 (some (txt "v1")) none, Sample.replying 200 none none]).map
        (fun t => ((t.store.source? 0).map Source.validators, t.latest)) =
      some (some ⟨some (txt "v1"), none⟩, ⟨none, none⟩) := by decide +kernel
  obtain ⟨t, ht, heq⟩ := Option.map_eq_some_iff.mp hrun
  obtain ⟨hstored, hlatest⟩ := Prod.mk.inj heq
  obtain ⟨source, hs, hv⟩ := Option.map_eq_some_iff.mp hstored
  have hcur := h Unicode.latin id Sample.polite 0 _ _ t Sample.neverPolled_current ht source hs
  rw [hv, hlatest] at hcur
  exact absurd hcur (by decide)

/-- nor is the validator of a representation stored whose tick is rolled back -/
example : (exec (pollSource Unicode.latin id Sample.polite 0) Sample.neverPolled
    [{ Sample.replying 200 (some (txt "v1")) none with rolledBack := true }]).map
      (fun t => ((t.store.source? 0).map Source.validators, t.latest)) =
    some (some ⟨none, none⟩, ⟨some (txt "v1"), none⟩) := by decide +kernel

theorem current_iff_superseded_validated :
    ∃ t, exec (pollSource Unicode.latin id Sample.polite 0) Sample.neverPolled
        Sample.validatedPolls = some t ∧
      ∀ qs u, qs <+: Sample.validatedPolls →
        exec (pollSource Unicode.latin id Sample.polite 0) Sample.neverPolled qs = some u →
          Current 0 u := by
  obtain ⟨t, ht⟩ := Option.isSome_iff_exists.mp (show (exec (pollSource Unicode.latin id
    Sample.polite 0) Sample.neverPolled Sample.validatedPolls).isSome = true by decide +kernel)
  exact ⟨t, ht, (current_iff_superseded ht Sample.neverPolled_current).mpr (by decide +kernel)⟩

end GeoRisk
