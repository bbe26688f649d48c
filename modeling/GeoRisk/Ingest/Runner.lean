import Mathlib.Data.List.Sort
import GeoRisk.Kit.Run
import GeoRisk.Ingest.Raw
import GeoRisk.Processing.Pipeline

/-!
# One source, end to end

`runner.py`: which sources are due, and the run of one of them.  The fetcher, the adapter and the
answers of the database are the surroundings of the run.

* `dueSources`          `due_sources`, as keys;
* `ingestSource`        `ingest_source`: whether the fetcher was asked and refused us, and how the
                        run ended;
* `Goes`                the ways such a run goes;
* `ingestSource_ok`     a run that returns has closed its row, written one source, and disabled it
                        if it was refused.
-/

namespace GeoRisk
open Kit

def isDue (source : Source) (now : DateTime) : Bool :=
  match source.lastFetchedAt with
  | none => true
  | some t => decide (t.addSeconds source.pollIntervalSeconds ≤ now)

/-- `due_sources`; `collate` is the order of the database on slugs and `held` the rows that another
session has locked -/
def dueSources (store : Store) (now : DateTime) (collate : Text → Text → Bool)
    (held : Nat → Bool) : List Nat :=
  (((store.sources.filter fun s => s.enabled && !held s.id).insertionSort
    fun a b => collate a.slug b.slug = true).filter (isDue · now)).map (·.id)

/-- how `fetcher.fetch` ends -/
inductive Fetch
  /-- `SourceBlocked` -/
  | blocked (message : Text)
  /-- `FetchFailed` -/
  | failed (message : Text)
  | raises (message : Text)
  | returned (fetch : FetchResult)

def Fetch.isBlocked : Fetch → Bool
  | .blocked _ => true
  | _ => false

/-- the surroundings of the run of one source -/
structure SourceEnv where
  /-- the flush of the new run row -/
  opens : Bool := true
  /-- `source_by_slug(source.slug).build_adapter()` -/
  adapter : Except Text Unit := .ok ()
  fetch : Fetch
  /-- `adapter.parse`, with the answer of the database to each item -/
  items : Except Text (List (ParsedItem × Insertion)) := .ok []
  finishedAt : DateTime
  /-- the flush of the closed run row -/
  closes : Bool := true

/-- the run comes as far as the fetch -/
def SourceEnv.asks (env : SourceEnv) : Bool := env.opens && env.adapter.isOk

/-- nothing around the run raises but what `ingest_source` handles -/
def SourceEnv.steady (env : SourceEnv) : Bool :=
  env.opens && env.adapter.isOk && env.closes &&
    match env.fetch with
    | .blocked _ | .failed _ => true
    | .raises _ => false
    | .returned fetch =>
      fetch.notModified ||
        match env.items with
        | .ok items => items.all fun x => x.2.returns
        | .error _ => false

/-- how a run ended, and whether the fetcher was asked and refused us -/
structure SourceRun where
  blocked : Option Bool
  result : Except Text (Store × IngestionRun)

/-- `_close` -/
def closeRun (store : Store) (env : SourceEnv) (run : IngestionRun) (status : RunStatus)
    (error : Option Text) : Except Text (Store × IngestionRun) := do
  let run := { run with
    status := status, errorMessage := error, finishedAt := some env.finishedAt }
  ensure env.closes refused
  return ({ store with runs := replace IngestionRun.id run store.runs }, run)

/-- the reason recorded on a source that refused us -/
def blockedReason (now : DateTime) (message : Text) : Text :=
  txt "blocked at " ++ Timestamp.isoformat ⟨now, 0⟩ ++ txt ": " ++ message

section
variable (U : Unicode) (sha : Text → Text)

def ingestResponse (store : Store) (source : Source) (env : SourceEnv) (now : DateTime)
    (run : IngestionRun) (fetch : FetchResult) : Except Text (Store × IngestionRun) :=
  let run := { run with httpRequests := fetch.attempts }
  if fetch.notModified then
    closeRun (store.putSource (recordFetchState source (some fetch) now true)) env run .skipped none
  else do
    let items ← env.items
    let (store, outcome) ← storeItems U sha source fetch run.id store items
    let run := { run with
      itemsSeen := outcome.seen
      itemsNew := outcome.new
      itemsDuplicate := outcome.duplicate
      itemsFailed := outcome.failed }
    closeRun (store.putSource (recordFetchState source (some fetch) now true)) env run .succeeded
      none

def ingestSource (store : Store) (source : Source) (env : SourceEnv) (now : DateTime) :
    SourceRun :=
  if !env.opens then ⟨none, .error refused⟩
  else
    let run : IngestionRun :=
      { id := store.nextId, sourceId := source.id, startedAt := now, status := .running }
    let store := { store with nextId := store.nextId + 1, runs := store.runs ++ [run] }
    match env.adapter with
    | .error e => ⟨none, .error e⟩
    | .ok () =>
      match env.fetch with
      | .blocked message =>
        let source := { source with
          enabled := false, disabledReason := some (blockedReason now message) }
        ⟨some true, closeRun (store.putSource (recordFetchState source none now false)) env run
          .failed (some message)⟩
      | .failed message =>
        ⟨some false, closeRun (store.putSource (recordFetchState source none now false)) env run
          .failed (some message)⟩
      | .raises message => ⟨some false, .error message⟩
      | .returned fetch => ⟨some false, ingestResponse U sha store source env now run fetch⟩

variable {U sha} {store store' : Store} {source : Source} {env : SourceEnv} {now : DateTime}
  {run run' : IngestionRun}

theorem closeRun_ok {status : RunStatus} {error : Option Text}
    (h : closeRun store env run status error = .ok (store', run')) :
    run' = { run with
        status := status, errorMessage := error, finishedAt := some env.finishedAt } ∧
      store' = { store with runs := replace IngestionRun.id run' store.runs } := by
  obtain ⟨_, _, h⟩ := bind_eq_ok.mp h
  cases h
  exact ⟨rfl, rfl⟩

/-- the row that is open while its source runs -/
def openedRun (store : Store) (source : Source) (now : DateTime) : IngestionRun :=
  { id := store.nextId, sourceId := source.id, startedAt := now, status := .running }

/-- the store while its source runs -/
def Store.opened (store : Store) (source : Source) (now : DateTime) : Store :=
  { store with nextId := store.nextId + 1, runs := store.runs ++ [openedRun store source now] }

variable (U sha store source env now) in
/-- the ways a run goes: it stops before the fetch, or it goes on as the fetch ends -/
inductive Goes : SourceRun → Prop
  | unasked (message : Text) (asks : env.asks = false) : Goes ⟨none, .error message⟩
  | blocked (message : Text) (asks : env.asks = true) (fetch : env.fetch = .blocked message) :
      Goes ⟨some true, closeRun ((store.opened source now).putSource (recordFetchState
        { source with enabled := false, disabledReason := some (blockedReason now message) } none
          now false)) env (openedRun store source now) .failed (some message)⟩
  | failed (message : Text) (asks : env.asks = true) (fetch : env.fetch = .failed message) :
      Goes ⟨some false, closeRun ((store.opened source now).putSource
        (recordFetchState source none now false)) env (openedRun store source now) .failed
          (some message)⟩
  | raises (message : Text) (asks : env.asks = true) (fetch : env.fetch = .raises message) :
      Goes ⟨some false, .error message⟩
  | returned (result : FetchResult) (asks : env.asks = true) (fetch : env.fetch = .returned result) :
      Goes ⟨some false, ingestResponse U sha (store.opened source now) source env now
        (openedRun store source now) result⟩

/-- **What the run of a source comes to.** -/
theorem ingestSource_goes :
    Goes U sha store source env now (ingestSource U sha store source env now) := by
  unfold ingestSource
  cases ho : env.opens with
  | false => exact .unasked _ (by rw [SourceEnv.asks, ho, Bool.false_and])
  | true =>
    cases ha : env.adapter with
    | error e => exact .unasked _ (by rw [SourceEnv.asks, ha]; exact Bool.and_false _)
    | ok _ =>
      have hasks : env.asks = true := by
        rw [SourceEnv.asks, ho, ha]
        rfl
      cases hf : env.fetch with
      | blocked message => exact .blocked message hasks hf
      | failed message => exact .failed message hasks hf
      | raises message => exact .raises message hasks hf
      | returned result => exact .returned result hasks hf

/-- what a run that returns has written: its closed row, documents, and its source with the state of
the fetch, disabled exactly if it was refused -/
structure SourceEffect (source : Source) (now : DateTime) (blocked : Bool) (before after : Store)
    (run : IngestionRun) : Prop where
  nextId : before.nextId < after.nextId
  row : run.id = before.nextId ∧ run.sourceId = source.id
  closed : run.status ≠ .running ∧ run.finishedAt.isSome
  runs : after.runs = replace IngestionRun.id run (before.runs ++ [openedRun before source now])
  documents : before.documents <+: after.documents
  sources : ∃ base fetch succeeded,
    (base = source ∨ ∃ reason, base = { source with
      enabled := false, disabledReason := some reason }) ∧
    (blocked = true → base.enabled = false) ∧ (blocked = false → base.enabled = source.enabled) ∧
    after.sources = replace Source.id (recordFetchState base fetch now succeeded) before.sources

/-- the row that replaces the source -/
theorem SourceEffect.fetched {before after : Store} {blocked : Bool}
    (h : SourceEffect source now blocked before after run) :
    ∃ row, row.id = source.id ∧ row.lastFetchedAt = some now ∧
      row.pollIntervalSeconds = source.pollIntervalSeconds ∧
      after.sources = replace Source.id row before.sources ∧
      (blocked = true → row.enabled = false) ∧ (blocked = false → row.enabled = source.enabled) := by
  obtain ⟨base, fetch, succeeded, hbase, hoff, hon, hsources⟩ := h.sources
  refine ⟨recordFetchState base fetch now succeeded, ?_, rfl, ?_, hsources, hoff, hon⟩
  · rcases hbase with rfl | ⟨_, rfl⟩ <;> rfl
  · rcases hbase with rfl | ⟨_, rfl⟩ <;> rfl

/-- a run that closes its row after the state of the fetch was put on its source -/
theorem sourceEffect_of_close {opened : Store} {base : Source} {fetch : Option FetchResult}
    {succeeded blocked : Bool} {status : RunStatus} {error : Option Text}
    (hbase : base = source ∨ ∃ reason, base = { source with
      enabled := false, disabledReason := some reason })
    (hoff : blocked = true → base.enabled = false)
    (hon : blocked = false → base.enabled = source.enabled)
    (hs : status ≠ .running) (hrun : run.id = store.nextId ∧ run.sourceId = source.id)
    (hnext : store.nextId < opened.nextId)
    (hruns : opened.runs = store.runs ++ [openedRun store source now])
    (hdocs : store.documents <+: opened.documents) (hsources : opened.sources = store.sources)
    (h : closeRun (opened.putSource (recordFetchState base fetch now succeeded)) env run status
      error = .ok (store', run')) : SourceEffect source now blocked store store' run' := by
  obtain ⟨rfl, rfl⟩ := closeRun_ok h
  refine ⟨hnext, hrun, ⟨hs, rfl⟩, ?_, hdocs, base, fetch, succeeded, hbase, hoff, hon, ?_⟩
  · show replace IngestionRun.id _ opened.runs = _
    rw [hruns]
  · show replace Source.id _ opened.sources = _
    rw [hsources]

theorem ingestResponse_ok {opened : Store} {fetch : FetchResult}
    (hrun : run.id = store.nextId ∧ run.sourceId = source.id) (hnext : store.nextId < opened.nextId)
    (hruns : opened.runs = store.runs ++ [openedRun store source now])
    (hdocs : store.documents <+: opened.documents) (hsources : opened.sources = store.sources)
    (h : ingestResponse U sha opened source env now run fetch = .ok (store', run')) :
    SourceEffect source now false store store' run' := by
  unfold ingestResponse at h
  simp only at h
  split at h
  · refine sourceEffect_of_close (Or.inl rfl) Bool.noConfusion (fun _ => rfl)
      RunStatus.noConfusion ?_ hnext hruns hdocs hsources h
    exact hrun
  · obtain ⟨items, _, h⟩ := bind_eq_ok.mp h
    obtain ⟨⟨s, outcome⟩, hs, h⟩ := bind_eq_ok.mp h
    obtain ⟨k1, k2, k3, k4, _⟩ := storeItemsFrom_ok hs
    refine sourceEffect_of_close (Or.inl rfl) Bool.noConfusion (fun _ => rfl)
      RunStatus.noConfusion ?_ ?_ ?_ ?_ ?_ h
    · exact hrun
    · exact lt_of_lt_of_le hnext k3
    · exact k2.trans hruns
    · exact hdocs.trans k4
    · exact k1.trans hsources

/-- **A run that returns has asked the fetcher, closed its row, and disabled its source exactly if
it was refused.** -/
theorem ingestSource_ok
    (h : (ingestSource U sha store source env now).result = .ok (store', run')) :
    ∃ blocked, (ingestSource U sha store source env now).blocked = some blocked ∧
      SourceEffect source now blocked store store' run' := by
  have hgoes : Goes U sha store source env now _ := ingestSource_goes
  generalize ingestSource U sha store source env now = r at h hgoes ⊢
  have hnext : store.nextId < (store.opened source now).nextId := Nat.lt_succ_self _
  cases hgoes with
  | unasked message => cases h
  | blocked message =>
    exact ⟨true, rfl, sourceEffect_of_close (Or.inr ⟨_, rfl⟩) (fun _ => rfl) Bool.noConfusion
      RunStatus.noConfusion ⟨rfl, rfl⟩ hnext rfl List.prefix_rfl rfl h⟩
  | failed message =>
    exact ⟨false, rfl, sourceEffect_of_close (Or.inl rfl) Bool.noConfusion (fun _ => rfl)
      RunStatus.noConfusion ⟨rfl, rfl⟩ hnext rfl List.prefix_rfl rfl h⟩
  | raises message => cases h
  | returned fetch =>
    exact ⟨false, rfl, ingestResponse_ok ⟨rfl, rfl⟩ hnext rfl List.prefix_rfl rfl h⟩

theorem closeRun_isOk {status : RunStatus} {error : Option Text} (h : env.closes = true) :
    ∃ x, closeRun store env run status error = .ok x := by
  unfold closeRun ensure
  rw [h]
  exact ⟨_, rfl⟩

theorem ingestResponse_isOk {fetch : FetchResult} (hc : env.closes = true)
    (hf : fetch.notModified = true ∨
      ∃ items, env.items = .ok items ∧ ∀ x ∈ items, x.2.returns = true) :
    ∃ x, ingestResponse U sha store source env now run fetch = .ok x := by
  unfold ingestResponse
  simp only
  split
  · exact closeRun_isOk hc
  · next hmod =>
    obtain ⟨items, hitems, hret⟩ := hf.resolve_left hmod
    obtain ⟨x, hx⟩ : ∃ x, storeItems U sha source fetch run.id store items = .ok x :=
      storeItemsFrom_isOk hret
    simp only [hitems, hx, bind, Except.bind]
    exact closeRun_isOk hc

/-- **In steady surroundings a run returns.** -/
theorem ingestSource_isOk (h : env.steady = true) :
    ∃ x, (ingestSource U sha store source env now).result = .ok x := by
  unfold SourceEnv.steady at h
  simp only [Bool.and_eq_true] at h
  obtain ⟨⟨⟨ho, ha⟩, hc⟩, hf⟩ := h
  have hgoes : Goes U sha store source env now _ := ingestSource_goes
  generalize ingestSource U sha store source env now = r at hgoes ⊢
  cases hgoes with
  | unasked message hasks =>
    rw [SourceEnv.asks, ho, ha] at hasks
    cases hasks
  | blocked message => exact closeRun_isOk hc
  | failed message => exact closeRun_isOk hc
  | raises message _ hfetch =>
    rw [hfetch] at hf
    cases hf
  | returned fetch _ hfetch =>
    rw [hfetch] at hf
    simp only [Bool.or_eq_true] at hf
    refine ingestResponse_isOk hc (hf.imp id fun hf => ?_)
    cases hitems : env.items with
    | error e => rw [hitems] at hf; cases hf
    | ok items =>
      rw [hitems] at hf
      exact ⟨items, rfl, List.all_eq_true.mp hf⟩

theorem not_steady_of_error {e : Text}
    (h : (ingestSource U sha store source env now).result = .error e) : env.steady = false := by
  refine Bool.eq_false_iff.mpr fun hsteady => ?_
  obtain ⟨x, hx⟩ : ∃ x, (ingestSource U sha store source env now).result = .ok x :=
    ingestSource_isOk hsteady
  rw [h] at hx
  cases hx

/-- the fetcher answers exactly the runs that come as far as the fetch -/
theorem blocked_isSome :
    (ingestSource U sha store source env now).blocked.isSome = env.asks := by
  have hgoes : Goes U sha store source env now _ := ingestSource_goes
  generalize ingestSource U sha store source env now = r at hgoes ⊢
  cases hgoes with
  | unasked message hasks => rw [hasks]; rfl
  | blocked message hasks => rw [hasks]; rfl
  | failed message hasks => rw [hasks]; rfl
  | raises message hasks => rw [hasks]; rfl
  | returned fetch hasks => rw [hasks]; rfl

/-- the fetcher refused us only if it says so -/
theorem isBlocked_of_run (h : (ingestSource U sha store source env now).blocked = some true) :
    env.fetch.isBlocked = true := by
  have hgoes : Goes U sha store source env now _ := ingestSource_goes
  generalize ingestSource U sha store source env now = r at h hgoes
  cases hgoes with
  | blocked message _ hf => rw [hf]; rfl
  | _ => cases h

end

end GeoRisk
