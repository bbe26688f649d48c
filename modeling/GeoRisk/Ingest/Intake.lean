import GeoRisk.Ingest.Batch
import GeoRisk.Ingest.Runner

/-!
# What a run takes in

The documents that the run of a source adds, and the counts on its row.

* `Taken`                  a document made of an item of the response, as far as the source may be
                           stored;
* `storeItemsFrom_eq`      a batch adds such documents, one for each item that it counts as new;
* `Intake`                 what a run that returns has written, all tables and counts;
* `ingestSource_intake`    every run that returns has written that.
-/

namespace GeoRisk
open Kit

section
variable {U : Unicode} {sha : Text → Text} {store store' : Store} {source : Source}
  {env : SourceEnv} {now : DateTime} {run run' : IngestionRun}

/-! ## a batch -/

variable (U sha source) in
/-- a document that the run has stored -/
def Taken (runId : Nat) (d : RawDocument) : Prop :=
  ∃ fetch item id, d = { documentRow U sha source fetch runId item with id := id }

theorem Taken.fields {runId : Nat} {d : RawDocument} (h : Taken U sha source runId d) :
    d.sourceId = source.id ∧ d.fetchRunId = some runId ∧
      (d.rawBody.isSome = true ∨ d.cleanText.isSome = true → source.storeFullText = true) := by
  obtain ⟨fetch, item, id, rfl⟩ := h
  refine ⟨rfl, rfl, fun hbody => ?_⟩
  cases hf : source.storeFullText with
  | true => rfl
  | false =>
    simp [documentRow, computeHashes, ParsedItem.keptBody, hf] at hbody

/-- **A batch adds one document for each item that it counts as new, and changes nothing else.** -/
theorem storeItemsFrom_eq {fetch : FetchResult} {runId : Nat} {outcome outcome' : StoreOutcome}
    {items : List (ParsedItem × Insertion)}
    (h : storeItemsFrom U sha source fetch runId store outcome items = .ok (store', outcome')) :
    ∃ next added, store' = { store with
        nextId := next, documents := store.documents ++ added } ∧
      outcome'.new = outcome.new + added.length ∧ (∀ d ∈ added, Taken U sha source runId d) ∧
      store.nextId ≤ next ∧
      (Numbered RawDocument.id store.documents store.nextId →
        Numbered RawDocument.id (store.documents ++ added) next) ∧
      (store.keys.Nodup → ((store.documents ++ added).map RawDocument.key).Nodup) := by
  induction items generalizing store outcome with
  | nil =>
    cases h
    refine ⟨_, [], ?_, rfl, fun _ hd => absurd hd List.not_mem_nil, le_refl _, ?_, ?_⟩
    · rw [List.append_nil]
    · rw [List.append_nil]
      exact fun hk => hk
    · rw [List.append_nil]
      exact fun hk => hk
  | cons x rest ih =>
    obtain ⟨item, insertion⟩ := x
    unfold storeItemsFrom at h
    split at h
    · next store₁ id hnew =>
      have hunknown : keyOf U sha source item ∉ store.keys := fun hk => by
        rw [storeItem_known hk] at hnew
        cases hnew
      obtain ⟨_, rfl⟩ := storeItem_new hnew
      obtain ⟨next, added, rfl, hcount, htaken, hnext, hkeys, hdistinct⟩ := ih h
      refine ⟨next, { documentRow U sha source fetch runId item with id := store.nextId } :: added,
        ?_, ?_, ?_, le_trans (Nat.le_succ _) hnext, fun hk => ?_, fun hk => ?_⟩
      · simp only [List.append_assoc, List.singleton_append]
      · rw [hcount, List.length_cons]
        simp only
        omega
      · intro d hd
        rcases List.mem_cons.mp hd with rfl | hd
        · exact ⟨fetch, item, store.nextId, rfl⟩
        · exact htaken d hd
      · rw [List.append_cons]
        exact hkeys (hk.append (le_refl _) (Nat.lt_succ_self _))
      · rw [List.append_cons]
        refine hdistinct ?_
        show (store.addItem U sha source fetch runId item).keys.Nodup
        rw [keys_addItem]
        exact (List.nodup_append_comm.mp (List.nodup_cons.mpr ⟨hunknown, hk⟩))
    · obtain ⟨next, added, hrest⟩ := ih h
      exact ⟨next, added, hrest⟩
    · obtain ⟨next, added, hrest⟩ := ih h
      exact ⟨next, added, hrest⟩
    · cases h

/-! ## a run -/

variable (U sha store source now) in
/-- what a run that returns has written -/
structure Intake (run : IngestionRun) (added : List RawDocument) (after : Store) : Prop where
  tables : ∃ next sources, after = { store with
    nextId := next
    sources := sources
    runs := replace IngestionRun.id run (store.runs ++ [openedRun store source now])
    documents := store.documents ++ added }
  next : store.nextId < after.nextId
  row : run.id = store.nextId ∧ run.sourceId = source.id
  closed : run.status ≠ .running ∧ run.finishedAt.isSome = true
  new : run.itemsNew = added.length
  seen : run.itemsSeen = run.itemsNew + run.itemsDuplicate + run.itemsFailed
  taken : ∀ d ∈ added, Taken U sha source run.id d
  keys : Numbered RawDocument.id store.documents store.nextId →
    Numbered RawDocument.id after.documents after.nextId
  distinct : store.keys.Nodup → after.keys.Nodup

/-- a run that closes its row with the documents and counts of its batch -/
theorem intake_of_close {opened : Store} {next : Nat} {added : List RawDocument} {base : Source}
    {status : RunStatus} {error : Option Text} (hs : status ≠ .running)
    (hopened : opened = { store with
      nextId := next
      runs := store.runs ++ [openedRun store source now]
      documents := store.documents ++ added })
    (hrow : run.id = store.nextId ∧ run.sourceId = source.id) (hnext : store.nextId < next)
    (hnew : run.itemsNew = added.length)
    (hseen : run.itemsSeen = run.itemsNew + run.itemsDuplicate + run.itemsFailed)
    (htaken : ∀ d ∈ added, Taken U sha source run.id d)
    (hkeys : Numbered RawDocument.id store.documents store.nextId →
      Numbered RawDocument.id (store.documents ++ added) next)
    (hdistinct : store.keys.Nodup → ((store.documents ++ added).map RawDocument.key).Nodup)
    (h : closeRun (opened.putSource base) env run status error = .ok (store', run')) :
    Intake U sha store source now run' added store' := by
  subst hopened
  obtain ⟨rfl, rfl⟩ := closeRun_ok h
  exact ⟨⟨next, _, rfl⟩, hnext, hrow, ⟨hs, rfl⟩, hnew, hseen, htaken, hkeys, hdistinct⟩

/-- a run that closes its row without a batch -/
theorem intake_of_empty {base : Source} {status : RunStatus} {error : Option Text} {requests : Nat}
    (hs : status ≠ .running)
    (h : closeRun ((store.opened source now).putSource base) env
      { openedRun store source now with httpRequests := requests } status error =
        .ok (store', run')) :
    Intake U sha store source now run' [] store' := by
  have hopened : store.opened source now = { store with
      nextId := store.nextId + 1
      runs := store.runs ++ [openedRun store source now]
      documents := store.documents ++ [] } := by
    rw [List.append_nil]
    rfl
  refine intake_of_close hs hopened ⟨rfl, rfl⟩ (Nat.lt_succ_self _) rfl rfl
    (fun _ hd => absurd hd List.not_mem_nil) ?_ ?_ h
  · rw [List.append_nil]
    exact fun hk => hk.of_map rfl (Nat.le_succ _)
  · rw [List.append_nil]
    exact fun hk => hk

/-- **What a run that returns has written.** -/
theorem ingestSource_intake
    (h : (ingestSource U sha store source env now).result = .ok (store', run')) :
    ∃ added, Intake U sha store source now run' added store' := by
  have hgoes : Goes U sha store source env now _ := ingestSource_goes
  generalize ingestSource U sha store source env now = r at h hgoes
  cases hgoes with
  | unasked message => cases h
  | raises message => cases h
  | blocked message => exact ⟨[], intake_of_empty RunStatus.noConfusion h⟩
  | failed message => exact ⟨[], intake_of_empty RunStatus.noConfusion h⟩
  | returned fetch =>
    simp only at h
    unfold ingestResponse at h
    simp only at h
    split at h
    · exact ⟨[], intake_of_empty RunStatus.noConfusion h⟩
    · obtain ⟨items, _, h⟩ := bind_eq_ok.mp h
      obtain ⟨⟨s, outcome⟩, hs, h⟩ := bind_eq_ok.mp h
      obtain ⟨next, added, rfl, hcount, htaken, hnext, hkeys, hdistinct⟩ := storeItemsFrom_eq hs
      refine ⟨added, intake_of_close ?_ rfl ?_ ?_ ?_ ?_ ?_ ?_ hdistinct h⟩
      · exact RunStatus.noConfusion
      · exact ⟨rfl, rfl⟩
      · exact lt_of_lt_of_le (Nat.lt_succ_self _) hnext
      · exact hcount.trans (Nat.zero_add _)
      · rfl
      · exact htaken
      · exact fun hk => hkeys (hk.of_map rfl (Nat.le_succ _))

end

end GeoRisk
