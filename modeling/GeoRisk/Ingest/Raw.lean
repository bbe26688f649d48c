import GeoRisk.Ingest.Item
import GeoRisk.Store.Tables

/-!
# Writing parsed items

`store.py`: one item after the other into the raw document store, each under a savepoint.  How the
database answers an insertion is part of the surroundings.

* `storeItem`, `storeItems`     `store_item` and `store_items` with their counts;
* `recordFetchState`            the validators and the failure counter of a source;
* `storeItemsFrom_ok`           a batch adds documents and touches nothing else.
-/

namespace GeoRisk
open Kit

/-- a response, with what the store reads of it -/
structure FetchResult where
  url : Text
  statusCode : Nat
  contentType : Option Text := none
  etag : Option Text := none
  lastModified : Option Text := none
  retrievedAt : DateTime
  notModified : Bool := false
  attempts : Nat := 1

/-- the answer of the database to the insertion of an item -/
inductive Insertion
  | stored
  /-- another worker stored the item between the check and the insertion -/
  | uniqueViolation
  /-- any other integrity error, a `ValueError` or a `TypeError` -/
  | refused (message : Text)
  /-- anything else -/
  | raises (message : Text)

def Insertion.returns : Insertion → Bool
  | .raises _ => false
  | _ => true

structure StoreOutcome where
  new : Nat := 0
  duplicate : Nat := 0
  failed : Nat := 0
  documentIds : List Nat := []
  deriving DecidableEq, Repr

def StoreOutcome.seen (o : StoreOutcome) : Nat := o.new + o.duplicate + o.failed

/-- how `store_item` ends: with a new document, a duplicate, or an exception -/
inductive Stored
  | new (store : Store) (documentId : Nat)
  | duplicate
  | failed (message : Text)
  | raised (message : Text)

section
variable (U : Unicode) (sha : Text → Text) (source : Source) (fetch : FetchResult) (runId : Nat)

def documentRow (item : ParsedItem) : RawDocument :=
  let h := computeHashes U sha item source.storeFullText
  { id := 0
    sourceId := source.id
    fetchRunId := some runId
    sourceUid := item.sourceUid
    url := item.url
    canonicalUrl := item.canonicalUrl
    title := item.title
    publishedAt := item.publishedAt.map (·.instant)
    retrievedAt := fetch.retrievedAt
    retrievalMethod := source.retrievalMethod
    httpStatus := some fetch.statusCode
    contentType := fetch.contentType
    etag := fetch.etag
    lastModified := fetch.lastModified
    rawBody := if source.storeFullText then item.bodyText else none
    cleanText := h.cleanText
    rawHash := h.rawHash
    contentHash := h.contentHash
    language := item.language }

def storeItem (store : Store) (item : ParsedItem) (insertion : Insertion) : Stored :=
  let row := documentRow U sha source fetch runId item
  if store.documents.any fun d => decide (d.sourceId = source.id ∧ d.contentHash = row.contentHash)
  then .duplicate
  else
    match insertion with
    | .stored =>
      .new { store with
        nextId := store.nextId + 1
        documents := store.documents ++ [{ row with id := store.nextId }] } store.nextId
    | .uniqueViolation => .duplicate
    | .refused message => .failed message
    | .raises message => .raised message

/-- the loop of `store_items` -/
def storeItemsFrom (store : Store) (outcome : StoreOutcome) :
    List (ParsedItem × Insertion) → Except Text (Store × StoreOutcome)
  | [] => .ok (store, outcome)
  | (item, insertion) :: rest =>
    match storeItem U sha source fetch runId store item insertion with
    | .new store id => storeItemsFrom store
        { outcome with new := outcome.new + 1, documentIds := outcome.documentIds ++ [id] } rest
    | .duplicate => storeItemsFrom store { outcome with duplicate := outcome.duplicate + 1 } rest
    | .failed _ => storeItemsFrom store { outcome with failed := outcome.failed + 1 } rest
    | .raised message => .error message

def storeItems (store : Store) (items : List (ParsedItem × Insertion)) :
    Except Text (Store × StoreOutcome) :=
  storeItemsFrom U sha source fetch runId store {} items

end

def recordFetchState (source : Source) (fetch : Option FetchResult) (now : DateTime)
    (succeeded : Bool) : Source :=
  { source with
    lastFetchedAt := some now
    lastEtag := ((fetch.bind (·.etag)).filter (· ≠ [])).or source.lastEtag
    lastModifiedHeader :=
      ((fetch.bind (·.lastModified)).filter (· ≠ [])).or source.lastModifiedHeader
    lastSuccessAt := if succeeded then some now else source.lastSuccessAt
    consecutiveFailures := if succeeded then 0 else source.consecutiveFailures + 1 }

section
variable {U : Unicode} {sha : Text → Text} {source : Source} {fetch : FetchResult} {runId : Nat}

theorem storeItem_new {store store' : Store} {item : ParsedItem} {insertion : Insertion} {id : Nat}
    (h : storeItem U sha source fetch runId store item insertion = .new store' id) :
    id = store.nextId ∧ store' = { store with
      nextId := store.nextId + 1
      documents := store.documents ++
        [{ documentRow U sha source fetch runId item with id := store.nextId }] } := by
  unfold storeItem at h
  simp only at h
  split at h
  · cases h
  · cases insertion with
    | stored => cases h; exact ⟨rfl, rfl⟩
    | uniqueViolation => cases h
    | refused message => cases h
    | raises message => cases h

/-- **Storing a batch touches neither the sources nor the runs, and counts every item once.** -/
theorem storeItemsFrom_ok {store store' : Store} {outcome outcome' : StoreOutcome}
    {items : List (ParsedItem × Insertion)}
    (h : storeItemsFrom U sha source fetch runId store outcome items = .ok (store', outcome')) :
    store'.sources = store.sources ∧ store'.runs = store.runs ∧ store.nextId ≤ store'.nextId ∧
      store.documents <+: store'.documents ∧ outcome'.seen = outcome.seen + items.length := by
  induction items generalizing store outcome with
  | nil => cases h; exact ⟨rfl, rfl, le_refl _, List.prefix_rfl, rfl⟩
  | cons x rest ih =>
    -- every round but a raising one leaves the loop a store and one more item seen
    have hround : ∀ {s : Store} {o : StoreOutcome},
        storeItemsFrom U sha source fetch runId s o rest = .ok (store', outcome') →
        s.sources = store.sources → s.runs = store.runs → store.nextId ≤ s.nextId →
        store.documents <+: s.documents → o.seen = outcome.seen + 1 →
        store'.sources = store.sources ∧ store'.runs = store.runs ∧ store.nextId ≤ store'.nextId ∧
          store.documents <+: store'.documents ∧
          outcome'.seen = outcome.seen + (x :: rest).length := by
      intro s o hrest hsources hruns hnext hdocs hseen
      obtain ⟨h1, h2, h3, h4, h5⟩ := ih hrest
      refine ⟨h1.trans hsources, h2.trans hruns, le_trans hnext h3, hdocs.trans h4, ?_⟩
      rw [h5, hseen, List.length_cons]
      omega
    obtain ⟨item, insertion⟩ := x
    unfold storeItemsFrom at h
    split at h
    · next store₁ id hnew =>
      obtain ⟨_, rfl⟩ := storeItem_new hnew
      exact hround h rfl rfl (Nat.le_succ _) (List.prefix_append _ _)
        (by simp only [StoreOutcome.seen]; omega)
    · exact hround h rfl rfl (le_refl _) List.prefix_rfl (by simp only [StoreOutcome.seen]; omega)
    · exact hround h rfl rfl (le_refl _) List.prefix_rfl (by simp only [StoreOutcome.seen]; omega)
    · cases h

/-- a batch is stored unless the database raises -/
theorem storeItemsFrom_isOk {store : Store} {outcome : StoreOutcome}
    {items : List (ParsedItem × Insertion)} (h : ∀ x ∈ items, x.2.returns = true) :
    ∃ x, storeItemsFrom U sha source fetch runId store outcome items = .ok x := by
  induction items generalizing store outcome with
  | nil => exact ⟨_, rfl⟩
  | cons x rest ih =>
    obtain ⟨item, insertion⟩ := x
    have hrest := fun y hy => h y (List.mem_cons_of_mem _ hy)
    unfold storeItemsFrom
    split
    · exact ih hrest
    · exact ih hrest
    · exact ih hrest
    · next message hraised =>
      -- only an insertion that raises ends the loop
      have hx : insertion.returns = true := h _ (List.mem_cons_self ..)
      unfold storeItem at hraised
      simp only at hraised
      split at hraised
      · cases hraised
      · cases insertion with
        | stored => cases hraised
        | uniqueViolation => cases hraised
        | refused _ => cases hraised
        | raises _ => cases hx

end

end GeoRisk
