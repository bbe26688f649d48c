import Mathlib.Data.List.Count
import GeoRisk.Ingest.Raw
import GeoRisk.Kit.Run

/-!
# Batches of items

What `store_items` makes of a whole batch, where the answer of the database to an item depends on the
item alone: it keeps the row, or refuses it with an exception of some class.

* `Refusal`, `storeBatch`     `store_items` against such a database;
* `storeBatch_append`         a batch is stored part after part (`storeItemsFrom_plus`: the counts
                              add up);
* `mem_keys_storeBatch`       the keys afterwards: those before, and those of the storable items;
* `storeBatch_idempotent`     every item is counted once, every new key of a storable item gets one
                              document, and the same items add nothing again;
* `storeItemsAmid`            the batch amid the insertions of other writers;
* `bad_items_alone_iff`       an item that the database refuses costs the batch nothing else exactly
                              if it is refused with an integrity error.
-/

namespace GeoRisk
open Kit

/-- the class of the exception with which the database refuses a row -/
inductive Refusal
  /-- `IntegrityError`: NOT NULL, CHECK, a foreign key -/
  | integrity (message : Text)
  /-- `DataError`: a value that does not fit its column -/
  | data (message : Text)
  deriving DecidableEq, Repr

/-- `store_items` handles integrity errors -/
def Refusal.insertion : Refusal → Insertion
  | .integrity message => .refused message
  | .data message => .raises message

/-- what the database says to the row of an item -/
abbrev Verdict := ParsedItem → Option Refusal

def Verdict.insertion (db : Verdict) (item : ParsedItem) : Insertion :=
  match db item with
  | none => .stored
  | some refusal => refusal.insertion

def tooLong (limit : Nat) (value : Option Text) : Bool :=
  value.any fun t => decide (limit < t.length)

/-- what the columns of `raw_documents` that come from the item say -/
def columnVerdict : Verdict := fun item =>
  if tooLong 512 item.sourceUid then
    some (.data (txt "value too long for type character varying(512)"))
  else if tooLong 16 item.language then
    some (.data (txt "value too long for type character varying(16)"))
  else none

/-- the columns of the unique constraint -/
def RawDocument.key (d : RawDocument) : Nat × Text := (d.sourceId, d.contentHash)

def Store.keys (s : Store) : List (Nat × Text) := s.documents.map RawDocument.key

/-- the counts of two parts of a batch -/
def StoreOutcome.plus (o o' : StoreOutcome) : StoreOutcome where
  new := o.new + o'.new
  duplicate := o.duplicate + o'.duplicate
  failed := o.failed + o'.failed
  documentIds := o.documentIds ++ o'.documentIds

/-- what the round of an item adds to the counts -/
def Stored.counted : Stored → StoreOutcome
  | .new _ id => { new := 1, documentIds := [id] }
  | .duplicate => { duplicate := 1 }
  | .failed _ => { failed := 1 }
  | .raised _ => {}

/-- the store after the round of an item -/
def Stored.after (store : Store) : Stored → Except Text Store
  | .new store' _ => .ok store'
  | .duplicate | .failed _ => .ok store
  | .raised message => .error message

section
variable (U : Unicode) (sha : Text → Text) (source : Source)

/-- the key of the row of an item -/
def keyOf (item : ParsedItem) : Nat × Text :=
  (source.id, (computeHashes U sha item source.storeFullText).contentHash)

variable (fetch : FetchResult) (runId : Nat) (db : Verdict)

def storeBatch (store : Store) (items : List ParsedItem) : Except Text (Store × StoreOutcome) :=
  storeItems U sha source fetch runId store (items.map fun item => (item, db.insertion item))

/-- the store with the row of an item -/
def Store.addItem (store : Store) (item : ParsedItem) : Store :=
  { store with
    nextId := store.nextId + 1
    documents := store.documents ++
      [{ documentRow U sha source fetch runId item with id := store.nextId }] }

variable {U sha source fetch runId db} {store store' : Store} {item : ParsedItem}
  {items : List ParsedItem} {outcome outcome' : StoreOutcome}

/-! ## one item -/

theorem keys_addItem : (store.addItem U sha source fetch runId item).keys =
    store.keys ++ [keyOf U sha source item] := by
  show (store.documents ++ [_]).map RawDocument.key = _
  rw [List.map_append]
  rfl

/-- the check of `store_item` -/
theorem any_eq_true_iff : (store.documents.any fun d => decide (d.sourceId = source.id ∧
    d.contentHash = (documentRow U sha source fetch runId item).contentHash)) = true ↔
      keyOf U sha source item ∈ store.keys := by
  rw [List.any_eq_true]
  constructor
  · rintro ⟨d, hd, h⟩
    obtain ⟨hs, hh⟩ := of_decide_eq_true h
    exact List.mem_map.mpr ⟨d, hd, Prod.ext hs hh⟩
  · intro h
    obtain ⟨d, hd, hk⟩ := List.mem_map.mp h
    exact ⟨d, hd, decide_eq_true ⟨congrArg Prod.fst hk, congrArg Prod.snd hk⟩⟩

theorem storeItem_known {insertion : Insertion} (h : keyOf U sha source item ∈ store.keys) :
    storeItem U sha source fetch runId store item insertion = .duplicate := by
  unfold storeItem
  simp only
  rw [if_pos (any_eq_true_iff.mpr h)]

/-- an item whose key is not known is asked about -/
theorem storeItem_asked (h : keyOf U sha source item ∉ store.keys) (insertion : Insertion) :
    storeItem U sha source fetch runId store item insertion =
      match insertion with
      | .stored => .new (store.addItem U sha source fetch runId item) store.nextId
      | .uniqueViolation => .duplicate
      | .refused message => .failed message
      | .raises message => .raised message := by
  unfold storeItem
  simp only
  rw [if_neg fun hany => h (any_eq_true_iff.mp hany)]
  rfl

/-! ## parts of a batch -/

theorem StoreOutcome.plus_assoc (o o' o'' : StoreOutcome) :
    (o.plus o').plus o'' = o.plus (o'.plus o'') := by
  simp only [StoreOutcome.plus, Nat.add_assoc, List.append_assoc]

theorem StoreOutcome.zero_plus (o : StoreOutcome) : StoreOutcome.plus {} o = o := by
  simp only [StoreOutcome.plus, Nat.zero_add, List.nil_append]

theorem StoreOutcome.plus_zero (o : StoreOutcome) : o.plus {} = o := by
  simp only [StoreOutcome.plus, Nat.add_zero, List.append_nil]

theorem StoreOutcome.seen_plus (o o' : StoreOutcome) : (o.plus o').seen = o.seen + o'.seen := by
  simp only [StoreOutcome.seen, StoreOutcome.plus]
  omega

/-- one round of the loop -/
theorem storeItemsFrom_cons (insertion : Insertion) (rest : List (ParsedItem × Insertion)) :
    storeItemsFrom U sha source fetch runId store outcome ((item, insertion) :: rest) =
      ((storeItem U sha source fetch runId store item insertion).after store).bind fun s =>
        storeItemsFrom U sha source fetch runId s
          (outcome.plus (storeItem U sha source fetch runId store item insertion).counted) rest := by
  rw [storeItemsFrom]
  cases storeItem U sha source fetch runId store item insertion with
  | new s id => simp [Stored.after, Stored.counted, StoreOutcome.plus, Except.bind]
  | duplicate => simp [Stored.after, Stored.counted, StoreOutcome.plus, Except.bind]
  | failed message => simp [Stored.after, Stored.counted, StoreOutcome.plus, Except.bind]
  | raised message => rfl

/-- the counts of a batch are added to what was counted before -/
theorem storeItemsFrom_plus (rest : List (ParsedItem × Insertion)) :
    storeItemsFrom U sha source fetch runId store (outcome.plus outcome') rest =
      (storeItemsFrom U sha source fetch runId store outcome' rest).map fun x =>
        (x.1, outcome.plus x.2) := by
  induction rest generalizing store outcome' with
  | nil => rfl
  | cons x rest ih =>
    obtain ⟨item, insertion⟩ := x
    rw [storeItemsFrom_cons, storeItemsFrom_cons]
    cases (storeItem U sha source fetch runId store item insertion).after store with
    | error e => rfl
    | ok s =>
      show storeItemsFrom U sha source fetch runId s _ rest = _
      rw [StoreOutcome.plus_assoc]
      exact ih

theorem storeItemsFrom_append (xs ys : List (ParsedItem × Insertion)) :
    storeItemsFrom U sha source fetch runId store outcome (xs ++ ys) =
      (storeItemsFrom U sha source fetch runId store outcome xs).bind fun x =>
        storeItemsFrom U sha source fetch runId x.1 x.2 ys := by
  induction xs generalizing store outcome with
  | nil => rfl
  | cons x xs ih =>
    obtain ⟨item, insertion⟩ := x
    rw [List.cons_append, storeItemsFrom_cons, storeItemsFrom_cons]
    cases (storeItem U sha source fetch runId store item insertion).after store with
    | error e => rfl
    | ok s => exact ih

/-- **A batch is stored part after part.** -/
theorem storeBatch_append (xs ys : List ParsedItem) :
    storeBatch U sha source fetch runId db store (xs ++ ys) =
      (storeBatch U sha source fetch runId db store xs).bind fun x =>
        (storeBatch U sha source fetch runId db x.1 ys).map fun y => (y.1, x.2.plus y.2) := by
  unfold storeBatch storeItems
  rw [List.map_append, storeItemsFrom_append]
  congr 1
  funext x
  conv_lhs => rw [← x.2.plus_zero]
  exact storeItemsFrom_plus _

theorem storeBatch_cons (item : ParsedItem) (items : List ParsedItem) :
    storeBatch U sha source fetch runId db store (item :: items) =
      ((storeItem U sha source fetch runId store item (db.insertion item)).after store).bind
        fun s => (storeBatch U sha source fetch runId db s items).map fun y =>
          (y.1, (storeItem U sha source fetch runId store item (db.insertion item)).counted.plus
            y.2) := by
  unfold storeBatch storeItems
  rw [List.map_cons, storeItemsFrom_cons]
  cases (storeItem U sha source fetch runId store item (db.insertion item)).after store with
  | error e => rfl
  | ok s =>
    show storeItemsFrom U sha source fetch runId s _ _ = _
    rw [StoreOutcome.zero_plus, ← StoreOutcome.plus_zero (Stored.counted _)]
    rw [storeItemsFrom_plus, StoreOutcome.plus_zero]
    rfl

/-! ## keys -/

variable (U sha source fetch runId db) in
/-- the rounds of a batch: the key is known, or the database is asked -/
theorem storeItem_cases (store : Store) (item : ParsedItem) :
    (keyOf U sha source item ∈ store.keys ∧
      storeItem U sha source fetch runId store item (db.insertion item) = .duplicate) ∨
    keyOf U sha source item ∉ store.keys ∧
      ((db item = none ∧ storeItem U sha source fetch runId store item (db.insertion item) =
          .new (store.addItem U sha source fetch runId item) store.nextId) ∨
        (∃ message, db item = some (.integrity message) ∧
          storeItem U sha source fetch runId store item (db.insertion item) = .failed message) ∨
        ∃ message, db item = some (.data message) ∧
          storeItem U sha source fetch runId store item (db.insertion item) = .raised message) := by
  by_cases hk : keyOf U sha source item ∈ store.keys
  · exact Or.inl ⟨hk, storeItem_known hk⟩
  · refine Or.inr ⟨hk, ?_⟩
    rw [storeItem_asked hk]
    unfold Verdict.insertion
    cases hdb : db item with
    | none => exact Or.inl ⟨rfl, rfl⟩
    | some refusal =>
      cases refusal with
      | integrity message => exact Or.inr (Or.inl ⟨message, rfl, rfl⟩)
      | data message => exact Or.inr (Or.inr ⟨message, rfl, rfl⟩)

/-- the first round of a batch that is stored -/
theorem storeBatch_cons_ok
    (h : storeBatch U sha source fetch runId db store (item :: items) = .ok (store', outcome)) :
    ∃ s rest, storeBatch U sha source fetch runId db s items = .ok (store', rest) ∧
      ((s = store ∧ (keyOf U sha source item ∈ store.keys ∨ db item ≠ none) ∧
          outcome.new = rest.new) ∨
        (s = store.addItem U sha source fetch runId item ∧
          keyOf U sha source item ∉ store.keys ∧ db item = none ∧ outcome.new = rest.new + 1)) := by
  rw [storeBatch_cons] at h
  obtain ⟨s, hs, h⟩ := bind_eq_ok.mp h
  obtain ⟨⟨store₁, rest⟩, hrest, h⟩ := bind_eq_ok.mp h
  cases h
  refine ⟨s, rest, hrest, ?_⟩
  rcases storeItem_cases U sha source fetch runId db store item with
    ⟨hk, hitem⟩ | ⟨hk, ⟨hdb, hitem⟩ | ⟨m, hdb, hitem⟩ | ⟨m, hdb, hitem⟩⟩
  · rw [hitem] at hs ⊢
    cases hs
    exact Or.inl ⟨rfl, Or.inl hk, Nat.zero_add _⟩
  · rw [hitem] at hs ⊢
    cases hs
    exact Or.inr ⟨rfl, hk, hdb, Nat.add_comm _ _⟩
  · rw [hitem] at hs ⊢
    cases hs
    exact Or.inl ⟨rfl, Or.inr (by rw [hdb]; exact Option.some_ne_none _), Nat.zero_add _⟩
  · rw [hitem] at hs
    cases hs

/-- **The keys after a batch: those before it and those of its storable items.** -/
theorem mem_keys_storeBatch {k : Nat × Text}
    (h : storeBatch U sha source fetch runId db store items = .ok (store', outcome)) :
    k ∈ store'.keys ↔
      k ∈ store.keys ∨ ∃ item ∈ items, db item = none ∧ keyOf U sha source item = k := by
  induction items generalizing store outcome with
  | nil =>
    cases h
    simp
  | cons item items ih =>
    obtain ⟨s, rest, hrest, hround⟩ := storeBatch_cons_ok h
    rw [ih hrest, List.exists_mem_cons_iff]
    rcases hround with ⟨rfl, hold, _⟩ | ⟨rfl, _, hdb, _⟩
    · constructor
      · exact Or.imp_right Or.inr
      · rintro (hk | ⟨hdb, hk⟩ | hrest)
        · exact Or.inl hk
        · exact Or.inl (hk ▸ hold.resolve_right (not_not_intro hdb))
        · exact Or.inr hrest
    · rw [keys_addItem, List.mem_append, List.mem_singleton, or_assoc, eq_comm (a := k)]
      simp only [hdb, true_and]

/-- the documents that a batch adds: one for each new key, each the row of a storable item -/
theorem storeBatch_added
    (h : storeBatch U sha source fetch runId db store items = .ok (store', outcome)) :
    ∃ added, store'.documents = store.documents ++ added ∧ outcome.new = added.length ∧
      (∀ d ∈ added, d.key ∉ store.keys ∧ ∃ item ∈ items, db item = none ∧
        d = { documentRow U sha source fetch runId item with id := d.id }) ∧
      (added.map RawDocument.key).Nodup := by
  induction items generalizing store outcome with
  | nil =>
    cases h
    exact ⟨[], (List.append_nil _).symm, rfl, fun d hd => absurd hd List.not_mem_nil,
      List.nodup_nil⟩
  | cons item items ih =>
    obtain ⟨s, rest, hrest, hround⟩ := storeBatch_cons_ok h
    obtain ⟨added, hdocs, hnew, hrows, hnodup⟩ := ih hrest
    rcases hround with ⟨rfl, _, hcount⟩ | ⟨rfl, hk, hdb, hcount⟩
    · refine ⟨added, hdocs, hcount.trans hnew, fun d hd => ?_, hnodup⟩
      obtain ⟨hfresh, x, hx, hd⟩ := hrows d hd
      exact ⟨hfresh, x, List.mem_cons_of_mem _ hx, hd⟩
    · refine ⟨{ documentRow U sha source fetch runId item with id := store.nextId } :: added, ?_, ?_,
        ?_, ?_⟩
      · rw [hdocs]
        exact List.append_assoc ..
      · rw [hcount, hnew, List.length_cons]
      · intro d hd
        rcases List.mem_cons.mp hd with rfl | hd
        · exact ⟨hk, item, List.mem_cons_self .., hdb, rfl⟩
        · obtain ⟨hfresh, x, hx, hd⟩ := hrows d hd
          rw [keys_addItem] at hfresh
          exact ⟨fun hold => hfresh (List.mem_append_left _ hold), x, List.mem_cons_of_mem _ hx, hd⟩
      · rw [List.map_cons, List.nodup_cons]
        refine ⟨fun hmem => ?_, hnodup⟩
        obtain ⟨d, hd, hkey⟩ := List.mem_map.mp hmem
        refine (hrows d hd).1 ?_
        rw [hkey, keys_addItem]
        exact List.mem_append_right _ (List.mem_singleton_self _)

/-- the hash is not stored for the source, and some storable item has it -/
def Missing (U : Unicode) (sha : Text → Text) (source : Source) (db : Verdict) (store : Store)
    (items : List ParsedItem) (hash : Text) : Prop :=
  (source.id, hash) ∉ store.keys ∧
    ∃ item ∈ items, db item = none ∧ keyOf U sha source item = (source.id, hash)

open Classical in
/-- **A batch adds exactly one document for each missing hash, and none else.** -/
theorem storeBatch_missing
    (h : storeBatch U sha source fetch runId db store items = .ok (store', outcome)) :
    ∃ added, store'.documents = store.documents ++ added ∧ outcome.new = added.length ∧
      (∀ d ∈ added, d.sourceId = source.id) ∧
      ∀ hash, (added.countP fun d => decide (d.contentHash = hash)) =
        if Missing U sha source db store items hash then 1 else 0 := by
  obtain ⟨added, hdocs, hnew, hrows, hnodup⟩ := storeBatch_added h
  have hsource : ∀ d ∈ added, d.sourceId = source.id := by
    intro d hd
    obtain ⟨_, item, _, _, hrow⟩ := hrows d hd
    rw [hrow]
    rfl
  refine ⟨added, hdocs, hnew, hsource, fun hash => ?_⟩
  have hcount : (added.countP fun d => decide (d.contentHash = hash)) =
      (added.map RawDocument.key).count (source.id, hash) := by
    rw [List.count, List.countP_map]
    apply List.countP_congr
    intro d hd
    rw [Function.comp_apply, beq_iff_eq, decide_eq_true_eq]
    constructor
    · intro hh
      exact Prod.ext (hsource d hd) hh
    · intro hk
      exact congrArg Prod.snd hk
  rw [hcount]
  split
  · next hmissing =>
    obtain ⟨hnot, hsome⟩ := hmissing
    have hmem : (source.id, hash) ∈ store'.keys := (mem_keys_storeBatch h).mpr (Or.inr hsome)
    unfold Store.keys at hmem
    rw [hdocs, List.map_append] at hmem
    exact List.count_eq_one_of_mem hnodup ((List.mem_append.mp hmem).resolve_left hnot)
  · next hmissing =>
    rw [List.count_eq_zero]
    intro hmem
    obtain ⟨d, hd, hk⟩ := List.mem_map.mp hmem
    obtain ⟨hfresh, item, hitem, hdb, hrow⟩ := hrows d hd
    refine hmissing ⟨hk ▸ hfresh, item, hitem, hdb, ?_⟩
    rw [← hk, hrow]
    rfl

/-! ## the same items again -/

/-- the database refuses no item with anything but an integrity error -/
def IntegrityOnly (db : Verdict) (items : List ParsedItem) : Prop :=
  ∀ item ∈ items, ∀ message, db item ≠ some (.data message)

variable (U sha source fetch runId store) in
theorem storeBatch_isOk (h : IntegrityOnly db items) :
    ∃ x, storeBatch U sha source fetch runId db store items = .ok x := by
  unfold storeBatch storeItems
  apply storeItemsFrom_isOk
  intro x hx
  obtain ⟨item, hitem, rfl⟩ := List.mem_map.mp hx
  show (db.insertion item).returns = true
  unfold Verdict.insertion
  cases hdb : db item with
  | none => rfl
  | some refusal =>
    cases refusal with
    | integrity message => rfl
    | data message => exact absurd hdb (h item hitem message)

/-- **Where every storable item is known, a batch adds nothing.** -/
theorem storeBatch_known (hdb : IntegrityOnly db items)
    (h : ∀ item ∈ items, db item = none → keyOf U sha source item ∈ store.keys) :
    ∃ o, storeBatch U sha source fetch runId db store items = .ok (store, o) ∧ o.new = 0 := by
  induction items with
  | nil => exact ⟨{}, rfl, rfl⟩
  | cons item items ih =>
    obtain ⟨o, ho, hnew⟩ := ih (fun x hx => hdb x (List.mem_cons_of_mem _ hx))
      (fun x hx => h x (List.mem_cons_of_mem _ hx))
    rw [storeBatch_cons]
    rcases storeItem_cases U sha source fetch runId db store item with
      ⟨_, hitem⟩ | ⟨hk, ⟨hnone, _⟩ | ⟨m, _, hitem⟩ | ⟨m, hdata, _⟩⟩
    · rw [hitem]
      refine ⟨_, congrArg (Except.map _) ho, ?_⟩
      show 0 + o.new = 0
      rw [hnew]
    · exact absurd (h item (List.mem_cons_self ..) hnone) hk
    · rw [hitem]
      refine ⟨_, congrArg (Except.map _) ho, ?_⟩
      show 0 + o.new = 0
      rw [hnew]
    · exact absurd hdata (hdb item (List.mem_cons_self ..) m)

/-! ## other writers -/

/-- what other writers commit; the unique constraint keeps out a row whose key is taken -/
def Store.commitOthers (store : Store) (others : List RawDocument) : Store :=
  others.foldl (fun s d =>
    if d.key ∈ s.keys then s else { s with documents := s.documents ++ [d] }) store

variable (U sha source fetch runId db)

/-- the answer to an insertion into the store that other writers have left -/
def insertionAmid (raced : Store) (item : ParsedItem) : Insertion :=
  match db item with
  | some refusal => refusal.insertion
  | none => if keyOf U sha source item ∈ raced.keys then .uniqueViolation else .stored

/-- the loop of `store_items`, with the rows that other writers commit between the check and the
insertion of each item -/
def storeItemsAmid (store : Store) (outcome : StoreOutcome) :
    List (ParsedItem × List RawDocument) → Except Text (Store × StoreOutcome)
  | [] => .ok (store, outcome)
  | (item, others) :: rest =>
    let stored := storeItem U sha source fetch runId store item
      (insertionAmid U sha source db (store.commitOthers others) item)
    (stored.after store).bind fun s =>
      storeItemsAmid (s.commitOthers others) (outcome.plus stored.counted) rest

variable {U sha source fetch runId db}

/-- without other writers it is the loop itself -/
theorem storeItemsAmid_alone (items : List ParsedItem) :
    storeItemsAmid U sha source fetch runId db store outcome (items.map fun item => (item, [])) =
      storeItemsFrom U sha source fetch runId store outcome
        (items.map fun item => (item, db.insertion item)) := by
  induction items generalizing store outcome with
  | nil => rfl
  | cons item items ih =>
    have hsame : storeItem U sha source fetch runId store item
        (insertionAmid U sha source db (store.commitOthers []) item) =
          storeItem U sha source fetch runId store item (db.insertion item) := by
      by_cases hk : keyOf U sha source item ∈ store.keys
      · rw [storeItem_known hk, storeItem_known hk]
      · unfold insertionAmid Verdict.insertion
        cases db item with
        | some refusal => rfl
        | none => rw [show store.commitOthers [] = store from rfl, if_neg hk]
    rw [List.map_cons, List.map_cons, storeItemsAmid, storeItemsFrom_cons, hsame]
    cases (storeItem U sha source fetch runId store item (db.insertion item)).after store with
    | error e => rfl
    | ok s => exact ih

theorem nodup_commitOthers (others : List RawDocument) (h : store.keys.Nodup) :
    (store.commitOthers others).keys.Nodup ∧ store.keys <+: (store.commitOthers others).keys := by
  unfold Store.commitOthers
  induction others generalizing store with
  | nil => exact ⟨h, List.prefix_rfl⟩
  | cons d others ih =>
    rw [List.foldl_cons]
    split
    · exact ih h
    · next hd =>
      have hkeys : Store.keys { store with documents := store.documents ++ [d] } =
          store.keys ++ [d.key] := List.map_append
      have hfresh : (Store.keys { store with documents := store.documents ++ [d] }).Nodup :=
        nodup_insert h fun r hr hkey => hd (hkey ▸ List.mem_map_of_mem hr)
      obtain ⟨hnodup, hgrows⟩ := ih hfresh
      exact ⟨hnodup, (hkeys ▸ List.prefix_append _ _ : store.keys <+: _).trans hgrows⟩

/-- an item that loses the race is counted as a duplicate, and there is one row with its key -/
theorem storeItemsAmid_raced {others : List RawDocument}
    {rest : List (ParsedItem × List RawDocument)} (hkeys : store.keys.Nodup)
    (hraced : insertionAmid U sha source db (store.commitOthers others) item = .uniqueViolation) :
    storeItemsAmid U sha source fetch runId db store outcome ((item, others) :: rest) =
        storeItemsAmid U sha source fetch runId db (store.commitOthers others)
          { outcome with duplicate := outcome.duplicate + 1 } rest ∧
      (store.commitOthers others).keys.count (keyOf U sha source item) = 1 := by
  have hmem : keyOf U sha source item ∈ (store.commitOthers others).keys := by
    unfold insertionAmid at hraced
    cases hdb : db item with
    | some refusal =>
      rw [hdb] at hraced
      cases refusal <;> cases hraced
    | none =>
      rw [hdb] at hraced
      by_contra hnot
      simp only [if_neg hnot] at hraced
      cases hraced
  refine ⟨?_, List.count_eq_one_of_mem (nodup_commitOthers others hkeys).1 hmem⟩
  have hdup : storeItem U sha source fetch runId store item .uniqueViolation = .duplicate := by
    by_cases hk : keyOf U sha source item ∈ store.keys
    · exact storeItem_known hk
    · exact storeItem_asked hk .uniqueViolation
  rw [storeItemsAmid, hraced, hdup]
  simp only [Stored.after, Stored.counted, StoreOutcome.plus, Except.bind, Nat.add_zero,
    List.append_nil]

variable (U sha source fetch runId) in
/-- one item amid other writers: it is counted once, and known in the end unless it is refused -/
theorem storeItem_amid (others : List RawDocument) (hkeys : store.keys.Nodup)
    (hdata : ∀ message, db item ≠ some (.data message)) :
    ∃ s, (storeItem U sha source fetch runId store item
        (insertionAmid U sha source db (store.commitOthers others) item)).after store = .ok s ∧
      s.keys.Nodup ∧ store.keys ⊆ s.keys ∧
      (db item = none → keyOf U sha source item ∈ (s.commitOthers others).keys) ∧
      (storeItem U sha source fetch runId store item
        (insertionAmid U sha source db (store.commitOthers others) item)).counted.seen = 1 := by
  obtain ⟨_, hgrows⟩ := nodup_commitOthers others hkeys
  by_cases hk : keyOf U sha source item ∈ store.keys
  · rw [storeItem_known hk]
    exact ⟨store, rfl, hkeys, List.Subset.refl _, fun _ => hgrows.subset hk, rfl⟩
  · rw [storeItem_asked hk]
    unfold insertionAmid
    cases hverdict : db item with
    | some refusal =>
      cases refusal with
      | integrity message =>
        exact ⟨store, rfl, hkeys, List.Subset.refl _, (fun hnone => nomatch hnone), rfl⟩
      | data message => exact absurd hverdict (hdata message)
    | none =>
      by_cases hr : keyOf U sha source item ∈ (store.commitOthers others).keys
      · simp only [if_pos hr]
        exact ⟨store, rfl, hkeys, List.Subset.refl _, fun _ => hr, rfl⟩
      · simp only [if_neg hr]
        have hadd : (store.addItem U sha source fetch runId item).keys =
            store.keys ++ [keyOf U sha source item] := keys_addItem
        have hnodup : (store.addItem U sha source fetch runId item).keys.Nodup :=
          nodup_insert hkeys fun r hr hkey => hk (by
            have hsame : keyOf U sha source item = r.key := hkey.symm
            rw [hsame]
            exact List.mem_map_of_mem hr)
        refine ⟨_, rfl, hnodup, ?_, fun _ => (nodup_commitOthers others hnodup).2.subset ?_, rfl⟩
        · rw [hadd]
          exact List.subset_append_left _ _
        · rw [hadd]
          exact List.mem_append_right _ (List.mem_singleton_self _)

variable (U sha source fetch runId outcome) in
/-- **Amid other writers a batch still counts every item once, keeps keys unique and leaves no
storable item out.** -/
theorem storeItemsAmid_isOk {batch : List (ParsedItem × List RawDocument)}
    (hdb : IntegrityOnly db (batch.map Prod.fst)) (hkeys : store.keys.Nodup) :
    ∃ store' outcome', storeItemsAmid U sha source fetch runId db store outcome batch =
        .ok (store', outcome') ∧ outcome'.seen = outcome.seen + batch.length ∧
      store'.keys.Nodup ∧ store.keys ⊆ store'.keys ∧
      ∀ item ∈ batch.map Prod.fst, db item = none → keyOf U sha source item ∈ store'.keys := by
  induction batch generalizing store outcome with
  | nil =>
    exact ⟨store, outcome, rfl, rfl, hkeys, List.Subset.refl _,
      fun item hitem => absurd hitem List.not_mem_nil⟩
  | cons x batch ih =>
    obtain ⟨item, others⟩ := x
    obtain ⟨s, hs, hnodup, hsub, hitem, hcount⟩ := storeItem_amid U sha source fetch runId others
      hkeys (hdb item (List.mem_cons_self ..))
    obtain ⟨hs', hgrows'⟩ := nodup_commitOthers others hnodup
    obtain ⟨store', outcome', hrest, hseen, hkeys', hsub', hall⟩ :=
      ih _ (fun y hy => hdb y (List.mem_cons_of_mem _ hy)) hs'
    refine ⟨store', outcome', ?_, ?_, hkeys', ?_, ?_⟩
    · rw [storeItemsAmid]
      simp only [hs]
      exact hrest
    · rw [hseen, StoreOutcome.seen_plus, hcount, List.length_cons]
      omega
    · exact fun k hk => hsub' (hgrows'.subset (hsub hk))
    · intro y hy hnone
      rcases List.mem_cons.mp hy with rfl | hy
      · exact hsub' (hitem hnone)
      · exact hall y hy hnone

/-! ## the store of a batch -/

variable (U sha source fetch runId store) in
open Classical in
/-- **Ingestion is idempotent and loses nothing silently.** -/
theorem storeBatch_idempotent (hdb : IntegrityOnly db items) :
    (∃ store' o, storeBatch U sha source fetch runId db store items = .ok (store', o) ∧
      o.new + o.duplicate + o.failed = items.length ∧
      (∃ added, store'.documents = store.documents ++ added ∧ o.new = added.length ∧
        (∀ d ∈ added, d.sourceId = source.id) ∧
        ∀ hash, (added.countP fun d => decide (d.contentHash = hash)) =
          if Missing U sha source db store items hash then 1 else 0) ∧
      -- a later run of the source, on some of the same items in any order
      ∀ (again : List ParsedItem) (source' : Source) (fetch' : FetchResult) (runId' : Nat),
        (∀ item ∈ again, item ∈ items) → source'.id = source.id →
        source'.storeFullText = source.storeFullText →
        ∃ o', storeBatch U sha source' fetch' runId' db store' again = .ok (store', o') ∧
          o'.new = 0) ∧
    -- amid other writers
    (store.keys.Nodup → ∀ batch : List (ParsedItem × List RawDocument),
      batch.map Prod.fst = items → ∃ store' o,
        storeItemsAmid U sha source fetch runId db store {} batch = .ok (store', o) ∧
        o.new + o.duplicate + o.failed = items.length ∧ store'.keys.Nodup ∧
        (∀ item ∈ items, db item = none → keyOf U sha source item ∈ store'.keys)) ∧
    ∀ (s : Store) (o : StoreOutcome) (item : ParsedItem) (others : List RawDocument)
      (rest : List (ParsedItem × List RawDocument)), s.keys.Nodup →
      insertionAmid U sha source db (s.commitOthers others) item = .uniqueViolation →
      storeItemsAmid U sha source fetch runId db s o ((item, others) :: rest) =
          storeItemsAmid U sha source fetch runId db (s.commitOthers others)
            { o with duplicate := o.duplicate + 1 } rest ∧
        (s.commitOthers others).keys.count (keyOf U sha source item) = 1 := by
  refine ⟨?_, ?_, fun s o item others rest => storeItemsAmid_raced⟩
  · obtain ⟨⟨store', o⟩, hok⟩ := storeBatch_isOk U sha source fetch runId store hdb
    obtain ⟨_, _, _, _, hseen⟩ := storeItemsFrom_ok hok
    refine ⟨store', o, hok, ?_, storeBatch_missing hok, ?_⟩
    · show o.seen = items.length
      rw [hseen, List.length_map]
      exact Nat.zero_add _
    · intro again source' fetch' runId' hsub hid hfull
      refine storeBatch_known (fun item hitem => hdb item (hsub item hitem)) ?_
      intro item hitem hnone
      have hkey : keyOf U sha source' item = keyOf U sha source item := by
        unfold keyOf
        rw [hid, hfull]
      rw [hkey]
      exact (mem_keys_storeBatch hok).mpr (Or.inr ⟨item, hsub item hitem, hnone, rfl⟩)
  · rintro hkeys batch rfl
    obtain ⟨store', o, hok, hseen, hnodup, _, hall⟩ := storeItemsAmid_isOk U sha source fetch
      runId {} hdb hkeys
    refine ⟨store', o, hok, ?_, hnodup, hall⟩
    show o.seen = (batch.map Prod.fst).length
    rw [hseen, List.length_map]
    exact Nat.zero_add _

/-! ## an item that the database refuses -/

/-- after the items before it the key of an item is still unknown, so its row is submitted -/
def Submitted (U : Unicode) (sha : Text → Text) (source : Source) (db : Verdict) (store : Store)
    (before : List ParsedItem) (item : ParsedItem) : Prop :=
  keyOf U sha source item ∉ store.keys ∧
    ∀ x ∈ before, db x = none → keyOf U sha source x ≠ keyOf U sha source item

/-- an item that is refused is counted, and all others are stored as if it were not there -/
def BadItemsAlone (U : Unicode) (sha : Text → Text) (source : Source) (fetch : FetchResult)
    (runId : Nat) (db : Verdict) (store : Store) (items : List ParsedItem) : Prop :=
  ∀ before bad after, items = before ++ bad :: after → db bad ≠ none →
    Submitted U sha source db store before bad → ∃ store' o,
      storeBatch U sha source fetch runId db store (before ++ after) = .ok (store', o) ∧
      storeBatch U sha source fetch runId db store items =
        .ok (store', { o with failed := o.failed + 1 })

theorem submitted_iff {before : List ParsedItem}
    (h : storeBatch U sha source fetch runId db store before = .ok (store', outcome)) :
    Submitted U sha source db store before item ↔ keyOf U sha source item ∉ store'.keys := by
  rw [mem_keys_storeBatch h, not_or]
  unfold Submitted
  push Not
  rfl

/-- an item that is refused with an integrity error is counted and changes nothing else -/
theorem storeBatch_refused {message : Text} (hk : keyOf U sha source item ∉ store.keys)
    (hdb : db item = some (.integrity message)) :
    storeBatch U sha source fetch runId db store (item :: items) =
      (storeBatch U sha source fetch runId db store items).map fun y =>
        (y.1, { y.2 with failed := y.2.failed + 1 }) := by
  have hitem : storeItem U sha source fetch runId store item (db.insertion item) =
      .failed message := by
    rw [storeItem_asked hk]
    unfold Verdict.insertion
    rw [hdb]
    rfl
  rw [storeBatch_cons, hitem]
  show (storeBatch U sha source fetch runId db store items).map _ = _
  congr 1
  funext y
  simp only [Stored.counted, StoreOutcome.plus, Nat.zero_add, List.nil_append, Nat.add_comm 1]

/-- an item that is refused with another error ends the batch -/
theorem storeBatch_raised {message : Text} (hk : keyOf U sha source item ∉ store.keys)
    (hdb : db item = some (.data message)) :
    storeBatch U sha source fetch runId db store (item :: items) = .error message := by
  have hitem : storeItem U sha source fetch runId store item (db.insertion item) =
      .raised message := by
    rw [storeItem_asked hk]
    unfold Verdict.insertion
    rw [hdb]
    rfl
  rw [storeBatch_cons, hitem]
  rfl

variable (fetch runId) in
/-- a batch is stored if no item that the database is asked about raises -/
theorem storeBatch_isOk_of_submitted
    (h : ∀ before bad after, items = before ++ bad :: after →
      Submitted U sha source db store before bad → ∀ message, db bad ≠ some (.data message)) :
    ∃ x, storeBatch U sha source fetch runId db store items = .ok x := by
  induction items using List.reverseRecOn with
  | nil => exact ⟨_, rfl⟩
  | append_singleton items item ih =>
    obtain ⟨⟨s, o⟩, hs⟩ := ih fun before bad after heq => h before bad (after ++ [item]) (by
      rw [heq, List.append_assoc, List.cons_append])
    rw [storeBatch_append, hs]
    show ∃ x, (storeBatch U sha source fetch runId db s [item]).map _ = .ok x
    rcases storeItem_cases U sha source fetch runId db s item with
      ⟨_, hitem⟩ | ⟨hk, ⟨_, hitem⟩ | ⟨m, _, hitem⟩ | ⟨m, hdata, _⟩⟩
    · rw [storeBatch_cons, hitem]
      exact ⟨_, rfl⟩
    · rw [storeBatch_cons, hitem]
      exact ⟨_, rfl⟩
    · rw [storeBatch_cons, hitem]
      exact ⟨_, rfl⟩
    · exact absurd hdata (h items item [] rfl ((submitted_iff hs).mpr hk) m)

/-- **An item that the database refuses costs the batch nothing else exactly if every item that is
refused is refused with an integrity error.** -/
theorem bad_items_alone_iff :
    BadItemsAlone U sha source fetch runId db store items ↔
      ∀ before bad after, items = before ++ bad :: after →
        Submitted U sha source db store before bad → ∀ message, db bad ≠ some (.data message) := by
  constructor
  · intro h before bad after heq hsub message hdata
    obtain ⟨store', o, _, hok⟩ := h before bad after heq (by
      rw [hdata]
      exact Option.some_ne_none _) hsub
    -- what comes before it raises, or it does
    rw [heq, storeBatch_append] at hok
    obtain ⟨⟨s, o₁⟩, hs, hok⟩ := bind_eq_ok.mp hok
    rw [storeBatch_raised ((submitted_iff hs).mp hsub) hdata] at hok
    cases hok
  · intro h before bad after heq hbad hsub
    obtain ⟨⟨store', o⟩, hok⟩ := storeBatch_isOk_of_submitted fetch runId h
    rw [heq, storeBatch_append] at hok
    obtain ⟨⟨s, o₁⟩, hs, hok⟩ := bind_eq_ok.mp hok
    have hk := (submitted_iff hs).mp hsub
    obtain ⟨message, hmessage⟩ : ∃ message, db bad = some (.integrity message) := by
      cases hdb : db bad with
      | none => exact absurd hdb hbad
      | some refusal =>
        cases refusal with
        | integrity message => exact ⟨message, rfl⟩
        | data message => exact absurd hdb (h before bad after heq hsub message)
    rw [storeBatch_refused hk hmessage] at hok
    obtain ⟨⟨t, o₂⟩, ht, _⟩ := bind_eq_ok.mp hok
    obtain ⟨⟨t', o₃⟩, hafter, _⟩ := bind_eq_ok.mp ht
    refine ⟨t', o₁.plus o₃, ?_, ?_⟩
    · rw [storeBatch_append, hs]
      show (storeBatch U sha source fetch runId db s after).map _ = _
      rw [hafter]
      rfl
    · rw [heq, storeBatch_append, hs]
      show (storeBatch U sha source fetch runId db s (bad :: after)).map _ = _
      rw [storeBatch_refused hk hmessage, hafter]
      rfl

end

namespace Sample

/-- a feed whose items may have a body -/
def feed : Source :=
  { id := 0, slug := txt "port-notices", name := [], publisher := [], feedUrl := []
    retrievalMethod := txt "rss", storeFullText := true }

def feedResponse : FetchResult := { url := [], statusCode := 200, retrievedAt := ⟨0⟩ }

def feedItem (uid url body : Text) : ParsedItem := ⟨some uid, url, none, some body, none, none, none⟩

/-- a database that wants the address of a notice -/
def wantsUrl : Verdict := fun item =>
  if item.url = [] then some (.integrity (txt "null value in column \"url\"")) else none

/-- one notice twice, in two layouts, and another one that comes without and with its address -/
def mixedBatch : List ParsedItem :=
  [feedItem (txt "n-1") (txt "https://example.org/1") (txt "Port closed"),
    feedItem (txt "n-1") (txt "https://example.org/1") (txt "Port  closed "),
    feedItem (txt "n-2") [] (txt "Port open"),
    feedItem (txt "n-2") (txt "https://example.org/2") (txt "Port open")]

/-- an identifier of 513 characters, and an ordinary notice behind it -/
def overlongBatch : List ParsedItem :=
  [feedItem (List.replicate 513 'x') (txt "https://example.org/1") (txt "Port closed"),
    feedItem (txt "n-2") (txt "https://example.org/2") (txt "Port open")]

end Sample

open Sample in
theorem storeBatch_idempotent_mixed :
    IntegrityOnly wantsUrl mixedBatch ∧ ∃ store' o,
      storeBatch Unicode.latin id feed feedResponse 0 wantsUrl .empty mixedBatch =
        .ok (store', o) ∧
      o.new + o.duplicate + o.failed = 4 ∧ ∃ o',
        storeBatch Unicode.latin id feed feedResponse 1 wantsUrl store' mixedBatch.reverse =
          .ok (store', o') ∧ o'.new = 0 := by
  have hdb : IntegrityOnly wantsUrl mixedBatch := by
    intro item _ message
    unfold wantsUrl
    split <;> exact fun h => nomatch h
  obtain ⟨store', o, hok, hcount, _, hagain⟩ := (storeBatch_idempotent Unicode.latin id
    feed feedResponse 0 .empty hdb).1
  exact ⟨hdb, store', o, hok, hcount, hagain mixedBatch.reverse feed feedResponse 1
    (fun _ => List.mem_reverse.mp) rfl rfl⟩

open Sample in
/-- the notice behind an overlong identifier is lost -/
theorem overlong_loses_batch :
    ¬ ∀ (U : Unicode) (sha : Text → Text) (source : Source) (fetch : FetchResult) (runId : Nat)
      (store : Store) (items : List ParsedItem),
      BadItemsAlone U sha source fetch runId columnVerdict store items := by
  intro h
  have hbad : columnVerdict (feedItem (List.replicate 513 'x') (txt "https://example.org/1")
      (txt "Port closed")) = some (.data (txt "value too long for type character varying(512)")) := by
    decide +kernel
  obtain ⟨store', o, _, hok⟩ := h Unicode.latin id feed feedResponse 0 .empty overlongBatch [] _ _
    rfl (by rw [hbad]; exact Option.some_ne_none _)
    ⟨List.not_mem_nil, fun x hx => absurd hx List.not_mem_nil⟩
  rw [overlongBatch, storeBatch_raised List.not_mem_nil hbad] at hok
  cases hok

end GeoRisk
