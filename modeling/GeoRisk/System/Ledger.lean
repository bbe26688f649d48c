import GeoRisk.System.Policy

/-!
# The books of ingestion

The rows of `ingestion_runs` against the documents, and the hashes of a document against what it
stores.

* `Ledger`          the row of a run is closed, its counts add up, and it counts its documents;
* `ledger_of_run`   the rows of every run of the system do, and together they count every document;
* `Fingerprinted`   the hashes of a document are those of its body and its text;
* `hashes_of_run`   no source has two documents of one hash, and the hashes can be checked against
                    the stored columns.
-/

namespace GeoRisk
open Kit

/-- the row of a finished run, against the documents -/
structure Ledger (documents : List RawDocument) (run : IngestionRun) : Prop where
  closed : run.status ≠ .running ∧ run.finishedAt.isSome = true
  seen : run.itemsSeen = run.itemsNew + run.itemsDuplicate + run.itemsFailed
  new : run.itemsNew = documents.countP fun d => decide (d.fetchRunId = some run.id)

/-- the hashes are those of the stored columns; a document without text has no body to hash -/
structure Fingerprinted (U : Unicode) (sha : Text → Text) (d : RawDocument) : Prop where
  text : ∀ clean, d.cleanText = some clean → d.contentHash = sha clean ∧
    ∃ body, d.rawBody = some body ∧ clean = normaliseText U body ∧ d.rawHash = sha body
  bare : d.cleanText = none → d.rawHash = d.contentHash ∧ d.rawBody.getD [] = []

section
variable {U : Unicode} {sha : Text → Text} {P : CallEnv → Prop} {s t : Sources}

/-! ## the rows of the runs -/

/-- a document names a run that is there -/
theorem fetchRun_lt (h : Evolved U sha P s) {d : RawDocument} (hd : d ∈ s.store.documents) :
    ∃ i, d.fetchRunId = some i ∧ i < s.store.nextId := by
  obtain ⟨x, run, hx⟩ := h.acquired d hd
  exact ⟨run.id, hx.fetched.2.1, h.lawful.runs.fresh run hx.fetched.1⟩

theorem ledger_change (hs : Evolved U sha P s)
    (h : ∀ run ∈ s.store.runs, Ledger s.store.documents run) (hc : Change U sha P s t) :
    ∀ run ∈ t.store.runs, Ledger t.store.documents run := by
  cases change_intake hc with
  | none hdocuments hruns =>
    rw [hdocuments, hruns]
    exact h
  | ran source now run added hx hb hin hterms =>
    obtain ⟨next, sources, hafter⟩ := hin.tables
    have hdocuments : t.store.documents = s.store.documents ++ added := by rw [hafter]
    have hown : ∀ d ∈ added, d.fetchRunId = some run.id := fun d hd => (hin.taken d hd).fields.2.1
    rw [hin.runs hs.lawful.runs, hdocuments, List.forall_mem_append, List.forall_mem_singleton]
    constructor
    · -- the new documents name the new run
      intro r hr
      have hne : run.id ≠ r.id := by
        rw [hin.row.1]
        exact (Nat.ne_of_lt (hs.lawful.runs.fresh r hr)).symm
      have hnone : (added.countP fun d => decide (d.fetchRunId = some r.id)) = 0 := by
        rw [List.countP_eq_zero]
        intro d hd
        rw [hown d hd, decide_eq_true_eq]
        exact fun he => hne (Option.some.inj he)
      have hold := h r hr
      refine ⟨hold.closed, hold.seen, ?_⟩
      rw [List.countP_append, hnone, Nat.add_zero]
      exact hold.new
    · refine ⟨hin.closed, hin.seen, ?_⟩
      have hnone : (s.store.documents.countP fun d => decide (d.fetchRunId = some run.id)) = 0 := by
        rw [List.countP_eq_zero]
        intro d hd
        obtain ⟨i, hi, hlt⟩ := fetchRun_lt hs hd
        rw [hi, decide_eq_true_eq, hin.row.1]
        exact fun he => Nat.ne_of_lt hlt (Option.some.inj he)
      have hall : (added.countP fun d => decide (d.fetchRunId = some run.id)) = added.length := by
        rw [List.countP_eq_length]
        intro d hd
        rw [hown d hd, decide_eq_true_eq]
      rw [List.countP_append, hnone, hall, Nat.zero_add]
      exact hin.new

theorem Evolved.ledger (h : Evolved U sha P s) :
    ∀ run ∈ s.store.runs, Ledger s.store.documents run :=
  h.invariant (I := fun s => ∀ run ∈ s.store.runs, Ledger s.store.documents run)
    (fun _ hr => absurd hr List.not_mem_nil) fun _ _ hs hI hc => ledger_change hs hI hc

/-- together the runs count every document -/
theorem Evolved.counted (h : Evolved U sha P s) :
    (s.store.runs.map (·.itemsNew)).sum = s.store.documents.length := by
  refine h.invariant (I := fun s => (s.store.runs.map (·.itemsNew)).sum = s.store.documents.length)
    rfl ?_
  intro s t hs hI hc
  cases change_intake hc with
  | none hdocuments hruns =>
    rw [hdocuments, hruns]
    exact hI
  | ran source now run added hx hb hin hterms =>
    obtain ⟨next, sources, hafter⟩ := hin.tables
    have hdocuments : t.store.documents = s.store.documents ++ added := by rw [hafter]
    rw [hin.runs hs.lawful.runs, hdocuments, List.map_append, List.sum_append, List.length_append, hI]
    show _ + (run.itemsNew + 0) = _
    rw [Nat.add_zero, hin.new]

/-- **In every run of the system, with one call at a time, however it is interrupted, each committed
row of `ingestion_runs` is closed and has looked at as many items as it stored, knew and lost; it
has stored exactly the documents that name it; and all rows together have stored all documents.** -/
theorem ledger_of_run {as : List SystemAct} {s : System}
    (hrun : exec (systemFire U sha) .empty as = some s) :
    (∀ run ∈ s.session.committed.runs, Ledger s.session.committed.documents run) ∧
      (s.session.committed.runs.map (·.itemsNew)).sum = s.session.committed.documents.length := by
  have hs := evolved_of_run hrun
  exact ⟨hs.ledger, hs.counted⟩

/-! ## hashes -/

theorem Taken.fingerprinted {source : Source} {runId : Nat} {d : RawDocument}
    (h : Taken U sha source runId d) : Fingerprinted U sha d := by
  obtain ⟨fetch, item, id, rfl⟩ := h
  cases hkept : item.keptBody source.storeFullText with
  | some body =>
    have hhashes : computeHashes U sha item source.storeFullText =
        ⟨sha body, contentHash U sha body, some (normaliseText U body)⟩ := by
      unfold computeHashes
      rw [hkept]
    have hbody : (if source.storeFullText then item.bodyText else none) = some body := by
      unfold ParsedItem.keptBody at hkept
      cases hf : source.storeFullText with
      | false =>
        rw [hf] at hkept
        cases hkept
      | true =>
        rw [hf, if_pos rfl] at hkept
        exact (Option.filter_eq_some_iff.mp hkept).1
    constructor
    · intro clean hclean
      have hclean : (computeHashes U sha item source.storeFullText).cleanText = some clean := hclean
      rw [hhashes] at hclean
      cases hclean
      show (computeHashes U sha item source.storeFullText).contentHash = _ ∧ _
      refine ⟨by rw [hhashes]; rfl, body, hbody, rfl, ?_⟩
      show (computeHashes U sha item source.storeFullText).rawHash = _
      rw [hhashes]
    · intro hnone
      have hnone : (computeHashes U sha item source.storeFullText).cleanText = none := hnone
      rw [hhashes] at hnone
      cases hnone
  | none =>
    have hhashes : ∃ digest, computeHashes U sha item source.storeFullText =
        ⟨digest, digest, none⟩ := by
      unfold computeHashes
      rw [hkept]
      exact ⟨_, rfl⟩
    obtain ⟨digest, hhashes⟩ := hhashes
    constructor
    · intro clean hclean
      have hclean : (computeHashes U sha item source.storeFullText).cleanText = some clean := hclean
      rw [hhashes] at hclean
      cases hclean
    · intro _
      constructor
      · show (computeHashes U sha item source.storeFullText).rawHash =
          (computeHashes U sha item source.storeFullText).contentHash
        rw [hhashes]
      · show (if source.storeFullText then item.bodyText else none).getD [] = []
        unfold ParsedItem.keptBody at hkept
        cases hf : source.storeFullText with
        | false => rfl
        | true =>
          rw [hf, if_pos rfl] at hkept
          rw [if_pos rfl]
          cases hb : item.bodyText with
          | none => rfl
          | some body =>
            rw [hb] at hkept
            by_cases hempty : body = []
            · rw [hempty]
              rfl
            · rw [Option.filter_some, if_pos (decide_eq_true hempty)] at hkept
              cases hkept

theorem hashes_change
    (h : s.store.keys.Nodup ∧ ∀ d ∈ s.store.documents, Fingerprinted U sha d)
    (hc : Change U sha P s t) :
    t.store.keys.Nodup ∧ ∀ d ∈ t.store.documents, Fingerprinted U sha d := by
  cases change_intake hc with
  | none hdocuments hruns =>
    unfold Store.keys
    rw [hdocuments]
    exact h
  | ran source now run added hx hb hin hterms =>
    obtain ⟨next, sources, hafter⟩ := hin.tables
    have hdocuments : t.store.documents = s.store.documents ++ added := by rw [hafter]
    refine ⟨hin.distinct h.1, ?_⟩
    rw [hdocuments, List.forall_mem_append]
    exact ⟨h.2, fun d hd => (hin.taken d hd).fingerprinted⟩

/-- **In every run of the system, with one call at a time, no source has two documents with one
content hash; the content hash of a document with text is the hash of that text, which is its body
in normal form, and the raw hash is that of the body; a document without text has no body.** -/
theorem hashes_of_run {as : List SystemAct} {s : System}
    (hrun : exec (systemFire U sha) .empty as = some s) :
    s.session.committed.keys.Nodup ∧
      ∀ d ∈ s.session.committed.documents, Fingerprinted U sha d :=
  (evolved_of_run hrun).invariant
    (I := fun s => s.store.keys.Nodup ∧ ∀ d ∈ s.store.documents, Fingerprinted U sha d)
    ⟨List.nodup_nil, fun _ hd => absurd hd List.not_mem_nil⟩ fun _ _ _ hI hc => hashes_change hI hc

end

theorem ledger_of_run_firstTick :
    ∃ s, exec (systemFire Unicode.latin id) .empty Sample.firstTick = some s ∧
      (s.session.committed.runs.map (·.itemsNew)).sum = 1 ∧
      ∀ run ∈ s.session.committed.runs, Ledger s.session.committed.documents run := by
  obtain ⟨s, hs, hdocuments, _⟩ := Sample.firstTick_done
  obtain ⟨hruns, hsum⟩ := ledger_of_run hs
  exact ⟨s, hs, hsum.trans hdocuments, hruns⟩

theorem hashes_of_run_firstTick :
    ∃ s, exec (systemFire Unicode.latin id) .empty Sample.firstTick = some s ∧
      ∃ d ∈ s.session.committed.documents, Fingerprinted Unicode.latin id d := by
  obtain ⟨s, hs, d, hd⟩ := Sample.firstTick_document
  exact ⟨s, hs, d, hd, (hashes_of_run hs).2 d hd⟩

end GeoRisk
