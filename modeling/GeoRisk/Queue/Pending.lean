import Mathlib.Data.List.Sort
import Mathlib.Algebra.BigOperators.Group.List.Basic
import GeoRisk.Processing.Effect

/-!
# Which documents wait, and what was spent

The two queries of `queue.py` over the stored rows, and what an attempt that returns adds to them.

* `pendingDocumentIds`    `pending_document_ids`;
* `spentTodayUsd`         `spent_today_usd`;
* `Rows`                  the rows of an attempt: a row that is no error, or two errors; each with
                          the cost of its call, rounded to the column;
* `rows_of_ok`            an attempt that returns has written such rows.
-/

namespace GeoRisk
open Kit

/-- `MAX_ATTEMPTS`, `MAX_ERROR_ROWS` -/
def maxAttempts : Nat := 3
def maxErrorRows : Nat := maxAttempts * 2

/-- the document has a row with an outcome other than `error` -/
def terminal (rows : List Extraction) (documentId : Nat) : Bool :=
  rows.any fun x => decide (x.documentId = documentId) && decide (x.outcome ≠ .error)

def errorRows (rows : List Extraction) (documentId : Nat) : Nat :=
  rows.countP fun x => decide (x.documentId = documentId) && decide (x.outcome = .error)

/-- the `WHERE` clause of `pending_document_ids` -/
def isPending (s : Store) (d : RawDocument) : Bool :=
  d.cleanText.isSome && !d.isTombstoned && !terminal s.extractions d.id &&
    decide (errorRows s.extractions d.id < maxErrorRows)

/-- `ORDER BY retrieved_at, id` -/
def OldestFirst (a b : RawDocument) : Prop :=
  a.retrievedAt < b.retrievedAt ∨ (a.retrievedAt = b.retrievedAt ∧ a.id ≤ b.id)

instance : DecidableRel OldestFirst := fun _ _ => inferInstanceAs (Decidable (_ ∨ _))

def pendingDocumentIds (s : Store) (limit : Int) : List Nat :=
  if limit ≤ 0 then []
  else (((s.documents.filter (isPending s)).insertionSort OldestFirst).map (·.id)).take limit.toNat

/-- the recorded cost of the rows since midnight UTC -/
def spentTodayUsd (rows : List Extraction) (now : DateTime) : ℚ :=
  ((rows.filter fun x => decide (now.startOfDay ≤ x.createdAt)).map (·.costUsd)).sum

section
variable {s : Store}

/-! ## the queries -/

theorem mem_pendingDocumentIds {limit : Int} {i : Nat} (h : i ∈ pendingDocumentIds s limit) :
    terminal s.extractions i = false ∧ errorRows s.extractions i < maxErrorRows := by
  unfold pendingDocumentIds at h
  split at h
  · cases h
  · obtain ⟨d, hd, rfl⟩ := List.mem_map.mp (List.mem_of_mem_take h)
    have hp := (List.mem_filter.mp ((List.perm_insertionSort _ _).mem_iff.mp hd)).2
    simp only [isPending, Bool.and_eq_true, decide_eq_true_eq, Bool.not_eq_true'] at hp
    exact ⟨hp.1.2, hp.2⟩

theorem nodup_pendingDocumentIds (h : (s.documents.map (·.id)).Nodup) (limit : Int) :
    (pendingDocumentIds s limit).Nodup := by
  unfold pendingDocumentIds
  split
  · exact List.nodup_nil
  · refine List.Nodup.sublist (List.take_sublist _ _) ?_
    rw [((List.perm_insertionSort OldestFirst (s.documents.filter (isPending s))).map _).nodup_iff]
    exact h.sublist (List.filter_sublist.map _)

theorem terminal_append (rows more : List Extraction) (i : Nat) :
    terminal (rows ++ more) i = (terminal rows i || terminal more i) := List.any_append

theorem errorRows_append (rows more : List Extraction) (i : Nat) :
    errorRows (rows ++ more) i = errorRows rows i + errorRows more i := List.countP_append

theorem spentTodayUsd_append (rows more : List Extraction) (now : DateTime) :
    spentTodayUsd (rows ++ more) now = spentTodayUsd rows now + spentTodayUsd more now := by
  unfold spentTodayUsd
  rw [List.filter_append, List.map_append, List.sum_append]

theorem terminal_of_ne {rows : List Extraction} {i j : Nat} (h : ∀ x ∈ rows, x.documentId = i)
    (hne : i ≠ j) : terminal rows j = false := by
  rw [terminal, List.any_eq_false]
  intro x hx
  simp [h x hx, hne]

theorem startOfDay_eq {a b : DateTime} (h : a.date = b.date) : a.startOfDay = b.startOfDay := by
  have h := congrArg Date.ordinal h
  unfold DateTime.startOfDay
  exact congrArg (fun n => (⟨n * DateTime.microsPerDay⟩ : DateTime)) h

theorem startOfDay_le (a : DateTime) : a.startOfDay ≤ a := by
  show a.micros / DateTime.microsPerDay * DateTime.microsPerDay ≤ a.micros
  exact Int.ediv_mul_le _ (by decide)

theorem spentTodayUsd_of_date {rows : List Extraction} {now : DateTime}
    (h : ∀ x ∈ rows, x.createdAt.date = now.date) :
    spentTodayUsd rows now = (rows.map (·.costUsd)).sum := by
  unfold spentTodayUsd
  rw [List.filter_eq_self.mpr]
  intro x hx
  rw [← startOfDay_eq (h x hx)]
  exact decide_eq_true (startOfDay_le _)

/-! ## the rows of an attempt -/

/-- `process_document` as the queue calls it -/
def attempt (U : Unicode) (store : Store) (call : CallEnv) (document : RawDocument) : Processed :=
  processDocument { call with allowEscalation := true } store U document

/-- the rows that an attempt on the document leaves -/
structure Rows (now : DateTime) (documentId : Nat) (calls : List ExtractionCall)
    (rows : List Extraction) : Prop where
  documentId : ∀ x ∈ rows, x.documentId = documentId
  createdAt : ∀ x ∈ rows, x.createdAt = now
  costs : rows.map (·.costUsd) = calls.map fun c => numericTo 6 c.costUsd
  outcomes : (∃ x ∈ rows, x.outcome ≠ .error) ∨
    (rows.length = 2 ∧ ∀ x ∈ rows, x.outcome = .error)

theorem extractionRows_rows {env : CallEnv} {request : ExtractionRequest}
    {verify : ExtractionResult → Nat} {o : ExtractionOutcome} {d p : Nat}
    {v : Option VerificationReport} {e : Option Nat}
    (ho : (extractDocument env.provider request verify true).outcome = .ok o) :
    Rows env.now d o.calls (extractionRows env d p o v e) := by
  constructor
  · intro x hx
    obtain ⟨call, i, _, rfl⟩ := mem_extractionRows hx
    rfl
  · intro x hx
    obtain ⟨call, i, _, rfl⟩ := mem_extractionRows hx
    rfl
  · unfold extractionRows
    rw [List.map_map]
    show o.calls.zipIdx.map ((fun c : ExtractionCall => numericTo 6 c.costUsd) ∘ Prod.fst) = _
    rw [← List.map_map, List.zipIdx_map_fst]
  · by_cases h : ∃ x ∈ extractionRows env d p o v e, x.outcome ≠ .error
    · exact Or.inl h
    · right
      push Not at h
      refine ⟨?_, h⟩
      rw [length_extractionRows]
      refine extractDocument_two_errors ho fun c hc => ?_
      obtain ⟨i, hi⟩ := List.mem_iff_getElem?.mp hc
      have := h (extractionRow env d p v e o.finalIndex (c, i))
        (List.mem_map_of_mem (List.mem_zipIdx_iff_getElem?.mpr hi))
      exact outcomeLabel_error.mp this

/-- **What an attempt that returns has written.** -/
theorem rows_of_ok {call : CallEnv} {U : Unicode} {document : RawDocument} {after : Store}
    {res : PipelineResult} (h : (attempt U s call document).result = .ok (after, res)) :
    (∃ rows, after.extractions = s.extractions ++ rows ∧
      Rows call.now document.id (attempt U s call document).calls rows) ∧ Unrelated s after := by
  obtain ⟨o, request, verify, ho, hcalls, heff, hun⟩ := processDocument_ok h
  refine ⟨?_, hun⟩
  rw [show (attempt U s call document).calls = o.calls from hcalls]
  cases heff with
  | telemetry p v _ hrows => exact ⟨_, hrows, extractionRows_rows ho⟩
  | published p r event _ _ _ hrows => exact ⟨_, hrows, extractionRows_rows ho⟩

theorem Rows.other {now : DateTime} {i j : Nat} {calls : List ExtractionCall}
    {rows : List Extraction} (h : Rows now i calls rows) (hne : i ≠ j) :
    terminal rows j = false ∧ errorRows rows j = 0 := by
  refine ⟨terminal_of_ne h.documentId hne, ?_⟩
  rw [errorRows, List.countP_eq_zero]
  intro x hx
  simp [h.documentId x hx, hne]

/-- **An attempt that returns without an answer leaves two errors.** -/
theorem Rows.own {now : DateTime} {i : Nat} {calls : List ExtractionCall}
    {rows : List Extraction} (h : Rows now i calls rows) :
    terminal rows i = true ∨ errorRows rows i = 2 := by
  rcases h.outcomes with ⟨x, hx, hne⟩ | ⟨hlen, herr⟩
  · left
    rw [terminal, List.any_eq_true]
    exact ⟨x, hx, by simp [h.documentId x hx, hne]⟩
  · right
    rw [errorRows, List.countP_eq_length.mpr, hlen]
    intro x hx
    simp [h.documentId x hx, herr x hx]

end

end GeoRisk
