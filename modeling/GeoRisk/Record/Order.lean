import GeoRisk.Record.Race

/-!
# Reports in another order

The queue hands documents over by retrieval time and then by key, so the reports of one fetch come in
either order.  The severity of a record follows the order in which its reports are merged, whatever
their publication times.

* `mergeAll`              the reports of a record, one after another;
* `mergeAll_severity`     the severity is the one asserted by the report that was merged last;
* `severity_order_iff`    two reports leave the severity of the second in both orders exactly when
                          they assert the same.
-/

namespace GeoRisk
open Kit

def mergeAll (U : Unicode) (e : Event) (reports : List Report) : Event :=
  reports.foldl (mergeEvent U) e

section
variable {U : Unicode} {e : Event} {r A B : Report} {document documentA documentB : RawDocument}

/-- quotes that passed the schema are not empty -/
theorem Gated.quote_ne_nil (h : Gated U document r) {q : VerifiedQuote}
    (hq : q ∈ r.verification.quotes) : q.quote ≠ [] := by
  rw [h.verification] at hq
  obtain ⟨item, _, rfl⟩ := List.mem_map.mp hq
  have hquote : (verifyItem U document.cleanText item).quote = item.quote.text :=
    verifyQuote_quote item.quote.text document.cleanText
  rw [hquote]
  intro hnil
  have hlen := item.quote.min_length
  rw [hnil] at hlen
  exact absurd hlen (by decide)

/-- **A report whose verified quotes support its severity sets it.** -/
theorem mergeEvent_severity_of_labelled (h : Gated U document r)
    (hq : Labelled U r.verification.quotes .severity) :
    (mergeEvent U e r).severity = r.event.severity := by
  rw [mergeEvent_severity, if_pos]
  exact quoteFor_of_labelled U (fun q hm => h.quote_ne_nil hm) hq

/-- the run law: the last report decides -/
theorem mergeAll_severity {reports : List Report}
    (h : ∀ r ∈ reports, ∃ document, Gated U document r)
    (hq : ∀ r ∈ reports, Labelled U r.verification.quotes .severity) :
    (mergeAll U e reports).severity =
      ((reports.getLast?).map (·.event.severity)).getD e.severity := by
  induction reports using List.reverseRecOn with
  | nil => rfl
  | append_singleton rest r _ =>
    have hr : r ∈ rest ++ [r] := List.mem_append_right _ (List.mem_singleton_self r)
    obtain ⟨document, hg⟩ := h r hr
    unfold mergeAll
    rw [List.foldl_append, List.getLast?_concat]
    exact mergeEvent_severity_of_labelled hg (hq r hr)

/-- **Two reports leave the severity of the second in either order exactly when they assert the
same severity.** -/
theorem severity_order_iff (hA : Gated U documentA A) (hB : Gated U documentB B)
    (qA : Labelled U A.verification.quotes .severity)
    (qB : Labelled U B.verification.quotes .severity) :
    ((mergeAll U e [A, B]).severity = B.event.severity ∧
      (mergeAll U e [B, A]).severity = B.event.severity) ↔
      A.event.severity = B.event.severity := by
  have hAB : (mergeAll U e [A, B]).severity = B.event.severity :=
    mergeEvent_severity_of_labelled hB qB
  have hBA : (mergeAll U e [B, A]).severity = A.event.severity :=
    mergeEvent_severity_of_labelled hA qA
  rw [hAB, hBA]
  exact and_iff_right rfl

end

/-! ## two orders -/

namespace Sample

/-- the same disruption, reported a second later -/
def laterDocument (text : Text) : RawDocument :=
  { document text with id := 9, publishedAt := some ⟨1000000⟩ }

def laterReport (severity : Severity) : Report :=
  reportOf (env severity) Unicode.latin (laterDocument text) source (event severity)

/-- the quotes of the sample event, verified; they do not depend on its severity -/
def quotes : VerificationReport :=
  verifyEvidence Unicode.latin (event .moderate).evidence (some text)

theorem quotes_verified : quotes.allVerified = true := by decide +kernel

theorem quotes_labelled : Labelled Unicode.latin quotes.quotes .severity := by
  apply labelled_of_quoteFor
  decide +kernel

theorem report_gated (severity : Severity) :
    Gated Unicode.latin (document text) (report severity) :=
  ⟨rfl, rfl, quotes_verified, _, rfl, rfl⟩

theorem laterReport_gated (severity : Severity) :
    Gated Unicode.latin (laterDocument text) (laterReport severity) :=
  ⟨rfl, rfl, quotes_verified, _, rfl, rfl⟩

end Sample

/-- the earlier report, merged last, puts its severity over that of the later one -/
theorem earlier_overrides_later :
    ¬ ∀ (U : Unicode) (e : Event) (A B : Report) (documentA documentB : RawDocument),
      Gated U documentA A → Gated U documentB B →
      Labelled U A.verification.quotes .severity → Labelled U B.verification.quotes .severity →
      (A.event.eventType = e.eventType ∧ A.event.eventDate = e.eventDate) →
      (B.event.eventType = e.eventType ∧ B.event.eventDate = e.eventDate) →
      A.published < B.published →
      (mergeAll U e [A, B]).severity = B.event.severity ∧
        (mergeAll U e [B, A]).severity = B.event.severity := by
  intro h
  have hboth := h Unicode.latin (newEvent 4 3 (Sample.report .moderate)) (Sample.report .severe)
    (Sample.laterReport .moderate) _ _ (Sample.report_gated _) (Sample.laterReport_gated _)
    Sample.quotes_labelled Sample.quotes_labelled ⟨rfl, rfl⟩ ⟨rfl, rfl⟩
    (by decide +kernel)
  exact absurd hboth.2 (by decide +kernel)

theorem severity_order_agreed :
    ((mergeAll Unicode.latin Sample.waiting
        [Sample.report .moderate, Sample.laterReport .moderate]).severity = .moderate ∧
      (mergeAll Unicode.latin Sample.waiting
        [Sample.laterReport .moderate, Sample.report .moderate]).severity = .moderate) ↔
      Severity.moderate = .moderate :=
  severity_order_iff (Sample.report_gated .moderate) (Sample.laterReport_gated .moderate)
    Sample.quotes_labelled Sample.quotes_labelled

end GeoRisk
