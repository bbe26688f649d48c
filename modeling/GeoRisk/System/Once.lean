import GeoRisk.Processing.Provider
import GeoRisk.System.Integrity

/-!
# A document is used once

A document that has become part of an event is answered, and a worker asks no more for it.  This
rests on providers whose calls have no result beside an error: the row of such a call says `error`,
and its document waits again, while its result is published.

* `Once`                no document is linked to two events, and every linked one is answered;
* `Evolved.once`        with exclusive providers every database has it;
* `once_of_run`         and every run;
* `Attempts`            what an unanswered document has cost;
* `attempts_of_run`     no document ever has more rows than three attempts of two calls leave.
-/

namespace GeoRisk
open Kit

/-- what is known of every call -/
def ExclusiveCall (env : CallEnv) : Prop := Exclusive env.provider

/-- a document has one event at most, and is answered if it has one -/
structure Once (s : Store) : Prop where
  single : (s.reported.map Prod.fst).Nodup
  answered : ∀ p ∈ s.reported, terminal s.extractions p.1 = true

/-- the calls of an unanswered document are errors, two of each attempt -/
structure Attempts (rows : List Extraction) (documentId : Nat) : Prop where
  even : terminal rows documentId = false → errorRows rows documentId % 2 = 0
  bound : (rows.countP fun x => decide (x.documentId = documentId)) ≤ maxErrorRows

section
variable {U : Unicode} {sha : Text → Text} {P : CallEnv → Prop} {s t : Sources}

/-! ## one event -/

/-- the rows of a published document answer it -/
theorem terminal_published {env : CallEnv} {document : RawDocument} {p : Nat}
    {o : ExtractionOutcome} {v : Option VerificationReport} {e : Option Nat} {call : ExtractionCall}
    (hfinal : o.final = some call) (hs : call.succeeded = true) :
    terminal (extractionRows env document.id p o v e) document.id = true := by
  obtain ⟨i, _, hc⟩ := final_mem hfinal
  have hmem : extractionRow env document.id p v e o.finalIndex (call, i) ∈
      extractionRows env document.id p o v e :=
    List.mem_map_of_mem (List.mem_zipIdx_iff_getElem?.mpr hc)
  have hne : (extractionRow env document.id p v e o.finalIndex (call, i)).outcome ≠ .error := by
    intro he
    have herror := outcomeLabel_error.mp he
    unfold ExtractionCall.succeeded at hs
    rw [Bool.and_eq_true, Option.isNone_iff_eq_none] at hs
    rw [hs.2] at herror
    cases herror
  rw [terminal, List.any_eq_true]
  refine ⟨_, hmem, ?_⟩
  rw [Bool.and_eq_true, decide_eq_true_eq, decide_eq_true_eq]
  exact ⟨rfl, hne⟩

theorem Once.append {s t : Store} {rows : List Extraction} (h : Once s)
    (hrows : t.extractions = s.extractions ++ rows)
    (hnone : (rows.filterMap fun x => x.eventId.map fun i => (x.documentId, i)) = []) : Once t := by
  have hreported : t.reported = s.reported := by
    unfold Store.reported
    rw [hrows, List.filterMap_append, hnone, List.append_nil]
  refine ⟨hreported ▸ h.single, fun p hp => ?_⟩
  rw [hrows, terminal_append, h.answered p (hreported ▸ hp), Bool.true_or]

/-- a call on a document that waits links it to one event at most -/
theorem once_written {env : CallEnv} {document : RawDocument} {p : Nat} {o : ExtractionOutcome}
    {request : ExtractionRequest} {s t : Store} (h : Once s) (hP : Exclusive env.provider)
    (hw : terminal s.extractions document.id = false) (ho : Cascade env.provider request o.calls)
    (hwritten : Written U env document p o s t) : Once t := by
  cases hwritten.record with
  | telemetry v _ _ hrows => exact h.append hrows reported_telemetry
  | published f event _ hfinal _ _ _ hrows =>
    obtain ⟨call, hcall, hres⟩ := hfinal
    have hreported : t.reported = s.reported ++ [(document.id, event.eventId)] := by
      unfold Store.reported
      rw [hrows, List.filterMap_append, reported_published hcall]
    -- a document that has an event does not wait
    have hnew : ∀ q ∈ s.reported, q.1 ≠ document.id := by
      intro q hq he
      have hanswered := h.answered q hq
      rw [he, hw] at hanswered
      cases hanswered
    constructor
    · rw [hreported]
      exact nodup_insert h.single hnew
    · rw [hreported, List.forall_mem_append, List.forall_mem_singleton, hrows]
      constructor
      · intro q hq
        rw [terminal_append, h.answered q hq, Bool.true_or]
      · rw [terminal_append, terminal_published hcall (final_succeeded ho hP hcall hres),
          Bool.or_true]

theorem once_change (h : Once s.store) (hc : Change U sha ExclusiveCall s t) : Once t.store := by
  have hsame : t.store.extractions = s.store.extractions → Once t.store := fun he =>
    h.append (he.trans (List.append_nil _).symm) rfl
  cases change_record hc with
  | same hsame' => exact hsame hsame'.extractions
  | processed documentId env hw hP hf =>
    obtain ⟨document, p, o, request, verify, hd, ho, hwritten⟩ := fire_written hf
    have hid : document.id = documentId := lookup_key hd
    exact once_written h hP (hid ▸ hw.unanswered) (extractDocument_cascade ho) hwritten
  | decided eventId input hf =>
    obtain ⟨e, _, he | ⟨verb, changes, _, he⟩⟩ := fire_decide hf
    · exact hsame (by rw [he])
    · exact hsame (by rw [he]; rfl)

/-- **With exclusive providers every database uses a document once.** -/
theorem Evolved.once (h : Evolved U sha ExclusiveCall s) : Once s.store :=
  h.invariant (I := fun s => Once s.store) ⟨List.nodup_nil, fun _ hp => absurd hp List.not_mem_nil⟩
    fun _ _ _ hI hc => once_change hI hc

/-- **In every run of the system, with one call at a time and providers that never return a result
with an error, each document is linked to at most one event, and none that is linked is ever
selected again.** -/
theorem once_of_run {as : List SystemAct} {s : System}
    (hP : ∀ a ∈ as, a.Meets fun env => Exclusive env.provider)
    (hrun : exec (systemFire U sha) .empty as = some s) :
    (s.session.committed.links.map Prod.fst).Nodup ∧
      ∀ p ∈ s.session.committed.links, ∀ limit, p.1 ∉ pendingDocumentIds s.session.committed limit := by
  have hs : Evolved U sha ExclusiveCall s.committed := (system_of_run hP hrun).evolved
  have honce : Once s.session.committed := hs.once
  have hlinks : s.session.committed.links.Perm s.session.committed.reported :=
    hs.intact.record.links
  refine ⟨(hlinks.map Prod.fst).nodup_iff.mpr honce.single, fun p hp limit hpending => ?_⟩
  have hanswered := honce.answered p (hlinks.mem_iff.mp hp)
  rw [(mem_pendingDocumentIds hpending).1] at hanswered
  cases hanswered

/-! ## attempts -/

theorem errorRows_of_unanswered {rows : List Extraction} {i : Nat} (h : terminal rows i = false) :
    errorRows rows i = rows.countP fun x => decide (x.documentId = i) := by
  unfold errorRows
  refine List.countP_congr fun x hx => ?_
  have hnot := List.any_eq_false.mp h x hx
  simp only [Bool.and_eq_true, decide_eq_true_eq, not_and, not_not] at hnot
  rw [Bool.and_eq_true, decide_eq_true_eq, decide_eq_true_eq]
  exact ⟨fun hi => hi.1, fun hi => ⟨hi, hnot hi⟩⟩

theorem Attempts.same {rows more : List Extraction} {i : Nat} (h : Attempts rows i)
    (hmore : ∀ x ∈ more, x.documentId ≠ i) : Attempts (rows ++ more) i := by
  have hcount : (more.countP fun x => decide (x.documentId = i)) = 0 := by
    rw [List.countP_eq_zero]
    intro x hx
    simpa using hmore x hx
  have herrors : errorRows more i = 0 := by
    rw [errorRows, List.countP_eq_zero]
    intro x hx
    simp [hmore x hx]
  constructor
  · intro hterminal
    rw [terminal_append, Bool.or_eq_false_iff] at hterminal
    rw [errorRows_append, herrors, Nat.add_zero]
    exact h.even hterminal.1
  · rw [List.countP_append, hcount, Nat.add_zero]
    exact h.bound

/-- **An attempt on a document that waits stays within the bound**: errors come in pairs, so that there
are four at most. -/
theorem Attempts.attempt {rows more : List Extraction} {i : Nat} {now : DateTime}
    {calls : List ExtractionCall} (h : Attempts rows i) (hw : terminal rows i = false)
    (hretried : errorRows rows i < maxErrorRows) (hmore : Rows now i calls more)
    (hcalls : calls.length ≤ 2) : Attempts (rows ++ more) i := by
  have heven := h.even hw
  have hmax : maxErrorRows = 6 := rfl
  have hlength : more.length ≤ 2 := by
    have := congrArg List.length hmore.costs
    rw [List.length_map, List.length_map] at this
    omega
  constructor
  · intro hterminal
    rw [terminal_append, Bool.or_eq_false_iff] at hterminal
    rw [errorRows_append]
    rcases hmore.own with hown | hown
    · rw [hterminal.2] at hown
      cases hown
    · omega
  · have hcount := List.countP_le_length (p := fun x : Extraction => decide (x.documentId = i))
      (l := more)
    rw [List.countP_append, ← errorRows_of_unanswered hw]
    omega

theorem attempts_change (h : ∀ i, Attempts s.store.extractions i)
    (hc : Change U sha (fun env => env.allowEscalation = true) s t) :
    ∀ i, Attempts t.store.extractions i := by
  cases change_record hc with
  | same hsame =>
    rw [hsame.extractions]
    exact h
  | processed documentId env hw hP hf =>
    obtain ⟨document, p, o, request, verify, hd, ho, hwritten⟩ := fire_written hf
    have hid : document.id = documentId := lookup_key hd
    rw [hP] at ho
    have hcalls : o.calls.length ≤ 2 := by
      obtain ⟨_, ⟨first, hcalls, _⟩ | ⟨first, second, hcalls⟩⟩ := extractDocument_ok ho
      · rw [hcalls]
        exact Nat.le_succ 1
      · rw [hcalls]
        exact le_refl 2
    have hgrown : ∀ v e, t.store.extractions = s.store.extractions ++
        extractionRows env document.id p o v e → ∀ i, Attempts t.store.extractions i := by
      intro v e hrows i
      have hmore : Rows env.now document.id o.calls (extractionRows env document.id p o v e) :=
        extractionRows_rows ho
      rw [hrows]
      by_cases hi : i = document.id
      · rw [hi]
        exact (h _).attempt (hid ▸ hw.unanswered) (hid ▸ hw.retried) hmore hcalls
      · exact (h i).same fun x hx hx' => hi (hx'.symm.trans (hmore.documentId x hx))
    cases hwritten.record with
    | telemetry v _ _ hrows => exact hgrown v none hrows
    | published f event _ _ _ _ _ hrows => exact hgrown _ _ hrows
  | decided eventId input hf =>
    obtain ⟨e, _, he | ⟨verb, changes, _, he⟩⟩ := fire_decide hf
    · rw [he]
      exact h
    · rw [he]
      exact h

/-- **In every run of the system, with one call at a time, no document has more than six rows of
telemetry**, whatever providers answer, whichever writes fail and however often the worker dies. -/
theorem attempts_of_run {as : List SystemAct} {s : System}
    (hrun : exec (systemFire U sha) .empty as = some s) (documentId : Nat) :
    (s.session.committed.extractions.countP fun x => decide (x.documentId = documentId)) ≤
      maxErrorRows := by
  have hmeets : ∀ a : SystemAct, a.Meets fun env => env.allowEscalation = true := by
    intro a
    cases a with
    | queue a => cases a <;> first | rfl | exact trivial
    | _ => exact trivial
  have hs := (system_of_run (fun a _ => hmeets a) hrun).evolved
  have hattempts : ∀ i, Attempts s.committed.store.extractions i :=
    hs.invariant (I := fun s => ∀ i, Attempts s.store.extractions i)
      (fun _ => ⟨fun _ => rfl, Nat.zero_le _⟩) fun _ _ _ hI hc => attempts_change hI hc
  exact (hattempts documentId).bound

end

/-! ## the tick again -/

namespace Sample

/-- the provider of the tick answers without an error -/
theorem exclusive_env (severity : Severity) : Exclusive (env severity).provider := by
  intro request answer h herror
  cases h
  cases herror

end Sample

theorem once_of_run_firstTick :
    ∃ s, exec (systemFire Unicode.latin id) .empty Sample.firstTick = some s ∧
      s.session.committed.events.length = 1 ∧
      (s.session.committed.links.map Prod.fst).Nodup ∧
      ∀ p ∈ s.session.committed.links, ∀ limit,
        p.1 ∉ pendingDocumentIds s.session.committed limit := by
  obtain ⟨s, hs, _, hevents, _⟩ := Sample.firstTick_done
  exact ⟨s, hs, hevents,
    once_of_run (Sample.firstTickWith_meets (Sample.exclusive_env .moderate)) hs⟩

theorem attempts_of_run_firstTick :
    ∃ s, exec (systemFire Unicode.latin id) .empty Sample.firstTick = some s ∧
      ∃ d ∈ s.session.committed.documents,
        (s.session.committed.extractions.countP fun x => decide (x.documentId = d.id)) ≤
          maxErrorRows := by
  obtain ⟨s, hs, d, hd⟩ := Sample.firstTick_document
  exact ⟨s, hs, d, hd, attempts_of_run hs d.id⟩

end GeoRisk
