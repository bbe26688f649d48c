import GeoRisk.Product.Desk
import GeoRisk.System.Integrity
import GeoRisk.System.Provenance

/-!
# What readers and reviewers get

The pages, over every run of the system, where no decision overlaps a tick.

* `served_of_run`      each record is served with all its quotes, and each can be checked;
* `Queued`             a record in the queue;
* `queue_of_run`       what waits for a human is in the queue, oldest first, and nowhere else;
* `DecisionRecorded`   what a decision did that was taken;
* `RowsRefused`        the database refuses the rows of a request that passes every check;
* `FormSent`           what sending the form does;
* `desk_of_run`        a decision is refused, by a check or by the database, and changes nothing, or
                       it is one step of the system and what the page says about it is so.
-/

namespace GeoRisk
open Kit

/-- a record in the queue, and its row -/
structure Queued (env : ReadEnv) (s : Store) (e : Event) (item : ReviewItemOut) : Prop where
  mem : e ∈ s.events
  pending : e.reviewStatus = .pending
  event : item.event = summaryOut e e.evidence.length
  reasons : item.reasons = reviewReasons e ∧ item.reasons ≠ []
  outOfSight : OutOfSight env s e.eventId

section
variable {U : Unicode} {sha : Text → Text} {P : CallEnv → Prop} {s t : Sources} {e : Event}

/-! ## every record is served -/

/-- a quote leads to its document and its source -/
theorem Evolved.quoted (h : Evolved U sha P s) (he : e ∈ s.store.events) :
    ∀ x ∈ e.evidence, ∃ d src, s.store.document? x.documentId = some d ∧
      s.store.source? d.sourceId = some src := by
  intro x hx
  obtain ⟨d, _, _, _, hd, _⟩ := ((h.cited e he).located x hx).found
  obtain ⟨src, _, hsrc, _⟩ := h.intact.documents d (lookup_mem hd)
  exact ⟨d, src, hd, hsrc⟩

theorem Evolved.evidenceJoin_ne_nil (h : Evolved U sha P s) (he : e ∈ s.store.events) :
    evidenceJoin s.store e.eventId ≠ [] := by
  obtain ⟨x, hx⟩ := List.exists_mem_of_ne_nil _ (h.cited e he).nonempty
  obtain ⟨d, src, hd, hsrc⟩ := h.quoted he x hx
  refine List.ne_nil_of_mem (a := (x, d, src)) (List.mem_filterMap.mpr ⟨(e.eventId, x), ?_, ?_⟩)
  · refine List.mem_filter.mpr ⟨List.mem_flatMap.mpr ⟨e, he, List.mem_map_of_mem hx⟩, ?_⟩
    rw [decide_eq_true rfl, ((h.cited e he).located x hx).verified]
    rfl
  · rw [hd, Option.bind_some, hsrc]
    rfl

/-- **In every run of the system, with one call at a time, each record is served with its quotes,
all of them and as many as the lists announce; each quote stands at its offsets in the stored text
of the document that it links, normalised once more as the verifier reads it, and names the source
of that document.** -/
theorem served_of_run {as : List SystemAct} {s : System}
    (hrun : exec (systemFire U sha) .empty as = some s) (env : ReadEnv) :
    ∀ e ∈ s.session.committed.events,
      ∃ out, getEvent env s.session.committed e.eventId = .ok out ∧
        Served U s.session.committed e out := by
  have hs := evolved_of_run hrun
  intro e he
  exact served_of_cited hs.keyed.events.nodup he (hs.cited e he) (hs.quoted he)

/-! ## the queue -/

theorem reviewOk_change (h : ∀ e ∈ s.store.events, ReviewOk e) (hc : Change U sha P s t) :
    ∀ e ∈ t.store.events, ReviewOk e := by
  cases change_record hc with
  | same hsame =>
    rw [hsame.events]
    exact h
  | processed documentId env hw hP hf => exact reviewOk_step h hf
  | decided eventId input hf => exact reviewOk_step h hf

theorem Evolved.reviewOk (h : Evolved U sha P s) : ∀ e ∈ s.store.events, ReviewOk e :=
  h.invariant (I := fun s => ∀ e ∈ s.store.events, ReviewOk e)
    (fun _ he => absurd he List.not_mem_nil) fun _ _ _ hI hc => reviewOk_change hI hc

theorem ReviewOk.pendingQuery_eq (h : ReviewOk e) :
    pendingQuery e = decide (e.reviewStatus = .pending) := by
  unfold pendingQuery
  by_cases hp : e.reviewStatus = .pending
  · rw [h.pending hp, Bool.and_true]
  · rw [decide_eq_false hp, Bool.false_and]

theorem Evolved.queued (h : Evolved U sha P s) (env : ReadEnv) (he : e ∈ s.store.events)
    (hp : e.reviewStatus = .pending) {ids : List Nat} (hids : e.eventId ∈ ids) :
    Queued env s.store e
      ⟨summaryOut e (countOf (evidenceCounts s.store ids) e.eventId), reviewReasons e⟩ := by
  refine ⟨he, hp, ?_, ⟨rfl, reviewReasons_ne_nil ((h.reviewOk e he).pending hp)⟩,
    outOfSight_of_not_established h.keyed.events.nodup he ?_⟩
  · rw [countOf_evidenceCounts hids, List.countP_eq_length_filter,
      filter_evidenceRows h.keyed.events.nodup he, List.length_map]
  · unfold isEstablished
    rw [hp]
    rfl

/-- **In every run of the system, with one call at a time, and so no decision during a tick, the
queue counts the records that wait for a human and lists the oldest of them, each with a reason;
what waits is on no other page.** -/
theorem queue_of_run {as : List SystemAct} {s : System}
    (hrun : exec (systemFire U sha) .empty as = some s) (env : ReadEnv) (limit : Nat) :
    (pendingQueue env s.session.committed limit).total =
        s.session.committed.events.countP (fun e => decide (e.reviewStatus = .pending)) ∧
      ∃ shown : List Event,
        List.Forall₂ (Queued env s.session.committed) shown
          (pendingQueue env s.session.committed limit).items ∧
        shown.Nodup ∧
        shown.length = min limit (pendingQueue env s.session.committed limit).total ∧
        shown.Pairwise (fun e f => e.createdAt.micros ≤ f.createdAt.micros) ∧
        ∀ e ∈ s.session.committed.events, e.reviewStatus = .pending → e ∉ shown →
          ∀ f ∈ shown, f.createdAt.micros ≤ e.createdAt.micros := by
  have hs := evolved_of_run hrun
  have hselected : s.session.committed.events.filter pendingQuery =
      s.session.committed.events.filter fun e => decide (e.reviewStatus = .pending) :=
    List.filter_congr fun e he => (hs.reviewOk e he).pendingQuery_eq
  unfold pendingQueue
  rw [hselected]
  set waiting := s.session.committed.events.filter fun e => decide (e.reviewStatus = .pending)
    with hwaiting
  set sorted := sortBy (fun e : Event => e.createdAt.micros) (env.scan waiting) with hsorted
  have hperm : sorted.Perm waiting := (perm_sortBy _ _).trans (env.scan_perm _)
  have hordered : sorted.Pairwise fun e f => e.createdAt.micros ≤ f.createdAt.micros :=
    pairwise_sortBy _ _
  have hmem : ∀ e, e ∈ sorted ↔ e ∈ s.session.committed.events ∧ e.reviewStatus = .pending := by
    intro e
    rw [hperm.mem_iff, hwaiting, List.mem_filter, decide_eq_true_eq]
  have hdistinct : sorted.Nodup :=
    hperm.nodup_iff.mpr ((List.Nodup.of_map _ hs.keyed.events.nodup).filter _)
  refine ⟨List.countP_eq_length_filter.symm, sorted.take limit, ?_, ?_, ?_, ?_, ?_⟩
  · simp only
    rw [List.forall₂_map_right_iff, List.forall₂_same]
    intro e he
    obtain ⟨hin, hp⟩ := (hmem e).mp (List.mem_of_mem_take he)
    exact hs.queued env hin hp (List.mem_map_of_mem he)
  · exact hdistinct.sublist (List.take_sublist _ _)
  · rw [List.length_take, hperm.length_eq]
  · exact hordered.sublist (List.take_sublist _ _)
  · intro e he hp hnot f hf
    have hin := (hmem e).mpr ⟨he, hp⟩
    rw [← List.take_append_drop limit sorted, List.mem_append] at hin
    rw [← List.take_append_drop limit sorted, List.pairwise_append] at hordered
    exact hordered.2.2 f hf e (hin.resolve_left hnot)

end

/-! ## the desk -/

/-- what a decision on `e` did that made the tables `tables` of the tables `store` -/
structure DecisionRecorded (env : ReadEnv) (store tables : Store) (e : Event) (payload : DecisionIn)
    (now : DateTime) (result : DecisionResult) (page : ReviewPage) : Prop where
  outcome : page.outcome = some result ∧ page.error = none
  event : getEvent env tables e.eventId = .ok page.event
  /-- the history has one row more, with what was sent -/
  history : ∃ row : ReviewDecision, row.id = result.decisionId ∧
    row.reviewer = strip payload.reviewer ∧ row.reason = strip payload.reason ∧
    row.decision = payload.decision ∧ row.changes = result.changes ∧ row.decidedAt = now ∧
    page.history.Perm (row :: decisionHistory store e.eventId)
  announced : Announced env tables result now.date
  /-- the record waits no longer, and nothing else starts or stops to wait -/
  queue : ∀ limit,
    (∀ item ∈ (pendingQueue env tables limit).items, item.event.eventId ≠ e.eventId) ∧
      (pendingQueue env tables limit).total + (pendingQuery e).toNat =
        (pendingQueue env store limit).total
  /-- the triggers that the page named are why an approval keeps the flag -/
  approved : payload.decision = .approve → (result.notice = .marked ↔ reviewTriggers e ≠ [])

/-- the request passes every check, and the database refuses its rows -/
def RowsRefused (flush : Event → ReviewDecision → Option Text) (s : Store) (eventId : Nat)
    (request : DecisionRequest) (now : DateTime) (message : Text) : Prop :=
  ∃ payload e verb changes, request.parse = .ok payload ∧ s.event? eventId = some e ∧
    validateDecision e (payload.input now) = .ok (verb, changes) ∧
    flush (assigned e (payload.input now) verb changes)
      (decisionRow s.nextId (payload.input now) verb changes) = some message

/-- what sending the form does -/
inductive FormSent (U : Unicode) (sha printed : Text → Text)
    (flush : Event → ReviewDecision → Option Text) (env : ReadEnv) (s : System)
    (eventId : Nat) (form : DecisionForm) (now : DateTime) :
    Except HttpError (Store × ReviewPage) → Prop
  | missing (h : s.session.committed.event? eventId = none) :
      FormSent U sha printed flush env s eventId form now (.error eventNotFound)
  | refused {page : ReviewPage} {error : RequestError}
      (hpost : postDecision printed flush s.session.committed eventId form.request now =
        .error (.refused error))
      (hpage : page.error = some error.message ∧ page.outcome = none ∧ page.form = form)
      (hevent : getEvent env s.session.committed eventId = .ok page.event) :
      FormSent U sha printed flush env s eventId form now (.ok (s.session.committed, page))
  /-- the transaction is rolled back, and there is no page -/
  | raised {message : Text}
      (hpost : postDecision printed flush s.session.committed eventId form.request now =
        .error (.raised message))
      (hrows : RowsRefused flush s.session.committed eventId form.request now message) :
      FormSent U sha printed flush env s eventId form now (.error internalServerError)
  | recorded {t : System} {page : ReviewPage} {payload : DecisionIn} {result : DecisionResult}
      {e : Event} (he : s.session.committed.event? eventId = some e)
      (hparse : form.request.parse = .ok payload)
      (hstep : systemFire U sha s (.decide eventId (payload.input now)) = some t)
      (hpost : postDecision printed flush s.session.committed eventId form.request now =
        .ok (t.session.committed, result))
      (h : DecisionRecorded env s.session.committed t.session.committed e payload now result page) :
      FormSent U sha printed flush env s eventId form now (.ok (t.session.committed, page))

section
variable {U : Unicode} {sha printed : Text → Text}
  {flush : Event → ReviewDecision → Option Text} {env : ReadEnv} {store tables : Store}
  {eventId : Nat} {payload : DecisionIn} {now : DateTime} {result : DecisionResult}

/-- a decision that is taken is a step of the record -/
theorem decideRequest_ok (U : Unicode) {e : Event} (he : store.event? eventId = some e)
    (h : decideRequest printed flush store eventId payload now = .ok (tables, result)) :
    ∃ after, applyDecision e store.nextId (payload.input now) = .ok (after, result) ∧
      tables = { store.putEvent after with nextId := store.nextId + 1 } ∧
      fire U store (.decide eventId (payload.input now)) = some tables := by
  unfold decideRequest at h
  rw [he] at h
  simp only at h
  cases hr : (runDecision flush store.nextId (payload.input now)).run e with
  | error raised e' =>
    rw [hr] at h
    cases raised <;> cases h
  | ok res after =>
    rw [hr] at h
    cases h
    have hd := applyDecision_of_run hr
    refine ⟨after, hd, rfl, ?_⟩
    show (store.event? eventId).map (fun e => store.decideEvent e _) = _
    rw [he, Option.map_some]
    unfold Store.decideEvent
    rw [hd]

/-- only the flush raises what nothing handles -/
theorem rowsRefused_of_raised {request : DecisionRequest} {message : Text}
    (h : postDecision printed flush store eventId request now = .error (.raised message)) :
    RowsRefused flush store eventId request now message := by
  unfold postDecision at h
  cases hp : request.parse with
  | error error =>
    rw [hp] at h
    cases h
  | ok payload =>
    rw [hp] at h
    simp only [decideRequest] at h
    cases he : store.event? eventId with
    | none =>
      rw [he] at h
      cases h
    | some e =>
      rw [he] at h
      simp only [runDecision_eq] at h
      cases hv : validateDecision e (payload.input now) with
      | error error =>
        rw [hv] at h
        cases h
      | ok x =>
        obtain ⟨verb, changes⟩ := x
        refine ⟨payload, e, verb, changes, hp, he, hv, ?_⟩
        rw [hv] at h
        simp only at h
        cases hf : flush (assigned e (payload.input now) verb changes)
            (decisionRow store.nextId (payload.input now) verb changes) with
        | none =>
          rw [hf] at h
          cases h
        | some m =>
          rw [hf] at h
          cases h
          rfl

theorem total_pendingQueue (limit : Nat) :
    (pendingQueue env store limit).total = store.events.countP pendingQuery :=
  List.countP_eq_length_filter.symm

theorem mem_pendingQueue {limit : Nat} {item : ReviewItemOut}
    (h : item ∈ (pendingQueue env store limit).items) :
    ∃ f ∈ store.events, pendingQuery f = true ∧ item.event.eventId = f.eventId := by
  obtain ⟨f, hf, rfl⟩ := List.mem_map.mp h
  have hf := (perm_sortBy _ _).mem_iff.mp (List.mem_of_mem_take hf)
  obtain ⟨hmem, hp⟩ := List.mem_filter.mp ((env.scan_perm _).mem_iff.mp hf)
  exact ⟨f, hmem, hp, rfl⟩

/-- the verb of a request is the one that is recorded -/
theorem verb_of_decision {e : Event} {verb : ReviewVerb} {changes : List (Edited × Edited)}
    (h : validateDecision e (payload.input now) = .ok (verb, changes)) : verb = payload.decision := by
  have hof : ReviewVerb.ofText? payload.decision.value = some verb := (validateDecision_ok h).1
  rw [ReviewVerb.ofText?_value] at hof
  exact (Option.some.inj hof).symm

theorem row_of_decision {e after : Event} {id : Nat}
    (h : applyDecision e id (payload.input now) = .ok (after, result)) :
    ∃ row : ReviewDecision, after.reviewDecisions = e.reviewDecisions ++ [row] ∧
      row.id = result.decisionId ∧ row.reviewer = strip payload.reviewer ∧
      row.reason = strip payload.reason ∧ row.decision = payload.decision ∧
      row.changes = result.changes ∧ row.decidedAt = now := by
  obtain ⟨⟨verb, changes⟩, hvalid, h⟩ := bind_eq_ok.mp h
  cases h
  exact ⟨decisionRow id (payload.input now) verb changes, rfl, rfl, rfl, rfl,
    verb_of_decision hvalid, rfl, rfl⟩

/-- an approval keeps the flag for the triggers of the record -/
theorem approved_notice {e after : Event} {id : Nat}
    (h : applyDecision e id (payload.input now) = .ok (after, result))
    (hv : payload.decision = .approve) : result.notice = .marked ↔ reviewTriggers e ≠ [] := by
  obtain ⟨⟨verb, changes⟩, hvalid, h⟩ := bind_eq_ok.mp h
  cases h
  have hverb : verb = .approve := (verb_of_decision hvalid).trans hv
  subst hverb
  obtain rfl := (validateDecision_changes hvalid).2 (by decide)
  rw [ne_eq, reviewTriggers_eq_nil]
  show (if flagMustStay e.severity e.confidence ≠ [] then Notice.marked else Notice.plain) = .marked ↔ _
  split
  · next hkept => exact ⟨fun _ => hkept, fun _ => rfl⟩
  · next hnone =>
    constructor
    · intro h
      cases h
    · intro h
      exact absurd h hnone

/-- **A decision that is taken does what its page says.** -/
theorem recorded_of_decision (env : ReadEnv) {P : CallEnv → Prop} {sha : Text → Text}
    {s t : Sources} {e : Event} (hs : Evolved U sha P s) (ht : Evolved U sha P t)
    (he : s.store.event? eventId = some e)
    (h : decideRequest printed flush s.store eventId payload now = .ok (t.store, result)) :
    ∃ page, reviewContext env t.store eventId = .ok page ∧
      DecisionRecorded env s.store t.store e payload now result
        { page with outcome := some result } := by
  obtain ⟨after, happly, htables, _⟩ := decideRequest_ok U he h
  obtain ⟨_, hid, _, hpending, _⟩ := notice_spec happly
  have hkey : e.eventId = eventId := lookup_key he
  have hafter : t.store.event? eventId = some after := by
    rw [htables]
    exact lookup_replace (hid.trans hkey) he
  have hmem : after ∈ t.store.events := lookup_mem hafter
  have hkeys := ht.keyed.events.nodup
  have hcontext : reviewContext env t.store eventId = .ok {
      event := buildEventDetail env t.store after
      reasons := reviewReasons after
      history := decisionHistory t.store eventId } := by
    unfold reviewContext
    rw [hafter]
  refine ⟨_, hcontext, ⟨rfl, rfl⟩, ?_, ?_, ?_, fun limit => ⟨fun item hitem hsame => ?_, ?_⟩,
    approved_notice happly⟩
  · unfold getEvent
    rw [hkey, hafter]
  · obtain ⟨row, hrows, hrow⟩ := row_of_decision happly
    refine ⟨row, hrow.1, hrow.2.1, hrow.2.2.1, hrow.2.2.2.1, hrow.2.2.2.2.1, hrow.2.2.2.2.2, ?_⟩
    show (decisionHistory t.store eventId).Perm _
    unfold decisionHistory
    rw [hafter, hkey, he]
    refine (perm_sortBy _ _).trans ?_
    show after.reviewDecisions.Perm _
    rw [hrows]
    exact (List.perm_append_singleton row e.reviewDecisions).trans
      ((perm_sortBy _ _).symm.cons row)
  · exact announced_of_decision happly hkeys hmem (ht.evidenceJoin_ne_nil hmem)
  · obtain ⟨f, hf, hp, hfid⟩ := mem_pendingQueue hitem
    have heq := eq_of_eventId hkeys hmem hf (hfid.symm.trans (hsame.trans hid.symm))
    rw [heq, hpending] at hp
    cases hp
  · rw [total_pendingQueue, total_pendingQueue, htables]
    have hcount := countP_replace (p := pendingQuery) hs.keyed.events.nodup (lookup_mem he) hid.symm
    rw [hpending] at hcount
    exact hcount

/-- **In every run of the system, with one call at a time, whatever a reviewer sends with the form
between two ticks, and whatever the database answers: the record does not exist; or the request is
refused, over either way, and nothing changes; or the database refuses its rows, and nothing
changes; or the decision is one step of the system, over either way, and is recorded as the page
says.** -/
theorem desk_of_run {sha : Text → Text} {as : List SystemAct} {s : System}
    (hrun : exec (systemFire U sha) .empty as = some s) (hidle : s.idle = true)
    (printed : Text → Text) (flush : Event → ReviewDecision → Option Text) (env : ReadEnv)
    (eventId : Nat) (form : DecisionForm) (now : DateTime) :
    FormSent U sha printed flush env s eventId form now
      (reviewSubmit printed flush env s.session.committed eventId form now) := by
  have hs := evolved_of_run hrun
  cases he : s.session.committed.event? eventId with
  | none =>
    have hcontext : reviewContext env s.session.committed eventId = .error eventNotFound := by
      unfold reviewContext
      rw [he]
    unfold reviewSubmit
    rw [hcontext]
    exact .missing he
  | some e =>
    have hcontext : reviewContext env s.session.committed eventId = .ok {
        event := buildEventDetail env s.session.committed e
        reasons := reviewReasons e
        history := decisionHistory s.session.committed eventId } := by
      unfold reviewContext
      rw [he]
    have hevent : getEvent env s.session.committed eventId =
        .ok (buildEventDetail env s.session.committed e) := by
      unfold getEvent
      rw [he]
    unfold reviewSubmit
    rw [hcontext]
    simp only [Except.bind, bind]
    cases hpost : postDecision printed flush s.session.committed eventId form.request now with
    | error undecided =>
      cases undecided with
      | refused error => exact .refused hpost ⟨rfl, rfl, rfl⟩ hevent
      | raised message => exact .raised hpost (rowsRefused_of_raised hpost)
    | ok out =>
      obtain ⟨tables, result⟩ := out
      have hdecide := hpost
      unfold postDecision at hdecide
      cases hparse : form.request.parse with
      | error error =>
        rw [hparse] at hdecide
        cases hdecide
      | ok payload =>
        rw [hparse] at hdecide
        obtain ⟨_, _, _, hfire⟩ := decideRequest_ok U he hdecide
        have hstep : systemFire U sha s (.decide eventId (payload.input now)) =
            some { s with session := .start tables } := by
          show (if s.idle then (fire U s.session.committed (.decide eventId _)).map fun t =>
            { s with session := .start t } else none) = _
          rw [if_pos hidle, hfire]
          rfl
        have ht := evolved_of_run (exec_snoc _ hrun hstep)
        obtain ⟨page, hpage, hrecorded⟩ := recorded_of_decision env hs ht he hdecide
        have hafter : reviewContext env tables eventId = .ok page := hpage
        simp only [hafter]
        exact .recorded he hparse hstep hpost hrecorded

end

/-! ## pages after a run -/

namespace Sample

/-- the notice says that something severe has happened -/
def severeTick : List SystemAct := firstTickWith (env .severe)

theorem severeTick_done : ∃ s, exec (systemFire Unicode.latin id) .empty severeTick = some s ∧
    s.session.committed.events.countP (fun e => decide (e.reviewStatus = .pending)) = 1 ∧
    s.idle = true := by
  have h : (exec (systemFire Unicode.latin id) .empty severeTick).map (fun s =>
      (s.session.committed.events.countP (fun e => decide (e.reviewStatus = .pending)), s.idle)) =
        some (1, true) := by decide +kernel
  obtain ⟨s, hs, hcounts⟩ := Option.map_eq_some_iff.mp h
  exact ⟨s, hs, Prod.mk.inj hcounts⟩

def approval : DecisionForm where
  reviewer := txt "duty analyst"
  decision := txt "approve"
  reason := txt "The notice says what the record says."

end Sample

theorem served_of_run_firstTick :
    ∃ s, exec (systemFire Unicode.latin id) .empty Sample.firstTick = some s ∧
      ∃ e ∈ s.session.committed.events, ∃ out,
        getEvent Sample.readEnv s.session.committed e.eventId = .ok out ∧
          Served Unicode.latin s.session.committed e out := by
  obtain ⟨s, hs, e, he⟩ := Sample.firstTick_event
  exact ⟨s, hs, e, he, served_of_run hs Sample.readEnv e he⟩

theorem queue_of_run_severeTick :
    ∃ s, exec (systemFire Unicode.latin id) .empty Sample.severeTick = some s ∧
      (pendingQueue Sample.readEnv s.session.committed 20).total = 1 ∧
      ∃ shown : List Event, shown.length = 1 ∧
        List.Forall₂ (Queued Sample.readEnv s.session.committed) shown
          (pendingQueue Sample.readEnv s.session.committed 20).items := by
  obtain ⟨s, hs, hpending, _⟩ := Sample.severeTick_done
  obtain ⟨htotal, shown, hqueued, _, hlength, _⟩ := queue_of_run hs Sample.readEnv 20
  rw [hpending] at htotal
  rw [htotal] at hlength
  exact ⟨s, hs, htotal, shown, hlength, hqueued⟩

/-- a reviewer sends an approval, and the database takes its rows or refuses them -/
theorem desk_of_run_severeTick :
    ∃ s, exec (systemFire Unicode.latin id) .empty Sample.severeTick = some s ∧ s.idle = true ∧
      ∃ e ∈ s.session.committed.events, e.reviewStatus = .pending ∧ ∀ flush,
        FormSent Unicode.latin id id flush Sample.readEnv s e.eventId Sample.approval ⟨0⟩
          (reviewSubmit id flush Sample.readEnv s.session.committed e.eventId Sample.approval ⟨0⟩) := by
  obtain ⟨s, hs, hpending, hidle⟩ := Sample.severeTick_done
  obtain ⟨e, he, hp⟩ := List.countP_pos_iff.mp (Nat.lt_of_lt_of_eq Nat.one_pos hpending.symm)
  exact ⟨s, hs, hidle, e, he, of_decide_eq_true hp, fun flush =>
    desk_of_run hs hidle id flush Sample.readEnv e.eventId Sample.approval ⟨0⟩⟩

end GeoRisk
