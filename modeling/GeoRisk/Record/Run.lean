import GeoRisk.Review.State

/-!
# Runs of the record

The calls that write records, one after another: sources and documents arrive, `process_document`
returns, `apply_decision` is called.  A call of `process_document` that raises is rolled back and is
no step; a decision that is refused changes nothing.

* `Act`, `fire`           one call, from store to store;
* `origin_of_mem`         where the events of the store after a call come from;
* `Keyed`                 event keys are distinct and were drawn from the counter;
* `keyed_of_reach`        so they are in every reachable store;
* `EventChange`           what one call does to the event with a given key: nothing, a merge, or a
                          decision (`fire_event`).
-/

namespace GeoRisk
open Kit

/-- a call -/
inductive Act
  | source (row : Source)
  | document (row : RawDocument)
  | process (documentId : Nat) (env : CallEnv)
  | decide (eventId : Nat) (input : DecisionInput)

namespace Store

def addSource (s : Store) (row : Source) : Store :=
  { s with nextId := s.nextId + 1, sources := s.sources ++ [{ row with id := s.nextId }] }

def addDocument (s : Store) (row : RawDocument) : Store :=
  { s with nextId := s.nextId + 1, documents := s.documents ++ [{ row with id := s.nextId }] }

/-- `apply_decision` on a stored event -/
def decideEvent (s : Store) (e : Event) (input : DecisionInput) : Store :=
  match applyDecision e s.nextId input with
  | .ok (after, _) => { s.putEvent after with nextId := s.nextId + 1 }
  | .error _ => s

end Store

/-- the store after the call, if it returns -/
def fire (U : Unicode) (s : Store) : Act → Option Store
  | .source row => some (s.addSource row)
  | .document row => some (s.addDocument row)
  | .process documentId env =>
    (s.document? documentId).bind fun document =>
      (processDocument env s U document).result.toOption.map Prod.fst
  | .decide eventId input => (s.event? eventId).map fun e => s.decideEvent e input

/-- the states of runs from the empty store -/
def Reachable (U : Unicode) (s : Store) : Prop := Reach (fire U) (· = Store.empty) s

section
variable {U : Unicode} {s t : Store}

theorem fire_process {documentId : Nat} {env : CallEnv}
    (h : fire U s (.process documentId env) = some t) :
    ∃ document o, s.document? documentId = some document ∧
      Effect U env document o s t ∧ Unrelated s t := by
  obtain ⟨document, hd, h⟩ := Option.bind_eq_some_iff.mp h
  obtain ⟨⟨t', res⟩, hr, rfl⟩ := Option.map_eq_some_iff.mp h
  cases hp : (processDocument env s U document).result with
  | error e => rw [hp] at hr; cases hr
  | ok x =>
    rw [hp] at hr
    cases hr
    obtain ⟨o, _, _, _, _, heff, hun⟩ := processDocument_ok hp
    exact ⟨document, o, hd, heff, hun⟩

/-- a decision puts the decided event in place, or changes nothing -/
theorem fire_decide {eventId : Nat} {input : DecisionInput}
    (h : fire U s (.decide eventId input) = some t) :
    ∃ e, s.event? eventId = some e ∧
      (t = s ∨ ∃ verb changes, validateDecision e input = .ok (verb, changes) ∧
        t = { s.putEvent (decided e s.nextId input verb changes) with nextId := s.nextId + 1 }) := by
  obtain ⟨e, he, rfl⟩ := Option.map_eq_some_iff.mp h
  refine ⟨e, he, ?_⟩
  unfold Store.decideEvent
  cases hd : applyDecision e s.nextId input with
  | error err => exact Or.inl rfl
  | ok x =>
    obtain ⟨after, res⟩ := x
    obtain ⟨verb, changes, hv, rfl, _⟩ := applyDecision_ok hd
    exact Or.inr ⟨verb, changes, hv, rfl⟩

theorem fire_decide_accepted {i : Nat} {input : DecisionInput} {e : Event} {verb : ReviewVerb}
    {changes : List (Edited × Edited)} (he : s.event? i = some e)
    (hv : validateDecision e input = .ok (verb, changes))
    (h : fire U s (.decide i input) = some t) :
    t.event? i = some (decided e s.nextId input verb changes) := by
  obtain ⟨f, hf, rfl⟩ := Option.map_eq_some_iff.mp h
  rw [he] at hf
  cases hf
  have hd : applyDecision e s.nextId input = .ok (decided e s.nextId input verb changes, _) :=
    bind_eq_ok.mpr ⟨(verb, changes), hv, rfl⟩
  unfold Store.decideEvent
  rw [hd]
  exact lookup_replace ((decided_links _ _ _ verb changes).1.trans (lookup_key he)) he

/-- a stored document keeps being found -/
theorem document?_of_fire {a : Act} {id : Nat} {document : RawDocument}
    (ha : fire U s a = some t) (hd : s.document? id = some document) :
    t.document? id = some document := by
  have hsame : t.documents = s.documents → t.document? id = some document := by
    intro h
    unfold Store.document? at hd ⊢
    rw [h]
    exact hd
  cases a with
  | source row => cases ha; exact hsame rfl
  | document row => cases ha; exact lookup_append hd _
  | process documentId env =>
    obtain ⟨_, _, _, _, hun⟩ := fire_process ha
    exact hsame hun.documents
  | decide eventId input =>
    obtain ⟨e, _, rfl | ⟨verb, changes, _, rfl⟩⟩ := fire_decide ha
    · exact hsame rfl
    · exact hsame rfl

/-! ## all events -/

/-- where an event of the store after a call comes from -/
inductive EventOrigin (U : Unicode) (s : Store) : Event → Prop
  | kept {e : Event} (he : e ∈ s.events) : EventOrigin U s e
  | created (document : RawDocument) (r : Report) (id clusterId : Nat)
      (hd : s.document? document.id = some document) (hg : Gated U document r) :
      EventOrigin U s (newEvent id clusterId r)
  | merged (document : RawDocument) (r : Report) (existing : Event) (hmem : existing ∈ s.events)
      (hd : s.document? document.id = some document) (hg : Gated U document r) :
      EventOrigin U s (mergeEvent U existing r)
  | decided (e : Event) (id : Nat) (input : DecisionInput) (verb : ReviewVerb)
      (changes : List (Edited × Edited)) (hmem : e ∈ s.events)
      (hv : validateDecision e input = .ok (verb, changes)) :
      EventOrigin U s (decided e id input verb changes)

/-- **Every event of a store was there before, or is a report's, or is a decided one.** -/
theorem origin_of_mem {a : Act} {f : Event} (ha : fire U s a = some t) (hf : f ∈ t.events) :
    EventOrigin U s f := by
  cases a with
  | source row => cases ha; exact .kept hf
  | document row => cases ha; exact .kept hf
  | process documentId env =>
    obtain ⟨document, o, hd, heff, _⟩ := fire_process ha
    have hd : s.document? document.id = some document := by
      rw [show document.id = documentId from lookup_key hd]
      exact hd
    cases heff with
    | telemetry p v hev _ => exact .kept (hev ▸ hf)
    | published p r event hg hrec _ _ =>
      cases hrec with
      | created id clusterId _ hev =>
        rw [hev] at hf
        rcases List.mem_append.mp hf with hf | hf
        · exact .kept hf
        · rw [List.mem_singleton.mp hf]
          exact .created document r id clusterId hd hg
      | merged existing hmem hev =>
        rw [hev] at hf
        rcases mem_replace hf with rfl | ⟨hf, _⟩
        · exact .merged document r existing hmem hd hg
        · exact .kept hf
  | decide eventId input =>
    obtain ⟨e, he, rfl | ⟨verb, changes, hv, rfl⟩⟩ := fire_decide ha
    · exact .kept hf
    · rcases mem_replace hf with rfl | ⟨hf, _⟩
      · exact .decided e s.nextId input verb changes (lookup_mem he) hv
      · exact .kept hf

/-! ## keys -/

/-- event keys are distinct and were drawn from the counter -/
def Keyed (s : Store) : Prop := Numbered Event.eventId s.events s.nextId

theorem Keyed.putEvent {e : Event} (h : Keyed s) (hev : t.events = replace Event.eventId e s.events)
    (hn : s.nextId ≤ t.nextId) : Keyed t :=
  h.of_map (by rw [hev, map_replace]) hn

/-- a created event has a new key, and one merged into keeps its own -/
theorem keyed_recordChange {r : Report} {event : Event} (h : Keyed s)
    (hc : RecordChange U r s t event) (hn : s.nextId ≤ t.nextId) : Keyed t := by
  cases hc with
  | created id c hid hev =>
    show Numbered _ t.events _
    rw [hev]
    exact Numbered.append h hid.1 hid.2
  | merged existing hmem hev => exact h.putEvent hev hn

theorem keyed_step {a : Act} (h : Keyed s) (ha : fire U s a = some t) : Keyed t := by
  cases a with
  | source row => cases ha; exact h.of_map rfl (Nat.le_succ _)
  | document row => cases ha; exact h.of_map rfl (Nat.le_succ _)
  | process documentId env =>
    obtain ⟨document, o, _, heff, hun⟩ := fire_process ha
    cases heff with
    | telemetry p v hev _ => exact h.of_map (by rw [hev]) hun.nextId
    | published p r event _ hrec _ _ => exact keyed_recordChange h hrec hun.nextId
  | decide eventId input =>
    obtain ⟨e, he, rfl | ⟨verb, changes, _, rfl⟩⟩ := fire_decide ha
    · exact h
    · exact h.putEvent rfl (Nat.le_succ _)

theorem keyed_of_reach (h : Reachable U s) : Keyed s :=
  h.invariant (fire U) (fun _ h0 => by subst h0; exact Numbered.nil) fun _ _ _ => keyed_step

/-! ## one event -/

/-- what a call does to one event -/
inductive EventChange (U : Unicode) (s : Store) (i : Nat) (a : Act) (e : Event) : Event → Prop
  | same : EventChange U s i a e e
  | merged (documentId : Nat) (env : CallEnv) (ha : a = .process documentId env) (r : Report) :
      EventChange U s i a e (mergeEvent U e r)
  | decided (input : DecisionInput) (ha : a = .decide i input) (verb : ReviewVerb)
      (changes : List (Edited × Edited))
      (hv : validateDecision e input = .ok (verb, changes)) :
      EventChange U s i a e (decided e s.nextId input verb changes)

/-- **What one call does to the event with a given key.** -/
theorem fire_event {i : Nat} {a : Act} {e : Event} (hk : Keyed s) (he : s.event? i = some e)
    (ha : fire U s a = some t) : ∃ f, t.event? i = some f ∧ EventChange U s i a e f := by
  have hsame : t.events = s.events → ∃ f, t.event? i = some f ∧ EventChange U s i a e f := by
    intro hev
    refine ⟨e, ?_, .same⟩
    unfold Store.event? at he ⊢
    rw [hev]
    exact he
  cases a with
  | source row => cases ha; exact hsame rfl
  | document row => cases ha; exact hsame rfl
  | process documentId env =>
    obtain ⟨document, o, _, heff, _⟩ := fire_process ha
    cases heff with
    | telemetry p v hev _ => exact hsame hev
    | published p r event _ hrec _ _ =>
      cases hrec with
      | created id c _ hev =>
        refine ⟨e, ?_, .same⟩
        unfold Store.event?
        rw [hev]
        exact lookup_append he _
      | merged existing hmem hev =>
        have hkey := (mergeEvent_links U existing r).1
        unfold Store.event? at he ⊢
        rw [hev]
        by_cases hi : existing.eventId = i
        · -- keys are distinct, so the event merged into is the one looked up
          have hex := lookup_of_mem hk.nodup hmem
          rw [hi, he] at hex
          cases hex
          exact ⟨_, lookup_replace (hkey.trans hi) he, .merged documentId env rfl r⟩
        · exact ⟨e, by rw [lookup_replace_ne _ (by rw [hkey]; exact hi)]; exact he, .same⟩
  | decide eventId input =>
    obtain ⟨f, hf, rfl | ⟨verb, changes, hv, rfl⟩⟩ := fire_decide ha
    · exact hsame rfl
    · have hkey := (decided_links f s.nextId input verb changes).1
      have hfid : f.eventId = eventId := lookup_key hf
      unfold Store.event? at he hf
      show ∃ g, lookup Event.eventId i (replace Event.eventId _ s.events) = some g ∧ _
      by_cases hi : eventId = i
      · subst hi
        rw [he] at hf
        cases hf
        exact ⟨_, lookup_replace (hkey.trans hfid) he, .decided input rfl verb changes hv⟩
      · exact ⟨e, by rw [lookup_replace_ne _ (by rw [hkey, hfid]; exact hi)]; exact he, .same⟩

end

end GeoRisk
