import GeoRisk.Record.Race

/-!
# What an approval freezes

Calls one after another, without interleaving.  A record that a human approved or edited stays as
that decision left it for as long as it stays approved or edited: the only merges that keep its
status are duplicates.

* `Said`, `said`         what a record says;
* `said_of_cleared`      a merge that leaves a record cleared leaves what it says;
* `frozen_of_run`        in every run a cleared record says what it said after the latest
                         `apply_decision` on it, and a merge that alters it sends it to review.
-/

namespace GeoRisk
open Kit

structure Said where
  severity : Severity
  severityRationale : Option Text
  title : Text
  summary : Text
  eventType : EventType
  eventDate : Date
  confidence : Option ℚ
  changeNote : Option Text
  locations : List EventLocation
  actors : List EventActor
  sectors : List Sector
  deriving DecidableEq, Repr

def said (e : Event) : Said :=
  ⟨e.severity, e.severityRationale, e.title, e.summary, e.eventType, e.eventDate, e.confidence,
    e.changeNote, e.locations, e.actors, e.sectors⟩

/-- the record says what it said after the latest decision on it: the run splits at a call of
`apply_decision` on the record with no later one -/
def Frozen (U : Unicode) (as : List Act) (f : Event) : Prop :=
  ∃ bs input cs v t e, as = bs ++ .decide f.eventId input :: cs ∧
    (∀ input', .decide f.eventId input' ∉ cs) ∧ exec (fire U) Store.empty bs = some v ∧
    fire U v (.decide f.eventId input) = some t ∧ t.event? f.eventId = some e ∧ said e = said f

section
variable {U : Unicode} {s t u : Store}

/-- **An update of a cleared record sends it to review; what leaves it cleared is a duplicate, and
leaves what it says.** -/
theorem said_of_cleared {e : Event} {r : Report} (h : Cleared (mergeEvent U e r)) :
    Cleared e ∧ said (mergeEvent U e r) = said e := by
  have he : Cleared e := by
    rcases mergeEvent_status (U := U) (e := e) (r := r) with hs | hs
    · unfold Cleared at h
      rw [hs] at h
      exact h
    · unfold Cleared at h
      rw [hs] at h
      exact absurd h (by decide)
  refine ⟨he, ?_⟩
  have hd : (consolidation U e r).relation ≠ .update := by
    intro hu
    have hback : SendsBack U e r := by
      apply sendsBack_of_decided _ hu
      rcases List.mem_pair.mp he with hs | hs
      · rw [hs]; decide
      · rw [hs]; decide
    unfold Cleared at h
    rw [mergeEvent_of_sendsBack hback hu] at h
    exact absurd h (by decide)
  rw [mergeEvent_eq_of_duplicate hd]
  rfl

theorem not_cleared_newEvent (id clusterId : Nat) (r : Report) :
    ¬Cleared (newEvent id clusterId r) := by
  show (if r.requiresHumanReview then ReviewStatus.pending else .notRequired) ∉ _
  split <;> decide

/-- a cleared record was there before the call -/
theorem event?_of_cleared {a : Act} {f : Event} (ha : fire U s a = some t) (hf : f ∈ t.events)
    (hc : Cleared f) : ∃ e ∈ s.events, e.eventId = f.eventId := by
  cases origin_of_mem ha hf with
  | kept hf => exact ⟨f, hf, rfl⟩
  | created document r id clusterId _ _ => exact absurd hc (not_cleared_newEvent id clusterId r)
  | merged document r existing hmem _ _ =>
    exact ⟨existing, hmem, (mergeEvent_links U existing r).1.symm⟩
  | decided e id input verb changes hmem _ =>
    exact ⟨e, hmem, (decided_links e id input verb changes).1.symm⟩

theorem Frozen.snoc {as : List Act} {a : Act} {e f : Event} (h : Frozen U as e)
    (hid : f.eventId = e.eventId) (hsaid : said f = said e)
    (ha : ∀ input, a ≠ .decide e.eventId input) : Frozen U (as ++ [a]) f := by
  obtain ⟨bs, input, cs, v, t, g, rfl, hcs, hv, ht, hg, hsame⟩ := h
  rw [← hid] at hcs ht hg ha ⊢
  refine ⟨bs, input, cs ++ [a], v, t, g, by simp, ?_, hv, ht, hg, hsame.trans hsaid.symm⟩
  intro input' hmem
  rcases List.mem_append.mp hmem with hmem | hmem
  · exact hcs input' hmem
  · exact ha input' (List.mem_singleton.mp hmem).symm

/-- one more call keeps every cleared record frozen -/
theorem frozen_step {as : List Act} {a : Act} (hrun : exec (fire U) Store.empty as = some s)
    (h : ∀ e ∈ s.events, Cleared e → Frozen U as e) (ha : fire U s a = some t) :
    ∀ f ∈ t.events, Cleared f → Frozen U (as ++ [a]) f := by
  intro f hf hc
  have hk : Keyed s := keyed_of_reach ⟨_, _, rfl, hrun⟩
  have hlook : t.event? f.eventId = some f := lookup_of_mem (keyed_step hk ha).nodup hf
  by_cases hdec : ∃ input, a = .decide f.eventId input
  · -- the call is the latest decision itself
    obtain ⟨input, rfl⟩ := hdec
    exact ⟨as, input, [], s, t, f, rfl, fun _ => List.not_mem_nil, hrun, ha, hlook, rfl⟩
  · obtain ⟨e, he, hid⟩ := event?_of_cleared ha hf hc
    have hfind : s.event? f.eventId = some e := hid ▸ lookup_of_mem hk.nodup he
    obtain ⟨g, hg, hchange⟩ := fire_event hk hfind ha
    rw [hlook] at hg
    cases hg
    have hno : ∀ input, a ≠ .decide e.eventId input := fun input hi =>
      hdec ⟨input, by rw [← hid]; exact hi⟩
    cases hchange with
    | same => exact (h f he hc).snoc rfl rfl hno
    | merged documentId env ha' r =>
      obtain ⟨hce, hsaid⟩ := said_of_cleared hc
      exact (h e he hce).snoc (mergeEvent_links U e r).1 hsaid hno
    | decided input ha' verb changes hv =>
      exact absurd ⟨input, ha'⟩ hdec

/-- **In every run a record that is approved or edited says what it said after the latest decision
on it, and a merge that alters a cleared record leaves it pending with the flag set.** -/
theorem frozen_of_run {as : List Act} (hrun : exec (fire U) Store.empty as = some s) :
    (∀ e ∈ s.events, Cleared e → Frozen U as e) ∧
    ∀ documentId env t e f, fire U s (.process documentId env) = some t →
      s.event? e.eventId = some e → Cleared e → t.event? e.eventId = some f → said f ≠ said e →
      f.reviewStatus = .pending ∧ f.requiresHumanReview = true := by
  constructor
  · refine exec_history (fire U) (I := fun as s => ∀ e ∈ s.events, Cleared e → Frozen U as e) ?_ ?_
      hrun
    · intro e he
      cases he
    · intro bs v a w hv hI ha
      exact frozen_step hv hI ha
  · intro documentId env t e f ht he hc hf hne
    have hreach : Reachable U s := ⟨_, _, rfl, hrun⟩
    obtain ⟨g, hg, hchange⟩ := fire_event (keyed_of_reach hreach) he ht
    rw [hf] at hg
    cases hg
    cases hchange with
    | same => exact absurd rfl hne
    | decided input ha => cases ha
    | merged _ _ _ r =>
      have hp : (mergeEvent U e r).reviewStatus = .pending := by
        rcases mergeEvent_status (U := U) (e := e) (r := r) with hs | hs
        · have hcm : Cleared (mergeEvent U e r) := by
            unfold Cleared
            rw [hs]
            exact hc
          exact absurd (said_of_cleared hcm).2 hne
        · exact hs
      refine ⟨hp, ?_⟩
      exact (mergeEvent_reviewOk (reviewOk_of_reach hreach e (lookup_mem he))).pending hp

end

/-! ## a run -/

namespace Sample

/-- a notice is published, approved, and reported once more -/
def corroborated : List Act :=
  published ++ [.decide 4 (decision (txt "approve")), .document (document text),
    .process 6 (env .moderate)]

end Sample

theorem frozen_corroborated :
    ∃ s, exec (fire Unicode.latin) Store.empty Sample.corroborated = some s ∧
      s.events.map (fun e => (e.reviewStatus, e.documents.length)) = [(.approved, 2)] ∧
      ∀ e ∈ s.events, Cleared e → Frozen Unicode.latin Sample.corroborated e := by
  have hrun : (exec (fire Unicode.latin) Store.empty Sample.corroborated).map
      (fun s => s.events.map fun e => (e.reviewStatus, e.documents.length)) =
        some [(.approved, 2)] := by decide +kernel
  obtain ⟨s, hs, hobs⟩ := Option.map_eq_some_iff.mp hrun
  exact ⟨s, hs, hobs, (frozen_of_run hs).1⟩

end GeoRisk
