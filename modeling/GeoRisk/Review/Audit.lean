import GeoRisk.Review.Steps
import GeoRisk.Review.State
import GeoRisk.Store.Constraints

/-!
# A decision is atomic and audited

* `Audited e row e'`        the event `e'` is `e` with exactly what the row `row` says;
* `decided_audited`         what an accepted decision leaves;
* `decided_storable`        its rows are within the constraints of their tables;
* `decision_atomic_iff`     a call raises `ReviewError` and changes nothing, or leaves an audited
                            event, unless a decision that is accepted has a NUL character: no check
                            looks for one, and the flush refuses it.
-/

namespace GeoRisk
open Kit

/-! ## the row of the decision -/

/-- `e'` is `e` with exactly what the row says -/
structure Audited (e : Event) (row : ReviewDecision) (e' : Event) : Prop where
  appended : e'.reviewDecisions = e.reviewDecisions ++ [row]
  reviewer : row.reviewer ≠ [] ∧ strip row.reviewer = row.reviewer ∧
    row.reviewer.length ≤ reviewerMax
  reason : row.reason ≠ [] ∧ strip row.reason = row.reason
  /-- a field is listed once, with the value that the event had and another one -/
  fields : (row.changes.map fun c => c.2.field).Nodup
  before : ∀ c ∈ row.changes, c.1 = currentOf e c.2 ∧ c.2 ≠ c.1
  /-- the listed fields have their new values, the others their old ones -/
  after : ∀ c ∈ row.changes, currentOf e' c.2 = c.2
  unlisted : ∀ v : Edited, (∀ c ∈ row.changes, c.2.field ≠ v.field) → currentOf e' v = currentOf e v
  rationale : (∀ c ∈ row.changes, c.2.field ≠ .severity) → e'.severityRationale = e.severityRationale
  updated : e'.lastUpdatedAt = some row.decidedAt
  status : e'.reviewStatus = row.decision.status
  rest : e' = { e with
    title := e'.title, eventType := e'.eventType, eventDate := e'.eventDate
    severity := e'.severity, severityRationale := e'.severityRationale
    reviewStatus := e'.reviewStatus, requiresHumanReview := e'.requiresHumanReview
    lastUpdatedAt := e'.lastUpdatedAt, reviewDecisions := e'.reviewDecisions }
  /-- an edit changes something, another decision nothing -/
  edit : row.decision = .edit ↔ row.changes ≠ []
  title : ∀ c ∈ row.changes, ∀ value, c.2 = .title value →
    titleMin ≤ value.length ∧ value.length ≤ titleMax

section
variable {e : Event} {id : Nat} {input : DecisionInput} {changes : List (Edited × Edited)}
  {verb : ReviewVerb}

/-! ### distinct fields -/

/-- the fields of a mapping with distinct keys are distinct -/
theorem nodup_fields (edits : Edits) :
    ((edits.items.filterMap fun item =>
      (EditableField.ofText? item.1).map fun f => (f, item.2)).map Prod.fst).Nodup := by
  have hkeys : (edits.items.filterMap fun item =>
      (EditableField.ofText? item.1).map fun f => (f, item.2)).map Prod.fst =
        (edits.items.map Prod.fst).filterMap EditableField.ofText? := by
    rw [List.map_filterMap, List.filterMap_map]
    apply List.filterMap_congr
    intro item _
    show Option.map Prod.fst (Option.map _ (EditableField.ofText? item.1)) =
      EditableField.ofText? item.1
    cases EditableField.ofText? item.1 <;> rfl
  rw [hkeys]
  refine edits.nodup.filterMap ?_
  intro t t' f ht ht'
  rw [← EditableField.value_of_ofText? ht, ← EditableField.value_of_ofText? ht']

/-- the fields that change, in the order of the mapping -/
theorem validateItems_fields {items : List (EditableField × EditValue)}
    (h : validateItems e items = .ok changes) :
    List.Sublist (changes.map fun c => c.2.field) (items.map Prod.fst) := by
  induction items generalizing changes with
  | nil =>
    cases h
    exact List.Sublist.refl _
  | cons item rest ih =>
    obtain ⟨change, h1, h⟩ := bind_eq_ok.mp h
    obtain ⟨more, h2, h⟩ := bind_eq_ok.mp h
    cases h
    cases change with
    | none => exact (ih h2).cons _
    | some c =>
      show List.Sublist (c.2.field :: more.map fun c => c.2.field) (item.1 :: rest.map Prod.fst)
      rw [(validateEdit_some h1).1]
      exact (ih h2).cons_cons _

/-! ### assigning them -/

theorem currentOf_setField {v w : Edited} (h : v.field = w.field) (e : Event) :
    currentOf (setField e v) w = v := by
  cases v <;> cases w <;> first | rfl | cases h

theorem currentOf_setField_ne {v w : Edited} (h : v.field ≠ w.field) (e : Event) :
    currentOf (setField e v) w = currentOf e w := by
  cases v <;> cases w <;> first | rfl | exact absurd rfl h

theorem currentOf_foldl_unlisted {v : Edited} (h : ∀ c ∈ changes, c.2.field ≠ v.field)
    (e : Event) : currentOf (changes.foldl (fun e c => setField e c.2) e) v = currentOf e v := by
  induction changes generalizing e with
  | nil => rfl
  | cons c changes ih =>
    rw [List.foldl_cons, ih fun d hd => h d (List.mem_cons_of_mem _ hd)]
    exact currentOf_setField_ne (h c (List.mem_cons_self ..)) e

/-- **Assigning distinct fields gives each its value.** -/
theorem currentOf_foldl_listed (h : (changes.map fun c => c.2.field).Nodup)
    {c : Edited × Edited} (hc : c ∈ changes) (e : Event) :
    currentOf (changes.foldl (fun e c => setField e c.2) e) c.2 = c.2 := by
  induction changes generalizing e with
  | nil => cases hc
  | cons d changes ih =>
    rw [List.map_cons, List.nodup_cons] at h
    rw [List.foldl_cons]
    rcases List.mem_cons.mp hc with rfl | hc
    · rw [currentOf_foldl_unlisted]
      · exact currentOf_setField rfl e
      · intro x hx hfield
        exact h.1 (hfield ▸ List.mem_map_of_mem hx)
    · exact ih h.2 hc (setField e d.2)

theorem currentOf_decided (e : Event) (id : Nat) (input : DecisionInput) (verb : ReviewVerb)
    (changes : List (Edited × Edited)) (v : Edited) :
    currentOf (decided e id input verb changes) v =
      currentOf (changes.foldl (fun e c => setField e c.2) e) v := by
  have hedits : currentOf (decided e id input verb changes) v =
      currentOf (applyEdits e input changes) v := by
    cases verb <;> cases v <;> rfl
  rw [hedits]
  unfold applyEdits
  split
  · cases v <;> rfl
  · rfl

theorem severityRationale_decided (h : ∀ c ∈ changes, c.2.field ≠ .severity) :
    (decided e id input verb changes).severityRationale = e.severityRationale := by
  have hany : (changes.any fun c => c.2.isSeverity) = false := by
    rw [List.any_eq_false]
    intro c hc hsev
    refine h c hc ?_
    cases hcv : c.2 with
    | severity value => rfl
    | title value => rw [hcv] at hsev; cases hsev
    | eventType value => rw [hcv] at hsev; cases hsev
    | eventDate value => rw [hcv] at hsev; cases hsev
  have hedits : (decided e id input verb changes).severityRationale =
      (applyEdits e input changes).severityRationale := by
    cases verb <;> rfl
  obtain ⟨title, eventType, eventDate, severity, hfold⟩ := foldl_setField changes e
  rw [hedits, applyEdits, if_neg (by rw [hany]; exact Bool.false_ne_true), hfold]

/-- **An accepted decision leaves the event as its row says, and nothing else changed.** -/
theorem decided_audited (h : validateDecision e input = .ok (verb, changes)) (id : Nat) :
    Audited e (decisionRow id input verb changes) (decided e id input verb changes) := by
  obtain ⟨_, hreviewer, hlen, hreason, hverb⟩ := validateDecision_ok h
  obtain ⟨hbefore, _⟩ := validateDecision_changes h
  have hfields : (changes.map fun c => c.2.field).Nodup ∧ ∀ c ∈ changes, ∀ value,
      c.2 = .title value → titleMin ≤ value.length ∧ value.length ≤ titleMax := by
    rcases hverb with ⟨_, _, hedits⟩ | ⟨_, rfl, _⟩
    · have hitems := validateEdits_ok hedits
      refine ⟨(nodup_fields _).sublist (validateItems_fields hitems), ?_⟩
      intro c hc value hvalue
      obtain ⟨item, _, hitem⟩ := ((mem_validateItems hitems).2 c).mp hc
      exact ((validateEdit_some hitem).2.2 value hvalue).2
    · exact ⟨List.nodup_nil, fun c hc => by cases hc⟩
  refine
    { appended := rfl
      reviewer := ⟨hreviewer, Kit.trim_trim isSpace input.reviewer, hlen⟩
      reason := ⟨hreason, Kit.trim_trim isSpace input.reason⟩
      fields := hfields.1
      before := hbefore
      after := ?_
      unlisted := ?_
      rationale := severityRationale_decided
      updated := rfl
      status := decided_status e id input verb changes
      rest := ?_
      edit := ?_
      title := hfields.2 }
  · intro c hc
    rw [currentOf_decided]
    exact currentOf_foldl_listed hfields.1 hc e
  · intro v hv
    rw [currentOf_decided]
    exact currentOf_foldl_unlisted hv e
  · obtain ⟨title, eventType, eventDate, severity, rationale, hedits⟩ := applyEdits_eq e input changes
    unfold decided
    rw [hedits]
    cases verb <;> rfl
  · show verb = .edit ↔ changes ≠ []
    rcases hverb with ⟨rfl, hne, _⟩ | ⟨hnot, rfl, _⟩
    · exact ⟨fun _ => hne, fun _ => rfl⟩
    · exact ⟨fun he => absurd he hnot, fun hne => absurd rfl hne⟩

/-! ### its rows are storable -/

/-- what the flush finds in the event: new values in the fields that a decision writes -/
theorem assigned_eq (e : Event) (input : DecisionInput) (verb : ReviewVerb)
    (changes : List (Edited × Edited)) :
    ∃ title eventType eventDate severity rationale status flag,
      assigned e input verb changes = { e with
        title := title, eventType := eventType, eventDate := eventDate, severity := severity
        severityRationale := rationale, reviewStatus := status, requiresHumanReview := flag
        lastUpdatedAt := some input.decidedAt } := by
  obtain ⟨title, eventType, eventDate, severity, rationale, h⟩ := applyEdits_eq e input changes
  unfold assigned
  rw [h]
  cases verb <;> exact ⟨title, eventType, eventDate, severity, rationale, _, _, rfl⟩

theorem assigned_storable (he : e.Storable) (input : DecisionInput) (verb : ReviewVerb)
    (changes : List (Edited × Edited)) : (assigned e input verb changes).Storable := by
  have hok : ReviewOk (decided e 0 input verb changes) := decided_reviewOk verb changes
  have hsev : (assigned e input verb changes).severity.alwaysReview = true →
    (assigned e input verb changes).requiresHumanReview = true := hok.severity
  have hconf : ∀ c ∈ (assigned e input verb changes).confidence, c < reviewThreshold →
    (assigned e input verb changes).requiresHumanReview = true := hok.confidence
  obtain ⟨title, eventType, eventDate, severity, rationale, status, flag, h⟩ :=
    assigned_eq e input verb changes
  rw [h] at hsev hconf ⊢
  exact
    { he with
      eventType_length := eventType.value_length
      severity_length := severity.value_length
      high_severity_requires_review := by
        rintro (hs | hs)
        · exact hsev (by rw [hs]; rfl)
        · exact hsev (by rw [hs]; rfl)
      low_confidence_requires_review := fun c hc =>
        (le_or_gt ((3 : ℚ) / 5) c).imp_right fun hlt => hconf c hc hlt
      reviewStatus_length := status.value_length }

/-- **The constraints of the tables have nothing against an accepted decision.** -/
theorem decided_storable (he : e.Storable)
    (h : validateDecision e input = .ok (verb, changes)) (id : Nat) :
    (assigned e input verb changes).Storable ∧ (decisionRow id input verb changes).Storable := by
  obtain ⟨_, _, hlen, hreason, _⟩ := validateDecision_ok h
  have hbtrim : btrim (strip input.reason) = strip input.reason := by
    refine btrim_eq_self ?_ (trim_trim isSpace input.reason)
    rintro c hc rfl
    exact absurd hc (by decide)
  refine ⟨assigned_storable he input verb changes, hlen, verb.value_length, ?_⟩
  show 0 < (btrim (strip input.reason)).length
  rw [hbtrim]
  exact List.length_pos_iff.mpr hreason

end

/-! ## the texts of a decision -/

def Edited.texts : Edited → List Text
  | .title value => [value]
  | _ => []

/-- the texts of an event that a decision can write -/
def Event.texts (e : Event) : List Text := e.title :: e.severityRationale.toList

def ReviewDecision.texts (d : ReviewDecision) : List Text :=
  d.reviewer :: d.reason :: d.changes.flatMap fun c => c.1.texts ++ c.2.texts

/-- of the edits, a new title is a text -/
def Edits.texts (edits : Edits) : List Text :=
  edits.items.filterMap fun item =>
    if item.1 = EditableField.title.value then some item.2.text else none

/-- the arguments that end up in a text -/
def DecisionInput.texts (input : DecisionInput) : List Text :=
  input.reviewer :: input.reason :: (input.edits.getD ⟨[], List.nodup_nil⟩).texts

/-- how PostgreSQL answers a flush: it refuses a NUL character in a row, and otherwise keeps what the
constraints of the tables allow -/
structure TableAnswers (flush : Event → ReviewDecision → Option Text) : Prop where
  keeps : ∀ e row, e.Storable → row.Storable → NulFree (e.texts ++ row.texts) → flush e row = none
  refuses : ∀ e row, ¬NulFree row.texts → flush e row ≠ none

/-- `ReviewError` and nothing changed, or an audited event -/
def Atomic (flush : Event → ReviewDecision → Option Text) (id : Nat) (input : DecisionInput)
    (e : Event) : Prop :=
  match (runDecision flush id input).run e with
  | .error (.review _) e' => e' = e
  | .error (.database _) _ => False
  | .ok result e' => ∃ row : ReviewDecision, Audited e row e' ∧
    row.reviewer = strip input.reviewer ∧ row.reason = strip input.reason ∧
    ReviewVerb.ofText? input.decision = some row.decision ∧ result.changes = row.changes

section
variable {e : Event} {id : Nat} {input : DecisionInput} {changes : List (Edited × Edited)}
  {verb : ReviewVerb} {flush : Event → ReviewDecision → Option Text}

theorem nul_mem_strip {t : Text} : nul ∈ strip t ↔ nul ∈ t :=
  mem_trim isSpace (by decide) t

/-- a value with a NUL character is not blank -/
theorem blank_of_nul {raw : EditValue} (h : nul ∈ raw.text) : raw.blank = false := by
  cases raw with
  | null => exact absurd h (by decide)
  | str t =>
    refine decide_eq_false fun hblank => ?_
    have hnul : nul ∈ strip t := nul_mem_strip.mpr h
    rw [hblank] at hnul
    cases hnul
  | date d => rfl
  | other t => rfl

/-- a new title that the event does not have is a change -/
theorem validateEdit_title {raw : EditValue} {change : Option (Edited × Edited)}
    (h : validateEdit e .title raw = .ok change) (hb : raw.blank = false) :
    change = changed (.title e.title) (.title (strip raw.text)) := by
  unfold validateEdit at h
  rw [if_neg (by rw [hb]; exact Bool.false_ne_true)] at h
  simp only at h
  split at h
  · cases h
    rfl
  · cases h

theorem digitChar_ne_nul (n : Nat) : Date.digitChar n ≠ nul := by
  have hlt : n % 10 < 10 := Nat.mod_lt n (by decide)
  unfold Date.digitChar
  generalize n % 10 = k at hlt
  decide +revert

theorem nul_not_mem_isoformat (d : Date) : nul ∉ d.isoformat := by
  have hdigits : ∀ k n, nul ∉ Date.digits k n := by
    intro k
    induction k with
    | zero => exact fun n => List.not_mem_nil
    | succ k ih =>
      intro n hnul
      rcases List.mem_append.mp hnul with hnul | hnul
      · exact ih _ hnul
      · exact digitChar_ne_nul n (List.mem_singleton.mp hnul).symm
  have hdash : nul ∉ ['-'] := by decide
  unfold Date.isoformat
  simp only [List.mem_append, hdigits, hdash, or_self, not_false_eq_true]

/-- a title with a NUL character differs from the event's, and is listed -/
theorem change_of_nul {edits : Edits} (hn : NulFree e.texts)
    (h : validateEdits e edits = .ok changes) {raw : EditValue}
    (hraw : (EditableField.title.value, raw) ∈ edits.items) (hnul : nul ∈ raw.text) :
    (.title e.title, .title (strip raw.text)) ∈ changes := by
  obtain ⟨hok, hmem⟩ := mem_validateItems (validateEdits_ok h)
  have hin : (EditableField.title, raw) ∈ edits.items.filterMap fun item =>
      (EditableField.ofText? item.1).map fun f => (f, item.2) := by
    refine List.mem_filterMap.mpr ⟨_, hraw, ?_⟩
    simp only
    rw [EditableField.ofText?_value]
    rfl
  obtain ⟨change, hchange⟩ := hok _ hin
  have heq := validateEdit_title hchange (blank_of_nul hnul)
  have hne : Edited.title e.title ≠ .title (strip raw.text) := by
    intro he
    refine hn e.title (List.mem_cons_self ..) ?_
    rw [Edited.title.inj he]
    exact nul_mem_strip.mpr hnul
  rw [changed, if_neg hne] at heq
  rw [heq] at hchange
  exact (hmem _).mpr ⟨_, hin, hchange⟩

/-- a title that is listed is the value of the edit -/
theorem title_of_change {edits : Edits} (h : validateEdits e edits = .ok changes)
    {c : Edited × Edited} (hc : c ∈ changes) {value : Text} (hvalue : c.2 = .title value) :
    ∃ raw : EditValue, (EditableField.title.value, raw) ∈ edits.items ∧ value = strip raw.text := by
  obtain ⟨item, hitem, hchange⟩ := ((mem_validateItems (validateEdits_ok h)).2 c).mp hc
  obtain ⟨hfield, _, htitle⟩ := validateEdit_some hchange
  obtain ⟨entry, hentry, hkey⟩ := List.mem_filterMap.mp hitem
  obtain ⟨f, hf, hkey⟩ := Option.map_eq_some_iff.mp hkey
  cases hkey
  have hf' : f = .title := hfield.symm.trans (by rw [hvalue]; rfl)
  rw [hf'] at hf
  refine ⟨entry.2, ?_, (htitle value hvalue).1⟩
  rw [EditableField.value_of_ofText? hf]
  exact hentry

theorem changes_nulFree {edits : Edits} (hn : NulFree e.texts)
    (h : validateEdits e edits = .ok changes) :
    NulFree (changes.flatMap fun c => c.1.texts ++ c.2.texts) ↔ NulFree edits.texts := by
  constructor
  · intro hrow t ht hnul
    obtain ⟨item, hitem, ht⟩ := List.mem_filterMap.mp ht
    split at ht
    · next hkey =>
      cases ht
      have hc := change_of_nul hn h (hkey ▸ hitem) hnul
      refine hrow (strip item.2.text) ?_ (nul_mem_strip.mpr hnul)
      exact List.mem_flatMap.mpr ⟨_, hc, List.mem_append_right _ (List.mem_singleton.mpr rfl)⟩
    · cases ht
  · intro hinput t ht hnul
    obtain ⟨c, hc, ht⟩ := List.mem_flatMap.mp ht
    obtain ⟨item, _, hchange⟩ := ((mem_validateItems (validateEdits_ok h)).2 c).mp hc
    rw [(validateEdit_some hchange).2.1.1] at ht
    cases hafter : c.2 with
    | title value =>
      rw [hafter] at ht
      rcases List.mem_append.mp ht with ht | ht
      · rw [List.mem_singleton.mp ht] at hnul
        exact hn e.title (List.mem_cons_self ..) hnul
      · obtain ⟨raw, hraw, hvalue⟩ := title_of_change h hc hafter
        rw [List.mem_singleton.mp ht, hvalue] at hnul
        refine hinput raw.text ?_ (nul_mem_strip.mp hnul)
        exact List.mem_filterMap.mpr ⟨_, hraw, if_pos rfl⟩
    | eventType value =>
      rw [hafter] at ht
      cases ht
    | eventDate value =>
      rw [hafter] at ht
      cases ht
    | severity value =>
      rw [hafter] at ht
      cases ht

/-- **The row has a NUL character exactly when an argument has one.** -/
theorem row_nulFree (hn : NulFree e.texts) (h : validateDecision e input = .ok (verb, changes))
    (id : Nat) : NulFree (decisionRow id input verb changes).texts ↔ NulFree input.texts := by
  have hchanges : NulFree (changes.flatMap fun c => c.1.texts ++ c.2.texts) ↔
      NulFree (input.edits.getD ⟨[], List.nodup_nil⟩).texts := by
    obtain ⟨_, _, _, _, ⟨_, _, hedits⟩ | ⟨_, rfl, hnone⟩⟩ := validateDecision_ok h
    · exact changes_nulFree hn hedits
    · have hitems : (input.edits.getD ⟨[], List.nodup_nil⟩).items = [] := by
        cases he : input.edits with
        | none => rfl
        | some edits => exact hnone edits he
      unfold Edits.texts
      rw [hitems]
      exact Iff.rfl
  show NulFree (strip input.reviewer :: strip input.reason :: _) ↔ _
  unfold NulFree DecisionInput.texts
  rw [List.forall_mem_cons, List.forall_mem_cons, List.forall_mem_cons, List.forall_mem_cons,
    nul_mem_strip, nul_mem_strip]
  exact and_congr_right fun _ => and_congr_right fun _ => hchanges

/-- the rationale stays, or names the reviewer and the reason -/
theorem assigned_rationale (e : Event) (input : DecisionInput) (verb : ReviewVerb)
    (changes : List (Edited × Edited)) :
    (assigned e input verb changes).severityRationale = e.severityRationale ∨
      (assigned e input verb changes).severityRationale = some (revisedRationale input) := by
  have hedits : (assigned e input verb changes).severityRationale =
      (applyEdits e input changes).severityRationale := by
    cases verb <;> rfl
  obtain ⟨title, eventType, eventDate, severity, hfold⟩ := foldl_setField changes e
  rw [hedits, applyEdits]
  split
  · exact Or.inr rfl
  · rw [hfold]
    exact Or.inl rfl

/-- what is written into the event comes from the arguments -/
theorem assigned_nulFree (hn : NulFree e.texts) (h : validateDecision e input = .ok (verb, changes))
    (hinput : NulFree input.texts) : NulFree (assigned e input verb changes).texts := by
  have hrow := (row_nulFree hn h 0).mpr hinput
  have haudit := decided_audited h 0
  have htitle : nul ∉ (decided e 0 input verb changes).title := by
    by_cases hlisted : ∃ c ∈ changes, c.2.field = .title
    · obtain ⟨c, hc, hfield⟩ := hlisted
      cases hafter : c.2 with
      | title value =>
        have heq := haudit.after c hc
        rw [hafter] at heq
        rw [Edited.title.inj heq]
        refine hrow value (List.mem_cons_of_mem _ (List.mem_cons_of_mem _ ?_))
        refine List.mem_flatMap.mpr ⟨c, hc, List.mem_append_right _ ?_⟩
        rw [hafter]
        exact List.mem_singleton.mpr rfl
      | eventType value => rw [hafter] at hfield; cases hfield
      | eventDate value => rw [hafter] at hfield; cases hfield
      | severity value => rw [hafter] at hfield; cases hfield
    · have heq := haudit.unlisted (.title e.title) fun c hc hfield => hlisted ⟨c, hc, hfield⟩
      rw [Edited.title.inj heq]
      exact hn e.title (List.mem_cons_self ..)
  refine List.forall_mem_cons.mpr ⟨htitle, ?_⟩
  intro t ht
  rw [Option.mem_toList] at ht
  rcases assigned_rationale e input verb changes with hr | hr
  · refine hn t (List.mem_cons_of_mem _ ?_)
    rw [← hr, ht]
    exact List.mem_singleton.mpr rfl
  · rw [hr] at ht
    cases ht
    have hreviewer : nul ∉ strip input.reviewer :=
      fun hnul => hinput _ (List.mem_cons_self ..) (nul_mem_strip.mp hnul)
    have hreason : nul ∉ strip input.reason := fun hnul =>
      hinput _ (List.mem_cons_of_mem _ (List.mem_cons_self ..)) (nul_mem_strip.mp hnul)
    have h1 : nul ∉ txt "Revised by reviewer " := by decide
    have h2 : nul ∉ txt " on " := by decide
    have h3 : nul ∉ txt ": " := by decide
    unfold revisedRationale
    simp only [List.mem_append, hreviewer, hreason, h1, h2, h3, nul_not_mem_isoformat, or_self,
      not_false_eq_true]

/-- **A decision is atomic and audited exactly when it is refused, or has no NUL character in its
reviewer, its reason and its new title.** -/
theorem decision_atomic_iff (hf : TableAnswers flush) (he : e.Storable) (hn : NulFree e.texts)
    (id : Nat) (input : DecisionInput) :
    Atomic flush id input e ↔
      (∃ error, validateDecision e input = .error error) ∨ NulFree input.texts := by
  unfold Atomic
  rw [runDecision_eq]
  cases hv : validateDecision e input with
  | error error => simp
  | ok x =>
    obtain ⟨verb, changes⟩ := x
    obtain ⟨hevent, hrow⟩ := decided_storable he hv id
    by_cases hinput : NulFree input.texts
    · have hkept : flush (assigned e input verb changes) (decisionRow id input verb changes) =
          none := by
        refine hf.keeps _ _ hevent hrow (NulFree.append.mpr ⟨?_, ?_⟩)
        · exact assigned_nulFree hn hv hinput
        · exact (row_nulFree hn hv id).mpr hinput
      simp only [hkept]
      refine iff_of_true ?_ (Or.inr hinput)
      exact ⟨_, decided_audited hv id, rfl, rfl, (validateDecision_ok hv).1, rfl⟩
    · have hrefused := hf.refuses (assigned e input verb changes)
        (decisionRow id input verb changes) fun hfree => hinput ((row_nulFree hn hv id).mp hfree)
      obtain ⟨message, hmessage⟩ := Option.ne_none_iff_exists'.mp hrefused
      simp only [hmessage]
      refine iff_of_false not_false ?_
      rintro (⟨_, herror⟩ | hfree)
      · cases herror
      · exact hinput hfree

end

/-! ## two decisions -/

namespace Sample

/-- a record that waits for review -/
def pendingEvent : Event where
  eventId := 4
  clusterId := some 3
  eventType := .portDisruption
  eventDate := ⟨0⟩
  title := txt "Port of Aden closed"
  summary := txt "The port of Aden is closed."
  severity := .severe
  severityRationale := some (txt "The port is closed.")
  confidence := some (9 / 10)
  requiresHumanReview := true
  reviewStatus := .pending
  status := .active
  changeNote := none
  firstSeenAt := some ⟨0⟩
  lastUpdatedAt := some ⟨0⟩
  createdAt := ⟨0⟩

theorem pendingEvent_storable : pendingEvent.Storable where
  eventType_length := by decide
  severity_length := by decide
  confidence_scale := by
    rintro c ⟨⟩
    decide +kernel
  confidence_in_unit_interval := by
    rintro c ⟨⟩
    constructor <;> norm_num
  high_severity_requires_review _ := rfl
  low_confidence_requires_review _ _ := Or.inr rfl
  reviewStatus_length := by decide
  status_length := by decide
  locations _ h := absurd h List.not_mem_nil
  actors := by decide
  sectors := by decide
  documents := by decide
  evidence _ h := absurd h List.not_mem_nil

/-- the flush, as far as it looks at texts -/
def flushTexts (e : Event) (row : ReviewDecision) : Option Text :=
  if NulFree (e.texts ++ row.texts) then none
  else some (txt "PostgreSQL text fields cannot contain NUL (0x00) bytes")

theorem flushTexts_answers : TableAnswers flushTexts where
  keeps _ _ _ _ h := if_pos h
  refuses e row h := by
    unfold flushTexts
    rw [if_neg fun hfree => h (NulFree.append.mp hfree).2]
    exact Option.some_ne_none _

/-- a new title and a lower severity; the empty field is left unchanged -/
def edit (reason : Text) : DecisionInput where
  reviewer := txt "analyst"
  decision := txt "edit"
  reason := reason
  edits := some ⟨[(txt "title", .str (txt " Port of Aden partly closed ")),
    (txt "event_date", .str []), (txt "severity", .str (txt "moderate"))], by decide⟩
  decidedAt := ⟨1⟩

end Sample

theorem decision_atomic_iff_edit :
    Atomic Sample.flushTexts 9 (Sample.edit (txt "one berth is open")) Sample.pendingEvent :=
  (decision_atomic_iff Sample.flushTexts_answers Sample.pendingEvent_storable (by decide) 9 _).mpr
    (Or.inr (by decide))

/-- with a NUL character in the reason every check passes, and the flush raises -/
theorem nulReason_not_atomic :
    ¬ ∀ flush, TableAnswers flush → ∀ e : Event, e.Storable → NulFree e.texts →
      ∀ id input, Atomic flush id input e := by
  intro h
  have hatomic := h Sample.flushTexts Sample.flushTexts_answers Sample.pendingEvent
    Sample.pendingEvent_storable (by decide) 9 (Sample.edit (nul :: txt "one berth is open"))
  have hrun : (match (runDecision Sample.flushTexts 9
      (Sample.edit (nul :: txt "one berth is open"))).run Sample.pendingEvent with
    | .error (.database _) _ => true
    | _ => false) = true := by decide +kernel
  unfold Atomic at hatomic
  cases hres : (runDecision Sample.flushTexts 9
      (Sample.edit (nul :: txt "one berth is open"))).run Sample.pendingEvent with
  | ok result e' =>
    rw [hres] at hrun
    cases hrun
  | error raised e' =>
    rw [hres] at hrun hatomic
    cases raised with
    | review error => cases hrun
    | database message => exact hatomic

end GeoRisk
