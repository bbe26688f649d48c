import GeoRisk.Product.Account

/-!
# Briefing the same day twice

Neither query of a briefing orders its rows.  The items are sorted by a key that ends in the id of the
record; the quotes of a record by field and text only, and cut to three.

* `RowOrder`              an order in which the database returns the rows of its queries;
* `Repeatable`            the briefing is the same for every two orders;
* `Settled`               rows of a record with the same field and text but another source, address or
                          publication time have three others before them;
* `verifiedQuotes_front`  an order in which a given one of them is quoted;
* `repeatable_iff`        a briefing is repeatable exactly when its records are settled.
-/

namespace GeoRisk
open Kit

/-- the order in which the database returns the rows that a query selects -/
structure RowOrder where
  rows : ∀ {α : Type}, List α → List α
  perm : ∀ {α : Type} (xs : List α), (rows xs).Perm xs

def ReadEnv.ordered (env : ReadEnv) (order : RowOrder) : ReadEnv :=
  { env with scan := order.rows, scan_perm := order.perm }

/-- same items with same quotes in the same order, and same counts, whatever the order of rows -/
def Repeatable (env : ReadEnv) (s : Store) (day : Date) : Prop :=
  ∀ order order' : RowOrder,
    buildBriefing (env.ordered order) s day = buildBriefing (env.ordered order') s day

/-- the key by which quotes are sorted -/
def quoteKey (r : EventEvidence × RawDocument × Source) : (ℕ ×ₗ Text) ×ₗ Text :=
  toLex (quoteRank r.1.fieldSupported, r.1.quote)

/-- two rows of one field and text that would be quoted differently stand behind three others -/
def SettledQuotes (s : Store) (eventId : Nat) : Prop :=
  ∀ r ∈ evidenceJoin s eventId, ∀ r' ∈ evidenceJoin s eventId,
    r.1.fieldSupported = r'.1.fieldSupported → r.1.quote = r'.1.quote → quoteOut r ≠ quoteOut r' →
    maxQuotesPerItem ≤ (evidenceJoin s eventId).countP fun x => decide (quoteKey x < quoteKey r)

/-- every record that the briefing shows is settled -/
def Settled (s : Store) (day : Date) : Prop :=
  day.ordinal < Date.max.ordinal →
    ∀ e ∈ recordsOf s day, isEstablished e = true → SettledQuotes s e.eventId

section
variable {env : ReadEnv} {s : Store} {day : Date} {e : Event}

/-! ## ties -/

theorem quoteRank_injective : Function.Injective quoteRank := by
  intro a b h
  unfold quoteRank at h
  cases ha : quoteFieldPriority.findIdx? (· = a) with
  | some i =>
    obtain ⟨hi, hia, _⟩ := List.findIdx?_eq_some_iff_getElem.mp ha
    cases hb : quoteFieldPriority.findIdx? (· = b) with
    | some j =>
      obtain ⟨hj, hjb, _⟩ := List.findIdx?_eq_some_iff_getElem.mp hb
      rw [ha, hb] at h
      have hij : i = j := congrArg Prod.fst h
      subst hij
      rw [← of_decide_eq_true hia, ← of_decide_eq_true hjb]
    | none =>
      rw [ha, hb] at h
      have hij : i = quoteFieldPriority.length := congrArg Prod.fst h
      omega
  | none =>
    cases hb : quoteFieldPriority.findIdx? (· = b) with
    | some j =>
      obtain ⟨hj, _, _⟩ := List.findIdx?_eq_some_iff_getElem.mp hb
      rw [ha, hb] at h
      have hij : quoteFieldPriority.length = j := congrArg Prod.fst h
      omega
    | none =>
      rw [ha, hb] at h
      exact congrArg Prod.snd h

theorem quoteKey_eq {r r' : EventEvidence × RawDocument × Source} :
    quoteKey r = quoteKey r' ↔
      r.1.fieldSupported = r'.1.fieldSupported ∧ r.1.quote = r'.1.quote := by
  constructor
  · intro h
    exact ⟨quoteRank_injective (congrArg Prod.fst h), congrArg Prod.snd h⟩
  · rintro ⟨hf, hq⟩
    unfold quoteKey
    rw [hf, hq]

/-! ## settled records -/

theorem verifiedQuotes_settled {env' : ReadEnv} {eventId : Nat} (h : SettledQuotes s eventId) :
    verifiedQuotes env s eventId = verifiedQuotes env' s eventId := by
  have hscan := env.scan_perm (evidenceJoin s eventId)
  refine take_sortBy_perm (hscan.trans (env'.scan_perm _).symm) fun r hr r' hr' hkey hout => ?_
  obtain ⟨hf, hq⟩ := quoteKey_eq.mp hkey
  have hfar := h r (hscan.mem_iff.mp hr) r' (hscan.mem_iff.mp hr') hf hq hout
  rw [hscan.countP_eq]
  exact hfar

theorem repeatable_of_settled (hkeys : (s.events.map Event.eventId).Nodup) (h : Settled s day) :
    Repeatable env s day := by
  intro order order'
  refine buildBriefing_congr rfl hkeys fun bounds hbounds => ⟨rfl, fun e he hest => ?_, rfl⟩
  have hday : day.ordinal < Date.max.ordinal := by
    by_contra hlast
    unfold dayBounds at hbounds
    rw [if_pos (not_lt.mp hlast)] at hbounds
    cases hbounds
  rw [filter_isCandidate hbounds] at he
  have hquotes : verifiedQuotes (env.ordered order) s e.eventId =
      verifiedQuotes (env.ordered order') s e.eventId :=
    verifiedQuotes_settled (h hday e he hest)
  unfold briefingItem
  rw [hquotes]

/-! ## records that are not -/

/-- the database returns the `j`-th row of a query first -/
def RowOrder.front (j : Nat) : RowOrder where
  rows xs :=
    match xs[j]? with
    | none => xs
    | some x => x :: xs.eraseIdx j
  perm xs := by
    cases hx : xs[j]? with
    | none => exact List.Perm.refl _
    | some x =>
      obtain ⟨hj, rfl⟩ := List.getElem?_eq_some_iff.mp hx
      exact List.getElem_cons_eraseIdx_perm hj

theorem RowOrder.rows_front {α : Type} {xs : List α} {x : α} {j : Nat} (hj : xs[j]? = some x) :
    (RowOrder.front j).rows xs = x :: xs.eraseIdx j := by
  simp only [RowOrder.front, hj]

/-- the row that comes first, and the others -/
theorem RowOrder.perm_front {α : Type} {xs : List α} {x : α} {j : Nat} (hj : xs[j]? = some x) :
    xs.Perm (x :: xs.eraseIdx j) := by
  have hperm := (RowOrder.front j).perm xs
  rw [RowOrder.rows_front hj] at hperm
  exact hperm.symm

variable (env) in
/-- a row that is returned first is quoted behind those with smaller keys -/
theorem verifiedQuotes_front {eventId j : Nat} {r : EventEvidence × RawDocument × Source}
    (hj : (evidenceJoin s eventId)[j]? = some r)
    (hnear : ((evidenceJoin s eventId).countP fun x => decide (quoteKey x < quoteKey r)) <
      maxQuotesPerItem) :
    (verifiedQuotes (env.ordered (.front j)) s eventId)[(evidenceJoin s eventId).countP
      fun x => decide (quoteKey x < quoteKey r)]? = some (quoteOut r) := by
  have hscan : (env.ordered (.front j)).scan (evidenceJoin s eventId) =
      r :: (evidenceJoin s eventId).eraseIdx j := RowOrder.rows_front hj
  show (((sortBy quoteKey ((env.ordered (.front j)).scan (evidenceJoin s eventId))).take
    maxQuotesPerItem).map quoteOut)[_]? = _
  rw [hscan, List.getElem?_map, List.getElem?_take, if_pos hnear,
    getElem_sortBy_cons quoteKey (RowOrder.perm_front hj)]
  rfl

/-- what two orders brief alike, they quote alike -/
theorem verifiedQuotes_of_repeatable (h : Repeatable env s day)
    (hday : day.ordinal < Date.max.ordinal) (he : e ∈ recordsOf s day)
    (hest : isEstablished e = true) {order order' : RowOrder}
    (hne : verifiedQuotes (env.ordered order) s e.eventId ≠ []) :
    verifiedQuotes (env.ordered order) s e.eventId =
      verifiedQuotes (env.ordered order') s e.eventId := by
  obtain ⟨bounds, hbounds⟩ : ∃ bounds, dayBounds day = .ok bounds := ⟨_, dayBounds_ok hday⟩
  obtain ⟨b, hb⟩ : ∃ b, buildBriefing (env.ordered order) s day = .ok b :=
    ⟨_, buildBriefing_eq (env.ordered order) s hbounds⟩
  have hb' := hb
  rw [h order order'] at hb'
  obtain ⟨i, hi⟩ : ∃ i, briefingItem (env.ordered order) s bounds e = some i := by
    rw [← Option.ne_none_iff_exists', Ne, briefingItem_eq_none]
    exact hne
  -- the item of the record is an item of the other briefing
  obtain ⟨f, _, _, hf⟩ :=
    (mem_items hbounds hb').mp ((mem_items hbounds hb).mpr ⟨e, he, hest, hi⟩)
  have hid : f.eventId = e.eventId := (briefingItem_id hf).symm.trans (briefingItem_id hi)
  rw [← (briefingItem_quotes hi).1, (briefingItem_quotes hf).1, hid]

theorem settled_of_repeatable (h : Repeatable env s day) : Settled s day := by
  intro hday e he hest r hr r' hr' hfield hquote hout
  by_contra hfar
  have hnear := not_le.mp hfar
  obtain ⟨j, hj⟩ := List.mem_iff_getElem?.mp hr
  obtain ⟨j', hj'⟩ := List.mem_iff_getElem?.mp hr'
  have hkey : quoteKey r' = quoteKey r := quoteKey_eq.mpr ⟨hfield.symm, hquote.symm⟩
  have hfirst := verifiedQuotes_front env hj hnear
  have hsecond := verifiedQuotes_front env hj' (by rw [hkey]; exact hnear)
  rw [hkey] at hsecond
  have hne : verifiedQuotes (env.ordered (.front j)) s e.eventId ≠ [] := by
    intro hnil
    rw [hnil] at hfirst
    cases hfirst
  rw [verifiedQuotes_of_repeatable h hday he hest hne, hsecond] at hfirst
  exact hout (Option.some.inj hfirst).symm

/-- **A briefing is repeatable exactly when no two rows of a record it shows share field and text,
differ in what is quoted of them, and come within the first three.** -/
theorem repeatable_iff (env : ReadEnv) (day : Date) (hkeys : (s.events.map Event.eventId).Nodup) :
    Repeatable env s day ↔ Settled s day :=
  ⟨settled_of_repeatable, repeatable_of_settled hkeys⟩

end

namespace Sample

/-- a second authority and its copy of the notice -/
def secondSource : Source := { source with id := 8, name := txt "Coast guard" }

def copiedNotice : RawDocument :=
  { document text with id := 9, sourceId := 8, url := txt "https://example.com/n1" }

/-- a record whose quotes both notices carry -/
def quotedTwice : Store where
  sources := [source, secondSource]
  documents := [document text, copiedNotice]
  events := [newEvent 7 6 (report .moderate)].map fun e =>
    { e with evidence := e.evidence ++ e.evidence.map fun x => { x with documentId := 9 } }

end Sample

open Sample in
/-- which of two sources is quoted depends on the order of the rows -/
theorem quotedTwice_not_repeatable :
    ¬ ∀ (env : ReadEnv) (s : Store) (day : Date), (s.events.map Event.eventId).Nodup →
      Repeatable env s day := by
  intro h
  have hsettled := settled_of_repeatable (h readEnv quotedTwice ⟨0⟩ (by decide +kernel))
  obtain ⟨e, he, hid, hest⟩ : ∃ e ∈ recordsOf quotedTwice ⟨0⟩,
      e.eventId = 7 ∧ isEstablished e = true := by
    decide +kernel
  have hquotes := hsettled (by decide) e he hest
  rw [hid] at hquotes
  obtain ⟨r, hr, r', hr', hfield, hquote, hout, hnear⟩ : ∃ r ∈ evidenceJoin quotedTwice 7,
      ∃ r' ∈ evidenceJoin quotedTwice 7, r.1.fieldSupported = r'.1.fieldSupported ∧
        r.1.quote = r'.1.quote ∧ quoteOut r ≠ quoteOut r' ∧
        ((evidenceJoin quotedTwice 7).countP fun x => decide (quoteKey x < quoteKey r)) <
          maxQuotesPerItem := by
    decide +kernel
  exact absurd (hquotes r hr r' hr' hfield hquote hout) (not_le.mpr hnear)

theorem repeatable_iff_quotedTwice :
    (Sample.quotedTwice.events.map Event.eventId).Nodup ∧
      (Repeatable Sample.readEnv Sample.quotedTwice ⟨0⟩ ↔ Settled Sample.quotedTwice ⟨0⟩) := by
  have hkeys : (Sample.quotedTwice.events.map Event.eventId).Nodup := by decide +kernel
  exact ⟨hkeys, repeatable_iff Sample.readEnv ⟨0⟩ hkeys⟩

end GeoRisk
