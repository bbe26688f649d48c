import GeoRisk.Kit.Paging
import GeoRisk.Product.Repeat

/-!
# Searching for a text as it is written

`search_events` splices the query into a pattern of `ILIKE`, where `%`, `_` and the backslash are
not literal, counts the hits after the cut, and finds out in Python which part matched.

* `Reads p t`            what a pattern stands for, and `like_iff_reads`;
* `like_plain`           between two `%` a text without special characters is matched literally;
* `Occurs`, `OccursIn`   the query is in a text, or in a part of an event, up to case;
* `LiteralSearch`        what a literal search answers, in every order of the rows;
* `Faithful`             the pattern, the cut and the two case mappings make no difference;
* `literalSearch_iff`    a search is literal exactly where it is faithful and the query has no NUL;
* `faithful_of_plain`    as it is for a query without special characters that finds few events.
-/

namespace GeoRisk
open Kit

/-! ## patterns -/

/-- the texts that a pattern of `LIKE` stands for -/
inductive Reads : Text → Text → Prop
  | nil : Reads [] []
  | any (w : Text) {p u : Text} (h : Reads p u) : Reads ('%' :: p) (w ++ u)
  | one (x : Char) {p u : Text} (h : Reads p u) : Reads ('_' :: p) (x :: u)
  | escaped (c : Char) {p u : Text} (h : Reads p u) : Reads ('\\' :: c :: p) (c :: u)
  | plain {c : Char} {p u : Text} (hany : c ≠ '%') (hone : c ≠ '_') (hescape : c = '\\' → p = [])
      (h : Reads p u) : Reads (c :: p) (c :: u)

/-- how the text of a pattern begins, by its first character -/
theorem reads_cons {c : Char} {p t : Text} (h : Reads (c :: p) t) :
    (c = '%' ∧ ∃ w u, t = w ++ u ∧ Reads p u) ∨ (c = '_' ∧ ∃ x u, t = x :: u ∧ Reads p u) ∨
      (∃ d p' u, c = '\\' ∧ p = d :: p' ∧ t = d :: u ∧ Reads p' u) ∨
      (c ≠ '%' ∧ c ≠ '_' ∧ (c = '\\' → p = []) ∧ ∃ u, t = c :: u ∧ Reads p u) := by
  generalize hp : c :: p = pattern at h
  cases h with
  | nil => cases hp
  | any w h =>
    obtain ⟨rfl, rfl⟩ := List.cons.inj hp
    exact Or.inl ⟨rfl, w, _, rfl, h⟩
  | one x h =>
    obtain ⟨rfl, rfl⟩ := List.cons.inj hp
    exact Or.inr (Or.inl ⟨rfl, x, _, rfl, h⟩)
  | escaped d h =>
    obtain ⟨rfl, rfl⟩ := List.cons.inj hp
    exact Or.inr (Or.inr (Or.inl ⟨d, _, _, rfl, rfl, rfl, h⟩))
  | plain hany hone hescape h =>
    obtain ⟨rfl, rfl⟩ := List.cons.inj hp
    exact Or.inr (Or.inr (Or.inr ⟨hany, hone, hescape, _, rfl, h⟩))

theorem reads_any {p t : Text} : Reads ('%' :: p) t ↔ ∃ w u, t = w ++ u ∧ Reads p u := by
  constructor
  · intro h
    rcases reads_cons h with ⟨_, h⟩ | ⟨hc, _⟩ | ⟨_, _, _, hc, _⟩ | ⟨hc, _⟩
    · exact h
    · exact absurd hc (by decide)
    · exact absurd hc (by decide)
    · exact absurd rfl hc
  · rintro ⟨w, u, rfl, h⟩
    exact .any w h

theorem reads_one {p t : Text} : Reads ('_' :: p) t ↔ ∃ x u, t = x :: u ∧ Reads p u := by
  constructor
  · intro h
    rcases reads_cons h with ⟨hc, _⟩ | ⟨_, h⟩ | ⟨_, _, _, hc, _⟩ | ⟨_, hc, _⟩
    · exact absurd hc (by decide)
    · exact h
    · exact absurd hc (by decide)
    · exact absurd rfl hc
  · rintro ⟨x, u, rfl, h⟩
    exact .one x h

theorem reads_escaped {c : Char} {p t : Text} :
    Reads ('\\' :: c :: p) t ↔ ∃ u, t = c :: u ∧ Reads p u := by
  constructor
  · intro h
    rcases reads_cons h with ⟨hc, _⟩ | ⟨hc, _⟩ | ⟨d, p', u, _, hp, ht, h⟩ | ⟨_, _, hp, _⟩
    · exact absurd hc (by decide)
    · exact absurd hc (by decide)
    · obtain ⟨rfl, rfl⟩ := List.cons.inj hp
      exact ⟨u, ht, h⟩
    · exact absurd (hp rfl) (List.cons_ne_nil _ _)
  · rintro ⟨u, rfl, h⟩
    exact .escaped c h

theorem reads_plain {c : Char} {p t : Text} (hany : c ≠ '%') (hone : c ≠ '_')
    (hescape : c = '\\' → p = []) : Reads (c :: p) t ↔ ∃ u, t = c :: u ∧ Reads p u := by
  constructor
  · intro h
    rcases reads_cons h with ⟨hc, _⟩ | ⟨hc, _⟩ | ⟨d, p', u, hc, hp, _⟩ | ⟨_, _, _, h⟩
    · exact absurd hc hany
    · exact absurd hc hone
    · rw [hescape hc] at hp
      cases hp
    · exact h
  · rintro ⟨u, rfl, h⟩
    exact .plain hany hone hescape h

/-- a backslash that escapes nothing is the last character -/
theorem nil_of_not_escaping {c : Char} {p : Text} (h : ∀ d p', c = '\\' → p = d :: p' → False)
    (hc : c = '\\') : p = [] := by
  cases p with
  | nil => rfl
  | cons d p' => exact (h d p' hc rfl).elim

/-- **The matcher of the database accepts what a pattern stands for.** -/
theorem like_iff_reads {p t : Text} : like p t = true ↔ Reads p t := by
  induction p, t using like.induct with
  | case1 t =>
    rw [like, decide_eq_true_eq]
    constructor
    · rintro rfl
      exact .nil
    · intro h
      cases h
      rfl
  | case2 p t ih =>
    rw [like, List.any_eq_true, reads_any]
    constructor
    · rintro ⟨u, hu, h⟩
      obtain ⟨w, rfl⟩ := (List.mem_tails ..).mp hu
      exact ⟨w, u, rfl, (ih u).mp h⟩
    · rintro ⟨w, u, rfl, h⟩
      exact ⟨u, (List.mem_tails ..).mpr ⟨w, rfl⟩, (ih u).mpr h⟩
  | case3 p =>
    rw [like, reads_one]
    simp
  | case4 p x u ih =>
    rw [like, reads_one, ih]
    simp
  | case5 c p =>
    rw [like, reads_escaped]
    simp
  | case6 c p x u ih =>
    rw [like, reads_escaped, Bool.and_eq_true, ih]
    simp
  | case7 c p hany hone hescape =>
    rw [like, reads_plain hany hone (nil_of_not_escaping hescape)]
    · simp
    · exact hany
    · exact hone
    · exact hescape
  | case8 c p hany hone hescape x u ih =>
    rw [like, reads_plain hany hone (nil_of_not_escaping hescape), Bool.and_eq_true, ih]
    · simp
    · exact hany
    · exact hone
    · exact hescape

/-- no character of the text means anything else in a pattern -/
def Plain (q : Text) : Prop := ∀ c ∈ q, c ≠ '%' ∧ c ≠ '_' ∧ c ≠ '\\'

instance (q : Text) : Decidable (Plain q) :=
  List.decidableBAll (fun c => c ≠ '%' ∧ c ≠ '_' ∧ c ≠ '\\') q

theorem reads_append {q : Text} (hq : Plain q) {p t : Text} :
    Reads (q ++ p) t ↔ ∃ u, t = q ++ u ∧ Reads p u := by
  induction q generalizing t with
  | nil => simp
  | cons c q ih =>
    obtain ⟨hany, hone, hescape⟩ := hq c (List.mem_cons_self ..)
    rw [List.cons_append, reads_plain hany hone fun hc => absurd hc hescape]
    constructor
    · rintro ⟨u, rfl, h⟩
      obtain ⟨v, rfl, hv⟩ := (ih fun d hd => hq d (List.mem_cons_of_mem _ hd)).mp h
      exact ⟨v, rfl, hv⟩
    · rintro ⟨v, rfl, h⟩
      exact ⟨q ++ v, rfl, (ih fun d hd => hq d (List.mem_cons_of_mem _ hd)).mpr ⟨v, rfl, h⟩⟩

/-- **Between two `%` a text without special characters is matched literally.** -/
theorem like_plain {q : Text} (hq : Plain q) (t : Text) :
    like (['%'] ++ q ++ ['%']) t = true ↔ q <:+: t := by
  rw [like_iff_reads, List.append_assoc, List.singleton_append, reads_any]
  constructor
  · rintro ⟨w, u, rfl, h⟩
    obtain ⟨v, rfl, _⟩ := (reads_append hq).mp h
    exact ⟨w, v, List.append_assoc w q v⟩
  · rintro ⟨w, v, rfl⟩
    refine ⟨w, q ++ v, List.append_assoc w q v, (reads_append hq).mpr ⟨v, rfl, ?_⟩⟩
    exact reads_any.mpr ⟨v, [], (List.append_nil v).symm, .nil⟩

/-! ## a search -/

section
variable (env : ReadEnv)

/-- the text contains the query, up to the case mapping of the database -/
def Occurs (q t : Text) : Prop := env.sqlLower q <:+: env.sqlLower t

instance (q t : Text) : Decidable (Occurs env q t) :=
  inferInstanceAs (Decidable (env.sqlLower q <:+: env.sqlLower t))

def OccursIn (q : Text) (e : Event) : SearchPart → Prop
  | .title => Occurs env q e.title
  | .summary => Occurs env q e.summary
  | .evidence => ∃ v ∈ e.evidence, Occurs env q v.quote

/-- the title, the summary or some quote contains the query -/
def Event.Contains (e : Event) (q : Text) : Prop :=
  Occurs env q e.title ∨ Occurs env q e.summary ∨ ∃ v ∈ e.evidence, Occurs env q v.quote

instance (e : Event) (q : Text) : Decidable (e.Contains env q) :=
  inferInstanceAs (Decidable (Occurs env q e.title ∨ Occurs env q e.summary ∨
    ∃ v ∈ e.evidence, Occurs env q v.quote))

variable (s : Store) (x : SearchQuery)

/-- the events that the search may show -/
def visible : List Event := s.events.filter fun e => x.includePendingReview || isEstablished e

/-- the visible events that contain the query -/
def literalMatches : List Event := (visible s x).filter fun e => decide (e.Contains env x.q)

/-- the visible events that the pattern matches -/
def patternMatches : List Event := s.events.filter (x.selects env)

structure LiteralResults (r : SearchResults) : Prop where
  hits : ∀ hit ∈ r.items, ∃ e ∈ visible s x, hit.event.eventId = e.eventId ∧
    OccursIn env x.q e hit.matchedOn
  complete : r.items.length < x.limit → ∀ e ∈ literalMatches env s x,
    ∃ hit ∈ r.items, hit.event.eventId = e.eventId
  total : r.total = (literalMatches env s x).length

/-- a search is answered and literal, in whatever order the database returns the rows -/
def LiteralSearch : Prop :=
  ∀ order : RowOrder, ∃ r, searchEvents (env.ordered order) s x = .ok r ∧
    LiteralResults env s x r

/-- `str.lower` finds the query -/
def LowerFinds (q t : Text) : Prop := isIn (env.lower q) (env.lower t) = true

/-- the first of title and summary in which `str.lower` finds the query contains it, and where it
finds it in neither, some quote does -/
structure Named (q : Text) (e : Event) : Prop where
  title : LowerFinds env q e.title → Occurs env q e.title
  summary : ¬LowerFinds env q e.title → LowerFinds env q e.summary → Occurs env q e.summary
  evidence : ¬LowerFinds env q e.title → ¬LowerFinds env q e.summary →
    ∃ v ∈ e.evidence, Occurs env q v.quote

def latestDate (e : Event) : Int := -e.eventDate.ordinal

/-- the events that contain the query are few enough to be shown, they are matched and named by a
part that contains it, and what else is matched stands behind `limit` other matches -/
structure Faithful : Prop where
  few : (literalMatches env s x).length ≤ x.limit
  missed : ∀ e ∈ literalMatches env s x, e ∈ patternMatches env s x
  spurious : ∀ e ∈ patternMatches env s x, e ∉ literalMatches env s x →
    x.limit ≤ before latestDate (patternMatches env s x) e
  named : ∀ e ∈ literalMatches env s x, Named env x.q e

end

section
variable {env : ReadEnv} {s : Store} {x : SearchQuery} {e : Event} {q : Text}

theorem contains_iff : e.Contains env q ↔ ∃ part, OccursIn env q e part := by
  constructor
  · rintro (h | h | h)
    · exact ⟨.title, h⟩
    · exact ⟨.summary, h⟩
    · exact ⟨.evidence, h⟩
  · rintro ⟨_ | _ | _, h⟩
    · exact Or.inl h
    · exact Or.inr (Or.inl h)
    · exact Or.inr (Or.inr h)

theorem mem_literalMatches :
    e ∈ literalMatches env s x ↔ e ∈ visible s x ∧ e.Contains env x.q := by
  unfold literalMatches
  rw [List.mem_filter, decide_eq_true_eq]

theorem visible_of_match (h : e ∈ patternMatches env s x) : e ∈ visible s x := by
  obtain ⟨hmem, hsel⟩ := List.mem_filter.mp h
  exact List.mem_filter.mpr ⟨hmem, (Bool.and_eq_true_iff.mp hsel).2⟩

/-- the part that Python names contains the query exactly if the event is `Named` -/
theorem occursIn_matchedOn : OccursIn env q e (matchedOn env q e) ↔ Named env q e := by
  unfold matchedOn
  simp only
  split
  · next ht =>
    exact ⟨fun h => ⟨fun _ => h, fun hn => absurd ht hn, fun hn => absurd ht hn⟩,
      fun h => h.title ht⟩
  · next ht =>
    split
    · next hs =>
      exact ⟨fun h => ⟨fun k => absurd k ht, fun _ _ => h, fun _ hn => absurd hs hn⟩,
        fun h => h.summary ht hs⟩
    · next hs =>
      exact ⟨fun h => ⟨fun k => absurd k ht, fun _ k => absurd k hs, fun _ _ => h⟩,
        fun h => h.evidence ht hs⟩

/-- the events of the hits -/
def hitEvents (env : ReadEnv) (s : Store) (x : SearchQuery) (order : RowOrder) : List Event :=
  (sortBy latestDate (order.rows (patternMatches env s x))).take x.limit

theorem searchEvents_of_nul (order : RowOrder) (hq : nul ∈ x.q) :
    searchEvents (env.ordered order) s x = .error internalServerError := by
  unfold searchEvents
  rw [if_pos hq]

theorem searchEvents_items (env : ReadEnv) (s : Store) (order : RowOrder) (hq : nul ∉ x.q) :
    ∃ count : Nat → Nat, searchEvents (env.ordered order) s x =
      .ok ⟨x.q, (hitEvents env s x order).length, (hitEvents env s x order).map fun e =>
        SearchHit.mk (summaryOut e (count e.eventId)) (matchedOn env x.q e)⟩ := by
  refine ⟨countOf (evidenceCounts s ((hitEvents env s x order).map Event.eventId)), ?_⟩
  unfold searchEvents
  rw [if_neg hq]
  simp only [List.length_map]
  rfl

theorem event_of_hit {order : RowOrder} (h : e ∈ hitEvents env s x order) :
    e ∈ patternMatches env s x :=
  (order.perm _).mem_iff.mp ((perm_sortBy latestDate _).mem_iff.mp (List.mem_of_mem_take h))

theorem nodup_hitEvents (hkeys : (s.events.map Event.eventId).Nodup) (order : RowOrder) :
    (hitEvents env s x order).Nodup := by
  have hmatches : (patternMatches env s x).Nodup := hkeys.of_map.filter _
  have hsorted := ((perm_sortBy latestDate _).trans (order.perm _)).nodup_iff.mpr hmatches
  exact hsorted.sublist (List.take_sublist _ _)

/-- hits that all contain the query, and are as many as the events that do, are those events -/
theorem hitEvents_perm (hkeys : (s.events.map Event.eventId).Nodup) {order : RowOrder}
    (hsub : ∀ e ∈ hitEvents env s x order, e ∈ literalMatches env s x)
    (hlen : (literalMatches env s x).length ≤ (hitEvents env s x order).length) :
    (hitEvents env s x order).Perm (literalMatches env s x) :=
  (List.subperm_of_subset (nodup_hitEvents hkeys order) hsub).perm_of_length_le hlen

/-- the results of one search are literal exactly if each hit contains the query where Python says,
and the hits are as many as the events that contain it -/
theorem literalResults_iff (hkeys : (s.events.map Event.eventId).Nodup) (hq : nul ∉ x.q)
    (order : RowOrder) :
    (∃ r, searchEvents (env.ordered order) s x = .ok r ∧ LiteralResults env s x r) ↔
      (∀ e ∈ hitEvents env s x order, Named env x.q e) ∧
        (hitEvents env s x order).length = (literalMatches env s x).length := by
  obtain ⟨count, hr⟩ := searchEvents_items env s order hq
  rw [hr]
  constructor
  · rintro ⟨r, hok, hhits, _, htotal⟩
    cases hok
    refine ⟨fun e he => ?_, htotal⟩
    obtain ⟨e', he', hid, hpart⟩ := hhits _ (List.mem_map_of_mem he)
    have heq : e = e' := List.inj_on_of_nodup_map hkeys
      (List.mem_filter.mp (event_of_hit he)).1 (List.mem_filter.mp he').1 hid
    rw [← heq] at hpart
    exact occursIn_matchedOn.mp hpart
  · rintro ⟨hnamed, hlen⟩
    refine ⟨_, rfl, ?_, ?_, hlen⟩
    · intro hit hmem
      obtain ⟨e, he, rfl⟩ := List.mem_map.mp hmem
      exact ⟨e, visible_of_match (event_of_hit he), rfl, occursIn_matchedOn.mpr (hnamed e he)⟩
    · intro _ e he
      have hperm := hitEvents_perm hkeys (fun e he => mem_literalMatches.mpr
        ⟨visible_of_match (event_of_hit he),
          contains_iff.mpr ⟨_, occursIn_matchedOn.mpr (hnamed e he)⟩⟩) (le_of_eq hlen.symm)
      exact ⟨_, List.mem_map_of_mem (hperm.mem_iff.mpr he), rfl⟩

/-! ## exactly when a search is literal -/

theorem mem_literal_of_named {order : RowOrder} (he : e ∈ hitEvents env s x order)
    (h : Named env x.q e) : e ∈ literalMatches env s x :=
  mem_literalMatches.mpr ⟨visible_of_match (event_of_hit he),
    contains_iff.mpr ⟨_, occursIn_matchedOn.mpr h⟩⟩

theorem length_hitEvents_le (order : RowOrder) : (hitEvents env s x order).length ≤ x.limit :=
  List.length_take_le _ _

/-- an event that the database returns first is a hit if fewer than `limit` matches are later -/
theorem mem_hitEvents_front {j : Nat} (hj : (patternMatches env s x)[j]? = some e)
    (h : before latestDate (patternMatches env s x) e < x.limit) :
    e ∈ hitEvents env s x (.front j) := by
  unfold hitEvents
  rw [RowOrder.rows_front hj]
  refine List.mem_of_getElem? (i := before latestDate (patternMatches env s x) e) ?_
  rw [List.getElem?_take, if_pos h]
  exact getElem_sortBy_cons latestDate (RowOrder.perm_front hj)

/-- a query that is answered can be sent to the database -/
theorem nul_not_mem_of_literal (h : LiteralSearch env s x) : nul ∉ x.q := by
  intro hq
  obtain ⟨r, hr, _⟩ := h (.front 0)
  rw [searchEvents_of_nul (.front 0) hq] at hr
  cases hr

theorem faithful_of_literal (hkeys : (s.events.map Event.eventId).Nodup)
    (h : LiteralSearch env s x) : Faithful env s x := by
  have hall := fun order =>
    (literalResults_iff hkeys (nul_not_mem_of_literal h) order).mp (h order)
  have hperm : ∀ order, (hitEvents env s x order).Perm (literalMatches env s x) := fun order =>
    hitEvents_perm hkeys (fun e he => mem_literal_of_named he ((hall order).1 e he))
      (le_of_eq (hall order).2.symm)
  refine ⟨?_, ?_, ?_, ?_⟩
  · rw [← (hall (.front 0)).2]
    exact length_hitEvents_le _
  · intro e he
    exact event_of_hit ((hperm (.front 0)).mem_iff.mpr he)
  · intro e he hnot
    by_contra hfew
    obtain ⟨j, hj⟩ := List.mem_iff_getElem?.mp he
    exact hnot ((hperm (.front j)).mem_iff.mp (mem_hitEvents_front hj (not_le.mp hfew)))
  · intro e he
    exact (hall (.front 0)).1 e ((hperm (.front 0)).mem_iff.mpr he)

theorem literal_of_faithful (hkeys : (s.events.map Event.eventId).Nodup) (hq : nul ∉ x.q)
    (h : Faithful env s x) : LiteralSearch env s x := by
  intro order
  rw [literalResults_iff hkeys hq]
  have hsub : ∀ e ∈ hitEvents env s x order, e ∈ literalMatches env s x := by
    intro e he
    by_contra hnot
    obtain ⟨i, hi⟩ := List.mem_iff_getElem?.mp he
    unfold hitEvents at hi
    rw [List.getElem?_take] at hi
    split at hi
    · next hlt =>
      -- the `limit` later matches stand before it
      have hbefore := countP_lt_le_index (pairwise_sortBy latestDate _) hi
      have hfar := h.spurious e (event_of_hit he) hnot
      rw [before_perm (order.perm _).symm, before_perm (perm_sortBy latestDate _).symm] at hfar
      unfold before at hfar
      omega
    · cases hi
  refine ⟨fun e he => h.named e (hsub e he), le_antisymm ?_ ?_⟩
  · exact (List.subperm_of_subset (nodup_hitEvents hkeys order) hsub).length_le
  · have hsmall : (literalMatches env s x).length ≤ (patternMatches env s x).length :=
      (List.subperm_of_subset ((hkeys.of_map.filter _).filter _) h.missed).length_le
    unfold hitEvents
    rw [List.length_take, (perm_sortBy latestDate _).length_eq, (order.perm _).length_eq]
    exact le_min h.few hsmall

/-- **A search is literal exactly if the query holds no NUL, and the pattern, the cut and the case
mappings make no difference.** -/
theorem literalSearch_iff (env : ReadEnv) (x : SearchQuery)
    (hkeys : (s.events.map Event.eventId).Nodup) :
    LiteralSearch env s x ↔ nul ∉ x.q ∧ Faithful env s x :=
  ⟨fun h => ⟨nul_not_mem_of_literal h, faithful_of_literal hkeys h⟩,
    fun h => literal_of_faithful hkeys h.1 h.2⟩

/-- a query without special characters is searched literally, if the case mappings agree and its
matches fit -/
theorem faithful_of_plain (hq : Plain (env.sqlLower x.q))
    (hpercent : env.sqlLower (['%'] ++ x.q ++ ['%']) = ['%'] ++ env.sqlLower x.q ++ ['%'])
    (hlower : ∀ t, env.lower t = env.sqlLower t)
    (hfew : (literalMatches env s x).length ≤ x.limit) : Faithful env s x := by
  have hilike : ∀ t, ilike env (['%'] ++ x.q ++ ['%']) t = true ↔ Occurs env x.q t := by
    intro t
    unfold ilike Occurs
    rw [hpercent]
    exact like_plain hq _
  have hfinds : ∀ t, LowerFinds env x.q t ↔ Occurs env x.q t := by
    intro t
    unfold LowerFinds isIn Occurs
    rw [hlower, hlower]
    exact findAt_isSome
  have hsame : ∀ e, e ∈ patternMatches env s x ↔ e ∈ literalMatches env s x := by
    intro e
    rw [mem_literalMatches]
    unfold patternMatches visible SearchQuery.selects
    rw [List.mem_filter, List.mem_filter, Bool.and_eq_true, Bool.or_eq_true, Bool.or_eq_true,
      List.any_eq_true, and_assoc, and_comm (b := (_ || _) = true)]
    simp only [hilike, Event.Contains, or_assoc]
  refine ⟨hfew, fun e he => (hsame e).mpr he,
    fun e he hnot => absurd ((hsame e).mp he) hnot, fun e he => ?_⟩
  obtain ⟨_, hcontains⟩ := mem_literalMatches.mp he
  refine ⟨(hfinds _).mp, fun _ => (hfinds _).mp, fun htitle hsummary => ?_⟩
  exact (hcontains.resolve_left fun h => htitle ((hfinds _).mpr h)).resolve_left
    fun h => hsummary ((hfinds _).mpr h)

end

/-- two underscores are found in a record that holds none -/
theorem underscores_not_literal :
    ¬ ∀ (env : ReadEnv) (s : Store) (x : SearchQuery), (s.events.map Event.eventId).Nodup →
      LiteralSearch env s x := by
  intro h
  obtain ⟨r, hr, hliteral⟩ := h Sample.readEnv Sample.oneWaiting
    ⟨txt "__", false, 25, by decide, by decide⟩ (by decide +kernel) (.front 0)
  have hhits : (searchEvents (Sample.readEnv.ordered (.front 0)) Sample.oneWaiting
      ⟨txt "__", false, 25, by decide, by decide⟩).toOption.map (·.total) = some 1 := by
    decide +kernel
  have hnone : (literalMatches Sample.readEnv Sample.oneWaiting
      ⟨txt "__", false, 25, by decide, by decide⟩).length = 0 := by decide +kernel
  rw [hr] at hhits
  have htotal : 1 = 0 := (Option.some.inj hhits).symm.trans (hliteral.total.trans hnone)
  exact absurd htotal (by decide)

theorem literalSearch_iff_aden :
    ∃ x : SearchQuery, x.q = txt "Aden" ∧ LiteralSearch Sample.readEnv Sample.oneWaiting x := by
  refine ⟨⟨txt "Aden", false, 25, by decide, by decide⟩, rfl,
    (literalSearch_iff Sample.readEnv _ (by decide +kernel)).mpr ⟨by decide, ?_⟩⟩
  exact faithful_of_plain (by decide) rfl (fun _ => rfl) (by decide +kernel)

end GeoRisk
