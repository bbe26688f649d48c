import Mathlib.Data.Prod.Lex
import Mathlib.Order.WithBot
import GeoRisk.Kit.Query
import GeoRisk.Processing.Shelf

/-!
# The limited vector search

`find_matching_cluster` asks the database for the `candidateLimit` nearest clusters and drops those
outside the time window afterwards.  The full search looks at every cluster.

* `similarityTo`, `Eligible`   how close a cluster is, and what the full search may return;
* `Ranking.Exact`              the database returns clusters in the order of their cosine distance;
* `FullSearch`                 what the full search returns;
* `bestMatch_eq_foldl`         the loop over the candidates keeps the best eligible one
                               (`foldl_consider`);
* `crowd`, `Uncrowded`         the clusters outside the window that may stand before an eligible one;
* `search_agrees_iff`          the limited search is the full one, whatever the order of ties, exactly
                               when a best eligible cluster has less than `candidateLimit` such
                               clusters before it.
-/

namespace GeoRisk
open Kit

section
variable (sqrt : ℚ → ℚ) (v : Vector) (reference : DateTime)

/-! ## the full search -/

/-- the similarity of a cluster to the vector, if it has a centroid of the same dimension -/
def similarityTo (c : EventCluster) : Option ℚ :=
  c.centroid.bind fun x => (cosineSimilarity sqrt v x).toOption

instance (c : EventCluster) : Decidable (WithinWindow c reference) :=
  inferInstanceAs (Decidable (∀ seen ∈ c.lastUpdatedAt.or c.firstSeenAt,
    reference.distance seen ≤ timeWindow))

/-- similar enough, with similarity `q`, and inside the time window -/
def Eligible (q : ℚ) (c : EventCluster) : Prop :=
  similarityTo sqrt v c = some q ∧ similarityThreshold ≤ q ∧ WithinWindow c reference

/-- the column of centroids has one dimension; a document without chunks has the empty vector -/
def Comparable (clusters : List EventCluster) : Prop :=
  ∀ c ∈ clusters, ∀ x ∈ c.centroid, v = [] ∨ x.length = v.length

/-- `cosine_distance` of the database, as it is ordered: a vector without a direction comes last -/
def clusterDistance (c : EventCluster) : WithTop ℚ :=
  match c.centroid with
  | none => ⊤
  | some x =>
    if magnitude sqrt v = 0 ∨ magnitude sqrt x = 0 then ⊤
    else
      match cosineSimilarity sqrt v x with
      | .ok q => ((1 - q : ℚ) : WithTop ℚ)
      | .error _ => ⊤

/-- candidates come in the order of their distance; ties as they like -/
def Ranking.Exact (ranking : Ranking) : Prop :=
  ∀ v clusters, (ranking.order v clusters).Pairwise fun a b =>
    clusterDistance sqrt v a ≤ clusterDistance sqrt v b

/-- what the full search returns: a match exactly if some cluster is eligible, and then one of
maximal similarity -/
structure FullSearch (clusters : List EventCluster) (found : ClusterMatch) : Prop where
  matched : found.matched = true ↔ ∃ c ∈ clusters, ∃ q, Eligible sqrt v reference q c
  best : found.matched = true → ∃ c ∈ clusters, found.clusterId = some c.id ∧
    Eligible sqrt v reference found.similarity c ∧
    ∀ d ∈ clusters, ∀ q, Eligible sqrt v reference q d → q ≤ found.similarity

/-- the limited search returns what the full one does, whatever the order of ties -/
def SearchAgrees (clusters : List EventCluster) : Prop :=
  ∀ ranking : Ranking, ranking.Exact sqrt → ∃ found,
    findMatchingCluster sqrt ranking clusters v reference = .ok found ∧
      FullSearch sqrt v reference clusters found

/-- the clusters outside the window that are at least as similar as `q` -/
def crowd (clusters : List EventCluster) (q : ℚ) : Nat :=
  clusters.countP fun c =>
    (similarityTo sqrt v c).any (fun r => decide (q ≤ r)) && !decide (WithinWindow c reference)

/-- if a cluster is eligible, one of them has less than `candidateLimit` clusters outside the window
that are at least as similar -/
def Uncrowded (clusters : List EventCluster) : Prop :=
  (∃ c ∈ clusters, ∃ q, Eligible sqrt v reference q c) →
    ∃ c ∈ clusters, ∃ q, Eligible sqrt v reference q c ∧
      crowd sqrt v reference clusters q < candidateLimit

/-- the rows that the query returns -/
def nearest (ranking : Ranking) (clusters : List EventCluster) : List EventCluster :=
  (ranking.order v (clusters.filter fun c => c.centroid.isSome)).take candidateLimit

/-! ## the loop over the candidates -/

/-- one round of the loop -/
def consider (best : Option (ℚ × EventCluster)) (c : EventCluster) : Option (ℚ × EventCluster) :=
  match similarityTo sqrt v c with
  | none => best
  | some q =>
    if similarityThreshold ≤ q ∧ WithinWindow c reference ∧ best.all (fun b => decide (b.1 < q)) then
      some (q, c)
    else best

variable {sqrt v reference} {clusters : List EventCluster}

theorem window_any (c : EventCluster) :
    ((c.lastUpdatedAt.or c.firstSeenAt).any fun seen =>
      decide (timeWindow < reference.distance seen)) = !decide (WithinWindow c reference) := by
  rw [Bool.eq_iff_iff, Bool.not_eq_true', decide_eq_false_iff_not, Option.any_eq_true]
  unfold WithinWindow
  constructor
  · rintro ⟨seen, hseen, hfar⟩ h
    exact absurd (h seen hseen) (not_le.mpr (of_decide_eq_true hfar))
  · intro h
    push Not at h
    obtain ⟨seen, hseen, hfar⟩ := h
    exact ⟨seen, hseen, decide_eq_true hfar⟩

variable (sqrt reference) in
/-- **On vectors of one dimension the loop is a fold that keeps the best eligible candidate.** -/
theorem bestMatch_eq_foldl (hv : v ≠ []) (h : Comparable v clusters)
    (best : Option (ℚ × EventCluster)) :
    bestMatch sqrt v reference best clusters =
      .ok (clusters.foldl (consider sqrt v reference) best) := by
  induction clusters generalizing best with
  | nil => rfl
  | cons c rest ih =>
    have hrest := fun b => ih (fun d hd => h d (List.mem_cons_of_mem _ hd)) b
    rw [List.foldl_cons]
    cases hc : c.centroid with
    | none =>
      have hnone : consider sqrt v reference best c = best := by
        unfold consider similarityTo
        rw [hc, Option.bind_none]
      rw [bestMatch, hc, hnone]
      exact hrest best
    | some x =>
      have hlen : v.length = x.length := ((h c (List.mem_cons_self ..) x hc).resolve_left hv).symm
      obtain ⟨q, hq⟩ : ∃ q, cosineSimilarity sqrt v x = .ok q := by
        unfold cosineSimilarity
        rw [if_neg (not_not_intro hlen)]
        split
        · exact ⟨_, rfl⟩
        · exact ⟨_, rfl⟩
      have hsim : similarityTo sqrt v c = some q := by
        unfold similarityTo
        rw [hc, Option.bind_some, hq]
        rfl
      rw [bestMatch, hc]
      simp only [hq, window_any]
      unfold consider
      rw [hsim]
      by_cases hlow : q < similarityThreshold
      · rw [if_pos hlow]
        simp only [not_le.mpr hlow, false_and, if_false]
        exact hrest best
      · rw [if_neg hlow]
        by_cases hw : WithinWindow c reference
        · by_cases hb : (best.all fun b => decide (b.1 < q)) = true
          · simp only [hw, hb, not_lt.mp hlow, decide_true, Bool.not_true, Bool.false_eq_true,
              if_false, and_self, if_true]
            exact hrest _
          · simp only [hw, hb, decide_true, Bool.not_true, Bool.false_eq_true, if_false, and_false]
            exact hrest best
        · simp only [hw, decide_false, Bool.not_false, if_true, false_and, and_false, if_false]
          exact hrest best

/-- a round keeps what it has, or takes the candidate if that is eligible -/
theorem consider_eq_some {best : Option (ℚ × EventCluster)} {x c : EventCluster} {q : ℚ}
    (h : consider sqrt v reference best x = some (q, c)) :
    best = some (q, c) ∨ (c = x ∧ Eligible sqrt v reference q x) := by
  unfold consider at h
  split at h
  · exact Or.inl h
  · next hq =>
    split at h
    · next hpass =>
      cases h
      exact Or.inr ⟨rfl, hq, hpass.1, hpass.2.1⟩
    · exact Or.inl h

/-- what a round leaves is at least as similar as what it has and as an eligible candidate -/
theorem consider_above {best : Option (ℚ × EventCluster)} {x : EventCluster} {r : ℚ}
    (h : (∃ c, best = some (r, c)) ∨ Eligible sqrt v reference r x) :
    ∃ q c, consider sqrt v reference best x = some (q, c) ∧ r ≤ q := by
  unfold consider
  rcases h with ⟨c, rfl⟩ | ⟨hq, hlow, hw⟩
  · split
    · exact ⟨r, c, rfl, le_refl r⟩
    · next q _ =>
      split
      · next hpass => exact ⟨q, x, rfl, le_of_lt (of_decide_eq_true hpass.2.2)⟩
      · exact ⟨r, c, rfl, le_refl r⟩
  · rw [hq]
    simp only [hlow, hw, true_and]
    split
    · exact ⟨r, x, rfl, le_refl r⟩
    · next hb =>
      cases best with
      | none => exact absurd rfl hb
      | some b => exact ⟨b.1, b.2, rfl, not_lt.mp fun hlt => hb (decide_eq_true hlt)⟩

variable (sqrt v reference clusters) in
/-- what is kept comes from the start or the candidates and is at least as similar as either -/
theorem foldl_consider (best : Option (ℚ × EventCluster)) :
    (∀ q c, clusters.foldl (consider sqrt v reference) best = some (q, c) →
      best = some (q, c) ∨ (c ∈ clusters ∧ Eligible sqrt v reference q c)) ∧
    ∀ r, ((∃ c, best = some (r, c)) ∨ ∃ c ∈ clusters, Eligible sqrt v reference r c) →
      ∃ q c, clusters.foldl (consider sqrt v reference) best = some (q, c) ∧ r ≤ q := by
  induction clusters generalizing best with
  | nil =>
    refine ⟨fun q c h => Or.inl h, ?_⟩
    rintro r (⟨c, hc⟩ | ⟨c, hc, _⟩)
    · exact ⟨r, c, hc, le_refl r⟩
    · cases hc
  | cons x rest ih =>
    obtain ⟨hfrom, habove⟩ := ih (consider sqrt v reference best x)
    have hround : ∀ r, ((∃ c, best = some (r, c)) ∨ Eligible sqrt v reference r x) →
        ∃ q c, (x :: rest).foldl (consider sqrt v reference) best = some (q, c) ∧ r ≤ q := by
      intro r hr
      obtain ⟨r', c, hc, hle⟩ := consider_above hr
      obtain ⟨q, d, hd, hq⟩ := habove r' (Or.inl ⟨c, hc⟩)
      exact ⟨q, d, hd, le_trans hle hq⟩
    constructor
    · intro q c h
      rcases hfrom q c h with hx | ⟨hc, he⟩
      · rcases consider_eq_some hx with hbest | ⟨rfl, he⟩
        · exact Or.inl hbest
        · exact Or.inr ⟨List.mem_cons_self .., he⟩
      · exact Or.inr ⟨List.mem_cons_of_mem _ hc, he⟩
    · rintro r (hbest | ⟨c, hc, he⟩)
      · exact hround r (Or.inl hbest)
      · rcases List.mem_cons.mp hc with rfl | hc
        · exact hround r (Or.inr he)
        · exact habove r (Or.inr ⟨c, hc, he⟩)

theorem mem_of_mem_nearest {ranking : Ranking} {c : EventCluster}
    (h : c ∈ nearest v ranking clusters) : c ∈ clusters :=
  List.mem_of_mem_filter ((ranking.order_perm _ _).mem_iff.mp (List.mem_of_mem_take h))

/-- what the search returns -/
theorem findMatchingCluster_eq {ranking : Ranking} (hv : v ≠ []) (h : Comparable v clusters) :
    findMatchingCluster sqrt ranking clusters v reference =
      .ok (match (nearest v ranking clusters).foldl (consider sqrt v reference) none with
        | none => ⟨none, 0, false, true⟩
        | some (q, c) => ⟨some c.id, q, true, false⟩) := by
  have hfold := bestMatch_eq_foldl sqrt reference hv
    (fun c hc => h c (mem_of_mem_nearest hc) : Comparable v (nearest v ranking clusters)) none
  unfold nearest at hfold
  unfold findMatchingCluster nearest
  rw [if_neg hv]
  simp only [hfold]
  cases ((ranking.order v (clusters.filter fun c => c.centroid.isSome)).take
      candidateLimit).foldl (consider sqrt v reference) none with
  | none => rfl
  | some b => rfl

/-! ## distance and similarity -/

theorem similarityTo_nil {c : EventCluster} {q : ℚ} (h : similarityTo sqrt [] c = some q) :
    q = 0 := by
  unfold similarityTo at h
  obtain ⟨x, _, hx⟩ := Option.bind_eq_some_iff.mp h
  unfold cosineSimilarity at hx
  split at hx
  · cases hx
  · split at hx
    · exact (Option.some.inj hx).symm
    · rw [List.zipWith_nil_left, List.sum_nil, zero_div] at hx
      exact (Option.some.inj hx).symm

/-- a cluster at a distance of at most `1 - q` is at least as similar as `q`, and conversely -/
theorem clusterDistance_le {c : EventCluster} {q : ℚ} (hq : 0 < q) :
    clusterDistance sqrt v c ≤ ((1 - q : ℚ) : WithTop ℚ) ↔
      ∃ r, similarityTo sqrt v c = some r ∧ q ≤ r := by
  have htop : ¬((⊤ : WithTop ℚ) ≤ ((1 - q : ℚ) : WithTop ℚ)) := by
    rw [top_le_iff]
    exact WithTop.coe_ne_top
  unfold clusterDistance similarityTo
  cases c.centroid with
  | none => simp
  | some x =>
    rw [Option.bind_some]
    simp only
    by_cases hdir : magnitude sqrt v = 0 ∨ magnitude sqrt x = 0
    · rw [if_pos hdir]
      constructor
      · intro h
        exact absurd h htop
      · -- without a direction the similarity is zero
        rintro ⟨r, hr, hle⟩
        unfold cosineSimilarity at hr
        split at hr
        · cases hr
        · cases hr
          exact absurd hle (not_le.mpr hq)
    · rw [if_neg hdir]
      cases hx : cosineSimilarity sqrt v x with
      | error e => simp [Except.toOption]
      | ok r =>
        simp only [Except.toOption, Option.some.injEq, exists_eq_left', WithTop.coe_le_coe]
        constructor
        · intro h; linarith
        · intro h; linarith

theorem Eligible.pos {q : ℚ} {c : EventCluster} (h : Eligible sqrt v reference q c) : 0 < q :=
  lt_of_lt_of_le (by unfold similarityThreshold; norm_num) h.2.1

theorem Eligible.distance {q : ℚ} {c : EventCluster} (h : Eligible sqrt v reference q c) :
    clusterDistance sqrt v c = ((1 - q : ℚ) : WithTop ℚ) := by
  refine le_antisymm ((clusterDistance_le h.pos).mpr ⟨q, h.1, le_refl q⟩) (not_lt.mp fun hlt => ?_)
  -- a smaller distance would be a greater similarity
  obtain ⟨d, hd⟩ : ∃ d : ℚ, clusterDistance sqrt v c = d :=
    ⟨_, (WithTop.coe_untop _ (ne_top_of_lt hlt)).symm⟩
  rw [hd, WithTop.coe_lt_coe] at hlt
  have hle : clusterDistance sqrt v c ≤ ((1 - (1 - d) : ℚ) : WithTop ℚ) := by
    rw [hd, sub_sub_cancel]
  obtain ⟨r, hr, hge⟩ := (clusterDistance_le (by linarith [h.pos])).mp hle
  rw [h.1] at hr
  cases hr
  linarith

theorem Eligible.centroid {q : ℚ} {c : EventCluster} (h : Eligible sqrt v reference q c) :
    c.centroid.isSome = true := by
  obtain ⟨x, hx, _⟩ := Option.bind_eq_some_iff.mp h.1
  rw [hx]
  rfl

/-- the clusters that a crowd counts have a centroid, so the database selects them -/
theorem crowd_order (ranking : Ranking) (q : ℚ) :
    crowd sqrt v reference (ranking.order v (clusters.filter fun c => c.centroid.isSome)) q =
      crowd sqrt v reference clusters q := by
  unfold crowd
  rw [(ranking.order_perm _ _).countP_eq, List.countP_filter]
  apply List.countP_congr
  intro c _
  rw [Bool.and_eq_true, and_iff_left_iff_imp]
  intro h
  cases hc : c.centroid with
  | none =>
    unfold similarityTo at h
    rw [hc, Option.bind_none] at h
    cases h
  | some x => rfl

theorem crowd_antitone {q r : ℚ} (h : q ≤ r) :
    crowd sqrt v reference clusters r ≤ crowd sqrt v reference clusters q := by
  unfold crowd
  apply List.countP_mono_left
  intro c _ hc
  rw [Bool.and_eq_true, Option.any_eq_true] at hc ⊢
  obtain ⟨⟨s, hs, hrs⟩, hstale⟩ := hc
  exact ⟨⟨s, hs, decide_eq_true (le_trans h (of_decide_eq_true hrs))⟩, hstale⟩

/-- one of the eligible clusters is the most similar -/
theorem exists_best (h : ∃ c ∈ clusters, ∃ q, Eligible sqrt v reference q c) :
    ∃ c ∈ clusters, ∃ q, Eligible sqrt v reference q c ∧
      ∀ d ∈ clusters, ∀ r, Eligible sqrt v reference r d → r ≤ q := by
  obtain ⟨c, hc, q, he⟩ := h
  obtain ⟨hfrom, habove⟩ := foldl_consider sqrt v reference clusters none
  obtain ⟨m, d, hm, _⟩ := habove q (Or.inr ⟨c, hc, he⟩)
  have hd : d ∈ clusters ∧ Eligible sqrt v reference m d := by
    rcases hfrom m d hm with hnone | hd
    · cases hnone
    · exact hd
  refine ⟨d, hd.1, m, hd.2, fun x hx r hr => ?_⟩
  obtain ⟨m', d', hm', hle⟩ := habove r (Or.inr ⟨x, hx, hr⟩)
  rw [hm] at hm'
  cases hm'
  exact hle

/-! ## when the two searches agree -/

/-- the first eligible cluster of maximal similarity has only its crowd before it -/
theorem best_mem_take {ranking : Ranking} (hexact : ranking.Exact sqrt) {m : ℚ}
    (hm : ∃ c ∈ clusters, Eligible sqrt v reference m c)
    (hmax : ∀ d ∈ clusters, ∀ r, Eligible sqrt v reference r d → r ≤ m)
    (hcrowd : crowd sqrt v reference clusters m < candidateLimit) :
    ∃ c ∈ nearest v ranking clusters, Eligible sqrt v reference m c := by
  classical
  unfold nearest
  obtain ⟨d, hd, hde⟩ := hm
  set rows := ranking.order v (clusters.filter fun c => c.centroid.isSome) with hrows
  have hmem : ∀ x, x ∈ rows → x ∈ clusters := fun x hx =>
    List.mem_of_mem_filter ((ranking.order_perm _ _).mem_iff.mp hx)
  have hdrows : d ∈ rows :=
    (ranking.order_perm _ _).mem_iff.mpr (List.mem_filter.mpr ⟨hd, hde.centroid⟩)
  -- split the rows at the first cluster that is eligible with similarity `m`
  obtain ⟨c, hfind⟩ : ∃ c, rows.find? (fun x => decide (Eligible sqrt v reference m x)) = some c :=
    Option.isSome_iff_exists.mp (List.find?_isSome.mpr ⟨d, hdrows, decide_eq_true hde⟩)
  obtain ⟨hce, before, after, hsplit, hbefore⟩ := List.find?_eq_some_iff_append.mp hfind
  have hce : Eligible sqrt v reference m c := of_decide_eq_true hce
  refine ⟨c, ?_, hce⟩
  have hsorted : (before ++ c :: after).Pairwise fun a b =>
      clusterDistance sqrt v a ≤ clusterDistance sqrt v b := by
    rw [← hsplit, hrows]
    exact hexact v _
  have hstale : ∀ x ∈ before, ((similarityTo sqrt v x).any (fun r => decide (m ≤ r)) &&
      !decide (WithinWindow x reference)) = true := by
    intro x hx
    have hle : clusterDistance sqrt v x ≤ clusterDistance sqrt v c :=
      (List.pairwise_append.mp hsorted).2.2 x hx c (List.mem_cons_self ..)
    rw [hce.distance] at hle
    obtain ⟨r, hr, hmr⟩ := (clusterDistance_le hce.pos).mp hle
    have hout : ¬WithinWindow x reference := by
      intro hw
      have hxe : Eligible sqrt v reference r x := ⟨hr, le_trans hce.2.1 hmr, hw⟩
      have hxc : x ∈ clusters := by
        apply hmem
        rw [hsplit]
        exact List.mem_append_left _ hx
      have hrm : r = m := le_antisymm (hmax x hxc r hxe) hmr
      rw [hrm] at hxe
      have := hbefore x hx
      rw [decide_eq_true hxe] at this
      cases this
    rw [hr, Option.any_some, decide_eq_true hmr, decide_eq_false hout]
    rfl
  have hshort : before.length < candidateLimit := by
    refine lt_of_le_of_lt ?_ hcrowd
    rw [← crowd_order ranking, ← hrows, hsplit]
    unfold crowd
    rw [List.countP_append, List.countP_eq_length.mpr hstale]
    exact Nat.le_add_right _ _
  rw [hsplit, List.take_append]
  refine List.mem_append_right _ ?_
  obtain ⟨k, hk⟩ := Nat.exists_eq_add_of_lt hshort
  rw [hk, show before.length + k + 1 - before.length = k + 1 by omega, List.take_succ_cons]
  exact List.mem_cons_self ..

theorem agrees_of_uncrowded (h : Comparable v clusters)
    (hu : Uncrowded sqrt v reference clusters) : SearchAgrees sqrt v reference clusters := by
  intro ranking hexact
  by_cases hv : v = []
  · -- no similarity to the empty vector reaches the threshold
    have hnone : ¬∃ c ∈ clusters, ∃ q, Eligible sqrt v reference q c := by
      rintro ⟨c, _, q, he⟩
      have hpos := he.pos
      rw [hv] at he
      rw [similarityTo_nil he.1] at hpos
      exact lt_irrefl _ hpos
    refine ⟨⟨none, 0, false, true⟩, ?_, ?_, Bool.noConfusion⟩
    · unfold findMatchingCluster
      rw [if_pos hv]
    · exact ⟨Bool.noConfusion, fun hc => absurd hc hnone⟩
  · obtain ⟨hfrom, habove⟩ := foldl_consider sqrt v reference
      (nearest v ranking clusters) none
    -- if some cluster is eligible, what is kept is at least as similar as all of them
    have hkept : (∃ c ∈ clusters, ∃ q, Eligible sqrt v reference q c) →
        ∃ q c, (nearest v ranking clusters).foldl (consider sqrt v reference) none = some (q, c) ∧
          ∀ d ∈ clusters, ∀ r, Eligible sqrt v reference r d → r ≤ q := by
      intro hsome
      obtain ⟨c, hc, q, he, hcrowd⟩ := hu hsome
      obtain ⟨d, hd, m, hde, hmax⟩ := exists_best hsome
      obtain ⟨b, hb, hbe⟩ := best_mem_take hexact ⟨d, hd, hde⟩ hmax
        (lt_of_le_of_lt (crowd_antitone (hmax c hc q he)) hcrowd)
      obtain ⟨q', c', hfold, hle⟩ := habove m (Or.inr ⟨b, hb, hbe⟩)
      exact ⟨q', c', hfold, fun y hy s hs => le_trans (hmax y hy s hs) hle⟩
    refine ⟨_, findMatchingCluster_eq hv h, ?_⟩
    cases hfold : (nearest v ranking clusters).foldl (consider sqrt v reference) none with
    | none =>
      refine ⟨⟨Bool.noConfusion, fun hsome => ?_⟩, Bool.noConfusion⟩
      obtain ⟨q, c, hq, _⟩ := hkept hsome
      rw [hfold] at hq
      cases hq
    | some best =>
      obtain ⟨q, c⟩ := best
      obtain ⟨hc, he⟩ := (hfrom q c hfold).resolve_left (Option.some_ne_none _ ·.symm)
      have hsome : ∃ c ∈ clusters, ∃ q, Eligible sqrt v reference q c :=
        ⟨c, mem_of_mem_nearest hc, q, he⟩
      refine ⟨⟨fun _ => hsome, fun _ => rfl⟩, fun _ => ⟨c, mem_of_mem_nearest hc, rfl, he, ?_⟩⟩
      obtain ⟨q', c', hq, hmax⟩ := hkept hsome
      rw [hfold] at hq
      cases hq
      exact hmax

/-- an exact order that returns clusters outside the window first among equals -/
def staleFirst (sqrt : ℚ → ℚ) (reference : DateTime) : Ranking where
  order v clusters := sortBy (fun c =>
    toLex (clusterDistance sqrt v c, decide (WithinWindow c reference))) clusters
  order_perm _ _ := List.perm_insertionSort _ _

variable (sqrt reference) in
theorem staleFirst_sorted (v : Vector) (clusters : List EventCluster) :
    ((staleFirst sqrt reference).order v clusters).Pairwise fun a b =>
      toLex (clusterDistance sqrt v a, decide (WithinWindow a reference)) ≤
        toLex (clusterDistance sqrt v b, decide (WithinWindow b reference)) :=
  List.pairwise_insertionSort _ _

theorem staleFirst_exact : (staleFirst sqrt reference).Exact sqrt := fun v clusters =>
  (staleFirst_sorted _ _ v clusters).imp fun hab => by
    rcases Prod.Lex.le_iff.mp hab with hlt | ⟨heq, _⟩
    · exact le_of_lt hlt
    · exact le_of_eq heq

/-- behind an eligible cluster of maximal similarity no cluster of its crowd follows -/
theorem crowd_after {m : ℚ} {c : EventCluster} {before after rows : List EventCluster}
    (hrows : (staleFirst sqrt reference).order v rows = before ++ c :: after)
    (hc : Eligible sqrt v reference m c) : crowd sqrt v reference (c :: after) m = 0 := by
  have hsorted := staleFirst_sorted sqrt reference v rows
  rw [hrows] at hsorted
  have hbehind := List.pairwise_cons.mp (List.pairwise_append.mp hsorted).2.1
  unfold crowd
  rw [List.countP_eq_zero]
  intro x hx hcount
  rw [Bool.and_eq_true, Option.any_eq_true, Bool.not_eq_true', decide_eq_false_iff_not] at hcount
  obtain ⟨⟨r, hr, hmr⟩, hstale⟩ := hcount
  rcases List.mem_cons.mp hx with rfl | hx
  · exact hstale hc.2.2
  · have hle : clusterDistance sqrt v x ≤ clusterDistance sqrt v c := by
      rw [hc.distance]
      exact (clusterDistance_le hc.pos).mpr ⟨r, hr, of_decide_eq_true hmr⟩
    rcases Prod.Lex.le_iff.mp (hbehind.1 x hx) with hlt | ⟨_, hflag⟩
    · exact absurd hle (not_le.mpr hlt)
    · rw [decide_eq_true hc.2.2, decide_eq_false hstale] at hflag
      have hle : true ≤ false := hflag
      cases hle rfl

theorem uncrowded_of_agrees (h : Comparable v clusters)
    (ha : SearchAgrees sqrt v reference clusters) : Uncrowded sqrt v reference clusters := by
  intro hsome
  obtain ⟨found, hfound, hfull⟩ := ha (staleFirst sqrt reference) staleFirst_exact
  have hv : v ≠ [] := by
    rintro rfl
    obtain ⟨c, _, q, he⟩ := hsome
    have hpos := he.pos
    rw [similarityTo_nil he.1] at hpos
    exact lt_irrefl _ hpos
  have hmatched := hfull.matched.mpr hsome
  obtain ⟨d, hd, _, hde, hmax⟩ := hfull.best hmatched
  rw [findMatchingCluster_eq hv h] at hfound
  obtain ⟨hfrom, _⟩ := foldl_consider sqrt v reference
      (nearest v (staleFirst sqrt reference) clusters) none
  cases hfold : (nearest v (staleFirst sqrt reference) clusters).foldl
      (consider sqrt v reference) none with
  | none =>
    rw [hfold] at hfound
    cases hfound
    cases hmatched
  | some best =>
    obtain ⟨q, c⟩ := best
    rw [hfold] at hfound
    cases hfound
    obtain ⟨hc, he⟩ := (hfrom q c hfold).resolve_left (Option.some_ne_none _ ·.symm)
    refine ⟨c, mem_of_mem_nearest hc, q, he, ?_⟩
    -- the crowd of what was found stands before it, among the rows that were fetched
    obtain ⟨before, after, hrows⟩ := List.append_of_mem hc
    have hlen : before.length < candidateLimit := by
      have htake := congrArg List.length hrows
      rw [nearest, List.length_take, List.length_append, List.length_cons] at htake
      omega
    have hall : (staleFirst sqrt reference).order v (clusters.filter fun c => c.centroid.isSome) =
        before ++ c :: (after ++ ((staleFirst sqrt reference).order v
          (clusters.filter fun c => c.centroid.isSome)).drop candidateLimit) := by
      rw [← List.cons_append, ← List.append_assoc, ← hrows]
      exact (List.take_append_drop _ _).symm
    rw [← crowd_order (staleFirst sqrt reference), hall]
    have hzero := crowd_after hall he
    unfold crowd at hzero ⊢
    rw [List.countP_append, hzero, Nat.add_zero]
    exact lt_of_le_of_lt List.countP_le_length hlen

/-- **The limited search agrees with the full one, whatever the order of ties, exactly when a best
eligible cluster is not crowded out.** -/
theorem search_agrees_iff (h : Comparable v clusters) :
    SearchAgrees sqrt v reference clusters ↔ Uncrowded sqrt v reference clusters :=
  ⟨uncrowded_of_agrees h, agrees_of_uncrowded h⟩

end

/-! ## a crowded search -/

namespace Sample

/-- a vector of the dimension of the column -/
def axis : Vector := 1 :: List.replicate 383 0

def tilted : Vector := 4 / 5 :: 3 / 5 :: List.replicate 382 0

def hundredDays : DateTime := ⟨100 * DateTime.microsPerDay⟩

/-- a notice that recurred long ago -/
def seasonal (id : Nat) : EventCluster :=
  ⟨id, some axis, similarityThreshold, 1, some ⟨0⟩, some ⟨0⟩⟩

/-- the same notice of this season, in other words -/
def current : EventCluster :=
  ⟨candidateLimit, some tilted, similarityThreshold, 1, some hundredDays, some hundredDays⟩

def notices : List EventCluster := (List.range candidateLimit).map seasonal ++ [current]

theorem notices_comparable : Comparable axis notices := by
  unfold Comparable
  decide +kernel

end Sample

open Sample in
/-- ten notices of earlier seasons hide the one inside the window -/
theorem notices_hidden :
    ¬ ∀ (sqrt : ℚ → ℚ) (v : Vector) (reference : DateTime) (clusters : List EventCluster),
      Comparable v clusters → SearchAgrees sqrt v reference clusters := by
  intro h
  have hagrees := h id axis hundredDays notices notices_comparable
  have hcurrent : Eligible id axis hundredDays (4 / 5) current := by
    unfold Eligible
    decide +kernel
  obtain ⟨c, hc, q, he, hcrowd⟩ := uncrowded_of_agrees notices_comparable hagrees
    ⟨current, by decide +kernel, 4 / 5, hcurrent⟩
  -- every cluster outside the window is as similar as can be
  have hone : ∀ c ∈ notices, ∀ q ∈ similarityTo id axis c, q ≤ 1 := by decide +kernel
  have hfull : crowd id axis hundredDays notices 1 = candidateLimit := by decide +kernel
  have hle : crowd id axis hundredDays notices 1 ≤ crowd id axis hundredDays notices q :=
    crowd_antitone (hone c hc q he.1)
  rw [hfull] at hle
  exact absurd hcrowd (not_lt.mpr hle)

open Sample in
theorem search_agrees_iff_notices :
    Comparable axis notices ∧
      (SearchAgrees id axis hundredDays notices ↔ Uncrowded id axis hundredDays notices) :=
  ⟨notices_comparable, search_agrees_iff notices_comparable⟩

end GeoRisk
