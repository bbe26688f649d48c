import GeoRisk.Kit.Tiling
import GeoRisk.Processing.Chunk

/-!
# What the chunks of a document cover

The sentences tile the text, and the packing loop keeps `Packing`: the sentences behind it end where
the chunk under construction does, which starts with one of them.  The rest follows from where the
next chunk starts, `nextStart_spec`.

* `sentenceSpans_tiles`    the sentences adjoin, and lead from the start of the text to its end;
* `nextStart`              where the chunk after a closed one starts: at the last sentence that
                           starts at the overlap or before it;
* `Covering`               chunks that follow one another, start and end with sentences, and hold
                           every sentence from a start on;
* `chunkText_covers`       `chunk_text` covers a text that is not blank.
-/

namespace GeoRisk
open Kit

/-! ## sentences -/

theorem sentenceSpansFrom_tiles {cursor i : Nat} {prev : Option Char} {text : Text}
    (h : cursor ≤ i) :
    Tiles cursor (sentenceSpansFrom cursor i prev text) (i + text.length) := by
  induction text generalizing cursor i prev with
  | nil =>
    rw [sentenceSpansFrom]
    split
    · next hlt => exact ⟨rfl, hlt, rfl⟩
    · next hge => exact le_antisymm h (not_lt.mp hge)
  | cons c cs ih =>
    have hlen : i + (c :: cs).length = i + 1 + cs.length := by
      rw [List.length_cons]
      omega
    rw [sentenceSpansFrom, hlen]
    split
    · exact ⟨rfl, Nat.lt_succ_of_le h, ih (le_refl _)⟩
    · exact ih (le_trans h (Nat.le_succ _))

/-- **The sentences tile the text.** -/
theorem sentenceSpans_tiles (text : Text) : Tiles 0 (sentenceSpans text) text.length := by
  have h : Tiles 0 (sentenceSpansFrom 0 0 none text) (0 + text.length) :=
    sentenceSpansFrom_tiles (le_refl 0)
  rw [Nat.zero_add] at h
  exact h

/-- the last start that is not behind the target, in a tiling that begins there or before -/
theorem alignFrom_spec (candidate : Nat) {target i n : Nat} {spans : List (Nat × Nat)}
    (h : Tiles i spans n) (hne : spans ≠ []) (hi : i ≤ target) :
    alignFrom candidate target spans ∈ spans.map Prod.fst ∧
      alignFrom candidate target spans ≤ target ∧
      ∀ s ∈ spans, s.1 ≤ target → s.1 ≤ alignFrom candidate target spans := by
  induction spans generalizing candidate i with
  | nil => exact absurd rfl hne
  | cons s rest ih =>
    obtain ⟨rfl, hlt, hrest⟩ := h
    rw [alignFrom, if_pos hi]
    cases rest with
    | nil =>
      refine ⟨List.mem_cons_self .., hi, ?_⟩
      intro t ht _
      exact le_of_eq (congrArg Prod.fst (List.mem_singleton.mp ht))
    | cons t rest =>
      by_cases ht : t.1 ≤ target
      · obtain ⟨hmem, hle, hmax⟩ :=
          ih s.1 hrest (List.cons_ne_nil _ _) (hrest.1 ▸ ht)
        refine ⟨List.mem_cons_of_mem _ hmem, hle, ?_⟩
        intro u hu hut
        rcases List.mem_cons.mp hu with rfl | hu
        · have hst : u.1 ≤ t.1 := hrest.1 ▸ le_of_lt hlt
          exact le_trans hst (hmax t (List.mem_cons_self ..) ht)
        · exact hmax u hu hut
      · -- the loop breaks at `t`, and everything from there on starts behind the target
        rw [alignFrom, if_neg ht]
        refine ⟨List.mem_cons_self .., hi, ?_⟩
        intro u hu hut
        rcases List.mem_cons.mp hu with rfl | hu
        · exact le_refl _
        · have htu : t.1 ≤ u.1 := hrest.1 ▸ (hrest.bounds hu).1
          exact absurd (le_trans htu hut) ht

/-! ## the packing loop -/

section
variable {all rest : List (Nat × Nat)} {maxChars overlapChars n start stop : Nat}
  {span : Nat × Nat}

/-- where the chunk that begins with the overlap before the sentence starts -/
def nextStart (all : List (Nat × Nat)) (overlapChars start : Nat) (span : Nat × Nat) : Nat :=
  alignToBoundary all
    (if overlapChars = 0 then span.1 else max start (span.1 - overlapChars)) span.1

theorem packSpans_extend (h : span.2 - start ≤ maxChars) :
    packSpans all maxChars overlapChars start stop (span :: rest) =
      packSpans all maxChars overlapChars start span.2 rest := by
  rw [packSpans, if_pos h]

theorem packSpans_close (h : ¬span.2 - start ≤ maxChars) :
    packSpans all maxChars overlapChars start stop (span :: rest) =
      (start, stop) ::
        packSpans all maxChars overlapChars (nextStart all overlapChars start span) span.2 rest := by
  rw [packSpans, if_neg h]
  rfl

/-- the state of the loop: the sentences before `rest` end at `stop`, and one of them begins at
`start` -/
structure Packing (all : List (Nat × Nat)) (n start stop : Nat) (rest : List (Nat × Nat)) :
    Prop where
  before : ∃ past, all = past ++ rest ∧ Tiles 0 past stop ∧ start ∈ past.map Prod.fst
  behind : Tiles stop rest n

theorem Packing.tiles (h : Packing all n start stop rest) : Tiles 0 all n := by
  obtain ⟨past, rfl, hpast, _⟩ := h.before
  exact tiles_append.mpr ⟨stop, hpast, h.behind⟩

theorem Packing.start_mem (h : Packing all n start stop rest) : start ∈ all.map Prod.fst := by
  obtain ⟨past, rfl, _, hmem⟩ := h.before
  rw [List.map_append]
  exact List.mem_append_left _ hmem

theorem Packing.start_lt (h : Packing all n start stop rest) : start < stop := by
  obtain ⟨past, _, hpast, hmem⟩ := h.before
  obtain ⟨s, hs, rfl⟩ := List.mem_map.mp hmem
  obtain ⟨_, hlt, hle⟩ := hpast.bounds hs
  exact lt_of_lt_of_le hlt hle

theorem Packing.stop_mem (h : Packing all n start stop rest) : stop ∈ all.map Prod.snd := by
  obtain ⟨past, rfl, hpast, hmem⟩ := h.before
  obtain ⟨s, hs, rfl⟩ := hpast.exists_end (List.map_eq_nil_iff.not.mp (List.ne_nil_of_mem hmem))
  exact List.mem_map_of_mem (List.mem_append_left _ hs)

/-- **The next chunk starts with the last sentence that starts at the overlap or before it.** -/
theorem nextStart_spec (overlapChars : Nat) (h : Packing all n start stop (span :: rest)) :
    nextStart all overlapChars start span ∈ all.map Prod.fst ∧
      nextStart all overlapChars start span ≤ max start (stop - overlapChars) ∧
      ∀ s ∈ all, s.1 ≤ max start (stop - overlapChars) →
        s.1 ≤ nextStart all overlapChars start span := by
  have hspan : span.1 = stop := h.behind.1
  have hlt := h.start_lt
  have hback : (if overlapChars = 0 then span.1 else max start (span.1 - overlapChars)) =
      max start (stop - overlapChars) := by
    rw [hspan]
    split
    · next h0 => rw [h0, Nat.sub_zero, max_eq_right (le_of_lt hlt)]
    · rfl
  have hne : all ≠ [] := fun e => List.not_mem_nil (e ▸ h.start_mem)
  obtain ⟨hmem, hle, hmax⟩ := alignFrom_spec span.1 h.tiles hne
    (Nat.zero_le (max start (stop - overlapChars)))
  have hstop : max start (stop - overlapChars) ≤ span.1 := by
    rw [hspan]
    exact max_le (le_of_lt hlt) (Nat.sub_le _ _)
  unfold nextStart alignToBoundary
  rw [hback, min_eq_left (le_trans hle hstop)]
  exact ⟨hmem, hle, hmax⟩

/-- it starts in the closed chunk, and repeats the overlap or all of it -/
theorem nextStart_bounds (overlapChars : Nat) (h : Packing all n start stop (span :: rest)) :
    start ≤ nextStart all overlapChars start span ∧
      nextStart all overlapChars start span ≤ stop ∧
      min overlapChars (stop - start) ≤ stop - nextStart all overlapChars start span := by
  obtain ⟨_, hle, hmax⟩ := nextStart_spec overlapChars h
  obtain ⟨s, hs, he⟩ := List.mem_map.mp h.start_mem
  have hstart : start ≤ nextStart all overlapChars start span :=
    he ▸ hmax s hs (he ▸ le_max_left _ _)
  have hlt := h.start_lt
  omega

theorem Packing.extend (h : Packing all n start stop (span :: rest)) :
    Packing all n start span.2 rest := by
  obtain ⟨past, hall, hpast, hmem⟩ := h.before
  obtain ⟨h1, h2, h3⟩ := h.behind
  refine ⟨⟨past ++ [span], ?_, ?_, ?_⟩, h3⟩
  · rw [hall, List.append_assoc, List.singleton_append]
  · exact tiles_append.mpr ⟨stop, hpast, h1, h2, rfl⟩
  · rw [List.map_append]
    exact List.mem_append_left _ hmem

theorem Packing.close (h : Packing all n start stop (span :: rest)) (overlapChars : Nat) :
    Packing all n (nextStart all overlapChars start span) span.2 rest := by
  obtain ⟨past, hall, hpast, _⟩ := h.extend.before
  refine ⟨⟨past, hall, hpast, ?_⟩, h.extend.behind⟩
  obtain ⟨s, hs, he⟩ := List.mem_map.mp (nextStart_spec overlapChars h).1
  have hstop := (nextStart_bounds overlapChars h).2.1
  rw [← he] at hstop ⊢
  rw [hall] at hs
  rcases List.mem_append.mp hs with hs | hs
  · exact List.mem_map_of_mem hs
  · -- what is still to come starts behind the sentence that did not fit
    have hlater := (h.extend.behind.bounds hs).1
    have hlt := h.behind.2.1
    omega

end

/-! ## covering -/

section
variable {all l : List (Nat × Nat)} {overlapChars n start stop : Nat}

/-- the chunks `l` of the sentences `all` from `start` on, the first of which goes as far as `stop`
or farther -/
structure Covering (all : List (Nat × Nat)) (overlapChars n start stop : Nat)
    (l : List (Nat × Nat)) : Prop where
  head : ∃ e tail, l = (start, e) :: tail ∧ stop ≤ e
  chain : l.IsChain (Follows overlapChars)
  last : ∀ c ∈ l.getLast?, c.2 = n
  aligned : ∀ c ∈ l, c.1 ∈ all.map Prod.fst ∧ c.2 ∈ all.map Prod.snd ∧ c.1 < c.2
  whole : ∀ s ∈ all, start ≤ s.1 → ∃ c ∈ l, c.1 ≤ s.1 ∧ s.2 ≤ c.2

theorem packSpans_covering (maxChars overlapChars : Nat) {rest : List (Nat × Nat)}
    (h : Packing all n start stop rest) :
    Covering all overlapChars n start stop
      (packSpans all maxChars overlapChars start stop rest) := by
  induction rest generalizing start stop with
  | nil =>
    have hn : stop = n := h.behind
    refine ⟨⟨stop, [], rfl, le_refl _⟩, List.isChain_singleton _, ?_, ?_, ?_⟩
    · intro c hc
      cases hc
      exact hn
    · intro c hc
      rw [List.mem_singleton.mp hc]
      exact ⟨h.start_mem, h.stop_mem, h.start_lt⟩
    · intro s hs hstart
      exact ⟨(start, stop), List.mem_singleton_self _, hstart, hn ▸ (h.tiles.bounds hs).2.2⟩
  | cons span rest ih =>
    obtain ⟨hspan, hlt, _⟩ := h.behind
    by_cases hfit : span.2 - start ≤ maxChars
    · rw [packSpans_extend hfit]
      have hc := ih h.extend
      obtain ⟨e, tail, hl, he⟩ := hc.head
      exact ⟨⟨e, tail, hl, le_trans (le_of_lt hlt) he⟩, hc.chain, hc.last, hc.aligned, hc.whole⟩
    · rw [packSpans_close hfit]
      have hc := ih (h.close overlapChars)
      obtain ⟨e, tail, hl, he⟩ := hc.head
      obtain ⟨hstart, hstop, hover⟩ := nextStart_bounds overlapChars h
      rw [hl] at hc ⊢
      refine ⟨⟨stop, _, rfl, le_refl _⟩, ?_, ?_, ?_, ?_⟩
      · exact List.isChain_cons_cons.mpr ⟨⟨hstart, lt_of_lt_of_le hlt he, hstop, hover⟩, hc.chain⟩
      · intro c hc'
        rw [List.getLast?_cons_cons] at hc'
        exact hc.last c hc'
      · intro c hc'
        rcases List.mem_cons.mp hc' with rfl | hc'
        · exact ⟨h.start_mem, h.stop_mem, h.start_lt⟩
        · exact hc.aligned c hc'
      · intro s hs hs'
        by_cases hin : s.2 ≤ stop
        · exact ⟨(start, stop), List.mem_cons_self .., hs', hin⟩
        · -- a sentence that is not behind the loop yet starts at its end or later
          have hlate : stop ≤ s.1 := by
            obtain ⟨past, hall, hpast, _⟩ := h.before
            rw [hall] at hs
            rcases List.mem_append.mp hs with hs | hs
            · exact absurd (hpast.bounds hs).2.2 hin
            · exact (h.behind.bounds hs).1
          obtain ⟨c, hc', hcs⟩ := hc.whole s hs (le_trans hstop hlate)
          exact ⟨c, List.mem_cons_of_mem _ hc', hcs⟩

end

/-! ## the short tail -/

theorem nil_or_singleton_or_snoc {α : Type} (l : List α) :
    l = [] ∨ (∃ x, l = [x]) ∨ ∃ init p q, l = init ++ [p, q] := by
  rcases List.eq_nil_or_concat l with rfl | ⟨l, q, rfl⟩
  · exact Or.inl rfl
  · rcases List.eq_nil_or_concat l with rfl | ⟨init, p, rfl⟩
    · exact Or.inr (Or.inl ⟨q, rfl⟩)
    · refine Or.inr (Or.inr ⟨init, p, q, ?_⟩)
      rw [List.concat_eq_append, List.concat_eq_append, List.append_assoc]
      rfl

theorem mergeShortTail_snoc (init : List (Nat × Nat)) (p q : Nat × Nat) :
    mergeShortTail (init ++ [p, q]) =
      init ++ if minChunkChars ≤ q.2 - q.1 then [p, q] else [(p.1, q.2)] := by
  induction init with
  | nil => rfl
  | cons s init ih =>
    rw [List.cons_append, List.cons_append, ← ih]
    cases init with
    | nil => rfl
    | cons t init =>
      cases hl : init ++ [p, q] with
      | nil => exact absurd hl (by simp)
      | cons u more =>
        rw [List.cons_append, hl]
        rfl

section
variable {all init l : List (Nat × Nat)} {p q : Nat × Nat} {overlapChars n start stop : Nat}

/-- the last two chunks put together still cover -/
theorem Covering.merge (h : Covering all overlapChars n start stop (init ++ [p, q])) :
    Covering all overlapChars n start stop (init ++ [(p.1, q.2)]) := by
  obtain ⟨hinit, hpq, hjoint⟩ := List.isChain_append.mp h.chain
  have hq : Follows overlapChars p q := (List.isChain_cons_cons.mp hpq).1
  have hp : p ∈ init ++ [p, q] := by simp
  have hmemq : q ∈ init ++ [p, q] := by simp
  have hlast : q.2 = n := h.last q (by rw [List.getLast?_append]; rfl)
  refine ⟨?_, ?_, ?_, ?_, ?_⟩
  · obtain ⟨e, tail, hl, he⟩ := h.head
    cases init with
    | nil =>
      cases hl
      exact ⟨q.2, [], rfl, le_trans he (le_of_lt hq.ends)⟩
    | cons s init =>
      obtain ⟨rfl, _⟩ := List.cons.inj hl
      exact ⟨e, init ++ [(p.1, q.2)], rfl, he⟩
  · refine List.isChain_append.mpr ⟨hinit, List.isChain_singleton _, ?_⟩
    intro x hx y hy
    cases hy
    have hxp : Follows overlapChars x p := hjoint x hx p rfl
    exact ⟨hxp.starts, lt_trans hxp.ends hq.ends, hxp.meets, hxp.overlap⟩
  · intro c hc
    rw [List.getLast?_append] at hc
    cases hc
    exact hlast
  · intro c hc
    rcases List.mem_append.mp hc with hc | hc
    · exact h.aligned c (List.mem_append_left _ hc)
    · rw [List.mem_singleton.mp hc]
      obtain ⟨hstart, _, hlt⟩ := h.aligned p hp
      exact ⟨hstart, (h.aligned q hmemq).2.1, lt_trans hlt hq.ends⟩
  · intro s hs hstart
    obtain ⟨c, hc, hcs⟩ := h.whole s hs hstart
    have hends := hq.ends
    have hstarts := hq.starts
    rcases List.mem_append.mp hc with hc | hc
    · exact ⟨c, List.mem_append_left _ hc, hcs⟩
    · refine ⟨(p.1, q.2), List.mem_append_right _ (List.mem_singleton_self _), ?_⟩
      show p.1 ≤ s.1 ∧ s.2 ≤ q.2
      rcases List.mem_cons.mp hc with rfl | hc
      · omega
      · rw [List.mem_singleton.mp hc] at hcs
        omega

theorem mergeShortTail_covering (h : Covering all overlapChars n start stop l) :
    Covering all overlapChars n start stop (mergeShortTail l) := by
  rcases nil_or_singleton_or_snoc l with rfl | ⟨x, rfl⟩ | ⟨init, p, q, rfl⟩
  · exact h
  · exact h
  · rw [mergeShortTail_snoc]
    split
    · exact h
    · exact h.merge

end

/-! ## the chunks of a text -/

section
variable {text : Text} {maxChars overlapChars : Nat}

/-- the offsets of the chunks -/
def chunkSpans (text : Text) (maxChars overlapChars : Nat) : List (Nat × Nat) :=
  match sentenceSpans text with
  | [] => []
  | first :: rest =>
    mergeShortTail (packSpans (first :: rest) maxChars overlapChars first.1 first.2 rest)

def Chunk.span (c : Chunk) : Nat × Nat := (c.charStart, c.charEnd)

def Chunk.length (c : Chunk) : Nat := c.charEnd - c.charStart

theorem map_span_chunkOf (text : Text) (l : List (Nat × Nat)) :
    (l.zipIdx.map (chunkOf text)).map Chunk.span = l := by
  rw [List.map_map]
  exact List.zipIdx_map_fst 0 l

/-- a chunk is built from a span, at the position of the span -/
theorem mem_chunksOf {l : List (Nat × Nat)} {c : Chunk} (h : c ∈ l.zipIdx.map (chunkOf text)) :
    c.span ∈ l ∧ c.text = slice text c.charStart c.charEnd := by
  obtain ⟨⟨s, i⟩, hs, rfl⟩ := List.mem_map.mp h
  exact ⟨List.mem_of_getElem? (List.mem_zipIdx_iff_getElem?.mp hs), rfl⟩

theorem index_chunksOf {l : List (Nat × Nat)} {c : Chunk} {i : Nat}
    (h : (l.zipIdx.map (chunkOf text))[i]? = some c) : c.index = i := by
  rw [List.getElem?_map, List.getElem?_zipIdx] at h
  obtain ⟨x, hx, rfl⟩ := Option.map_eq_some_iff.mp h
  obtain ⟨s, _, rfl⟩ := Option.map_eq_some_iff.mp hx
  exact Nat.zero_add i

/-- the last chunk is the one of the last span -/
theorem getLast?_chunksOf {l : List (Nat × Nat)} {s : Nat × Nat} (h : l.getLast? = some s) :
    ∃ c, (l.zipIdx.map (chunkOf text)).getLast? = some c ∧ c.span = s := by
  rw [← map_span_chunkOf text l, List.getLast?_map] at h
  exact Option.map_eq_some_iff.mp h

theorem chunkText_eq (hblank : strip text ≠ []) (hsize : overlapChars < maxChars) :
    chunkText text maxChars overlapChars =
      .ok ((chunkSpans text maxChars overlapChars).zipIdx.map (chunkOf text)) := by
  have hne : ¬(text = [] ∨ strip text = []) := by
    rintro (rfl | h)
    · exact hblank rfl
    · exact hblank h
  unfold chunkText chunkSpans
  rw [if_neg hne, if_neg (not_le.mpr hsize)]
  cases sentenceSpans text with
  | nil => rfl
  | cons first rest => rfl

/-- the loop starts with the first sentence -/
theorem packing_init {first : Nat × Nat} {rest : List (Nat × Nat)}
    (h : sentenceSpans text = first :: rest) :
    Packing (first :: rest) text.length first.1 first.2 rest := by
  have ht := sentenceSpans_tiles text
  rw [h] at ht
  obtain ⟨h0, hlt, hrest⟩ := ht
  refine ⟨⟨[first], rfl, ⟨h0, hlt, rfl⟩, ?_⟩, hrest⟩
  exact List.mem_singleton_self _

theorem sentenceSpans_ne_nil (hblank : strip text ≠ []) : sentenceSpans text ≠ [] := by
  intro h
  have ht := sentenceSpans_tiles text
  rw [h] at ht
  have hnil : text = [] := List.length_eq_zero_iff.mp ht.symm
  rw [hnil] at hblank
  exact hblank rfl

theorem chunkSpans_covering (maxChars overlapChars : Nat) (hblank : strip text ≠ []) :
    ∃ stop, Covering (sentenceSpans text) overlapChars text.length 0 stop
      (chunkSpans text maxChars overlapChars) := by
  unfold chunkSpans
  cases h : sentenceSpans text with
  | nil => exact absurd h (sentenceSpans_ne_nil hblank)
  | cons first rest =>
    have hinit := packing_init h
    have h0 : first.1 = 0 := by
      have ht := sentenceSpans_tiles text
      rw [h] at ht
      exact ht.1
    refine ⟨first.2, ?_⟩
    show Covering _ _ _ _ _ (mergeShortTail (packSpans _ _ _ first.1 _ _))
    rw [h0] at hinit ⊢
    exact mergeShortTail_covering (packSpans_covering maxChars overlapChars hinit)

/-- a text of at most the size is never cut -/
theorem packSpans_fits {all rest : List (Nat × Nat)} {start stop n : Nat}
    (h : Tiles stop rest n) (hn : n - start ≤ maxChars) :
    packSpans all maxChars overlapChars start stop rest = [(start, n)] := by
  induction rest generalizing stop with
  | nil =>
    have hstop : stop = n := h
    rw [packSpans, hstop]
  | cons span rest ih =>
    obtain ⟨_, _, hrest⟩ := h
    have hle := hrest.le
    rw [packSpans_extend (by omega)]
    exact ih hrest

theorem chunkSpans_fits (hblank : strip text ≠ []) (hlen : text.length ≤ maxChars) :
    chunkSpans text maxChars overlapChars = [(0, text.length)] := by
  unfold chunkSpans
  cases h : sentenceSpans text with
  | nil => exact absurd h (sentenceSpans_ne_nil hblank)
  | cons first rest =>
    have ht := sentenceSpans_tiles text
    rw [h] at ht
    obtain ⟨h0, _, hrest⟩ := ht
    show mergeShortTail (packSpans _ _ _ _ _ _) = _
    rw [packSpans_fits hrest (by omega), h0]
    rfl

/-- the chunks of a text cover it -/
structure Covers (text : Text) (maxChars overlapChars : Nat) (chunks : List Chunk) : Prop where
  index : ∀ (i : Nat) (c : Chunk), chunks[i]? = some c → c.index = i
  slices : ∀ c ∈ chunks, c.text = slice text c.charStart c.charEnd ∧ c.text ≠ []
  first : ∃ c, chunks.head? = some c ∧ c.charStart = 0
  last : ∃ c, chunks.getLast? = some c ∧ c.charEnd = text.length
  follow : (chunks.map Chunk.span).IsChain (Follows overlapChars)
  aligned : ∀ c ∈ chunks, c.charStart ∈ (sentenceSpans text).map Prod.fst ∧
    c.charEnd ∈ (sentenceSpans text).map Prod.snd
  whole : ∀ s ∈ sentenceSpans text, ∃ c ∈ chunks, c.charStart ≤ s.1 ∧ s.2 ≤ c.charEnd
  single : text.length ≤ maxChars → chunks.length = 1

/-- **The chunks of a text that is not blank cover it.** -/
theorem chunkText_covers (hblank : strip text ≠ []) (hsize : overlapChars < maxChars) :
    ∃ chunks, chunkText text maxChars overlapChars = .ok chunks ∧
      Covers text maxChars overlapChars chunks := by
  refine ⟨_, chunkText_eq hblank hsize, ?_⟩
  obtain ⟨stop, hcover⟩ := chunkSpans_covering maxChars overlapChars hblank
  have htiles := sentenceSpans_tiles text
  obtain ⟨first, tail, hl, _⟩ := hcover.head
  refine ⟨?_, ?_, ?_, ?_, ?_, ?_, ?_, ?_⟩
  · intro i c hc
    exact index_chunksOf hc
  · intro c hc
    obtain ⟨hmem, htext⟩ := mem_chunksOf hc
    obtain ⟨_, hend, hlt⟩ := hcover.aligned _ hmem
    refine ⟨htext, ?_⟩
    rw [htext]
    obtain ⟨s, hs, hse⟩ := List.mem_map.mp hend
    apply slice_ne_nil hlt
    show c.span.2 ≤ text.length
    rw [← hse]
    exact (htiles.bounds hs).2.2
  · rw [hl]
    exact ⟨_, rfl, rfl⟩
  · have hne : chunkSpans text maxChars overlapChars ≠ [] := hl ▸ List.cons_ne_nil _ _
    have hlast := List.getLast?_eq_some_getLast hne
    obtain ⟨c, hc, hspan⟩ := @getLast?_chunksOf text _ _ hlast
    refine ⟨c, hc, ?_⟩
    show c.span.2 = _
    rw [hspan, hcover.last _ hlast]
  · rw [map_span_chunkOf]
    exact hcover.chain
  · intro c hc
    obtain ⟨hstart, hend, _⟩ := hcover.aligned _ (mem_chunksOf hc).1
    exact ⟨hstart, hend⟩
  · intro s hs
    obtain ⟨c, hc, hcs⟩ := hcover.whole s hs (Nat.zero_le _)
    rw [← map_span_chunkOf text (chunkSpans text maxChars overlapChars)] at hc
    obtain ⟨d, hd, rfl⟩ := List.mem_map.mp hc
    exact ⟨d, hd, hcs⟩
  · intro hlen
    rw [chunkSpans_fits hblank hlen]
    rfl

theorem chunkText_covers_twoSentences :
    ∃ chunks, chunkText (txt "Port closed. Ships wait.") 16 4 = .ok chunks ∧
      Covers (txt "Port closed. Ships wait.") 16 4 chunks :=
  chunkText_covers (by decide) (by decide)

end

end GeoRisk
