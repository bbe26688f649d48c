import Mathlib.Data.List.Forall2
import GeoRisk.Processing.Cover

/-!
# Where a chunk is closed

The packing loop closes a chunk when the next sentence does not fit, and only then steps back by the
overlap.  Whether the chunk that it opens there keeps to the size, and whether it leaves the closed
one behind, is decided in that state.

* `closings`               the states in which the loop closes a chunk: where that begins, and the
                           sentence that does not fit;
* `cuts`                   the closings that are left where the short tail is folded back;
* `chunkSpans_opened`      each chunk but the first begins where a cut opens it, and has grown from
                           the sentence that did not fit;
* `chunk_sizes_iff`        the chunks but the last keep to the size, or are one long sentence,
                           exactly when each overlap fits with the sentence that follows it;
* `chunk_spans_iff`        no chunk lies in another exactly when each cut leaves a sentence behind.
-/

namespace GeoRisk
open Kit

section
variable {all rest : List (Nat × Nat)} {maxChars overlapChars n start stop : Nat}
  {span : Nat × Nat}

/-- the states in which the packing loop closes a chunk -/
def closings (all : List (Nat × Nat)) (maxChars overlapChars start : Nat) :
    List (Nat × Nat) → List (Nat × (Nat × Nat))
  | [] => []
  | span :: rest =>
    if span.2 - start ≤ maxChars then closings all maxChars overlapChars start rest
    else
      (start, span) ::
        closings all maxChars overlapChars (nextStart all overlapChars start span) rest

/-- where a closing opens the next chunk, and with which sentence -/
def opened (all : List (Nat × Nat)) (overlapChars : Nat) (c : Nat × (Nat × Nat)) :
    Nat × (Nat × Nat) :=
  (nextStart all overlapChars c.1 c.2, c.2)

theorem closings_extend (h : span.2 - start ≤ maxChars) :
    closings all maxChars overlapChars start (span :: rest) =
      closings all maxChars overlapChars start rest := by
  rw [closings, if_pos h]

theorem closings_close (h : ¬span.2 - start ≤ maxChars) :
    closings all maxChars overlapChars start (span :: rest) =
      (start, span) ::
        closings all maxChars overlapChars (nextStart all overlapChars start span) rest := by
  rw [closings, if_neg h]

/-- a closing is a state of the loop -/
theorem packing_of_mem_closings {c : Nat × (Nat × Nat)} (h : Packing all n start stop rest)
    (hc : c ∈ closings all maxChars overlapChars start rest) :
    ∃ later, Packing all n c.1 c.2.1 (c.2 :: later) := by
  induction rest generalizing start stop with
  | nil => cases hc
  | cons span rest ih =>
    by_cases hfit : span.2 - start ≤ maxChars
    · rw [closings_extend hfit] at hc
      exact ih h.extend hc
    · rw [closings_close hfit] at hc
      rcases List.mem_cons.mp hc with rfl | hc
      · have hstop : span.1 = stop := h.behind.1
        rw [← hstop] at h
        exact ⟨rest, h⟩
      · exact ih (h.close overlapChars) hc

/-! ## chunks grow from the sentence they open with -/

/-- the chunk starts where it was opened, and holds more than its first sentence only while it
fits -/
structure Grown (maxChars : Nat) (o : Nat × (Nat × Nat)) (c : Nat × Nat) : Prop where
  start : c.1 = o.1
  size : (o.2.2 - o.1 ≤ maxChars ∧ c.2 - c.1 ≤ maxChars) ∨
    (maxChars < o.2.2 - o.1 ∧ c.2 = o.2.2)

theorem Grown.init (maxChars : Nat) (o : Nat × (Nat × Nat)) : Grown maxChars o (o.1, o.2.2) := by
  refine ⟨rfl, ?_⟩
  by_cases h : o.2.2 - o.1 ≤ maxChars
  · exact Or.inl ⟨h, h⟩
  · exact Or.inr ⟨not_le.mp h, rfl⟩

theorem Grown.extend {o : Nat × (Nat × Nat)} (h : Grown maxChars o (start, stop))
    (hlt : stop < span.2) (hfit : span.2 - start ≤ maxChars) :
    Grown maxChars o (start, span.2) := by
  have hstart : start = o.1 := h.start
  refine ⟨hstart, Or.inl ⟨?_, hfit⟩⟩
  rcases h.size with ⟨ho, _⟩ | ⟨hbig, hstop⟩
  · exact ho
  · -- a first sentence that is too long lets no other in
    have hstop' : stop = o.2.2 := hstop
    omega

theorem packSpans_grown (overlapChars : Nat) {o : Nat × (Nat × Nat)}
    (h : Packing all n start stop rest) (ho : Grown maxChars o (start, stop)) :
    List.Forall₂ (Grown maxChars)
      (o :: (closings all maxChars overlapChars start rest).map (opened all overlapChars))
      (packSpans all maxChars overlapChars start stop rest) := by
  induction rest generalizing o start stop with
  | nil => exact .cons ho .nil
  | cons span rest ih =>
    obtain ⟨hspan, hlt, _⟩ := h.behind
    by_cases hfit : span.2 - start ≤ maxChars
    · rw [closings_extend hfit, packSpans_extend hfit]
      exact ih h.extend (ho.extend hlt hfit)
    · rw [closings_close hfit, packSpans_close hfit, List.map_cons]
      exact .cons ho (ih (h.close overlapChars)
        (Grown.init maxChars (opened all overlapChars (start, span))))

theorem map_fst_of_grown {os : List (Nat × (Nat × Nat))} {l : List (Nat × Nat)}
    (h : List.Forall₂ (Grown maxChars) os l) : l.map Prod.fst = os.map Prod.fst := by
  induction h with
  | nil => rfl
  | cons h _ ih => rw [List.map_cons, List.map_cons, h.start, ih]

theorem forall₂_dropLast {α β : Type} {R : α → β → Prop} {as : List α} {bs : List β}
    (h : List.Forall₂ R as bs) : List.Forall₂ R as.dropLast bs.dropLast := by
  rw [List.dropLast_eq_take, List.dropLast_eq_take, h.length_eq]
  exact List.forall₂_take _ h

/-! ## each closing begins where the one before opened -/

/-- the first element begins at `start`, and every other where the one before it opened -/
def Linked (all : List (Nat × Nat)) (overlapChars : Nat) :
    Nat → List (Nat × (Nat × Nat)) → Prop
  | _, [] => True
  | start, c :: cs => c.1 = start ∧ Linked all overlapChars (nextStart all overlapChars c.1 c.2) cs

theorem closings_linked (all rest : List (Nat × Nat)) (maxChars overlapChars start : Nat) :
    Linked all overlapChars start (closings all maxChars overlapChars start rest) := by
  induction rest generalizing start with
  | nil => trivial
  | cons span rest ih =>
    by_cases hfit : span.2 - start ≤ maxChars
    · rw [closings_extend hfit]
      exact ih start
    · rw [closings_close hfit]
      exact ⟨rfl, ih _⟩

theorem Linked.left {cs ds : List (Nat × (Nat × Nat))}
    (h : Linked all overlapChars start (cs ++ ds)) : Linked all overlapChars start cs := by
  induction cs generalizing start with
  | nil => trivial
  | cons c cs ih => exact ⟨h.1, ih h.2⟩

theorem Linked.isChain_iff {cs : List (Nat × (Nat × Nat))} (h : Linked all overlapChars start cs) :
    (start :: cs.map fun c => nextStart all overlapChars c.1 c.2).IsChain (· < ·) ↔
      ∀ c ∈ cs, c.1 < nextStart all overlapChars c.1 c.2 := by
  induction cs generalizing start with
  | nil => simp
  | cons c cs ih =>
    obtain ⟨rfl, h⟩ := h
    rw [List.map_cons, List.isChain_cons_cons, ih h, List.forall_mem_cons]

/-! ## the step back, in terms of sentences -/

/-- **A cut leaves a sentence behind exactly when one starts after the closed chunk does, and not
within the overlap.** -/
theorem lt_nextStart_iff (h : Packing all n start stop (span :: rest)) :
    start < nextStart all overlapChars start span ↔
      ∃ s ∈ all, start < s.1 ∧ s.1 + overlapChars ≤ span.1 := by
  have hspan : span.1 = stop := h.behind.1
  obtain ⟨hmem, hle, hmax⟩ := nextStart_spec overlapChars h
  constructor
  · intro hlt
    obtain ⟨s, hs, he⟩ := List.mem_map.mp hmem
    exact ⟨s, hs, by omega, by omega⟩
  · rintro ⟨s, hs, hlt, hover⟩
    have := hmax s hs (by omega)
    omega

/-- **The overlap fits with the sentence that follows it, or there is none.** -/
theorem nextStart_fits_iff (h : Packing all n start stop (span :: rest)) :
    (nextStart all overlapChars start span = span.1 ∨
        span.2 - nextStart all overlapChars start span ≤ maxChars) ↔
      overlapChars = 0 ∨
        ∃ s ∈ all, s.1 ≤ max start (span.1 - overlapChars) ∧ span.2 - s.1 ≤ maxChars := by
  have hspan : span.1 = stop := h.behind.1
  have hlt := h.start_lt
  obtain ⟨hmem, hle, hmax⟩ := nextStart_spec overlapChars h
  constructor
  · rintro (he | hfit)
    · left
      omega
    · obtain ⟨s, hs, he⟩ := List.mem_map.mp hmem
      exact Or.inr ⟨s, hs, by omega, by omega⟩
  · rintro (h0 | ⟨s, hs, hback, hfit⟩)
    · left
      obtain ⟨past, hall, _⟩ := h.before
      have hin : span ∈ all := by
        rw [hall]
        exact List.mem_append_right _ (List.mem_cons_self ..)
      have := hmax span hin (by omega)
      omega
    · right
      have := hmax s hs (by omega)
      omega

end

/-! ## the chunks of a text -/

section
variable {text : Text} {maxChars overlapChars : Nat}

/-- the closings between two chunks of the result: the last one is none where the tail behind it is
folded back -/
def cuts (text : Text) (maxChars overlapChars : Nat) : List (Nat × (Nat × Nat)) :=
  if strip text = [] then []
  else
    match sentenceSpans text with
    | [] => []
    | first :: rest =>
      let found := closings (first :: rest) maxChars overlapChars first.1 rest
      if found.getLast?.all fun c => decide
          (minChunkChars ≤ text.length - nextStart (first :: rest) overlapChars c.1 c.2) then found
      else found.dropLast

theorem cuts_initial (maxChars overlapChars : Nat) {first : Nat × Nat} {rest : List (Nat × Nat)}
    (hblank : strip text ≠ []) (h : sentenceSpans text = first :: rest) :
    cuts text maxChars overlapChars <+:
      closings (first :: rest) maxChars overlapChars first.1 rest := by
  unfold cuts
  rw [if_neg hblank, h]
  simp only
  split
  · exact List.prefix_rfl
  · exact List.dropLast_prefix _

/-- **The chunks start where they were opened, and those but the last have grown from there.** -/
theorem chunkSpans_opened (maxChars overlapChars : Nat) {first : Nat × Nat}
    {rest : List (Nat × Nat)} (hblank : strip text ≠ []) (h : sentenceSpans text = first :: rest) :
    (chunkSpans text maxChars overlapChars).map Prod.fst =
        first.1 :: (cuts text maxChars overlapChars).map
          (fun c => nextStart (first :: rest) overlapChars c.1 c.2) ∧
      List.Forall₂ (Grown maxChars)
        ((first.1, first) ::
          (cuts text maxChars overlapChars).map (opened (first :: rest) overlapChars)).dropLast
        (chunkSpans text maxChars overlapChars).dropLast := by
  have hinit := packing_init h
  have hgrown := packSpans_grown overlapChars hinit
    (Grown.init maxChars (first.1, first))
  have hcover := packSpans_covering maxChars overlapChars hinit
  unfold chunkSpans cuts
  rw [if_neg hblank, h]
  simp only
  generalize hraw : packSpans (first :: rest) maxChars overlapChars first.1 first.2 rest = raw at *
  generalize hfound : closings (first :: rest) maxChars overlapChars first.1 rest = found at *
  have hstarts := map_fst_of_grown hgrown
  rcases List.eq_nil_or_concat found with rfl | ⟨fs, c, rfl⟩
  · obtain ⟨x, l, hx, hl, rfl⟩ := List.forall₂_cons_left_iff.mp hgrown
    cases hl
    refine ⟨?_, .nil⟩
    show [x.1] = _
    rw [hx.start]
    rfl
  · rw [List.concat_eq_append] at hstarts hgrown ⊢
    rcases nil_or_singleton_or_snoc raw with rfl | ⟨x, rfl⟩ | ⟨init, p, q, rfl⟩
    · cases hgrown
    · simp at hstarts
    · -- the last chunk was opened by the last closing, and ends with the text
      have hq2 : q.2 = text.length := hcover.last q (by rw [List.getLast?_append]; rfl)
      have hq1 : q.1 = nextStart (first :: rest) overlapChars c.1 c.2 := by
        have hlast := congrArg List.getLast? hstarts
        rw [List.getLast?_map, List.getLast?_append, List.getLast?_map, List.map_append,
          ← List.cons_append, List.getLast?_append] at hlast
        exact Option.some.inj hlast
      have hopened : ∀ cs : List (Nat × (Nat × Nat)),
          ((first.1, first) :: cs.map (opened (first :: rest) overlapChars)).map Prod.fst =
            first.1 :: cs.map fun c => nextStart (first :: rest) overlapChars c.1 c.2 := by
        intro cs
        rw [List.map_cons, List.map_map]
        rfl
      rw [mergeShortTail_snoc, List.getLast?_append]
      simp only [List.getLast?_singleton, Option.some_or, Option.all_some, decide_eq_true_eq]
      rw [hq2, hq1]
      by_cases hlong : minChunkChars ≤
          text.length - nextStart (first :: rest) overlapChars c.1 c.2
      · rw [if_pos hlong, if_pos hlong]
        refine ⟨?_, forall₂_dropLast hgrown⟩
        rw [hstarts, hopened]
      · -- the tail is folded back, and its closing is no cut
        rw [if_neg hlong, if_neg hlong, List.dropLast_concat]
        have hdrop := forall₂_dropLast hgrown
        have hraw' : (init ++ [p, q]).dropLast = init ++ [p] := by simp
        have hos : ((first.1, first) ::
            (fs ++ [c]).map (opened (first :: rest) overlapChars)).dropLast =
              (first.1, first) :: fs.map (opened (first :: rest) overlapChars) := by
          rw [List.map_append, List.map_singleton, ← List.cons_append, List.dropLast_concat]
        rw [hraw', hos] at hdrop
        constructor
        · have := map_fst_of_grown hdrop
          rw [hopened, List.map_append] at this
          rw [List.map_append, ← this]
          rfl
        · have := forall₂_dropLast hdrop
          rw [List.dropLast_concat] at this
          rw [List.dropLast_concat]
          exact this

/-- where a chunk has grown from an opening, it keeps to the size or is one long sentence exactly
when it opens with that sentence or fits with it -/
theorem Grown.fits_iff {all : List (Nat × Nat)} {n : Nat} {o : Nat × (Nat × Nat)} {c : Nat × Nat}
    (h : Grown maxChars o c) (ht : Tiles 0 all n) (ho : o.2 ∈ all) :
    (c.2 - c.1 ≤ maxChars ∨ (c ∈ all ∧ maxChars < c.2 - c.1)) ↔
      (o.1 = o.2.1 ∨ o.2.2 - o.1 ≤ maxChars) := by
  have hstart := h.start
  constructor
  · rintro (hc | ⟨hc, hbig⟩)
    · rcases h.size with ⟨hfit, _⟩ | ⟨hbig, hend⟩
      · exact Or.inr hfit
      · omega
    · rcases h.size with ⟨hfit, hsmall⟩ | ⟨_, hend⟩
      · exact Or.inr hfit
      · rw [← ht.eq_of_end hc ho hend]
        exact Or.inl hstart.symm
  · rintro (he | hfit)
    · rcases h.size with ⟨_, hsmall⟩ | ⟨hbig, hend⟩
      · exact Or.inl hsmall
      · have hco : c = o.2 := Prod.ext (hstart.trans he) hend
        rw [hco] at hstart ⊢
        exact Or.inr ⟨ho, by omega⟩
    · rcases h.size with ⟨_, hsmall⟩ | ⟨hbig, _⟩
      · exact Or.inl hsmall
      · omega

theorem forall_mem_iff_of_forall₂ {α β : Type} {R : α → β → Prop} {P : α → Prop} {Q : β → Prop}
    {as : List α} {bs : List β} (h : List.Forall₂ R as bs)
    (hPQ : ∀ a b, a ∈ as → R a b → (Q b ↔ P a)) : (∀ b ∈ bs, Q b) ↔ ∀ a ∈ as, P a := by
  induction h with
  | nil => simp
  | @cons a b as bs hab _ ih =>
    rw [List.forall_mem_cons, List.forall_mem_cons, hPQ a b (List.mem_cons_self ..) hab,
      ih fun a b ha => hPQ a b (List.mem_cons_of_mem _ ha)]

theorem chunkText_blank (h : strip text = []) : chunkText text maxChars overlapChars = .ok [] := by
  unfold chunkText
  rw [if_pos (Or.inr h)]

theorem cuts_blank (h : strip text = []) : cuts text maxChars overlapChars = [] := if_pos h

/-- a cut is a state of the loop over the sentences -/
theorem packing_of_mem_cuts {c : Nat × (Nat × Nat)} (hblank : strip text ≠ [])
    (hc : c ∈ cuts text maxChars overlapChars) :
    ∃ later, Packing (sentenceSpans text) text.length c.1 c.2.1 (c.2 :: later) := by
  cases h : sentenceSpans text with
  | nil => exact absurd h (sentenceSpans_ne_nil hblank)
  | cons first rest =>
    exact packing_of_mem_closings (packing_init h) ((cuts_initial _ _ hblank h).subset hc)

theorem chunkSpans_fits_iff (hblank : strip text ≠ []) :
    (∀ c ∈ (chunkSpans text maxChars overlapChars).dropLast,
        c.2 - c.1 ≤ maxChars ∨ (c ∈ sentenceSpans text ∧ maxChars < c.2 - c.1)) ↔
      ∀ c ∈ (cuts text maxChars overlapChars).dropLast, overlapChars = 0 ∨
        ∃ s ∈ sentenceSpans text,
          s.1 ≤ max c.1 (c.2.1 - overlapChars) ∧ c.2.2 - s.1 ≤ maxChars := by
  have hcut : ∀ c ∈ cuts text maxChars overlapChars, _ := fun c hc =>
    packing_of_mem_cuts hblank hc
  have htiles := sentenceSpans_tiles text
  cases h : sentenceSpans text with
  | nil => exact absurd h (sentenceSpans_ne_nil hblank)
  | cons first rest =>
    rw [h] at htiles hcut
    have hin : ∀ c ∈ cuts text maxChars overlapChars, c.2 ∈ first :: rest := by
      intro c hc
      obtain ⟨later, ⟨past, hall, _⟩, _⟩ := hcut c hc
      rw [hall]
      exact List.mem_append_right _ (List.mem_cons_self ..)
    obtain ⟨_, hgrown⟩ := chunkSpans_opened maxChars overlapChars hblank h
    cases hcuts : cuts text maxChars overlapChars with
    | nil =>
      rw [hcuts] at hgrown
      rw [List.forall₂_nil_left_iff.mp hgrown]
      simp
    | cons c₀ cs =>
      rw [hcuts] at hgrown hin hcut
      rw [List.map_cons, List.dropLast_cons_of_ne_nil (List.cons_ne_nil _ _), ← List.map_cons,
        ← List.map_dropLast] at hgrown
      rw [forall_mem_iff_of_forall₂ (P := fun o => o.1 = o.2.1 ∨ o.2.2 - o.1 ≤ maxChars) hgrown,
        List.forall_mem_cons, List.forall_mem_map]
      · constructor
        · rintro ⟨_, hall⟩ c hc
          obtain ⟨later, hp⟩ := hcut c (List.mem_of_mem_dropLast hc)
          exact (nextStart_fits_iff hp).mp (hall c hc)
        · intro hall
          refine ⟨Or.inl rfl, fun c hc => ?_⟩
          obtain ⟨later, hp⟩ := hcut c (List.mem_of_mem_dropLast hc)
          exact (nextStart_fits_iff hp).mpr (hall c hc)
      · intro o c ho hoc
        refine hoc.fits_iff htiles ?_
        rcases List.mem_cons.mp ho with rfl | ho
        · exact List.mem_cons_self ..
        · obtain ⟨d, hd, rfl⟩ := List.mem_map.mp ho
          exact hin d (List.mem_of_mem_dropLast hd)

/-- sentences of 15, 4, 18 and 80 characters -/
def unevenNotice : Text :=
  List.replicate 13 'a' ++ txt ". bb. " ++ List.replicate 16 'c' ++ txt ". " ++
    List.replicate 80 'd'

/-- sentences of one length: each cut leaves one behind -/
def evenNotice : Text := (List.replicate 14 (txt "aaaaaa. ")).flatten

/-- **Every chunk but the last keeps to the size, or is one sentence that is longer, exactly when
at every cut but the last the overlap fits with the sentence that follows it.** -/
theorem chunk_sizes_iff (hsize : overlapChars < maxChars) :
    ∃ chunks, chunkText text maxChars overlapChars = .ok chunks ∧
      ((∀ c ∈ chunks.dropLast, c.length ≤ maxChars ∨
          (c.span ∈ sentenceSpans text ∧ maxChars < c.length)) ↔
        ∀ c ∈ (cuts text maxChars overlapChars).dropLast, overlapChars = 0 ∨
          ∃ s ∈ sentenceSpans text,
            s.1 ≤ max c.1 (c.2.1 - overlapChars) ∧ c.2.2 - s.1 ≤ maxChars) := by
  by_cases hblank : strip text = []
  · refine ⟨[], chunkText_blank hblank, ?_⟩
    rw [cuts_blank hblank]
    simp
  · refine ⟨_, chunkText_eq hblank hsize, ?_⟩
    have hspans : ((chunkSpans text maxChars overlapChars).zipIdx.map (chunkOf text)).dropLast.map
        Chunk.span = (chunkSpans text maxChars overlapChars).dropLast := by
      rw [List.map_dropLast, map_span_chunkOf]
    rw [← chunkSpans_fits_iff hblank, ← hspans, List.forall_mem_map]
    rfl

theorem chunk_sizes_iff_uneven :
    (∃ chunks, chunkText unevenNotice 20 10 = .ok chunks ∧
      ((∀ c ∈ chunks.dropLast, c.length ≤ 20 ∨
          (c.span ∈ sentenceSpans unevenNotice ∧ 20 < c.length)) ↔
        ∀ c ∈ (cuts unevenNotice 20 10).dropLast, 10 = 0 ∨
          ∃ s ∈ sentenceSpans unevenNotice, s.1 ≤ max c.1 (c.2.1 - 10) ∧ c.2.2 - s.1 ≤ 20)) ∧
    (cuts evenNotice 30 10).dropLast.length = 9 ∧
    ∃ chunks, chunkText evenNotice 30 10 = .ok chunks ∧
      ∀ c ∈ chunks.dropLast, c.length ≤ 30 ∨
        (c.span ∈ sentenceSpans evenNotice ∧ 30 < c.length) := by
  refine ⟨chunk_sizes_iff (by decide), by decide +kernel, ?_⟩
  obtain ⟨chunks, hchunks, hsizes⟩ :=
    show ∃ chunks, chunkText evenNotice 30 10 = .ok chunks ∧ _ from chunk_sizes_iff (by decide)
  exact ⟨chunks, hchunks, hsizes.mpr (by decide +kernel)⟩

/-- the second chunk steps back over both short sentences before the third -/
theorem chunk_size_exceeded :
    ¬∀ (text : Text) (maxChars overlapChars : Nat) (chunks : List Chunk),
      overlapChars < maxChars → chunkText text maxChars overlapChars = .ok chunks →
        ∀ c ∈ chunks.dropLast, c.length ≤ maxChars ∨
          (c.span ∈ sentenceSpans text ∧ maxChars < c.length) := by
  intro h
  have hbad := h unevenNotice 20 10 _ (by decide) rfl
  revert hbad
  decide

/-- **No chunk lies in another exactly when, at every cut, a sentence starts after the closed chunk
does and not within the overlap.** -/
theorem chunk_spans_iff (hsize : overlapChars < maxChars) :
    ∃ chunks, chunkText text maxChars overlapChars = .ok chunks ∧
      (((chunks.map Chunk.span).Pairwise fun c d => ¬Inside c d ∧ ¬Inside d c) ↔
        ∀ c ∈ cuts text maxChars overlapChars, ∃ s ∈ sentenceSpans text,
          c.1 < s.1 ∧ s.1 + overlapChars ≤ c.2.1) := by
  by_cases hblank : strip text = []
  · refine ⟨[], chunkText_blank hblank, ?_⟩
    rw [cuts_blank hblank]
    simp
  · refine ⟨_, chunkText_eq hblank hsize, ?_⟩
    obtain ⟨stop, hcover⟩ := chunkSpans_covering maxChars overlapChars hblank
    have hcut : ∀ c ∈ cuts text maxChars overlapChars, _ := fun c hc =>
      packing_of_mem_cuts hblank hc
    rw [map_span_chunkOf, pairwise_inside_iff hcover.chain]
    cases h : sentenceSpans text with
    | nil => exact absurd h (sentenceSpans_ne_nil hblank)
    | cons first rest =>
      rw [h] at hcut
      obtain ⟨later, hpre⟩ := cuts_initial maxChars overlapChars hblank h
      have hlinked : Linked (first :: rest) overlapChars first.1
          (cuts text maxChars overlapChars) := by
        have hall := closings_linked (first :: rest) rest maxChars overlapChars first.1
        rw [← hpre] at hall
        exact hall.left
      rw [(chunkSpans_opened maxChars overlapChars hblank h).1, hlinked.isChain_iff]
      apply forall₂_congr
      intro c hc
      obtain ⟨later, hp⟩ := hcut c hc
      exact lt_nextStart_iff hp

theorem chunk_spans_iff_uneven :
    (∃ chunks, chunkText unevenNotice 20 10 = .ok chunks ∧
      (((chunks.map Chunk.span).Pairwise fun c d => ¬Inside c d ∧ ¬Inside d c) ↔
        ∀ c ∈ cuts unevenNotice 20 10, ∃ s ∈ sentenceSpans unevenNotice,
          c.1 < s.1 ∧ s.1 + 10 ≤ c.2.1)) ∧
    (cuts evenNotice 30 10).length = 10 ∧
    ∃ chunks, chunkText evenNotice 30 10 = .ok chunks ∧
      (chunks.map Chunk.span).Pairwise fun c d => ¬Inside c d ∧ ¬Inside d c := by
  refine ⟨chunk_spans_iff (by decide), by decide +kernel, ?_⟩
  obtain ⟨chunks, hchunks, hspans⟩ :=
    show ∃ chunks, chunkText evenNotice 30 10 = .ok chunks ∧ _ from chunk_spans_iff (by decide)
  exact ⟨chunks, hchunks, hspans.mpr (by decide +kernel)⟩

/-- the first chunk lies in the second -/
theorem chunk_repeated :
    ¬∀ (text : Text) (maxChars overlapChars : Nat) (chunks : List Chunk),
      overlapChars < maxChars → chunkText text maxChars overlapChars = .ok chunks →
        (chunks.map Chunk.span).Pairwise fun c d => ¬Inside c d ∧ ¬Inside d c := by
  intro h
  have hbad := h unevenNotice 20 10 _ (by decide) rfl
  revert hbad
  decide

end

end GeoRisk
