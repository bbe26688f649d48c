import GeoRisk.Processing.Cover

/-!
# The last chunk of a text

The short tail is folded back once, into a predecessor that may be short itself, and the result is
not looked at again.  It is long enough because of when the packing loop closes a chunk: the next
sentence did not fit, and the next chunk goes at least to the end of that sentence.

* `Outgrown maxChars c d`    from the start of one chunk to the end of the next is more than a chunk
                             may hold;
* `packSpans_outgrown`       each chunk of the packing loop is outgrown by the one after it;
* `chunkText_last_long`      the last of several chunks is not tiny.
-/

namespace GeoRisk
open Kit

section
variable {all rest : List (Nat × Nat)} {maxChars overlapChars n start stop : Nat}

def Outgrown (maxChars : Nat) (c d : Nat × Nat) : Prop := maxChars < d.2 - c.1

/-- the first chunk starts where the loop does, and goes as far as the chunk under construction -/
theorem packSpans_head (maxChars overlapChars : Nat) (h : Packing all n start stop rest) :
    ∃ e tail, packSpans all maxChars overlapChars start stop rest = (start, e) :: tail ∧ stop ≤ e :=
  (packSpans_covering maxChars overlapChars h).head

theorem packSpans_outgrown (h : Packing all n start stop rest) :
    (packSpans all maxChars overlapChars start stop rest).IsChain (Outgrown maxChars) := by
  induction rest generalizing start stop with
  | nil => exact List.isChain_singleton _
  | cons span rest ih =>
    by_cases hfit : span.2 - start ≤ maxChars
    · rw [packSpans_extend hfit]
      exact ih h.extend
    · rw [packSpans_close hfit]
      have hclose := h.close overlapChars
      have hchain := ih hclose
      obtain ⟨e, tail, hl, he⟩ := packSpans_head maxChars overlapChars hclose
      rw [hl] at hchain ⊢
      refine List.isChain_cons_cons.mpr ⟨?_, hchain⟩
      -- the next chunk holds the sentence that did not fit
      show maxChars < e - start
      omega

/-- after the fold the last chunk is long, however many are left -/
theorem mergeShortTail_last {l : List (Nat × Nat)} (hchain : l.IsChain (Outgrown maxChars))
    (hmax : minChunkChars - 1 ≤ maxChars) (htwo : 2 ≤ l.length) :
    ∃ c, (mergeShortTail l).getLast? = some c ∧ minChunkChars ≤ c.2 - c.1 := by
  rcases nil_or_singleton_or_snoc l with rfl | ⟨x, rfl⟩ | ⟨init, p, q, rfl⟩
  · exact absurd htwo (by decide)
  · exact absurd htwo (by simp)
  · rw [mergeShortTail_snoc]
    by_cases hlong : minChunkChars ≤ q.2 - q.1
    · rw [if_pos hlong, List.getLast?_append]
      exact ⟨q, rfl, hlong⟩
    · rw [if_neg hlong, List.getLast?_append]
      refine ⟨(p.1, q.2), rfl, ?_⟩
      have hpq : Outgrown maxChars p q :=
        (List.isChain_cons_cons.mp (List.isChain_append.mp hchain).2.1).1
      have hout : maxChars < q.2 - p.1 := hpq
      show minChunkChars ≤ q.2 - p.1
      omega

/-- folding never adds a chunk -/
theorem length_mergeShortTail_le (l : List (Nat × Nat)) : (mergeShortTail l).length ≤ l.length := by
  rcases nil_or_singleton_or_snoc l with rfl | ⟨x, rfl⟩ | ⟨init, p, q, rfl⟩
  · exact le_refl _
  · exact le_refl _
  · rw [mergeShortTail_snoc, List.length_append, List.length_append]
    refine Nat.add_le_add_left ?_ _
    split
    · exact le_refl _
    · exact Nat.le_succ 1

end

section
variable {text : Text} {maxChars overlapChars : Nat}

theorem chunkSpans_last_long (hmax : minChunkChars - 1 ≤ maxChars)
    (htwo : 2 ≤ (chunkSpans text maxChars overlapChars).length) :
    ∃ c, (chunkSpans text maxChars overlapChars).getLast? = some c ∧
      minChunkChars ≤ c.2 - c.1 := by
  unfold chunkSpans at htwo ⊢
  cases h : sentenceSpans text with
  | nil =>
    rw [h] at htwo
    exact absurd htwo (by simp)
  | cons first rest =>
    rw [h] at htwo
    exact mergeShortTail_last (packSpans_outgrown (packing_init h)) hmax
      (le_trans htwo (length_mergeShortTail_le _))

/-- **If a text is cut, its last chunk has the minimum size.** -/
theorem chunkText_last_long {chunks : List Chunk} (hmax : minChunkChars - 1 ≤ maxChars)
    (hsize : overlapChars < maxChars) (h : chunkText text maxChars overlapChars = .ok chunks)
    (htwo : 2 ≤ chunks.length) :
    ∃ c, chunks.getLast? = some c ∧ c.text.length = c.length ∧ minChunkChars ≤ c.length := by
  by_cases hblank : strip text = []
  · rw [chunkText, if_pos (Or.inr hblank)] at h
    cases h
    exact absurd htwo (by decide)
  · rw [chunkText_eq hblank hsize] at h
    cases h
    rw [List.length_map, List.length_zipIdx] at htwo
    obtain ⟨s, hs, hlong⟩ := chunkSpans_last_long hmax htwo
    obtain ⟨c, hc, rfl⟩ := @getLast?_chunksOf text _ _ hs
    refine ⟨c, hc, ?_, hlong⟩
    obtain ⟨stop, hcover⟩ := chunkSpans_covering maxChars overlapChars hblank
    obtain ⟨_, htext⟩ := mem_chunksOf (List.mem_of_getLast? hc)
    have hend : c.charEnd = text.length := hcover.last _ hs
    rw [htext, slice, List.length_take, List.length_drop, Chunk.length, hend, min_self]

end

namespace Sample

/-- a sentence of `n` letters -/
def lettered (n : Nat) : Text := List.replicate n 'a' ++ txt ". "

/-- three sentences, each pair of which is too long for a chunk -/
def circular : Text := lettered 58 ++ lettered 58 ++ lettered 28

end Sample

/-- the tail of 30 characters is folded into a chunk of 60 -/
theorem chunkText_last_long_circular :
    ∃ chunks, chunkText Sample.circular 79 0 = .ok chunks ∧
      ∃ c, chunks.getLast? = some c ∧ c.text.length = c.length ∧ minChunkChars ≤ c.length :=
  ⟨_, rfl, @chunkText_last_long Sample.circular 79 0 _ (by decide) (by decide) (by rfl) (by decide)⟩

end GeoRisk
