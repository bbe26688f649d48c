import GeoRisk.Text.Normalise

/-!
# Splitting a document into chunks

`chunk_text`: sentences are packed greedily up to a size, with an overlap that starts at a sentence,
and a short last chunk is folded into its predecessor.

* `sentenceSpans`          `_sentence_spans`: a sentence ends after a white space that follows a
                           terminator;
* `packSpans`              the packing loop;
* `chunkText`              `chunk_text`;
* `verifyOffsets_chunkText`    every chunk's text is the slice of the document at its offsets, so
                           the check of the pipeline never fails.
-/

namespace GeoRisk
open Kit

def defaultMaxChars : Nat := 800

def defaultOverlapChars : Nat := 120

def minChunkChars : Nat := 80

structure Chunk where
  index : Nat
  text : Text
  charStart : Nat
  charEnd : Nat
  deriving DecidableEq, Repr

/-- `[.!?;]` -/
def isTerminator (c : Char) : Bool := c == '.' || c == '!' || c == '?' || c == ';'

/-- the spans from position `i` on, after the character `prev`, in a sentence begun at `cursor` -/
def sentenceSpansFrom (cursor i : Nat) (prev : Option Char) : Text → List (Nat × Nat)
  | [] => if cursor < i then [(cursor, i)] else []
  | c :: cs =>
    if isSpace c && prev.any isTerminator then
      (cursor, i + 1) :: sentenceSpansFrom (i + 1) (i + 1) (some c) cs
    else sentenceSpansFrom cursor (i + 1) (some c) cs

def sentenceSpans (text : Text) : List (Nat × Nat) := sentenceSpansFrom 0 0 none text

/-- the loop of `_align_to_boundary` -/
def alignFrom (candidate target : Nat) : List (Nat × Nat) → Nat
  | [] => candidate
  | span :: rest => if span.1 ≤ target then alignFrom span.1 target rest else candidate

def alignToBoundary (spans : List (Nat × Nat)) (target upper : Nat) : Nat :=
  min (alignFrom upper target spans) upper

/-- the packing loop of `chunk_text`, with the chunk under construction -/
def packSpans (all : List (Nat × Nat)) (maxChars overlapChars start stop : Nat) :
    List (Nat × Nat) → List (Nat × Nat)
  | [] => [(start, stop)]
  | span :: rest =>
    if span.2 - start ≤ maxChars then packSpans all maxChars overlapChars start span.2 rest
    else
      let back := if overlapChars = 0 then span.1 else max start (span.1 - overlapChars)
      (start, stop) ::
        packSpans all maxChars overlapChars (alignToBoundary all back span.1) span.2 rest

def mergeShortTail : List (Nat × Nat) → List (Nat × Nat)
  | [] => []
  | [span] => [span]
  | [prev, last] => if minChunkChars ≤ last.2 - last.1 then [prev, last] else [(prev.1, last.2)]
  | span :: rest => span :: mergeShortTail rest

def chunkOf (text : Text) (span : (Nat × Nat) × Nat) : Chunk :=
  ⟨span.2, slice text span.1.1 span.1.2, span.1.1, span.1.2⟩

def chunkText (text : Text) (maxChars overlapChars : Nat) : Except Text (List Chunk) :=
  if text = [] ∨ strip text = [] then .ok []
  else if maxChars ≤ overlapChars then .error (txt "overlap_chars must be smaller than max_chars")
  else
    match sentenceSpans text with
    | [] => .ok []
    | first :: rest =>
      let raw := packSpans (first :: rest) maxChars overlapChars first.1 first.2 rest
      .ok ((mergeShortTail raw).zipIdx.map (chunkOf text))

def verifyOffsets (text : Text) (chunks : List Chunk) : Bool :=
  chunks.all fun c => slice text c.charStart c.charEnd = c.text

/-- **Every chunk is the slice of the document at its offsets.** -/
theorem verifyOffsets_chunkText {text : Text} {maxChars overlapChars : Nat} {chunks : List Chunk}
    (h : chunkText text maxChars overlapChars = .ok chunks) : verifyOffsets text chunks = true := by
  unfold chunkText at h
  split at h
  · cases h; rfl
  · split at h
    · cases h
    · split at h
      · cases h; rfl
      · cases h
        rw [verifyOffsets, List.all_map, List.all_eq_true]
        intro span _
        simp [chunkOf]

end GeoRisk
