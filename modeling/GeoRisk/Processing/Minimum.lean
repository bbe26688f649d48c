import GeoRisk.Processing.Verify

/-!
# The length of a quote and the length of its match

`verify_quote` measures the trimmed quote and searches for its normal form.

* `LongMatch U q`            a quote that verifies matches at least `MIN_QUOTE_CHARS` characters;
* `MatchJudged U q r`        so do `q` and `r`, and if they have one normal form they get one verdict;
* `verifyQuote_verified_normal`    the test of `verify_quote`, with the normal form of the quote itself;
* `matchJudged_iff`          exactly when trimming already shows the lengths of the normal forms.
-/

namespace GeoRisk
open Kit

structure LongMatch (U : Unicode) (quote : Text) : Prop where
  normal : ∀ documentText, (verifyQuote U quote documentText).verified = true →
    minQuoteChars ≤ (normaliseText U quote).length
  offsets : ∀ documentText, (verifyQuote U quote documentText).verified = true →
    ∃ i j, (verifyQuote U quote documentText).charStart = some i ∧
      (verifyQuote U quote documentText).charEnd = some j ∧ minQuoteChars ≤ j - i

structure MatchJudged (U : Unicode) (quote other : Text) : Prop where
  alike : normaliseText U quote = normaliseText U other → ∀ documentText,
    (verifyQuote U quote documentText).verified = (verifyQuote U other documentText).verified ∧
    (verifyQuote U quote documentText).charStart = (verifyQuote U other documentText).charStart ∧
    (verifyQuote U quote documentText).charEnd = (verifyQuote U other documentText).charEnd
  long : LongMatch U quote
  long_other : LongMatch U other

/-- the trimmed quote passes the length test -/
def LongEnough (quote : Text) : Prop := minQuoteChars ≤ (strip quote).length

instance (quote : Text) : Decidable (LongEnough quote) :=
  inferInstanceAs (Decidable (minQuoteChars ≤ _))

section
variable {U : Unicode} {quote other : Text}

/-- **A quote verifies when it is long enough and its normal form occurs in that of the text.** -/
theorem verifyQuote_verified_normal (hU : U.Conforming) {documentText : Option Text} :
    (verifyQuote U quote documentText).verified = true ↔
      ∃ text, documentText = some text ∧ LongEnough quote ∧
        normaliseText U quote <:+: normaliseText U text := by
  rw [verifyQuote_verified, normaliseText_strip U hU]
  rfl

/-- a text that is the quote itself -/
theorem verifyQuote_self (hU : U.Conforming) {text : Text}
    (h : normaliseText U text = normaliseText U quote) :
    (verifyQuote U quote (some text)).verified = true ↔ LongEnough quote := by
  rw [verifyQuote_verified_normal hU]
  constructor
  · rintro ⟨_, _, hlong, _⟩
    exact hlong
  · intro hlong
    exact ⟨text, rfl, hlong, by rw [h]⟩

theorem longMatch_iff (hU : U.Conforming) :
    LongMatch U quote ↔ (LongEnough quote → minQuoteChars ≤ (normaliseText U quote).length) := by
  constructor
  · intro h hlong
    exact h.normal (some quote) ((verifyQuote_self hU rfl).mpr hlong)
  · intro h
    have hnormal : ∀ documentText, (verifyQuote U quote documentText).verified = true →
        minQuoteChars ≤ (normaliseText U quote).length := by
      intro documentText hv
      obtain ⟨_, _, hlong, _⟩ := (verifyQuote_verified_normal hU).mp hv
      exact h hlong
    refine ⟨hnormal, fun documentText hv => ?_⟩
    obtain ⟨_, i, _, _, _, hs, he⟩ := verifyQuote_found hv
    refine ⟨i, _, hs, he, ?_⟩
    rw [normaliseText_strip U hU, Nat.add_sub_cancel_left]
    exact hnormal documentText hv

/-- quotes with one normal form that pass the length test together get one verdict -/
theorem verifyQuote_alike (hU : U.Conforming) (h : normaliseText U quote = normaliseText U other)
    (hlong : LongEnough quote ↔ LongEnough other) (documentText : Option Text) :
    (verifyQuote U quote documentText).verified = (verifyQuote U other documentText).verified ∧
    (verifyQuote U quote documentText).charStart = (verifyQuote U other documentText).charStart ∧
    (verifyQuote U quote documentText).charEnd = (verifyQuote U other documentText).charEnd := by
  unfold verifyQuote
  cases documentText with
  | none => exact ⟨rfl, rfl, rfl⟩
  | some text =>
    simp only
    rw [normaliseText_strip U hU, normaliseText_strip U hU, h]
    by_cases hq : LongEnough quote
    · rw [if_neg (Nat.not_lt.mpr hq), if_neg (Nat.not_lt.mpr (hlong.mp hq))]
      cases findAt (normaliseText U other) (normaliseText U text) with
      | none => exact ⟨rfl, rfl, rfl⟩
      | some i => exact ⟨rfl, rfl, rfl⟩
    · rw [if_pos (Nat.not_le.mp hq), if_pos (Nat.not_le.mp fun ho => hq (hlong.mpr ho))]
      exact ⟨rfl, rfl, rfl⟩

/-- **The length test judges what is matched exactly when no trimmed quote is longer than its normal
form across the minimum, and quotes with one normal form pass the test together.** -/
theorem matchJudged_iff (hU : U.Conforming) (quote other : Text) :
    MatchJudged U quote other ↔
      (normaliseText U quote = normaliseText U other → (LongEnough quote ↔ LongEnough other)) ∧
      (LongEnough quote → minQuoteChars ≤ (normaliseText U quote).length) ∧
      (LongEnough other → minQuoteChars ≤ (normaliseText U other).length) := by
  constructor
  · intro h
    refine ⟨fun heq => ?_, (longMatch_iff hU).mp h.long, (longMatch_iff hU).mp h.long_other⟩
    -- the first quote is a document in which both are looked for
    have hsame := (h.alike heq (some quote)).1
    rw [← verifyQuote_self hU (rfl : normaliseText U quote = normaliseText U quote),
      ← verifyQuote_self hU heq, hsame]
  · rintro ⟨hlong, hquote, hother⟩
    exact ⟨fun heq => verifyQuote_alike hU heq (hlong heq), (longMatch_iff hU).mpr hquote,
      (longMatch_iff hU).mpr hother⟩

end

/-- zero-width spaces verify in every document, at nothing -/
theorem zeroWidthPad_not_judged :
    ¬ ∀ (U : Unicode) (quote other : Text), U.Conforming → MatchJudged U quote other := by
  intro h
  have hq : verifyQuote Unicode.latin zeroWidthPad (some (txt "port closed")) =
      ⟨[], zeroWidthPad, true, some 0, some 0, none, exactMethod⟩ := by decide +kernel
  have hlong := (h Unicode.latin zeroWidthPad [] Unicode.latin_conforming).long.normal
    (some (txt "port closed")) (by rw [hq])
  exact absurd hlong (by decide)

theorem matchJudged_iff_spaced :
    MatchJudged Unicode.latin (txt "port closed") (txt " port  closed\n") :=
  (matchJudged_iff Unicode.latin_conforming _ _).mpr (by decide)

end GeoRisk
