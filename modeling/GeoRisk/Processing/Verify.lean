import GeoRisk.Ingest.Item
import GeoRisk.Schema.Extraction
import GeoRisk.Text.Format

/-!
# Citation verification

`verify_quote` looks for the normalised quote in the normalised document text; `verify_evidence`
does so for every quote of an extraction.

* `verifyQuote_verified`    a quote verifies exactly when the document has a text, the stripped
                            quote is long enough, and its normal form occurs in that of the text;
* `verifyQuote_offsets`     the offsets of a verified quote cut its normal form out of the
                            normal form of the text;
* `verbatim_iff`            they cut it out of the stored text itself, and every verbatim quote
                            verifies, exactly when the stored text is in NFKC;
* `wholeWords_iff`          the match starts and ends at word boundaries exactly when the
                            leftmost occurrence is not glued to a letter or digit.
-/

namespace GeoRisk
open Kit

def minQuoteChars : Nat := 8

structure VerifiedQuote where
  fieldSupported : Text
  quote : Text
  verified : Bool
  charStart : Option Nat
  charEnd : Option Nat
  failureReason : Option Text
  method : Text
  deriving DecidableEq, Repr

/-- the default of `VerifiedQuote.method` -/
def exactMethod : Text := txt "exact_normalised_substring"

def VerifiedQuote.refused (quote reason : Text) : VerifiedQuote :=
  ⟨[], quote, false, none, none, some reason, exactMethod⟩

structure VerificationReport where
  quotes : List VerifiedQuote
  deriving DecidableEq, Repr

namespace VerificationReport

def checked (r : VerificationReport) : Nat := r.quotes.length
def failed (r : VerificationReport) : Nat := r.quotes.countP fun q => !q.verified
def allVerified (r : VerificationReport) : Bool := decide (0 < r.checked) && decide (r.failed = 0)

theorem allVerified_iff {r : VerificationReport} :
    r.allVerified = true ↔ r.quotes ≠ [] ∧ ∀ q ∈ r.quotes, q.verified = true := by
  simp only [allVerified, checked, failed, Bool.and_eq_true, decide_eq_true_eq,
    List.countP_eq_zero, List.length_pos_iff, Bool.not_eq_true', Bool.not_eq_false]

end VerificationReport

section
variable (U : Unicode)

def verifyQuote (quote : Text) (documentText : Option Text) : VerifiedQuote :=
  match documentText with
  | none =>
    .refused quote (txt ("document has no stored text; this source's terms permit metadata only," ++
      " so it cannot supply quoted evidence"))
  | some text =>
    let stripped := strip quote
    if stripped.length < minQuoteChars then
      .refused quote (txt "quote is shorter than " ++ natText minQuoteChars ++ txt " characters")
    else
      let needle := normaliseText U stripped
      match findAt needle (normaliseText U text) with
      | none => .refused quote (txt "quote not found in the stored source text")
      | some position =>
        ⟨[], quote, true, some position, some (position + needle.length), none, exactMethod⟩

def verifyItem (documentText : Option Text) (item : EvidenceQuote) : VerifiedQuote :=
  { verifyQuote U item.quote.text documentText with fieldSupported := item.fieldSupported.text }

def verifyEvidence (evidence : List EvidenceQuote) (documentText : Option Text) :
    VerificationReport :=
  ⟨evidence.map (verifyItem U documentText)⟩

/-! ## what a verified quote is -/

variable {U}

theorem verifyQuote_quote (quote : Text) (documentText : Option Text) :
    (verifyQuote U quote documentText).quote = quote := by
  unfold verifyQuote
  cases documentText with
  | none => rfl
  | some text =>
    simp only
    split
    · rfl
    · split <;> rfl

/-- the occurrence behind a verified quote -/
theorem verifyQuote_found {quote : Text} {documentText : Option Text}
    (h : (verifyQuote U quote documentText).verified = true) :
    ∃ text i, documentText = some text ∧ minQuoteChars ≤ (strip quote).length ∧
      findAt (normaliseText U (strip quote)) (normaliseText U text) = some i ∧
      (verifyQuote U quote documentText).charStart = some i ∧
      (verifyQuote U quote documentText).charEnd =
        some (i + (normaliseText U (strip quote)).length) := by
  unfold verifyQuote at h ⊢
  cases documentText with
  | none => cases h
  | some text =>
    simp only at h ⊢
    by_cases hlen : (strip quote).length < minQuoteChars
    · rw [if_pos hlen] at h
      cases h
    · rw [if_neg hlen] at h ⊢
      cases hf : findAt (normaliseText U (strip quote)) (normaliseText U text) with
      | none => rw [hf] at h; cases h
      | some i => exact ⟨text, i, rfl, by omega, hf, rfl, rfl⟩

/-- a long enough quote whose normal form occurs verifies, at the leftmost occurrence -/
theorem verifyQuote_of_findAt {quote text : Text} {i : Nat}
    (hlen : minQuoteChars ≤ (strip quote).length)
    (hf : findAt (normaliseText U (strip quote)) (normaliseText U text) = some i) :
    verifyQuote U quote (some text) =
      ⟨[], quote, true, some i, some (i + (normaliseText U (strip quote)).length), none,
        exactMethod⟩ := by
  unfold verifyQuote
  simp only
  rw [if_neg (by omega), hf]

theorem verifyQuote_verified {quote : Text} {documentText : Option Text} :
    (verifyQuote U quote documentText).verified = true ↔
      ∃ text, documentText = some text ∧ minQuoteChars ≤ (strip quote).length ∧
        normaliseText U (strip quote) <:+: normaliseText U text := by
  constructor
  · intro h
    obtain ⟨text, i, hd, hlen, hf, _⟩ := verifyQuote_found h
    exact ⟨text, hd, hlen, findAt_isSome.mp (Option.isSome_iff_exists.mpr ⟨i, hf⟩)⟩
  · rintro ⟨text, rfl, hlen, hin⟩
    obtain ⟨i, hf⟩ := Option.isSome_iff_exists.mp (findAt_isSome.mpr hin)
    rw [verifyQuote_of_findAt hlen hf]

/-- **The offsets of a verified quote cut it out of the normalised text.** -/
theorem verifyQuote_offsets {quote : Text} {documentText : Option Text}
    (h : (verifyQuote U quote documentText).verified = true) :
    ∃ text i j, documentText = some text ∧
      (verifyQuote U quote documentText).charStart = some i ∧
      (verifyQuote U quote documentText).charEnd = some j ∧
      slice (normaliseText U text) i j = normaliseText U (strip quote) := by
  obtain ⟨text, i, hd, _, hf, hs, he⟩ := verifyQuote_found h
  exact ⟨text, i, _, hd, hs, he, slice_findAt hf⟩

theorem verifyEvidence_none {evidence : List EvidenceQuote} :
    (verifyEvidence U evidence none).allVerified = false := by
  rw [Bool.eq_false_iff]
  intro h
  obtain ⟨hne, hall⟩ := VerificationReport.allVerified_iff.mp h
  cases evidence with
  | nil => exact hne rfl
  | cons item rest =>
    have h1 : (verifyItem U none item).verified = true := hall _ (List.mem_cons_self ..)
    cases h1

end

/-! ## verbatim quotes and the stored text

`clean_text` is normalised once when it is stored and again by every check.  The second pass does
nothing to a text in NFKC; removing an invisible character between a letter and a combining mark
leaves a text that is not. -/

/-- what a stored text promises: each of its long enough substrings verifies, and the offsets of a
verified quote are offsets into it -/
structure Verbatim (U : Unicode) (clean : Text) : Prop where
  verifies : ∀ q, q <:+: clean → minQuoteChars ≤ (strip q).length →
    (verifyQuote U q (some clean)).verified = true
  located : ∀ q, (verifyQuote U q (some clean)).verified = true →
    ∃ i j, (verifyQuote U q (some clean)).charStart = some i ∧
      (verifyQuote U q (some clean)).charEnd = some j ∧
      slice clean i j = normaliseText U (strip q)

section
variable {U : Unicode} {clean : Text}

theorem verbatim_of_isNfkc (hc : Clean clean) (hn : U.IsNfkc clean) : Verbatim U clean := by
  have hself : normaliseText U clean = clean := normaliseText_eq_self U hc hn
  constructor
  · intro q hq hlen
    have hq' : strip q <:+: clean := (trim_isInfix isSpace q).trans hq
    have hnq : normaliseText U (strip q) = strip q :=
      normaliseText_eq_self U (hc.of_isInfix hq) (hn.of_isInfix hq')
    rw [verifyQuote_verified]
    refine ⟨clean, rfl, hlen, ?_⟩
    rw [hself, hnq]
    exact hq'
  · intro q hv
    obtain ⟨text, i, j, ht, hs, he, hslice⟩ := verifyQuote_offsets hv
    cases ht
    rw [hself] at hslice
    exact ⟨i, j, hs, he, hslice⟩

/-- `minQuoteChars` zero-width spaces: enough to make any quote long enough -/
def zeroWidthPad : Text := List.replicate minQuoteChars (Char.ofNat 0x200B)

theorem zeroWidthPad_invisible : ∀ c ∈ zeroWidthPad, isInvisible c = true := by
  intro c hc
  rw [List.eq_of_mem_replicate hc]
  decide

theorem strip_append_pad (h : strip clean = clean) :
    strip (clean ++ zeroWidthPad) = clean ++ zeroWidthPad := by
  apply trim_eq_self
  · intro c hc
    cases hcl : clean with
    | nil =>
      rw [hcl, List.nil_append] at hc
      exact not_space_of_invisible (zeroWidthPad_invisible c (List.mem_of_mem_head? hc))
    | cons d ds =>
      rw [hcl] at hc h
      cases hc
      have hhead : c ∈ (trim isSpace (c :: ds)).head? := by
        rw [show trim isSpace (c :: ds) = c :: ds from h]
        rfl
      exact trim_head isSpace hhead
  · intro c hc
    rw [List.getLast?_append_of_ne_nil _ (by decide)] at hc
    exact not_space_of_invisible (zeroWidthPad_invisible c (List.mem_of_mem_getLast? hc))

/-- the padded text is a verified quote whose match is the whole document -/
theorem isNfkc_of_located (hc : Clean clean) (hchar : ∀ c ∈ clean, U.IsNfkc [c])
    (h : Verbatim U clean) : U.IsNfkc clean := by
  have hstrip := strip_append_pad hc.trimmed
  have hnorm : normaliseText U (strip (clean ++ zeroWidthPad)) = normaliseText U clean := by
    rw [hstrip, normaliseText_append_invisible U clean zeroWidthPad_invisible]
  have hlen : minQuoteChars ≤ (strip (clean ++ zeroWidthPad)).length := by
    rw [hstrip, List.length_append, zeroWidthPad, List.length_replicate]
    omega
  have hf : findAt (normaliseText U (strip (clean ++ zeroWidthPad))) (normaliseText U clean) =
      some 0 := by rw [hnorm, findAt_self]
  have hq := verifyQuote_of_findAt hlen hf
  obtain ⟨i, j, hs, he, hslice⟩ := h.located (clean ++ zeroWidthPad) (by rw [hq])
  rw [hq] at hs he
  cases hs
  cases he
  rw [hnorm, slice_zero] at hslice
  exact isNfkc_of_prefix hc hchar (hslice ▸ List.take_prefix _ _)

/-- **A stored text is located verbatim exactly when it is in NFKC.** -/
theorem verbatim_iff (sha : Text → Text) (item : ParsedItem) (storeFullText : Bool)
    (h : (computeHashes U sha item storeFullText).cleanText = some clean) :
    Verbatim U clean ↔ U.IsNfkc clean := by
  obtain ⟨body, _, rfl⟩ := (computeHashes_cleanText U sha).mp h
  have hc := normaliseText_clean U body
  exact ⟨isNfkc_of_located hc fun _ => normaliseText_char U, verbatim_of_isNfkc hc⟩

end

/-- an item whose body has a zero-width space between a letter and its accent -/
def splitAccentItem : ParsedItem :=
  ⟨none, txt "https://example.org/n1", none,
    some (['e', Char.ofNat 0x200B, Latin.acute] ++ txt " port closed"), none, none, none⟩

/-- the accent stands next to its letter only after the zero-width space is gone -/
theorem splitAccent_not_verbatim :
    ¬ ∀ (U : Unicode) (sha : Text → Text) (item : ParsedItem) (storeFullText : Bool) (clean : Text),
      (computeHashes U sha item storeFullText).cleanText = some clean → Verbatim U clean := by
  intro h
  have hv := (h Unicode.latin id splitAccentItem true (['e', Latin.acute] ++ txt " port closed")
    (by decide +kernel)).verifies ([Latin.acute] ++ txt " port closed")
    ⟨['e'], [], by decide +kernel⟩ (by decide +kernel)
  exact absurd hv (by decide +kernel)

theorem verbatim_iff_plain :
    (computeHashes Unicode.latin id ⟨none, [], none, some (txt "port closed"), none, none, none⟩
        true).cleanText = some (txt "port closed") ∧
      (Verbatim Unicode.latin (txt "port closed") ↔ Unicode.latin.IsNfkc (txt "port closed")) := by
  have h : (computeHashes Unicode.latin id
      ⟨none, [], none, some (txt "port closed"), none, none, none⟩ true).cleanText =
        some (txt "port closed") := by decide +kernel
  exact ⟨h, verbatim_iff id _ true h⟩

/-! ## word boundaries -/

/-- position `k` has a letter or digit on either side -/
def InsideRun (U : Unicode) (s : Text) (k : Nat) : Prop :=
  ∃ a b, (s.take k).getLast? = some a ∧ (s.drop k).head? = some b ∧
    U.isAlnum a = true ∧ U.isAlnum b = true

/-- a verified quote starts and ends at word boundaries of the document -/
def WholeWords (U : Unicode) (quote : Text) (documentText : Option Text) : Prop :=
  (verifyQuote U quote documentText).verified = true →
    ∀ text i j, documentText = some text →
      (verifyQuote U quote documentText).charStart = some i →
      (verifyQuote U quote documentText).charEnd = some j →
      ¬InsideRun U (normaliseText U text) i ∧ ¬InsideRun U (normaliseText U text) j

/-- `u` ends and `v` begins with a letter or digit -/
def Glued (U : Unicode) (u v : Text) : Prop :=
  ∃ a b, u.getLast? = some a ∧ v.head? = some b ∧ U.isAlnum a = true ∧ U.isAlnum b = true

/-- `u` and `v` enclose the leftmost occurrence of `needle` -/
def Leftmost (needle hay u v : Text) : Prop :=
  hay = u ++ needle ++ v ∧ ∀ u' v', hay = u' ++ needle ++ v' → u.length ≤ u'.length

section
variable {U : Unicode}

theorem leftmost_iff {needle hay u v : Text} :
    Leftmost needle hay u v ↔
      findAt needle hay = some u.length ∧ hay = u ++ needle ++ v := by
  constructor
  · rintro ⟨h, hmin⟩
    exact ⟨findAt_eq_some.mpr ⟨⟨u, v, h, rfl⟩, hmin⟩, h⟩
  · rintro ⟨hf, h⟩
    exact ⟨h, (findAt_eq_some.mp hf).2⟩

theorem insideRun_append {u v : Text} : InsideRun U (u ++ v) u.length ↔ Glued U u v := by
  unfold InsideRun Glued
  rw [List.take_left, List.drop_left]

/-- **A quote matches whole words exactly when its leftmost occurrence is not glued to a letter or
digit of the text around it.** -/
theorem wholeWords_iff (U : Unicode) (quote : Text) (documentText : Option Text) :
    WholeWords U quote documentText ↔
      ∀ text u v, documentText = some text → minQuoteChars ≤ (strip quote).length →
        Leftmost (normaliseText U (strip quote)) (normaliseText U text) u v →
        ¬Glued U u (normaliseText U (strip quote) ++ v) ∧
        ¬Glued U (u ++ normaliseText U (strip quote)) v := by
  constructor
  · rintro h text u v rfl hlen hl
    obtain ⟨hf, hhay⟩ := leftmost_iff.mp hl
    have hq := verifyQuote_of_findAt hlen hf
    have := h (by rw [hq]) text u.length _ rfl (by rw [hq]) (by rw [hq])
    rw [← insideRun_append, ← insideRun_append, List.length_append, ← List.append_assoc, ← hhay]
    exact this
  · rintro h hv text i j rfl hs he
    obtain ⟨_, k, ht, hlen, hf, hks, hke⟩ := verifyQuote_found hv
    cases ht
    rw [hks] at hs
    rw [hke] at he
    cases hs
    cases he
    obtain ⟨u, v, hhay, rfl⟩ := findAt_spec hf
    have := h text u v rfl hlen (leftmost_iff.mpr ⟨hf, hhay⟩)
    rw [← insideRun_append, ← insideRun_append, List.length_append, ← List.append_assoc,
      ← hhay] at this
    exact this

end

/-- `2 hours` is found inside `72 hours` -/
theorem twoHours_not_wholeWords :
    ¬ ∀ (U : Unicode) (quote : Text) (documentText : Option Text),
      WholeWords U quote documentText := by
  intro h
  have hq : verifyQuote Unicode.latin (txt "2 hours delay") (some (txt "72 hours delay")) =
      ⟨[], txt "2 hours delay", true, some 1, some 14, none, exactMethod⟩ := by decide +kernel
  have := (h Unicode.latin (txt "2 hours delay") (some (txt "72 hours delay")) (by rw [hq])
    (txt "72 hours delay") 1 14 rfl (by rw [hq]) (by rw [hq])).1
  exact this ⟨'7', '2', by decide +kernel, by decide +kernel, by decide, by decide⟩

end GeoRisk
