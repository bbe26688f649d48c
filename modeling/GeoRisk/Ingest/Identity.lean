import GeoRisk.Ingest.Item

/-!
# What identifies an item without text

`compute_hashes` asks for a body before it normalises it, so a body of white space is kept as an
empty text, and all such items have one hash.

* `metadataHash_injective`    the metadata hash tells titles, URLs and publication times apart;
* `KeysApart U sha`           no two keys collide: the separator is in no normalised text, the
                              metadata hash determines its fields, and is the hash of no text;
* `Textless item`             no body, or one that normalises to nothing;
* `KeptBlank item keep`       a body that is not empty, may be kept, and normalises to nothing;
* `Identified U sha x y`      a stored text is not empty, and two textless items with one hash have
                              the same metadata;
* `identified_iff`            exactly where neither item is a kept blank.
-/

namespace GeoRisk
open Kit

section
variable {U : Unicode} {sha : Text → Text}

/-- normalising leaves no white space but spaces -/
theorem unitSeparator_not_mem (U : Unicode) (s : Text) : unitSeparator ∉ normaliseText U s := by
  intro h
  exact absurd ((normaliseText_clean U s).single.1 _ h (by decide)) (by decide)

theorem splitOn_metadata (title url published : Text) :
    (List.intercalate [unitSeparator]
        [normaliseText U title, normaliseText U url, normaliseText U published]).splitOn
      unitSeparator = [normaliseText U title, normaliseText U url, normaliseText U published] := by
  refine List.splitOn_intercalate unitSeparator (fun s hs => ?_) (List.cons_ne_nil _ _)
  simp only [List.mem_cons, List.not_mem_nil, or_false] at hs
  rcases hs with rfl | rfl | rfl
  · exact unitSeparator_not_mem U title
  · exact unitSeparator_not_mem U url
  · exact unitSeparator_not_mem U published

/-- **The separator cannot occur in a field, so the hash determines all three.** -/
theorem metadataHash_injective (hsha : Function.Injective sha) {title title' : Option Text}
    {url url' : Text} {published published' : Option Text}
    (h : metadataHash U sha title url published = metadataHash U sha title' url' published') :
    normaliseText U (title.getD []) = normaliseText U (title'.getD []) ∧
      normaliseText U url = normaliseText U url' ∧
      normaliseText U (published.getD []) = normaliseText U (published'.getD []) := by
  have hjoin := congrArg (List.splitOn unitSeparator) (hsha h)
  rw [splitOn_metadata, splitOn_metadata] at hjoin
  simpa only [List.cons.injEq, and_true] using hjoin

/-- the joined metadata hold the separator, which no normalised text does -/
theorem metadataHash_ne_contentHash (hsha : Function.Injective sha) (title : Option Text)
    (url : Text) (published : Option Text) (text : Text) :
    metadataHash U sha title url published ≠ contentHash U sha text := by
  intro h
  have hjoin : normaliseText U (title.getD []) ++ [unitSeparator] ++
      (normaliseText U url ++ [unitSeparator] ++ normaliseText U (published.getD [])) =
        normaliseText U text := by
    have he := hsha h
    simpa only [List.intercalate, List.intersperse, List.flatten_cons, List.flatten_nil,
      List.append_nil, List.append_assoc] using he
  refine unitSeparator_not_mem U text ?_
  rw [← hjoin]
  exact List.mem_append_left _ (List.mem_append_right _ (List.mem_singleton_self _))

end

structure KeysApart (U : Unicode) (sha : Text → Text) : Prop where
  separator : ∀ s, unitSeparator ∉ normaliseText U s
  fields : ∀ (title title' : Option Text) (url url' : Text) (published published' : Option Text),
    metadataHash U sha title url published = metadataHash U sha title' url' published' →
      normaliseText U (title.getD []) = normaliseText U (title'.getD []) ∧
        normaliseText U url = normaliseText U url' ∧
        normaliseText U (published.getD []) = normaliseText U (published'.getD [])
  kinds : ∀ (title : Option Text) (url : Text) (published : Option Text) (text : Text),
    metadataHash U sha title url published ≠ contentHash U sha text

/-- **The deduplication keys do not collide by construction.** -/
theorem keysApart {sha : Text → Text} (hsha : Function.Injective sha) (U : Unicode) :
    KeysApart U sha :=
  ⟨unitSeparator_not_mem U, fun _ _ _ _ _ _ => metadataHash_injective hsha,
    metadataHash_ne_contentHash hsha⟩

theorem keysApart_id : KeysApart Unicode.latin id := keysApart Function.injective_id Unicode.latin

/-- an item with the `store_full_text` of its source -/
structure Offered where
  item : ParsedItem
  storeFullText : Bool

section
variable (U : Unicode) (sha : Text → Text)

def Offered.hashes (x : Offered) : Hashes := computeHashes U sha x.item x.storeFullText

def Textless (x : Offered) : Prop := ∀ body ∈ x.item.bodyText, normaliseText U body = []

def KeptBlank (x : Offered) : Prop :=
  x.storeFullText = true ∧ ∃ body ∈ x.item.bodyText, body ≠ [] ∧ normaliseText U body = []

/-- the normalised metadata of two items are the same -/
def SameMetadata (x y : ParsedItem) : Prop :=
  normaliseText U (x.title.getD []) = normaliseText U (y.title.getD []) ∧
    normaliseText U x.url = normaliseText U y.url ∧
    normaliseText U ((x.publishedAt.map Timestamp.isoformat).getD []) =
      normaliseText U ((y.publishedAt.map Timestamp.isoformat).getD [])

structure Identified (x y : Offered) : Prop where
  text : ∀ clean ∈ (x.hashes U sha).cleanText, clean ≠ []
  text_other : ∀ clean ∈ (y.hashes U sha).cleanText, clean ≠ []
  metadata : Textless U x → Textless U y →
    (x.hashes U sha).contentHash = (y.hashes U sha).contentHash → SameMetadata U x.item y.item

end

section
variable {U : Unicode} {sha : Text → Text} {x y : Offered}

theorem keptBody_eq_some {body : Text} :
    x.item.keptBody x.storeFullText = some body ↔
      x.storeFullText = true ∧ x.item.bodyText = some body ∧ body ≠ [] := by
  unfold ParsedItem.keptBody
  cases x.storeFullText with
  | false => simp
  | true => simp [Option.filter_eq_some_iff]

/-- the stored texts are not empty exactly when no blank is kept -/
theorem text_ne_nil_iff : (∀ clean ∈ (x.hashes U sha).cleanText, clean ≠ []) ↔ ¬ KeptBlank U x := by
  constructor
  · rintro h ⟨hkeep, body, hbody, hne, hblank⟩
    refine h _ ((computeHashes_cleanText U sha).mpr ⟨body, ?_, rfl⟩) hblank
    exact keptBody_eq_some.mpr ⟨hkeep, hbody, hne⟩
  · rintro h clean hclean hnil
    obtain ⟨body, hkept, rfl⟩ := (computeHashes_cleanText U sha).mp hclean
    obtain ⟨hkeep, hbody, hne⟩ := keptBody_eq_some.mp hkept
    exact h ⟨hkeep, body, hbody, hne, hnil⟩

/-- a textless item that is no kept blank is identified by its metadata -/
theorem contentHash_textless (ht : Textless U x) (hb : ¬ KeptBlank U x) :
    (x.hashes U sha).contentHash =
      metadataHash U sha x.item.title x.item.url (x.item.publishedAt.map Timestamp.isoformat) := by
  have hnone : x.item.keptBody x.storeFullText = none := by
    rw [Option.eq_none_iff_forall_ne_some]
    intro body hkept
    obtain ⟨hkeep, hbody, hne⟩ := keptBody_eq_some.mp hkept
    exact hb ⟨hkeep, body, hbody, hne, ht body hbody⟩
  unfold Offered.hashes computeHashes
  rw [hnone]

/-- **Items without text are identified by their metadata, and no stored text is empty, exactly when
no body that normalises to nothing is kept.** -/
theorem identified_iff (hsha : Function.Injective sha) (U : Unicode) (x y : Offered) :
    Identified U sha x y ↔ ¬ KeptBlank U x ∧ ¬ KeptBlank U y := by
  constructor
  · intro h
    exact ⟨text_ne_nil_iff.mp h.text, text_ne_nil_iff.mp h.text_other⟩
  · rintro ⟨hx, hy⟩
    refine ⟨text_ne_nil_iff.mpr hx, text_ne_nil_iff.mpr hy, fun htx hty heq => ?_⟩
    rw [contentHash_textless htx hx, contentHash_textless hty hy] at heq
    exact metadataHash_injective hsha heq

end

namespace Sample

/-- a notice whose body is a line break -/
def blankNotice (title : Text) : Offered :=
  ⟨⟨none, txt "https://example.org/n1", some title, some (txt "\n"), none, none, none⟩, true⟩

/-- a notice of which only the metadata may be kept -/
def headline (title : Text) : Offered := { blankNotice title with storeFullText := false }

end Sample

/-- two notices with blank bodies are one document -/
theorem blankNotice_not_identified :
    ¬ ∀ (U : Unicode) (sha : Text → Text) (x y : Offered), Function.Injective sha →
      Identified U sha x y := by
  intro h
  have hid := h Unicode.latin id (Sample.blankNotice (txt "Port closed"))
    (Sample.blankNotice (txt "Port open")) Function.injective_id
  have hblank : ∀ title, Textless Unicode.latin (Sample.blankNotice title) := by
    intro title body hbody
    cases hbody
    decide
  exact absurd (hid.metadata (hblank _) (hblank _) rfl).1 (by decide)

theorem identified_iff_headline :
    Identified Unicode.latin id (Sample.headline (txt "Port closed"))
      (Sample.headline (txt "Port open")) := by
  refine (identified_iff Function.injective_id Unicode.latin _ _).mpr ⟨?_, ?_⟩
  · rintro ⟨hkeep, _⟩
    cases hkeep
  · rintro ⟨hkeep, _⟩
    cases hkeep

end GeoRisk
