import GeoRisk.Text.Calendar

/-!
# Parsed items and their hashes

What an adapter returns for one item, and what the store derives from it before writing:
`compute_hashes` with the two deduplication keys.  SHA-256 is the parameter `sha`.

* `contentHash`, `metadataHash`    the keys with and without a stored body;
* `computeHashes`                  `(raw_hash, content_hash, clean_text)`;
* `computeHashes_cleanText`        a stored text is the normal form of a body that may be kept.
-/

namespace GeoRisk

structure ParsedItem where
  sourceUid : Option Text
  url : Text
  title : Option Text
  bodyText : Option Text
  publishedAt : Option Timestamp
  canonicalUrl : Option Text
  language : Option Text
  deriving DecidableEq, Repr

structure Hashes where
  rawHash : Text
  contentHash : Text
  cleanText : Option Text
  deriving DecidableEq, Repr

/-- the separator of `metadata_hash` -/
def unitSeparator : Char := Char.ofNat 0x1F

section
variable (U : Unicode) (sha : Text → Text)

def contentHash (text : Text) : Text := sha (normaliseText U text)

def metadataHash (title : Option Text) (url : Text) (publishedAt : Option Text) : Text :=
  sha (List.intercalate [unitSeparator]
    [normaliseText U (title.getD []), normaliseText U url, normaliseText U (publishedAt.getD [])])

/-- the body that the source's terms let us keep, if the item has one -/
def ParsedItem.keptBody (item : ParsedItem) (storeFullText : Bool) : Option Text :=
  if storeFullText then item.bodyText.filter (· ≠ []) else none

def computeHashes (item : ParsedItem) (storeFullText : Bool) : Hashes :=
  match item.keptBody storeFullText with
  | some body => ⟨sha body, contentHash U sha body, some (normaliseText U body)⟩
  | none =>
    let digest := metadataHash U sha item.title item.url (item.publishedAt.map Timestamp.isoformat)
    ⟨digest, digest, none⟩

theorem computeHashes_cleanText {item : ParsedItem} {storeFullText : Bool} {clean : Text} :
    (computeHashes U sha item storeFullText).cleanText = some clean ↔
      ∃ body, item.keptBody storeFullText = some body ∧ clean = normaliseText U body := by
  unfold computeHashes
  cases item.keptBody storeFullText with
  | none => simp
  | some body => simp [eq_comm]

end

end GeoRisk
