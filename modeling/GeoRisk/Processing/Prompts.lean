import Mathlib.Data.Char
import Mathlib.Data.List.Lex
import Mathlib.Data.List.Sort
import GeoRisk.Kit.Template
import GeoRisk.Processing.Consolidate
import GeoRisk.Processing.Extract

/-!
# The prompts

`prompts.py`: the extraction prompt in two versions, and the suffix of the second pass.  Version 2 is
version 1 cut in two: the instructions are the same for every document, so that the provider can
cache them, and what is about the document follows them.

* `extractEventLines`, `escalationLines`          the texts;
* `extractEventV1`, `extractEventV2`              the released prompts;
* `renderExtractionPrompt`, `renderExtractionV2`  what is sent for a request;
* `userPieces`                                    where the second half says what;
* `rendered`                                      both versions, whatever the request says: one text
                                                  for all documents, and behind it the document as
                                                  it is;
* `CachedPromptTemplate.hash_injective`           the hash tells any two cuts apart.
-/

namespace GeoRisk
open Kit

/-! ## the texts -/

/-- the lines of a text, each with its line feed -/
def textOf (lines : List String) : Text := lines.flatMap fun l => txt l ++ ['\n']

def extractEventLines : List String :=
  ["You extract structured records of **maritime, energy, and supply-chain disruption** from official and public notices.",
   "",
   "Your output is not a summary for a reader. It is a record that a human analyst will audit",
   "against the source text, quote by quote. Everything you assert must be supported by text",
   "you copy verbatim from the document.",
   "",
   "# Scope",
   "",
   "In scope: disruption to shipping, ports, canals and chokepoints; pipelines, refineries,",
   "LNG and other energy infrastructure; electricity supply where it affects energy delivery;",
   "subsea cables; freight, customs and border delays; and public regulatory or sanctions",
   "notices that bear directly on those.",
   "",
   "Out of scope: everything else. Political, military, financial and general news reporting",
   "is out of scope **unless** the document itself reports an operational effect on the above",
   "— and then you record the operational disruption, not the underlying political event.",
   "",
   "If the document is out of scope, set `in_niche` to false and stop. Do not stretch a",
   "document to fit.",
   "",
   "Event type must be one of: \x7btaxonomy\x7d",
   "Affected sectors must be drawn from: \x7bsectors\x7d",
   "",
   "# Evidence rules",
   "",
   "These are not style preferences. A record that breaks them is rejected by automated",
   "checks before a human ever sees it.",
   "",
   "1. **Quote verbatim.** Every quote you supply is searched for, character by character, in",
   "   the stored source text. Paraphrasing, tidying punctuation, correcting a typo, or",
   "   stitching together two separated passages will all fail. Copy exactly.",
   "2. **Quote what supports the field.** Attach each quote to the field it evidences.",
   "3. **Never assert what the document does not say.** No background knowledge, no inferred",
   "   cause, no projected consequence. If you know something about this port that the notice",
   "   does not state, it does not belong in the record.",
   "4. **Attribute.** The document *reports* something. Write the summary that way.",
   "5. **No individuals.** Record organisations, states, authorities, facilities and vessels.",
   "   If the document names a person, leave them out entirely — do not record them in any",
   "   field.",
   "",
   "# Severity",
   "",
   "Severity describes **reported operational disruption**, not geopolitical importance and",
   "not harm to people. Assign it only from what the document states.",
   "",
   "\x7bseverities\x7d",
   "",
   "- `informational` — an advisory or notice with no confirmed operational impact reported.",
   "- `low` — localised impact at one facility or route, reported as resolved or resolving",
   "  within about 24 hours, with no throughput reduction reported.",
   "- `moderate` — sustained disruption of roughly one to seven days at a single node, or a",
   "  measurable but contained reduction in throughput reported by the source.",
   "- `high` — corridor-level or multi-node disruption, more than seven days at a critical",
   "  node, or a source-reported material reduction in regional throughput or supply.",
   "- `severe` — chokepoint or corridor closure with source-reported cross-regional effects.",
   "",
   "**If the document reports no impact information, severity is `informational`.** Never",
   "infer severity from urgent tone, prominence, or the seriousness of the place involved.",
   "",
   "# Abstaining",
   "",
   "Abstaining is correct behaviour, not failure. Set `abstained` to true when the document",
   "is in scope but the evidence will not support a record — the account is too thin, the",
   "key facts are hedged or contradictory, or you cannot find text that supports the fields",
   "you would have to fill.",
   "",
   "Prefer abstaining over guessing. A record you had to reach for is worse than no record.",
   "",
   "# Confidence",
   "",
   "`confidence` measures **how well the text you cited supports the record you built** — not",
   "how likely the event is to be real, and not how important it is. Below 0.60 means weak,",
   "partial, or conflicting evidence. Be honest here; a well-calibrated low score is more",
   "useful than an optimistic high one.",
   "",
   "---",
   "",
   "Source: \x7bsource_name\x7d (\x7bpublisher\x7d)",
   "Published: \x7bpublished_at\x7d",
   "URL: \x7burl\x7d",
   "Title: \x7btitle\x7d",
   "",
   "Document text:",
   "\"\"\"",
   "\x7bdocument_text\x7d",
   "\"\"\""]

def escalationLines : List String :=
  ["",
   "",
   "---",
   "",
   "# Second pass",
   "",
   "A first extraction of this document was weak and is being redone. What went wrong:",
   "",
   "\x7bescalation_reason\x7d",
   "",
   "Do not assume the first attempt was wrong about everything, and do not manufacture a",
   "stronger record than the text supports. If the honest outcome is still a low confidence",
   "score or an abstention, give that — an accurate abstention here is a better result than a",
   "confident record that the evidence does not carry.",
   "",
   "Pay particular attention to copying quotes exactly as they appear in the text above."]

/-! ## the released prompts -/

structure PromptTemplate where
  name : Text
  version : Text
  purpose : Text
  template : Text
  deriving DecidableEq

/-- a prompt with a half that is the same for every document -/
structure CachedPromptTemplate where
  name : Text
  version : Text
  purpose : Text
  systemTemplate : Text
  userTemplate : Text
  deriving DecidableEq

/-- between the two halves of a hashed text -/
def splitSentinel : Char := Char.ofNat 0x1e

def PromptTemplate.hash (sha : Text → Text) (p : PromptTemplate) : Text := sha p.template

def CachedPromptTemplate.hash (sha : Text → Text) (p : CachedPromptTemplate) : Text :=
  sha (p.systemTemplate ++ [splitSentinel] ++ p.userTemplate)

/-- `", ".join(values)` -/
def joined (values : List Text) : Text := (txt ", ").intercalate values

/-- `sorted_values` -/
def sortedValues (values : List Text) : List Text :=
  values.insertionSort fun a b => a ≤ b

/-- `_TAXONOMY`, `_SECTORS`, `_SEVERITIES` -/
def taxonomyText : Text := joined (sortedValues (EventType.all.map EventType.value))
def sectorsText : Text := joined (sortedValues (Sector.all.map Sector.value))
def severitiesText : Text := joined (Severity.all.map Severity.value)

def extractEventV1 : PromptTemplate where
  name := txt "extract_event"
  version := txt "v1"
  purpose :=
    txt "Extract one disruption event from one source document, with verbatim citations."
  template := textOf extractEventLines

def escalationSuffixV1 : PromptTemplate where
  name := txt "extract_event_escalation_suffix"
  version := txt "v1"
  purpose := txt "Appended on the Opus pass when the first extraction was weak."
  template := textOf escalationLines

/-- `_V1_SPLIT_AT`; the text is there -/
def splitPosition : Nat := (findAt (txt "\n---\n\nSource: ") extractEventV1.template).getD 0

def extractEventV2 : CachedPromptTemplate where
  name := txt "extract_event"
  version := txt "v2"
  purpose :=
    txt "Extract one disruption event from one source document, with verbatim citations." ++
      txt " Identical wording to v1, split at a cache breakpoint."
  systemTemplate := extractEventV1.template.take splitPosition
  userTemplate := extractEventV1.template.drop splitPosition

def escalationSuffixV2 : PromptTemplate where
  name := txt "extract_event_escalation_suffix"
  version := txt "v2"
  purpose := txt "Appended to the user message on the Opus pass when the first extraction was weak."
  template := escalationSuffixV1.template

/-! ## rendering -/

section
variable (r : ExtractionRequest)

/-- the arguments that are the same for every document -/
def stableArguments : Arguments :=
  [(txt "taxonomy", taxonomyText), (txt "sectors", sectorsText),
    (txt "severities", severitiesText)]

def documentArguments : Arguments :=
  [(txt "source_name", r.sourceName), (txt "publisher", r.publisher),
    (txt "published_at", r.publishedAt), (txt "url", r.url), (txt "title", r.title),
    (txt "document_text", r.documentText)]

/-- the text with the suffix of the second pass, if there is a reason for one -/
def withSuffix (suffix : PromptTemplate) (rendered : Text) : Except FormatError Text :=
  if truthy r.escalationReason then do
    let text ← format [(txt "escalation_reason", r.escalationReason.getD [])] suffix.template
    return rendered ++ text
  else .ok rendered

/-- `render_extraction_prompt` -/
def renderExtractionPrompt : Except FormatError Text := do
  let rendered ← format (stableArguments ++ documentArguments r) extractEventV1.template
  withSuffix r escalationSuffixV1 rendered

/-- `render_extraction_v2`: the system half and the user half -/
def renderExtractionV2 : Except FormatError (Text × Text) := do
  let system ← format stableArguments extractEventV2.systemTemplate
  let user ← format (documentArguments r) extractEventV2.userTemplate
  let user ← withSuffix r escalationSuffixV2 user
  return (system, user)

/-! ## reading the texts -/

/-- the characters of the lines -/
inductive Spelled : List String → List Text → Prop
  | nil : Spelled [] []
  | cons {lines : List String} {spelling : List Text} (l : List Char) (h : Spelled lines spelling) :
      Spelled (String.ofList l :: lines) (l :: spelling)

/-- the text of spelled lines -/
def spelledText (spelling : List Text) : Text := spelling.flatMap fun l => l ++ ['\n']

theorem Spelled.textOf_eq {lines : List String} {spelling : List Text}
    (h : Spelled lines spelling) : textOf lines = spelledText spelling := by
  unfold textOf spelledText
  induction h with
  | nil => rfl
  | cons l _ ih =>
    rw [List.flatMap_cons, List.flatMap_cons, ih]
    show (String.ofList l).toList ++ _ ++ _ = _
    rw [String.toList_ofList]

def chars (s : String) : List Piece := (txt s).map .char

/-- the half about the document: each line says one thing about it, and its text comes last -/
def userPieces : List Piece :=
  chars "\n---\n\nSource: " ++ ([.field (txt "source_name")] ++ (chars " (" ++
    ([.field (txt "publisher")] ++ (chars ")\nPublished: " ++ ([.field (txt "published_at")] ++
      (chars "\nURL: " ++ ([.field (txt "url")] ++ (chars "\nTitle: " ++ ([.field (txt "title")] ++
        (chars "\n\nDocument text:\n\"\"\"\n" ++ ([.field (txt "document_text")] ++
          chars "\n\"\"\"\n")))))))))))

/-- the fields of a template that can be read, if they are among the names -/
def fieldsAmong (names : List Text) (template : Text) : Bool :=
  (compile template).toOption.any fun pieces => pieces.all fun
    | .char _ => true
    | .field name => decide (name ∈ names)

theorem fieldsAmong_ok {args : Arguments} {template : Text}
    (h : fieldsAmong (args.map (·.1)) template = true) :
    ∃ pieces x, compile template = .ok pieces ∧ fill args pieces = .ok x := by
  obtain ⟨pieces, hp, hall⟩ := Option.any_eq_true _ _ |>.mp h
  have hfill : ∃ x, fill args pieces = .ok x := by
    refine fill_ok fun name hn => ?_
    have hin := List.all_eq_true.mp hall _ hn
    obtain ⟨a, ha, hname⟩ := List.mem_map.mp (of_decide_eq_true hin)
    unfold Arguments.value?
    rw [Option.isSome_map, List.find?_isSome]
    exact ⟨a, ha, decide_eq_true hname⟩
  obtain ⟨x, hx⟩ := hfill
  exact ⟨pieces, x, eq_ok_of_toOption hp, hx⟩

/-- the instructions name no document, and the other half is read as `userPieces` -/
theorem extractEvent_read :
    fieldsAmong [txt "taxonomy", txt "sectors", txt "severities"]
        extractEventV2.systemTemplate = true ∧
      compile extractEventV2.userTemplate = .ok userPieces := by
  have hspelled : ∃ spelling, Spelled extractEventLines spelling ∧
      (fieldsAmong [txt "taxonomy", txt "sectors", txt "severities"] ((spelledText spelling).take
        ((findAt (txt "\n---\n\nSource: ") (spelledText spelling)).getD 0)) = true ∧
      (compile ((spelledText spelling).drop
        ((findAt (txt "\n---\n\nSource: ") (spelledText spelling)).getD 0))).toOption =
          some userPieces) := by
    apply Exists.intro
    apply And.intro
    · dsimp only [extractEventLines]
      repeat apply Spelled.cons
      exact .nil
    · decide +kernel
  obtain ⟨spelling, hs, hsystem, huser⟩ := hspelled
  rw [← hs.textOf_eq] at hsystem huser
  simp only [extractEventV2, splitPosition, extractEventV1]
  exact ⟨hsystem, eq_ok_of_toOption huser⟩

/-- the suffix names the reason, and nothing else -/
theorem escalation_read :
    fieldsAmong [txt "escalation_reason"] escalationSuffixV1.template = true := by
  have hspelled : ∃ spelling, Spelled escalationLines spelling ∧
      fieldsAmong [txt "escalation_reason"] (spelledText spelling) = true := by
    apply Exists.intro
    apply And.intro
    · dsimp only [escalationLines]
      repeat apply Spelled.cons
      exact .nil
    · decide +kernel
  obtain ⟨spelling, hs, hread⟩ := hspelled
  rw [← hs.textOf_eq] at hread
  simp only [escalationSuffixV1]
  exact hread

/-! ## what is sent -/

/-- the half about the document -/
def userText : Text :=
  txt "\n---\n\nSource: " ++ (r.sourceName ++ (txt " (" ++ (r.publisher ++
    (txt ")\nPublished: " ++ (r.publishedAt ++ (txt "\nURL: " ++ (r.url ++ (txt "\nTitle: " ++
      (r.title ++ (txt "\n\nDocument text:\n\"\"\"\n" ++ (r.documentText ++
        txt "\n\"\"\"\n")))))))))))

theorem fill_userPieces : fill (documentArguments r) userPieces = .ok (userText r) := by
  have hfield : ∀ name value, (documentArguments r).value? name = some value →
      fill (documentArguments r) [.field name] = .ok value := fun _ _ h => fill_field h
  unfold userPieces userText
  refine fill_append (fill_chars _) (fill_append (hfield _ _ rfl) ?_)
  refine fill_append (fill_chars _) (fill_append (hfield _ _ rfl) ?_)
  refine fill_append (fill_chars _) (fill_append (hfield _ _ rfl) ?_)
  refine fill_append (fill_chars _) (fill_append (hfield _ _ rfl) ?_)
  refine fill_append (fill_chars _) (fill_append (hfield _ _ rfl) ?_)
  exact fill_append (fill_chars _) (fill_append (hfield _ _ rfl) (fill_chars _))

/-- what the second pass adds -/
def suffixText (reason : Option Text) : Text :=
  if truthy reason then
    (format [(txt "escalation_reason", reason.getD [])]
      escalationSuffixV1.template).toOption.getD []
  else []

/-- both versions have the same suffix -/
theorem withSuffix_eq {suffix : PromptTemplate} (hs : suffix.template = escalationSuffixV1.template)
    (rendered : Text) :
    withSuffix r suffix rendered = .ok (rendered ++ suffixText r.escalationReason) := by
  unfold withSuffix suffixText
  cases truthy r.escalationReason with
  | false =>
    rw [if_neg Bool.false_ne_true, if_neg Bool.false_ne_true, List.append_nil]
  | true =>
    rw [if_pos rfl, if_pos rfl, hs]
    have hargs : ([(txt "escalation_reason", r.escalationReason.getD [])] : Arguments).map (·.1) =
        [txt "escalation_reason"] := rfl
    obtain ⟨pieces, x, hread, hfill⟩ := fieldsAmong_ok (hargs ▸ escalation_read)
    rw [format_of_compile hread, hfill]
    rfl

/-- an argument of the document has a name of its own -/
theorem documentArguments_value {name value : Text}
    (h : (documentArguments r).value? name = some value) :
    (stableArguments ++ documentArguments r).value? name = some value := by
  obtain ⟨a, ha, rfl⟩ := Option.map_eq_some_iff.mp h
  have hfound := List.find?_some ha
  have hname : a.1 = name := of_decide_eq_true hfound
  have hnone : stableArguments.find? (fun b => decide (b.1 = name)) = none := by
    have hmem := List.mem_of_find?_eq_some ha
    rw [← hname]
    have hall : ∀ b ∈ (documentArguments r).map (·.1),
        stableArguments.find? (fun c => decide (c.1 = b)) = none := by
      show ∀ b ∈ [txt "source_name", txt "publisher", txt "published_at", txt "url", txt "title",
        txt "document_text"], _
      decide
    exact hall a.1 (List.mem_map_of_mem hmem)
  unfold Arguments.value?
  rw [List.find?_append, hnone, Option.none_or, ha]
  rfl

theorem stableArguments_value {name value : Text} (h : stableArguments.value? name = some value) :
    (stableArguments ++ documentArguments r).value? name = some value := by
  obtain ⟨a, ha, rfl⟩ := Option.map_eq_some_iff.mp h
  unfold Arguments.value?
  rw [List.find?_append, ha]
  rfl

theorem instructions_read : ∃ pieces system,
    compile extractEventV2.systemTemplate = .ok pieces ∧ fill stableArguments pieces = .ok system := by
  have hargs : stableArguments.map (·.1) =
      [txt "taxonomy", txt "sectors", txt "severities"] := rfl
  obtain ⟨pieces, system, hread, hfill⟩ := fieldsAmong_ok (hargs ▸ extractEvent_read.1)
  exact ⟨pieces, system, hread, hfill⟩

/-- the halves of a rendered request, once the instructions are read -/
theorem renderExtractionV2_eq {pieces : List Piece} {system : Text}
    (hread : compile extractEventV2.systemTemplate = .ok pieces)
    (hfill : fill stableArguments pieces = .ok system) :
    renderExtractionV2 r = .ok (system, userText r ++ suffixText r.escalationReason) := by
  refine bind_eq_ok.mpr ⟨system, (format_of_compile hread).trans hfill, ?_⟩
  refine bind_eq_ok.mpr ⟨userText r, ?_, ?_⟩
  · exact (format_of_compile extractEvent_read.2).trans (fill_userPieces r)
  · exact bind_eq_ok.mpr ⟨_, withSuffix_eq r rfl (userText r), rfl⟩

end

/-- **Every request is rendered.**  The system half is one text for all requests; the user half says
what the document is, then gives its text as it is, and ends with the suffix of the second pass; and
the two halves together are what version 1 sends. -/
theorem rendered : ∃ system : Text, (∀ reason, truthy reason = false → suffixText reason = []) ∧
    ∀ r : ExtractionRequest,
      renderExtractionV2 r = .ok (system, userText r ++ suffixText r.escalationReason) ∧
      renderExtractionPrompt r = .ok (system ++ userText r ++ suffixText r.escalationReason) := by
  obtain ⟨pieces, system, hread, hfill⟩ := instructions_read
  refine ⟨system, fun reason hr => if_neg (by rw [hr]; exact Bool.false_ne_true), fun r =>
    ⟨renderExtractionV2_eq r hread hfill, ?_⟩⟩
  have hwhole : extractEventV1.template =
      extractEventV2.systemTemplate ++ extractEventV2.userTemplate := by
    simp only [extractEventV2]
    rw [List.take_append_drop]
  have hformat : format (stableArguments ++ documentArguments r) extractEventV1.template =
      .ok (system ++ userText r) := by
    rw [hwhole, format_of_compile (compile_append hread extractEvent_read.2)]
    exact fill_append (fill_mono (fun _ _ => stableArguments_value r) hfill)
      (fill_mono (fun _ _ => documentArguments_value r) (fill_userPieces r))
  exact bind_eq_ok.mpr ⟨_, hformat, withSuffix_eq r rfl _⟩

/-! ## hashes -/

/-- **Two prompts without the separator in their instructions have the same hash only if both halves
are the same.** -/
theorem CachedPromptTemplate.hash_injective {sha : Text → Text} (hsha : Function.Injective sha)
    {p q : CachedPromptTemplate} (hp : splitSentinel ∉ p.systemTemplate)
    (hq : splitSentinel ∉ q.systemTemplate) (h : p.hash sha = q.hash sha) :
    p.systemTemplate = q.systemTemplate ∧ p.userTemplate = q.userTemplate := by
  have htext := hsha h
  rw [List.append_assoc, List.append_assoc] at htext
  -- the first separator ends the instructions
  have hcut : ∀ (a b : Text) (u v : Text), splitSentinel ∉ a → splitSentinel ∉ b →
      a ++ ([splitSentinel] ++ u) = b ++ ([splitSentinel] ++ v) → a = b ∧ u = v := by
    intro a
    induction a with
    | nil =>
      intro b u v _ hb hab
      cases b with
      | nil => exact ⟨rfl, (List.cons.inj hab).2⟩
      | cons c b => exact absurd ((List.cons.inj hab).1 ▸ List.mem_cons_self ..) hb
    | cons c a ih =>
      intro b u v ha hb hab
      cases b with
      | nil => exact absurd ((List.cons.inj hab).1 ▸ List.mem_cons_self ..) ha
      | cons d b =>
        obtain ⟨rfl, hrest⟩ := List.cons.inj hab
        obtain ⟨rfl, rfl⟩ := ih b u v (fun hin => ha (List.mem_cons_of_mem _ hin))
          (fun hin => hb (List.mem_cons_of_mem _ hin)) hrest
        exact ⟨rfl, rfl⟩
  exact hcut _ _ _ _ hp hq htext

end GeoRisk
