import GeoRisk.Processing.Confidence

/-!
# The extraction cascade

`extract_document` asks the provider once and, where the first pass was weak, a second time with
the stronger model.  The provider is any function from a request to a call or an exception; what it
was asked is the list of requests, and what it was paid for is the list of calls that returned, also
when the cascade ends in an exception.

* `ExtractionOutcome.final`    the call whose result is kept: the last successful one, else the
                               last;
* `ExtractionOutcome.Kept`     what its position says of the calls (`finalIndex_kept`);
* `shouldEscalate`             why the first pass is repeated;
* `extractDocument_ok`         a cascade that returns has made one call that needs no second, or
                               two;
* `extractDocument_asked`      the provider is asked twice at most.
-/

namespace GeoRisk

def defaultModel : Text := txt "claude-sonnet-5"

def escalationModel : Text := txt "claude-opus-5"

def maxDocumentChars : Nat := 400000

/-- telemetry for one model call -/
structure ExtractionCall where
  model : Text
  promptName : Text
  promptVersion : Text
  result : Option ExtractionResult
  inputTokens : Nat := 0
  outputTokens : Nat := 0
  cacheWriteTokens : Nat := 0
  cacheReadTokens : Nat := 0
  latencyMs : Nat := 0
  costUsd : ℚ := 0
  escalated : Bool := false
  error : Option Text := none
  requestId : Option Text := none

def ExtractionCall.succeeded (c : ExtractionCall) : Bool := c.result.isSome && c.error.isNone

/-- position of the last successful call -/
def lastSucceeded : List ExtractionCall → Option Nat
  | [] => none
  | c :: cs =>
    match lastSucceeded cs with
    | some i => some (i + 1)
    | none => if c.succeeded then some 0 else none

structure ExtractionOutcome where
  calls : List ExtractionCall

namespace ExtractionOutcome

/-- position of the call whose result is kept -/
def finalIndex (o : ExtractionOutcome) : Option Nat :=
  match lastSucceeded o.calls with
  | some i => some i
  | none => if o.calls.isEmpty then none else some (o.calls.length - 1)

def final (o : ExtractionOutcome) : Option ExtractionCall := o.finalIndex.bind fun i => o.calls[i]?

def totalCostUsd (o : ExtractionOutcome) : ℚ := (o.calls.map (·.costUsd)).sum

end ExtractionOutcome

/-- what the two halves of the prompt are rendered from, and the model they are sent to -/
structure ExtractionRequest where
  sourceName : Text
  publisher : Text
  publishedAt : Text
  url : Text
  title : Text
  documentText : Text
  model : Text
  escalationReason : Option Text
  deriving DecidableEq, Repr

/-- `ExtractionProvider.extract`, which may raise -/
abbrev ExtractionProvider := ExtractionRequest → Except Text ExtractionCall

/-- the requests that were sent, the calls that returned, and how the cascade ended -/
structure Attempt where
  asked : List ExtractionRequest
  calls : List ExtractionCall
  outcome : Except Text ExtractionOutcome

def shouldEscalate (call : ExtractionCall) (citationFailures : Nat) : Option Text :=
  match call.error with
  | some e => some (txt "the first pass failed: " ++ e)
  | none =>
    match call.result with
    | none => some (txt "the first pass returned no result")
    | some result =>
      if 0 < citationFailures then
        some (natText citationFailures ++
          txt (" quote(s) from the first pass could not be found in the source text, which means" ++
            " they were not copied verbatim"))
      else
        match result.event.filter fun e => decide (e.confidence < reviewThreshold) with
        | some e =>
          some (txt "the first pass reported confidence " ++ fixed2 e.confidence ++
            txt ", below the " ++ thresholdText ++ txt " review threshold")
        | none =>
          if result.inNiche && result.abstained then
            some (txt ("the first pass judged the document in scope but abstained; a second look" ++
              " may find evidence it missed"))
          else none

def countFailures (call : ExtractionCall) (verifyCitations : ExtractionResult → Nat) : Nat :=
  match call.result with
  | none => 0
  | some result => if result.producedEvent then verifyCitations result else 0

def documentTooLong (length : Nat) : Text :=
  txt "document is " ++ natText length ++ txt " characters, over the " ++
    natText maxDocumentChars ++ txt " limit; truncating could drop a cited passage"

section
variable (provider : ExtractionProvider) (request : ExtractionRequest)
  (verifyCitations : ExtractionResult → Nat) (allowEscalation : Bool)

/-- `extract_document`; the request comes without a model -/
def extractDocument : Attempt :=
  let asking := { request with model := defaultModel, escalationReason := none }
  if maxDocumentChars < request.documentText.length then
    ⟨[], [], .error (documentTooLong request.documentText.length)⟩
  else
    match provider asking with
    | .error e => ⟨[asking], [], .error e⟩
    | .ok first =>
      let reason :=
        if allowEscalation then shouldEscalate first (countFailures first verifyCitations) else none
      match reason with
      | none => ⟨[asking], [first], .ok ⟨[first]⟩⟩
      | some reason =>
        let again := { request with model := escalationModel, escalationReason := some reason }
        match provider again with
        | .error e => ⟨[asking, again], [first], .error e⟩
        | .ok second =>
          ⟨[asking, again], [first, { second with escalated := true }],
            .ok ⟨[first, { second with escalated := true }]⟩⟩

variable {provider request verifyCitations allowEscalation}

/-- **A cascade that returns has made one call that needs no second one, or two.** -/
theorem extractDocument_ok {o : ExtractionOutcome}
    (h : (extractDocument provider request verifyCitations allowEscalation).outcome = .ok o) :
    (extractDocument provider request verifyCitations allowEscalation).calls = o.calls ∧
      ((∃ first, o.calls = [first] ∧ (allowEscalation = true →
          shouldEscalate first (countFailures first verifyCitations) = none)) ∨
        ∃ first second, o.calls = [first, second]) := by
  unfold extractDocument at h ⊢
  by_cases hlen : maxDocumentChars < request.documentText.length
  · rw [if_pos hlen] at h
    cases h
  · rw [if_neg hlen] at h ⊢
    cases hp : provider { request with model := defaultModel, escalationReason := none } with
    | error e => rw [hp] at h; cases h
    | ok first =>
      rw [hp] at h
      simp only at h ⊢
      cases hr : (if allowEscalation then
          shouldEscalate first (countFailures first verifyCitations) else none) with
      | none =>
        rw [hr] at h
        cases h
        refine ⟨rfl, Or.inl ⟨first, rfl, fun ha => ?_⟩⟩
        rw [ha, if_pos rfl] at hr
        exact hr
      | some reason =>
        rw [hr] at h
        simp only at h ⊢
        cases hp2 : provider
            { request with model := escalationModel, escalationReason := some reason } with
        | error e => rw [hp2] at h; cases h
        | ok second =>
          rw [hp2] at h
          cases h
          exact ⟨rfl, Or.inr ⟨first, { second with escalated := true }, rfl⟩⟩

/-- **The provider is asked twice at most.** -/
theorem extractDocument_asked :
    (extractDocument provider request verifyCitations allowEscalation).asked.length ≤ 2 := by
  unfold extractDocument
  by_cases hlen : maxDocumentChars < request.documentText.length
  · rw [if_pos hlen]
    exact Nat.zero_le _
  · rw [if_neg hlen]
    cases provider { request with model := defaultModel, escalationReason := none } with
    | error e => exact Nat.le_succ 1
    | ok first =>
      simp only
      split
      · exact Nat.le_succ 1
      · split
        · exact le_refl _
        · exact le_refl _

theorem shouldEscalate_of_error {call : ExtractionCall} {n : Nat} (h : call.error.isSome = true) :
    shouldEscalate call n ≠ none := by
  unfold shouldEscalate
  cases he : call.error with
  | none => rw [he] at h; cases h
  | some e => exact Option.some_ne_none _

/-- **Where every call of a cascade that returns has failed, there were two.** -/
theorem extractDocument_two_errors {o : ExtractionOutcome}
    (h : (extractDocument provider request verifyCitations true).outcome = .ok o)
    (herr : ∀ c ∈ o.calls, c.error.isSome = true) : o.calls.length = 2 := by
  obtain ⟨_, ⟨first, hc, hnone⟩ | ⟨first, second, hc⟩⟩ := extractDocument_ok h
  · rw [hc] at herr
    exact absurd (hnone rfl) (shouldEscalate_of_error (herr first (List.mem_cons_self ..)))
  · rw [hc]
    rfl

end

/-! ## the kept call -/

theorem lastSucceeded_spec {calls : List ExtractionCall} {i : Nat}
    (h : lastSucceeded calls = some i) : ∃ c, calls[i]? = some c ∧ c.succeeded = true := by
  induction calls generalizing i with
  | nil => cases h
  | cons c cs ih =>
    rw [lastSucceeded] at h
    cases hl : lastSucceeded cs with
    | some j =>
      rw [hl] at h
      cases h
      exact ih hl
    | none =>
      rw [hl] at h
      simp only at h
      split at h
      · next hc => cases h; exact ⟨c, rfl, hc⟩
      · cases h

theorem lastSucceeded_eq_none {calls : List ExtractionCall} (h : lastSucceeded calls = none) :
    ∀ c ∈ calls, c.succeeded = false := by
  induction calls with
  | nil => exact fun _ hc => absurd hc List.not_mem_nil
  | cons x xs ih =>
    rw [lastSucceeded] at h
    cases hl : lastSucceeded xs with
    | some k => rw [hl] at h; cases h
    | none =>
      rw [hl] at h
      intro c hc
      rcases List.mem_cons.mp hc with rfl | hc
      · rw [Bool.eq_false_iff]
        intro hs
        rw [hs] at h
        cases h
      · exact ih hl c hc

theorem lastSucceeded_last {calls : List ExtractionCall} {i j : Nat} {c : ExtractionCall}
    (h : lastSucceeded calls = some i) (hij : i < j) (hc : calls[j]? = some c) :
    c.succeeded = false := by
  induction calls generalizing i j with
  | nil => cases h
  | cons x xs ih =>
    obtain ⟨j, rfl⟩ := Nat.exists_eq_succ_of_ne_zero (Nat.ne_zero_of_lt hij)
    rw [List.getElem?_cons_succ] at hc
    rw [lastSucceeded] at h
    cases hl : lastSucceeded xs with
    | some k =>
      rw [hl] at h
      cases h
      exact ih hl (Nat.lt_of_succ_lt_succ hij) hc
    | none => exact lastSucceeded_eq_none hl c (List.mem_of_getElem? hc)

/-- the call at the position is the last that succeeded, or the last where none did -/
def ExtractionOutcome.Kept (o : ExtractionOutcome) (i : Nat) : Prop :=
  (∃ c, o.calls[i]? = some c ∧ c.succeeded = true ∧
    ∀ j d, i < j → o.calls[j]? = some d → d.succeeded = false) ∨
  ((∀ c ∈ o.calls, c.succeeded = false) ∧ i + 1 = o.calls.length)

/-- **The kept call is the last that succeeded, or the last where none did.** -/
theorem finalIndex_kept {o : ExtractionOutcome} {i : Nat} (h : o.finalIndex = some i) :
    o.Kept i := by
  unfold ExtractionOutcome.finalIndex at h
  cases hl : lastSucceeded o.calls with
  | some k =>
    rw [hl] at h
    cases h
    obtain ⟨c, hc, hs⟩ := lastSucceeded_spec hl
    exact Or.inl ⟨c, hc, hs, fun j d hij hd => lastSucceeded_last hl hij hd⟩
  | none =>
    rw [hl] at h
    simp only at h
    split at h
    · cases h
    · next hne =>
      cases h
      have hpos : o.calls.length ≠ 0 := by
        rw [Ne, List.length_eq_zero_iff, ← List.isEmpty_iff]
        exact hne
      exact Or.inr ⟨lastSucceeded_eq_none hl, by omega⟩

/-- a call that succeeded, with none behind it that did, is kept -/
theorem finalIndex_eq {o : ExtractionOutcome} {i : Nat} {c : ExtractionCall}
    (hc : o.calls[i]? = some c) (hs : c.succeeded = true)
    (hlast : ∀ j d, i < j → o.calls[j]? = some d → d.succeeded = false) :
    o.finalIndex = some i := by
  cases hl : lastSucceeded o.calls with
  | none =>
    have hfalse := lastSucceeded_eq_none hl c (List.mem_of_getElem? hc)
    rw [hs] at hfalse
    cases hfalse
  | some k =>
    have hk : o.finalIndex = some k := by rw [ExtractionOutcome.finalIndex, hl]
    obtain ⟨d, hd, hds⟩ := lastSucceeded_spec hl
    rw [hk]
    rcases Nat.lt_trichotomy i k with hlt | rfl | hlt
    · rw [hlast k d hlt hd] at hds
      cases hds
    · rfl
    · rw [lastSucceeded_last hl hlt hc] at hs
      cases hs

theorem final_mem {o : ExtractionOutcome} {call : ExtractionCall} (h : o.final = some call) :
    ∃ i, o.finalIndex = some i ∧ o.calls[i]? = some call := by
  obtain ⟨i, hi, hc⟩ := Option.bind_eq_some_iff.mp h
  exact ⟨i, hi, hc⟩

theorem final_of_index {o : ExtractionOutcome} {i : Nat} {call : ExtractionCall}
    (hi : o.finalIndex = some i) (hc : o.calls[i]? = some call) : o.final = some call := by
  rw [ExtractionOutcome.final, hi, Option.bind_some, hc]

end GeoRisk
