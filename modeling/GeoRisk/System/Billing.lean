import GeoRisk.Processing.Provider
import GeoRisk.System.History

/-!
# What is recorded of the calls that were paid for

With `AnthropicExtractionProvider`, whatever its clients answer, each row of telemetry names the
model that was asked and the prompt that was sent, has an answer or an error, and costs what its own
tokens cost at the published rates, up to half of the last decimal of the column.

* `AnthropicCall`         what is known of every call;
* `Billed`                the row of such a call;
* `Extraction.Tells`      the row tells the answer to a request, and the model that was asked;
* `Attempted`             the rows of one cascade of the run, in the order of its requests;
* `Evolved.billed`        every row is one;
* `Evolved.attempted`     the table is made of such attempts;
* `billed_of_run`         in every run, and the spending of every day adds up.
-/

namespace GeoRisk
open Kit

/-- the call asks some client -/
def AnthropicCall (env : CallEnv) : Prop := ∃ client, env.provider = anthropicProvider client

/-- the published price of the tokens of the row -/
def Extraction.price (x : Extraction) : ℚ :=
  GeoRisk.price x.modelName x.inputTokens x.outputTokens x.cacheWriteTokens x.cacheReadTokens

/-- the rows that the budget counts for the day -/
def countedToday (rows : List Extraction) (now : DateTime) : List Extraction :=
  rows.filter fun x => decide (now.startOfDay ≤ x.createdAt)

/-- half of the last decimal, and what double precision loses -/
def costError (price : ℚ) : ℚ := 1 / (2 * 10 ^ 6) + price / 10 ^ 14

/-- a row that tells what was asked, how it ended and what it cost -/
structure Billed (prompts : List Prompt) (x : Extraction) : Prop where
  model : x.modelName = defaultModel ∨ x.modelName = escalationModel
  prompt : ⟨x.promptId, extractEventV2.name, extractEventV2.version⟩ ∈ prompts ∧
    x.promptVersion = extractEventV2.version
  ended : x.outcome = .error → x.rawOutput = none ∧ x.eventId = none
  cost : |x.costUsd - x.price| ≤ costError x.price

/-- the row is about the document, and tells which model was asked and what was answered -/
structure Extraction.Tells (provider : ExtractionProvider) (documentId : Nat)
    (request : ExtractionRequest) (x : Extraction) : Prop where
  document : x.documentId = documentId
  model : x.modelName = request.model
  answer : ∃ call, provider request = .ok call ∧ x.rawOutput = call.result ∧
    x.inputTokens = call.inputTokens ∧ x.outputTokens = call.outputTokens ∧
    x.cacheWriteTokens = call.cacheWriteTokens ∧ x.cacheReadTokens = call.cacheReadTokens

/-- the calls of a round of the run ask the provider -/
def AskedIn (as : List SystemAct) (provider : ExtractionProvider) : Prop :=
  ∃ env, .queue (.round env) ∈ as ∧ env.call.provider = provider

/-- the rows of one attempt: a provider of the run was asked with the default model, and then perhaps
with the stronger one, and each row tells what it answered to the request of its turn -/
inductive Attempted (as : List SystemAct) : List Extraction → Prop
  | once {provider : ExtractionProvider} {documentId : Nat} {request : ExtractionRequest}
      {x : Extraction} (hasked : AskedIn as provider)
      (hx : x.Tells provider documentId
        { request with model := defaultModel, escalationReason := none }) : Attempted as [x]
  | twice {provider : ExtractionProvider} {documentId : Nat} {request : ExtractionRequest}
      {x y : Extraction} (reason : Text) (hasked : AskedIn as provider)
      (hx : x.Tells provider documentId
        { request with model := defaultModel, escalationReason := none })
      (hy : y.Tells provider documentId
        { request with model := escalationModel, escalationReason := some reason }) :
      Attempted as [x, y]

section
variable {U : Unicode} {sha : Text → Text} {s t : Sources}

theorem metered_cost {call : ExtractionCall} (h : MeteredCall call) :
    |numericTo 6 call.costUsd - price call.model call.inputTokens call.outputTokens
      call.cacheWriteTokens call.cacheReadTokens| ≤
        costError (price call.model call.inputTokens call.outputTokens call.cacheWriteTokens
          call.cacheReadTokens) := by
  have hcomputed := computeCostUsd_computed call.model call.inputTokens call.outputTokens
    call.cacheWriteTokens call.cacheReadTokens
  rw [← h.cost] at hcomputed
  have hcolumn := abs_numericTo_sub_le 6 call.costUsd
  have hsmall : (2 : ℚ) * (7 : ℕ) * unitRoundoff ≤ 1 / 10 ^ 14 := by
    unfold unitRoundoff
    norm_num
  have hrounded := (hcomputed.abs_sub_le (by norm_num)).trans
    (mul_le_mul_of_nonneg_left hsmall hcomputed.nonneg)
  have htriangle := abs_sub_le (numericTo 6 call.costUsd) call.costUsd
    (price call.model call.inputTokens call.outputTokens call.cacheWriteTokens call.cacheReadTokens)
  unfold costError
  linarith

/-- the rows of a cascade -/
theorem billed_rows {env : CallEnv} {request : ExtractionRequest} {o : ExtractionOutcome}
    {d p : Nat} {v : Option VerificationReport} {e : Option Nat} {prompts : List Prompt}
    (hP : AnthropicCall env) (hc : Cascade env.provider request o.calls)
    (hp : ⟨p, promptName, promptVersion⟩ ∈ prompts)
    (he : e.isSome = true → ∃ call, o.final = some call ∧ call.result.isSome = true) :
    ∀ x ∈ extractionRows env d p o v e, Billed prompts x := by
  obtain ⟨client, hclient⟩ := hP
  have hexclusive : Exclusive env.provider := hclient ▸ anthropic_exclusive client
  have hmetered : Metered env.provider := hclient ▸ anthropic_metered client
  intro x hx
  obtain ⟨call, i, hi, rfl⟩ := mem_extractionRows hx
  have hmem := List.mem_of_getElem? hi
  obtain ⟨hmodel, hcall⟩ := hc.metered hmetered call hmem
  refine ⟨hmodel, ⟨hp, hcall.prompt.2⟩, fun herror => ?_, metered_cost hcall⟩
  have hsome : call.error.isSome = true := outcomeLabel_error.mp herror
  have hnone := hc.exclusive hexclusive call hmem hsome
  refine ⟨hnone, ?_⟩
  rw [extractionRow_eventId]
  split
  · next hfinal =>
    -- the kept call has no result, so that there is no event
    cases e with
    | none => rfl
    | some e =>
      obtain ⟨kept, hkept, hres⟩ := he rfl
      obtain ⟨k, hk, hck⟩ := final_mem hkept
      rw [hfinal] at hk
      cases hk
      rw [hi] at hck
      cases hck
      rw [hnone] at hres
      cases hres
  · rfl

/-- the row of a call tells its answer -/
theorem tells_extractionRow {env : CallEnv} {provider : ExtractionProvider}
    {request : ExtractionRequest} {call : ExtractionCall} (hp : Metered provider)
    (hcall : provider request = .ok call) (d p : Nat) (v : Option VerificationReport)
    (e final : Option Nat) (escalated : Bool) (i : Nat) :
    (extractionRow env d p v e final ({ call with escalated := escalated }, i)).Tells provider d
      request :=
  ⟨rfl, (hp request call hcall).1, call, hcall, rfl, rfl, rfl, rfl, rfl⟩

/-- the rows of a cascade tell its answers, request by request -/
theorem attempted_rows {as : List SystemAct} {env : CallEnv} {request : ExtractionRequest}
    {o : ExtractionOutcome} {d p : Nat} {v : Option VerificationReport} {e : Option Nat}
    (hP : AnthropicCall env) (hasked : AskedIn as env.provider)
    (hc : Cascade env.provider request o.calls) : Attempted as (extractionRows env d p o v e) := by
  obtain ⟨client, hclient⟩ := hP
  have hmetered : Metered env.provider := hclient ▸ anthropic_metered client
  unfold extractionRows
  generalize o.calls = calls at hc ⊢
  cases hc with
  | once first h =>
    exact .once hasked
      (tells_extractionRow hmetered h d p v e o.finalIndex first.escalated 0)
  | twice first second reason h h2 =>
    exact .twice reason hasked
      (tells_extractionRow hmetered h d p v e o.finalIndex first.escalated 0)
      (tells_extractionRow hmetered h2 d p v e o.finalIndex true 1)

theorem Billed.mono {prompts more : List Prompt} {x : Extraction} (h : Billed prompts x)
    (hp : prompts <+: more) : Billed more x :=
  ⟨h.model, ⟨hp.mem h.prompt.1, h.prompt.2⟩, h.ended, h.cost⟩

theorem billed_change (hs : Evolved U sha AnthropicCall s)
    (h : ∀ x ∈ s.store.extractions, Billed s.store.prompts x)
    (hc : Change U sha AnthropicCall s t) :
    ∀ x ∈ t.store.extractions, Billed t.store.prompts x := by
  have hprompts := (extends_change hs hc).record.prompts
  have hold : ∀ x ∈ s.store.extractions, Billed t.store.prompts x := fun x hx =>
    (h x hx).mono hprompts
  cases change_record hc with
  | same hsame =>
    rw [hsame.extractions]
    exact hold
  | processed documentId env hw hP hf =>
    obtain ⟨document, p, o, request, verify, _, ho, hwritten⟩ := fire_written hf
    have hcascade := extractDocument_cascade ho
    cases hwritten.record with
    | telemetry v _ _ hrows =>
      rw [hrows, List.forall_mem_append]
      exact ⟨hold, billed_rows hP hcascade hwritten.prompt fun he => (by cases he)⟩
    | published f event _ hfinal _ _ _ hrows =>
      rw [hrows, List.forall_mem_append]
      exact ⟨hold, billed_rows hP hcascade hwritten.prompt fun _ => hfinal⟩
  | decided eventId input hf =>
    obtain ⟨e, _, he | ⟨verb, changes, _, he⟩⟩ := fire_decide hf
    · rw [he]
      exact h
    · rw [he]
      exact h

theorem Evolved.billed (h : Evolved U sha AnthropicCall s) :
    ∀ x ∈ s.store.extractions, Billed s.store.prompts x :=
  h.invariant (I := fun s => ∀ x ∈ s.store.extractions, Billed s.store.prompts x)
    (fun _ hx => absurd hx List.not_mem_nil) fun _ _ hs hI hc => billed_change hs hI hc

theorem Evolved.attempted {as : List SystemAct}
    (h : Evolved U sha (fun env => AnthropicCall env ∧ AskedIn as env.provider) s) :
    ∃ attempts : List (List Extraction), s.store.extractions = attempts.flatten ∧
      ∀ rows ∈ attempts, Attempted as rows := by
  refine h.invariant (I := fun s => ∃ attempts : List (List Extraction),
    s.store.extractions = attempts.flatten ∧ ∀ rows ∈ attempts, Attempted as rows) ?_ ?_
  · exact ⟨[], rfl, List.forall_mem_nil _⟩
  · intro s t hs ⟨attempts, hall, hrows⟩ hc
    -- a call that returns adds one attempt
    have hadd : ∀ rows, t.store.extractions = s.store.extractions ++ rows → Attempted as rows →
        ∃ attempts : List (List Extraction), t.store.extractions = attempts.flatten ∧
          ∀ rows ∈ attempts, Attempted as rows := by
      intro rows ht hnew
      refine ⟨attempts ++ [rows], ?_, List.forall_mem_append.mpr ⟨hrows, ?_⟩⟩
      · rw [ht, hall, List.flatten_append, List.flatten_singleton]
      · exact List.forall_mem_singleton.mpr hnew
    cases change_record hc with
    | same hsame =>
      rw [hsame.extractions]
      exact ⟨attempts, hall, hrows⟩
    | processed documentId env hw hP hf =>
      obtain ⟨document, p, o, request, verify, _, ho, hwritten⟩ := fire_written hf
      have hcascade := extractDocument_cascade ho
      cases hwritten.record with
      | telemetry v _ _ ht => exact hadd _ ht (attempted_rows hP.1 hP.2 hcascade)
      | published f event _ hfinal _ _ _ ht => exact hadd _ ht (attempted_rows hP.1 hP.2 hcascade)
    | decided eventId input hf =>
      obtain ⟨e, _, he | ⟨verb, changes, _, he⟩⟩ := fire_decide hf
      · rw [he]
        exact ⟨attempts, hall, hrows⟩
      · rw [he]
        exact ⟨attempts, hall, hrows⟩

/-- errors of the rows add up -/
theorem abs_sum_sub_le {rows : List Extraction}
    (h : ∀ x ∈ rows, |x.costUsd - x.price| ≤ costError x.price) :
    |(rows.map (·.costUsd)).sum - (rows.map Extraction.price).sum| ≤
      rows.length / (2 * 10 ^ 6) + (rows.map Extraction.price).sum / 10 ^ 14 := by
  induction rows with
  | nil => simp
  | cons x rows ih =>
    rw [List.forall_mem_cons] at h
    have hx := h.1
    have hrest := ih h.2
    simp only [List.map_cons, List.sum_cons, List.length_cons]
    push_cast
    unfold costError at hx
    rw [abs_le] at hx hrest ⊢
    constructor <;> linarith

/-- **In every run of the system, with one call at a time and the real provider, whatever its
clients answer, telemetry is made of attempts of one row or two: a provider of the run was asked
with the default model, then perhaps with the stronger one, and each row names the model of its
request and tells the answer to it; each row names the prompt that was sent, has no answer where the
call failed, and records the price of its tokens for the model it names; and what the budget counts
for a day is the price of the calls recorded since midnight, up to half a millionth of a dollar for
each and what double precision loses.** -/
theorem billed_of_run {as : List SystemAct} {s : System}
    (hP : ∀ a ∈ as, a.Meets fun env => ∃ client, env.provider = anthropicProvider client)
    (hrun : exec (systemFire U sha) .empty as = some s) :
    (∃ attempts : List (List Extraction),
        s.session.committed.extractions = attempts.flatten ∧ ∀ rows ∈ attempts, Attempted as rows) ∧
      (∀ x ∈ s.session.committed.extractions, Billed s.session.committed.prompts x) ∧
      ∀ now, |spentTodayUsd s.session.committed.extractions now -
          ((countedToday s.session.committed.extractions now).map Extraction.price).sum| ≤
        (countedToday s.session.committed.extractions now).length / (2 * 10 ^ 6) +
          ((countedToday s.session.committed.extractions now).map Extraction.price).sum / 10 ^ 14 := by
  have hs : Evolved U sha AnthropicCall s.committed := (system_of_run hP hrun).evolved
  have hbilled := hs.billed
  have hasked : ∀ a ∈ as, a.Meets fun env => AnthropicCall env ∧ AskedIn as env.provider := by
    intro a ha
    cases a with
    | queue q =>
      cases q with
      | round env => exact ⟨hP _ ha, env, ha, rfl⟩
      | _ => exact trivial
    | _ => exact trivial
  refine ⟨(system_of_run hasked hrun).evolved.attempted, hbilled, fun now => ?_⟩
  exact abs_sum_sub_le fun x hx => (hbilled x (List.mem_filter.mp hx).1).cost

end

/-! ## a tick that is paid for -/

namespace Sample

/-- the client answers every request with the event, and says what it used -/
def client : AnthropicClient := fun _ =>
  (.returned {
    requestId := none, usage := some ⟨some 1200, some 300, none, some 1100⟩, stopReason := none
    category := none, parsedOutput := (call .moderate).result }, 800)

def metered : CallEnv := { env .moderate with provider := anthropicProvider client }

/-- the answer does not depend on what is sent -/
theorem anthropicProvider_client :
    anthropicProvider client = fun r => anthropicExtract client [] [] r.model := by
  funext r
  obtain ⟨pieces, system, hread, hfill⟩ := instructions_read
  unfold anthropicProvider
  rw [renderExtractionV2_eq r hread hfill]
  rfl

theorem metered_done :
    ∃ s, exec (systemFire Unicode.latin id) .empty (firstTickWith metered) = some s ∧
      s.session.committed.extractions.length = 1 := by
  have h : (exec (systemFire Unicode.latin id) .empty (firstTickWith metered)).map (fun s =>
      s.session.committed.extractions.length) = some 1 := by
    unfold metered
    rw [anthropicProvider_client]
    decide +kernel
  exact Option.map_eq_some_iff.mp h

end Sample

theorem billed_of_run_firstTick :
    ∃ s, exec (systemFire Unicode.latin id) .empty (Sample.firstTickWith Sample.metered) = some s ∧
      s.session.committed.extractions.length = 1 ∧
      (∃ attempts : List (List Extraction),
        s.session.committed.extractions = attempts.flatten ∧
          ∀ rows ∈ attempts, Attempted (Sample.firstTickWith Sample.metered) rows) ∧
      ∀ x ∈ s.session.committed.extractions, Billed s.session.committed.prompts x := by
  obtain ⟨s, hs, hlength⟩ := Sample.metered_done
  have hP : ∀ a ∈ Sample.firstTickWith Sample.metered,
      a.Meets fun env => ∃ client, env.provider = anthropicProvider client := by
    apply Sample.firstTickWith_meets
    refine ⟨Sample.client, ?_⟩
    dsimp only [Sample.metered]
  obtain ⟨hattempts, hbilled, _⟩ := billed_of_run hP hs
  exact ⟨s, hs, hlength, hattempts, hbilled⟩

end GeoRisk
