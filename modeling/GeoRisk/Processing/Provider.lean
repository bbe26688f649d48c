import GeoRisk.Kit.Roundoff
import GeoRisk.Processing.Prompts

/-!
# The provider

`AnthropicExtractionProvider` over any client: what it records of a call, and what the call costs.
Costs are computed in double precision; `float`, `mul64`, `add64` and `div64` round as the operations
of the source do, without a bound above.

* `computeCostUsd`, `price`    the computed cost of a call, and what the rates say;
* `computeCostUsd_computed`    they differ by the roundings of the computation only;
* `anthropicProvider`          the provider, for any client;
* `Exclusive`                  a call has no result or no error;
* `Metered`                    its cost is computed from its tokens, and its prompt is version 2;
* `anthropic_metered`,
  `anthropic_exclusive`        both hold of the provider, whatever the client answers;
* `Cascade`                    the calls of a cascade that returned, each with its request.
-/

namespace GeoRisk
open Kit

/-! ## costs -/

/-- an integer as a number of double precision -/
def float (n : Nat) : ℚ := round64 n
def mul64 (a b : ℚ) : ℚ := round64 (a * b)
def add64 (a b : ℚ) : ℚ := round64 (a + b)
def div64 (a b : ℚ) : ℚ := round64 (a / b)

/-- `PRICING_USD_PER_MTOK`: USD for a million tokens, in and out -/
def pricingUsdPerMtok : List (Text × ℚ × ℚ) :=
  [(txt "claude-sonnet-5", 2, 10), (txt "claude-opus-5", 5, 25), (txt "claude-haiku-4-5", 1, 5)]

def rates? (model : Text) : Option (ℚ × ℚ) :=
  (pricingUsdPerMtok.find? fun p => decide (p.1 = model)).map (·.2)

def cacheWriteMultiplier : ℚ := 5 / 4

/-- `0.10` -/
def cacheReadMultiplier : ℚ := round64 (1 / 10)

section
variable (model : Text) (inputTokens outputTokens cacheWriteTokens cacheReadTokens : Nat)

/-- `compute_cost_usd`; an unknown model costs nothing -/
def computeCostUsd : ℚ :=
  match rates? model with
  | none => 0
  | some (inputRate, outputRate) =>
    let total :=
      add64 (add64 (add64 (mul64 (float inputTokens) inputRate)
        (mul64 (float outputTokens) outputRate))
        (mul64 (mul64 (float cacheWriteTokens) inputRate) cacheWriteMultiplier))
        (mul64 (mul64 (float cacheReadTokens) inputRate) cacheReadMultiplier)
    div64 total 1000000

/-- the published price of the tokens -/
def price : ℚ :=
  match rates? model with
  | none => 0
  | some (inputRate, outputRate) =>
    (inputTokens * inputRate + outputTokens * outputRate + cacheWriteTokens * inputRate * (5 / 4) +
      cacheReadTokens * inputRate * (1 / 10)) / 10 ^ 6

end

section
variable {model : Text} {n : Nat} {rate : ℚ}

theorem one_le_rates {inputRate outputRate : ℚ} (h : rates? model = some (inputRate, outputRate)) :
    1 ≤ inputRate ∧ 1 ≤ outputRate := by
  obtain ⟨p, hp, hrates⟩ := Option.map_eq_some_iff.mp h
  have hall : ∀ p ∈ pricingUsdPerMtok, 1 ≤ p.2.1 ∧ 1 ≤ p.2.2 := by
    unfold pricingUsdPerMtok
    simp only [List.forall_mem_cons]
    norm_num
  have := hall p (List.mem_of_find?_eq_some hp)
  rw [hrates] at this
  exact this

/-- a price of that size is far from the small numbers -/
theorem tiny_le {y : ℚ} (h : 1 / 10 ^ 8 ≤ y) : 2 ^ (-1021 : ℤ) ≤ y := by
  have hpow : (2 : ℚ) ^ (-1021 : ℤ) ≤ 2 ^ (-27 : ℤ) :=
    zpow_le_zpow_right₀ one_le_two (by norm_num)
  have hsmall : (2 : ℚ) ^ (-27 : ℤ) ≤ 1 / 10 ^ 8 := by norm_num
  exact hpow.trans (hsmall.trans h)

/-- a multiple of a rate -/
theorem mul_size {c : ℚ} (n : Nat) (hc : 1 / 10 ^ 8 ≤ c) :
    (n : ℚ) * c = 0 ∨ 2 ^ (-1021 : ℤ) ≤ (n : ℚ) * c := by
  rcases Nat.eq_zero_or_pos n with rfl | hn
  · left
    rw [Nat.cast_zero, zero_mul]
  · right
    have hone : (1 : ℚ) ≤ n := by exact_mod_cast hn
    refine tiny_le (hc.trans ?_)
    exact le_mul_of_one_le_left (le_trans (by norm_num) hc) hone

theorem float_computed (n : Nat) : Computed 1 (float n) n := by
  refine Computed.round (n := 0) (.exact ?_) (by norm_num)
  have h := mul_size n (c := 1) (by norm_num)
  rwa [mul_one] at h

/-- tokens at a rate -/
theorem tokens_computed (n : Nat) (hr : 1 ≤ rate) : Computed 2 (mul64 (float n) rate) (n * rate) := by
  have hsmall : 1 / 10 ^ 8 ≤ rate := le_trans (by norm_num) hr
  refine Computed.round (n := 1) ?_ (by norm_num)
  exact (float_computed n).mul (m := 0) (.exact (Or.inr (tiny_le hsmall))) (mul_size n hsmall)

/-- tokens of the cache at a rate -/
theorem cached_computed {c c' : ℚ} (n : Nat) (hr : 1 ≤ rate) (hc : Computed 1 c c')
    (hsize : 1 / 10 ≤ c') :
    Computed 4 (mul64 (mul64 (float n) rate) c) (n * rate * c') := by
  refine Computed.round (n := 3) ?_ (by norm_num)
  refine (tokens_computed n hr).mul hc ?_
  rw [mul_assoc]
  refine mul_size n ?_
  have := mul_le_mul hr hsize (by norm_num) (le_trans zero_le_one hr)
  exact le_trans (by norm_num) this

/-- a sum of prices is zero or not too small -/
theorem total_size {a b : ℚ} (i o w r : Nat) (ha : 1 ≤ a) (hb : 1 ≤ b) :
    ((i : ℚ) * a + o * b + w * a * (5 / 4) + r * a * (1 / 10)) * (1 / 10 ^ 6) = 0 ∨
      2 ^ (-1021 : ℤ) ≤ ((i : ℚ) * a + o * b + w * a * (5 / 4) + r * a * (1 / 10)) * (1 / 10 ^ 6) := by
  have hle : ∀ (n : Nat) {c : ℚ}, 1 ≤ c → (n : ℚ) ≤ n * c := fun n c hc =>
    le_mul_of_one_le_right (Nat.cast_nonneg n) hc
  have hi := hle i ha
  have ho := hle o hb
  have hw := hle w ha
  have hr := hle r ha
  rcases Nat.eq_zero_or_pos (i + o + w + r) with h | h
  · left
    obtain ⟨rfl, rfl, rfl, rfl⟩ : i = 0 ∧ o = 0 ∧ w = 0 ∧ r = 0 := by omega
    norm_num
  · right
    have hone : (1 : ℚ) ≤ i + o + w + r := by exact_mod_cast h
    have hnonneg : ∀ n : Nat, (0 : ℚ) ≤ n := fun n => Nat.cast_nonneg n
    have hsum : (1 : ℚ) / 10 ≤ i * a + o * b + w * a * (5 / 4) + r * a * (1 / 10) := by
      linarith [hnonneg i, hnonneg o, hnonneg w, hnonneg r]
    refine tiny_le ?_
    linarith

/-- the price of one token -/
theorem million_computed {k : Nat} {x y : ℚ} (h : Computed k x y)
    (hsize : y * (1 / 10 ^ 6) = 0 ∨ 2 ^ (-1021 : ℤ) ≤ y * (1 / 10 ^ 6)) :
    Computed k (x / 1000000) (y / 10 ^ 6) := by
  have hmillion : Computed 0 (1 / 10 ^ 6 : ℚ) (1 / 10 ^ 6) :=
    .exact (Or.inr (tiny_le (by norm_num)))
  rw [div_eq_mul_one_div x, div_eq_mul_one_div y, show (1000000 : ℚ) = 10 ^ 6 from by norm_num]
  exact h.mul hmillion hsize

/-- **The computed cost is the price, up to the roundings of the computation.** -/
theorem computeCostUsd_computed (model : Text)
    (inputTokens outputTokens cacheWriteTokens cacheReadTokens : Nat) :
    Computed 7 (computeCostUsd model inputTokens outputTokens cacheWriteTokens cacheReadTokens)
      (price model inputTokens outputTokens cacheWriteTokens cacheReadTokens) := by
  unfold computeCostUsd price
  cases hrates : rates? model with
  | none => exact (Computed.exact (Or.inl rfl)).mono (Nat.zero_le _)
  | some rates =>
    obtain ⟨a, b⟩ := rates
    obtain ⟨ha, hb⟩ := one_le_rates hrates
    have hwrite : Computed 1 cacheWriteMultiplier (5 / 4) :=
      (Computed.exact (Or.inr (tiny_le (by norm_num [cacheWriteMultiplier])))).mono (Nat.zero_le _)
    have hread : Computed 1 cacheReadMultiplier (1 / 10) :=
      Computed.round (.exact (Or.inr (tiny_le (by norm_num)))) (by norm_num)
    have h1 : Computed 3 (add64 (mul64 (float inputTokens) a) (mul64 (float outputTokens) b)) _ :=
      ((tokens_computed inputTokens ha).add (tokens_computed outputTokens hb)).round (by norm_num)
    have h2 : Computed 5 (add64 _ (mul64 (mul64 (float cacheWriteTokens) a) cacheWriteMultiplier)) _ :=
      ((h1.mono (by norm_num)).add
        (cached_computed cacheWriteTokens ha hwrite (by norm_num))).round (by norm_num)
    have h3 : Computed 6 (add64 _ (mul64 (mul64 (float cacheReadTokens) a) cacheReadMultiplier)) _ :=
      (h2.add ((cached_computed cacheReadTokens ha hread (by norm_num)).mono
        (by norm_num))).round (by norm_num)
    exact (million_computed h3 (total_size _ _ _ _ ha hb)).round (by norm_num)

end

/-! ## what the client answers -/

/-- `response.usage`; an attribute may be missing -/
structure Usage where
  inputTokens : Option Nat
  outputTokens : Option Nat
  cacheCreationInputTokens : Option Nat
  cacheReadInputTokens : Option Nat

structure ParsedMessage where
  requestId : Option Text
  usage : Option Usage
  stopReason : Option Text
  /-- of `stop_details` -/
  category : Option Text
  parsedOutput : Option ExtractionResult

/-- how `messages.parse` ends -/
inductive ParseOutcome
  | statusError (statusCode : Nat) (message : Text)
  | connectionError (message : Text)
  /-- an exception that `extract` does not catch -/
  | raised (message : Text)
  | returned (response : ParsedMessage)

def maxTokens : Nat := 16000

/-- what is sent: the system half is the block that is cached -/
structure ParseRequest where
  model : Text
  maxTokens : Nat
  system : Text
  user : Text

/-- the answer, and the milliseconds it took -/
abbrev AnthropicClient := ParseRequest → ParseOutcome × Nat

/-- `EXTRACT_EVENT_V2.name` and its version on a new call -/
def newCall (model : Text) : ExtractionCall where
  model := model
  promptName := extractEventV2.name
  promptVersion := extractEventV2.version
  result := none

/-- the tokens and the cost of the answer -/
def ExtractionCall.billed (call : ExtractionCall) (usage : Option Usage) : ExtractionCall :=
  let tokens (field : Usage → Option Nat) : Nat := (usage.bind field).getD 0
  let inputTokens := tokens (·.inputTokens)
  let outputTokens := tokens (·.outputTokens)
  let cacheWriteTokens := tokens (·.cacheCreationInputTokens)
  let cacheReadTokens := tokens (·.cacheReadInputTokens)
  { call with
    inputTokens := inputTokens
    outputTokens := outputTokens
    cacheWriteTokens := cacheWriteTokens
    cacheReadTokens := cacheReadTokens
    costUsd := computeCostUsd call.model inputTokens outputTokens cacheWriteTokens cacheReadTokens }

/-- `AnthropicExtractionProvider.extract` -/
def anthropicExtract (client : AnthropicClient) (system user model : Text) :
    Except Text ExtractionCall :=
  let (answer, latencyMs) := client ⟨model, maxTokens, system, user⟩
  let call := { newCall model with latencyMs := latencyMs }
  match answer with
  | .statusError statusCode message =>
    .ok { call with
      error := some (txt "api_status_error " ++ natText statusCode ++ txt ": " ++ message) }
  | .connectionError message =>
    .ok { call with error := some (txt "api_connection_error: " ++ message) }
  | .raised message => .error message
  | .returned response =>
    let call := ({ call with requestId := response.requestId }).billed response.usage
    if response.stopReason = some (txt "refusal") then
      .ok { call with error := some (txt "refusal: " ++ response.category.getD (txt "None")) }
    else .ok { call with result := response.parsedOutput }

/-- what a template that cannot be formatted raises -/
def formatMessage : FormatError → Text
  | .unclosed => txt "expected '\x7d' before end of string"
  | .nested => txt "unexpected '\x7b' in field name"
  | .unopened => txt "Single '\x7d' encountered in format string"
  | .missing name => txt "'" ++ name ++ txt "'"

/-- what is done with a rendered request -/
def sendRendered (client : AnthropicClient) (model : Text) :
    Except FormatError (Text × Text) → Except Text ExtractionCall
  | .error e => .error (formatMessage e)
  | .ok (system, user) => anthropicExtract client system user model

/-- the provider behind `extract_document`, which renders the request -/
def anthropicProvider (client : AnthropicClient) : ExtractionProvider := fun request =>
  sendRendered client request.model (renderExtractionV2 request)

/-! ## what is known of a call -/

/-- no call has a result and an error -/
def Exclusive (provider : ExtractionProvider) : Prop :=
  ∀ request call, provider request = .ok call → call.error.isSome = true → call.result = none

/-- the prompt is the second version, and the cost is that of the tokens -/
structure MeteredCall (call : ExtractionCall) : Prop where
  prompt : call.promptName = extractEventV2.name ∧ call.promptVersion = extractEventV2.version
  cost : call.costUsd = computeCostUsd call.model call.inputTokens call.outputTokens
    call.cacheWriteTokens call.cacheReadTokens

def Metered (provider : ExtractionProvider) : Prop :=
  ∀ request call, provider request = .ok call → call.model = request.model ∧ MeteredCall call

section
variable {client : AnthropicClient} {system user model : Text} {call : ExtractionCall}

/-- no tokens cost nothing -/
theorem computeCostUsd_zero (model : Text) : computeCostUsd model 0 0 0 0 = 0 := by
  have hprice : price model 0 0 0 0 = 0 := by
    unfold price
    split
    · rfl
    · simp
  have h := computeCostUsd_computed model 0 0 0 0
  rw [hprice] at h
  have hlow := h.lower
  have hup := h.upper
  rw [zero_mul] at hlow hup
  exact le_antisymm hup hlow

/-- a call of the client that returns is billed, and has a result or an error -/
theorem anthropicExtract_ok (h : anthropicExtract client system user model = .ok call) :
    call.model = model ∧ MeteredCall call ∧ (call.error.isSome = true → call.result = none) := by
  unfold anthropicExtract at h
  generalize client ⟨model, maxTokens, system, user⟩ = answered at h
  obtain ⟨answer, latencyMs⟩ := answered
  simp only at h
  cases answer with
  | statusError statusCode message =>
    cases h
    exact ⟨rfl, ⟨⟨rfl, rfl⟩, (computeCostUsd_zero model).symm⟩, fun _ => rfl⟩
  | connectionError message =>
    cases h
    exact ⟨rfl, ⟨⟨rfl, rfl⟩, (computeCostUsd_zero model).symm⟩, fun _ => rfl⟩
  | raised message => cases h
  | returned response =>
    simp only at h
    split at h
    · cases h
      exact ⟨rfl, ⟨⟨rfl, rfl⟩, rfl⟩, fun _ => rfl⟩
    · cases h
      exact ⟨rfl, ⟨⟨rfl, rfl⟩, rfl⟩, fun he => (by cases he)⟩

/-- a request that is sent was rendered -/
theorem sendRendered_ok {halves : Except FormatError (Text × Text)}
    (h : sendRendered client model halves = .ok call) :
    ∃ system user, halves = .ok (system, user) ∧
      anthropicExtract client system user model = .ok call := by
  cases halves with
  | error e => cases h
  | ok halves => exact ⟨halves.1, halves.2, rfl, h⟩

theorem anthropic_exclusive (client : AnthropicClient) : Exclusive (anthropicProvider client) := by
  intro request call h
  obtain ⟨system, user, _, h⟩ := sendRendered_ok h
  exact (anthropicExtract_ok h).2.2

theorem anthropic_metered (client : AnthropicClient) : Metered (anthropicProvider client) := by
  intro request call h
  obtain ⟨system, user, _, h⟩ := sendRendered_ok h
  exact ⟨(anthropicExtract_ok h).1, (anthropicExtract_ok h).2.1⟩

end

/-! ## the calls of a cascade -/

/-- what a cascade that returned has asked, and what it was answered -/
inductive Cascade (provider : ExtractionProvider) (request : ExtractionRequest) :
    List ExtractionCall → Prop
  | once (first : ExtractionCall)
      (h : provider { request with model := defaultModel, escalationReason := none } = .ok first) :
      Cascade provider request [first]
  | twice (first second : ExtractionCall) (reason : Text)
      (h : provider { request with model := defaultModel, escalationReason := none } = .ok first)
      (h2 : provider { request with model := escalationModel, escalationReason := some reason } =
        .ok second) :
      Cascade provider request [first, { second with escalated := true }]

section
variable {provider : ExtractionProvider} {request : ExtractionRequest}
  {verifyCitations : ExtractionResult → Nat} {allowEscalation : Bool} {o : ExtractionOutcome}

theorem extractDocument_cascade
    (h : (extractDocument provider request verifyCitations allowEscalation).outcome = .ok o) :
    Cascade provider request o.calls := by
  unfold extractDocument at h
  simp only at h
  split at h
  · cases h
  · cases hp : provider { request with model := defaultModel, escalationReason := none } with
    | error e =>
      rw [hp] at h
      cases h
    | ok first =>
      rw [hp] at h
      simp only at h
      split at h
      · cases h
        exact .once first hp
      · next reason _ =>
        cases hp2 : provider
            { request with model := escalationModel, escalationReason := some reason } with
        | error e =>
          rw [hp2] at h
          cases h
        | ok second =>
          rw [hp2] at h
          cases h
          exact .twice first second reason hp hp2

theorem Cascade.exclusive {calls : List ExtractionCall} (h : Cascade provider request calls)
    (hp : Exclusive provider) : ∀ c ∈ calls, c.error.isSome = true → c.result = none := by
  cases h with
  | once first h1 =>
    rw [List.forall_mem_singleton]
    exact hp _ first h1
  | twice first second reason h1 h2 =>
    rw [List.forall_mem_cons, List.forall_mem_singleton]
    exact ⟨hp _ first h1, hp _ second h2⟩

theorem Cascade.metered {calls : List ExtractionCall} (h : Cascade provider request calls)
    (hp : Metered provider) :
    ∀ c ∈ calls, (c.model = defaultModel ∨ c.model = escalationModel) ∧ MeteredCall c := by
  cases h with
  | once first h1 =>
    rw [List.forall_mem_singleton]
    exact ⟨Or.inl (hp _ first h1).1, (hp _ first h1).2⟩
  | twice first second reason h1 h2 =>
    rw [List.forall_mem_cons, List.forall_mem_singleton]
    obtain ⟨hmodel, hprompt, hcost⟩ := hp _ second h2
    exact ⟨⟨Or.inl (hp _ first h1).1, (hp _ first h1).2⟩, Or.inr hmodel, hprompt, hcost⟩

/-- the kept call with a result has succeeded -/
theorem final_succeeded {call : ExtractionCall} (h : Cascade provider request o.calls)
    (hp : Exclusive provider) (hf : o.final = some call) (hr : call.result.isSome = true) :
    call.succeeded = true := by
  obtain ⟨i, _, hc⟩ := final_mem hf
  unfold ExtractionCall.succeeded
  rw [hr, Bool.true_and]
  cases he : call.error with
  | none => rfl
  | some e =>
    have hnone := h.exclusive hp call (List.mem_of_getElem? hc) (by rw [he]; rfl)
    rw [hnone] at hr
    cases hr

end

end GeoRisk
