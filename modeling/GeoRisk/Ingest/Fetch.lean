import GeoRisk.Text.MailDate
import GeoRisk.Text.Format
import GeoRisk.Ingest.Runner

/-!
# Fetching

`http.py`: a conditional request is repeated after a delay while the answer is a transport error or
a transient status, up to `max_attempts` times.  The answers of the server, the clock and the
verdict of robots.txt are the surroundings; a request is one `client.get` of the url.  The client
encodes header values as ASCII, so a stored validator that is not ASCII is never sent.

* `retryAfterSeconds`    `_retry_after_seconds`;
* `backoffDelay`         the delay of `_backoff`;
* `AsciiValidators`      the validators that the client takes;
* `pass`                 the body of the loop of `HttpFetcher.fetch`;
* `fetch`                `HttpFetcher.fetch`, with its requests and the delays it slept;
* `Declared`             what its docstring promises;
* `FromAttempt`          what the loop does from one attempt on;
* `fetch_declared_iff`   the fetches that keep the promise;
* `ingestSource_of_unsound`   what becomes of the run of a source where it is broken.
-/

namespace GeoRisk
open Kit

structure Response where
  url : Text
  statusCode : Nat
  /-- `response.headers.get` -/
  header : Text → Option Text

/-- what `client.get` comes to -/
inductive Answer
  | response (r : Response)
  /-- `httpx.HTTPError` -/
  | transportError (message : Text)

structure HttpFetcher where
  userAgent : Text
  maxAttempts : Int := 4
  backoffBaseSeconds : Double := .ofInt 2 (by norm_num)

/-- the surroundings of one fetch -/
structure FetchEnv where
  /-- `self._robots.allows(url)`, where robots.txt is enforced -/
  robots : Option (Except Text Bool) := none
  /-- the answer to each attempt -/
  answers : Nat → Answer
  /-- the time at which the answer is dealt with -/
  clock : Nat → DateTime

/-- what a fetch did, and how it ended -/
structure Fetching where
  /-- the headers of every request and the answer to it -/
  requests : List (List (Text × Text) × Answer)
  /-- the delays passed to `sleep` -/
  delays : List Double
  result : Fetch

def retryableStatuses : List Nat := [429, 500, 502, 503, 504]
def blockedStatuses : List Nat := [401, 403, 451]

def maxBackoffSeconds : Double := .ofInt 60 (by norm_num)

def LibraryError.name : LibraryError → Text
  | .valueError => txt "ValueError"
  | .overflowError => txt "OverflowError"

/-- `(a - b).total_seconds()` -/
def secondsBetween (a b : DateTime) : Double := .ofRat ((a.micros - b.micros : Int) / 1000000)

/-- the instant of a `datetime`; one without a zone is taken as UTC -/
def WallTime.instant (t : WallTime) : DateTime :=
  ⟨(t.seconds - t.tzinfo.getD 0) * DateTime.microsPerSecond⟩

def retryAfterSeconds (r : Response) (now : DateTime) : Except LibraryError (Option Double) :=
  match r.header (txt "retry-after") with
  | none => .ok none
  | some [] => .ok none
  | some raw =>
    match parseFloat raw with
    | some x => .ok (some x)
    | none =>
      match parsedateToDatetime raw with
      | .ok target => .ok (some (Double.max 0 (secondsBetween target.instant now)))
      | .error .valueError => .ok none
      -- only `TypeError` and `ValueError` are handled
      | .error .overflowError => .error .overflowError

/-- `time.sleep`, which refuses not-a-number and a negative delay -/
def sleep (delay : Double) : Except LibraryError Unit :=
  if delay = .nan ∨ delay < 0 then .error .valueError else .ok ()

def intText (n : Int) : Text := (if n < 0 then ['-'] else []) ++ natText n.natAbs

/-- what one pass of the loop comes to -/
inductive Pass
  /-- `return` or `raise` -/
  | ends (result : Fetch)
  | breaks (lastError : Text)
  /-- `continue` after a delay -/
  | continues (lastError : Text) (delay : Except LibraryError Double)

section
variable (fetcher : HttpFetcher) (env : FetchEnv) (url : Text) (etag lastModified : Option Text)

/-- the delay before the cap: the power may overflow -/
def askedDelay (attempt : Nat) : Option Double → Except LibraryError Double
  | some delay => .ok delay
  | none =>
    match fetcher.backoffBaseSeconds.pow attempt with
    | some delay => .ok delay
    | none => .error .overflowError

/-- `_backoff`, as far as the sleep -/
def backoffDelay (attempt : Nat) (retryAfter : Option Double) : Except LibraryError Double := do
  let delay ← askedDelay fetcher attempt retryAfter
  .ok (Double.min delay maxBackoffSeconds)

/-- the request headers; an empty validator is none -/
def conditionalHeaders : List (Text × Text) :=
  ((etag.filter (· ≠ [])).map (txt "If-None-Match", ·)).toList ++
    ((lastModified.filter (· ≠ [])).map (txt "If-Modified-Since", ·)).toList

/-- the client can encode the request headers -/
def AsciiValidators : Prop :=
  ∀ header ∈ conditionalHeaders etag lastModified, ∀ c ∈ header.2, c.toNat < 128

instance : Decidable (AsciiValidators etag lastModified) :=
  decidable_of_iff ((conditionalHeaders etag lastModified).all fun header =>
    header.2.all fun c => decide (c.toNat < 128)) (by simp [AsciiValidators])

/-- `a or b` of two headers -/
def orElse (a b : Option Text) : Option Text := (a.filter (· ≠ [])).or b

def returnedStatus (status : Nat) : Text := url ++ txt " returned " ++ natText status

def pass (attempt : Nat) : Pass :=
  match env.answers attempt with
  | .transportError message =>
    if (attempt : Int) = fetcher.maxAttempts then .breaks message
    else .continues message (backoffDelay fetcher attempt none)
  | .response r =>
    if r.statusCode ∈ blockedStatuses then .ends (.blocked (returnedStatus url r.statusCode))
    else if r.statusCode = 304 then
      .ends (.returned
        { url := r.url
          statusCode := 304
          contentType := r.header (txt "content-type")
          etag := orElse (r.header (txt "etag")) etag
          lastModified := orElse (r.header (txt "last-modified")) lastModified
          retrievedAt := env.clock attempt
          notModified := true
          attempts := attempt })
    else if r.statusCode ∈ retryableStatuses then
      let lastError := txt "HTTP " ++ natText r.statusCode
      if (attempt : Int) = fetcher.maxAttempts then .breaks lastError
      else .continues lastError do
        let retryAfter ← retryAfterSeconds r (env.clock attempt)
        backoffDelay fetcher attempt retryAfter
    else if 400 ≤ r.statusCode then .ends (.failed (returnedStatus url r.statusCode))
    else
      .ends (.returned
        { url := r.url
          statusCode := r.statusCode
          contentType := r.header (txt "content-type")
          etag := r.header (txt "etag")
          lastModified := r.header (txt "last-modified")
          retrievedAt := env.clock attempt
          attempts := attempt })

def exhausted (lastError : Option Text) : Fetch :=
  .failed (url ++ txt " failed after " ++ intText fetcher.maxAttempts ++ txt " attempts: " ++
    lastError.getD (txt "None"))

/-- the loop, over the attempts that are left -/
def attempts : List Nat → Option Text → Fetching
  | [], lastError => ⟨[], [], exhausted fetcher url lastError⟩
  | attempt :: rest, _ =>
    let request := (conditionalHeaders etag lastModified, env.answers attempt)
    match pass fetcher env url etag lastModified attempt with
    | .ends result => ⟨[request], [], result⟩
    | .breaks lastError => ⟨[request], [], exhausted fetcher url (some lastError)⟩
    | .continues lastError delay =>
      match delay with
      | .error e => ⟨[request], [], .raises e.name⟩
      | .ok delay =>
        match sleep delay with
        | .error e => ⟨[request], [delay], .raises e.name⟩
        | .ok () =>
          let fetching := attempts rest (some lastError)
          ⟨request :: fetching.requests, delay :: fetching.delays, fetching.result⟩

def fetch : Fetching :=
  match env.robots with
  | some (.error message) => ⟨[], [], .raises message⟩
  | some (.ok false) =>
    ⟨[], [], .blocked (txt "robots.txt disallows " ++ url ++ txt " for " ++ fetcher.userAgent)⟩
  | _ =>
    -- the first `client.get` raises before anything is sent
    if 0 < fetcher.maxAttempts ∧ ¬AsciiValidators etag lastModified then
      ⟨[], [], .raises (txt "UnicodeEncodeError")⟩
    else
      attempts fetcher env url etag lastModified (List.range' 1 fetcher.maxAttempts.toNat) none

end

/-! ## the waits that go well -/

/-- the answer is one to repeat the request after -/
def Answer.retried : Answer → Bool
  | .transportError _ => true
  | .response r => decide (r.statusCode ∈ retryableStatuses)

def Answer.isBlock : Answer → Bool
  | .transportError _ => false
  | .response r => decide (r.statusCode ∈ blockedStatuses)

/-- the power that is waited without a `Retry-After` is a number, and not a negative one -/
def SoundPower (fetcher : HttpFetcher) (attempt : Nat) : Prop :=
  ∃ delay, fetcher.backoffBaseSeconds.pow attempt = some delay ∧ 0 ≤ delay

/-- a `Retry-After` that is a number is not negative; otherwise its numbers are not too large for a
date, and where they are none it is left to the power -/
def SoundRetryAfter (fetcher : HttpFetcher) (attempt : Nat) (raw : Text) : Prop :=
  match parseFloat raw with
  | some x => 0 ≤ x
  | none =>
    (∀ d, parsedateTz raw = some d → ¬d.TooLarge) ∧
      ((∃ t, parsedateToDatetime raw = .ok t) ∨ SoundPower fetcher attempt)

def SoundWait (fetcher : HttpFetcher) (attempt : Nat) : Answer → Prop
  | .transportError _ => SoundPower fetcher attempt
  | .response r =>
    match r.header (txt "retry-after") with
    | none => SoundPower fetcher attempt
    | some [] => SoundPower fetcher attempt
    | some raw => SoundRetryAfter fetcher attempt raw

/-- the waits from attempt `k` on that are reached go well, if `c` attempts are left: an attempt is
waited after if it is not the last one and the answers up to it are all to be repeated after -/
def SoundFrom (fetcher : HttpFetcher) (answers : Nat → Answer) (k c : Nat) : Prop :=
  ∀ n, k ≤ n → n + 1 < k + c → (∀ m, k ≤ m → m ≤ n → (answers m).retried = true) →
    SoundWait fetcher n (answers n)

/-- robots.txt, where it is enforced, gives a verdict, the client takes the validators, and every
wait that is reached goes well -/
def SoundFetch (fetcher : HttpFetcher) (env : FetchEnv) (etag lastModified : Option Text) : Prop :=
  match env.robots with
  | some (.error _) => False
  | some (.ok false) => True
  | _ => (0 < fetcher.maxAttempts → AsciiValidators etag lastModified) ∧
      SoundFrom fetcher env.answers 1 fetcher.maxAttempts.toNat

/-- what the docstring of `fetch` promises: no more than `limit` requests, delays within the cap, no
request after a refusal, and an end that is declared -/
structure Declared (limit : Nat) (f : Fetching) : Prop where
  requests : f.requests.length ≤ limit
  delays : ∀ delay ∈ f.delays, 0 ≤ delay ∧ delay ≤ maxBackoffSeconds
  blocks : ∀ before request after, f.requests = before ++ request :: after →
    request.2.isBlock = true → after = []
  ends : ∀ message, f.result ≠ .raises message

theorem sleep_eq_ok {delay : Double} : sleep delay = .ok () ↔ 0 ≤ delay := by
  unfold sleep
  split
  · next h =>
    refine iff_of_false (fun e => nomatch e) ?_
    rintro ⟨_, hnan, hneg⟩
    exact h.elim hnan hneg
  · next h =>
    obtain ⟨hnan, hneg⟩ := not_or.mp h
    exact iff_of_true rfl ⟨Double.noConfusion, hnan, hneg⟩

theorem not_block_of_retried {answer : Answer} (h : answer.retried = true) :
    answer.isBlock = false := by
  cases answer with
  | transportError _ => rfl
  | response r =>
    have hdisjoint : ∀ s ∈ retryableStatuses, s ∉ blockedStatuses := by decide
    exact decide_eq_false (hdisjoint _ (of_decide_eq_true h))

section
variable {fetcher : HttpFetcher} {env : FetchEnv} {url : Text} {etag lastModified : Option Text}
  {attempt : Nat}

theorem zero_le_cap : 0 ≤ maxBackoffSeconds := by decide

/-- a delay that can be slept is within the cap -/
theorem backoffDelay_le {retryAfter : Option Double} {d : Double}
    (h : backoffDelay fetcher attempt retryAfter = .ok d) (h0 : 0 ≤ d) : d ≤ maxBackoffSeconds := by
  obtain ⟨x, _, hx⟩ := bind_eq_ok.mp h
  cases hx
  exact Double.min_le ((Double.le_min_iff zero_le_cap).mp h0).2.1 zero_le_cap.2.1

theorem backoffDelay_some (fetcher : HttpFetcher) (attempt : Nat) {x : Double} :
    (∃ d, backoffDelay fetcher attempt (some x) = .ok d ∧ 0 ≤ d) ↔ 0 ≤ x := by
  rw [← Double.le_min_iff (x := x) zero_le_cap]
  constructor
  · rintro ⟨d, hd, h0⟩
    cases hd
    exact h0
  · intro h0
    exact ⟨_, rfl, h0⟩

theorem backoffDelay_none :
    (∃ d, backoffDelay fetcher attempt none = .ok d ∧ 0 ≤ d) ↔ SoundPower fetcher attempt := by
  unfold backoffDelay askedDelay SoundPower
  simp only
  cases fetcher.backoffBaseSeconds.pow attempt with
  | none =>
    refine iff_of_false ?_ ?_
    · rintro ⟨d, hd, _⟩
      cases hd
    · rintro ⟨d, hd, _⟩
      cases hd
  | some x =>
    simp only [Option.some.injEq, exists_eq_left']
    exact backoffDelay_some fetcher attempt

/-- the delay after a response -/
theorem retryAfter_sound {r : Response} {now : DateTime} :
    (∃ d, (retryAfterSeconds r now >>= backoffDelay fetcher attempt) = .ok d ∧ 0 ≤ d) ↔
      SoundWait fetcher attempt (.response r) := by
  unfold retryAfterSeconds SoundWait
  simp only
  cases hraw : r.header (txt "retry-after") with
  | none => exact backoffDelay_none
  | some raw =>
    cases raw with
    | nil => exact backoffDelay_none
    | cons c raw =>
      simp only [SoundRetryAfter]
      cases parseFloat (c :: raw) with
      | some x => exact backoffDelay_some fetcher attempt
      | none =>
        have htoo : _ ↔ ∃ d, parsedateTz (c :: raw) = some d ∧ d.TooLarge :=
          parsedateToDatetime_overflow
        cases hdate : parsedateToDatetime (c :: raw) with
        | ok target =>
          rw [hdate] at htoo
          have hsound := Double.le_max_left (a := 0) Double.noConfusion
            (secondsBetween target.instant now)
          refine iff_of_true ((backoffDelay_some fetcher attempt).mpr hsound)
            ⟨?_, Or.inl ⟨target, rfl⟩⟩
          exact fun d hd hlarge => nomatch htoo.mpr ⟨d, hd, hlarge⟩
        | error e =>
          rw [hdate] at htoo
          cases e with
          | valueError =>
            have hfits : ∀ d, parsedateTz (c :: raw) = some d → ¬d.TooLarge :=
              fun d hd hlarge => nomatch htoo.mpr ⟨d, hd, hlarge⟩
            have hnone : ¬∃ t : WallTime, Except.error LibraryError.valueError = .ok t := by
              rintro ⟨t, ht⟩
              cases ht
            rw [and_iff_right hfits, or_iff_right hnone]
            exact backoffDelay_none
          | overflowError =>
            obtain ⟨d, hd, hlarge⟩ := htoo.mp rfl
            refine iff_of_false ?_ fun h => h.1 d hd hlarge
            rintro ⟨d, hdelay, _⟩
            cases hdelay

/-- **What one pass comes to.** -/
theorem pass_cases :
    (∃ result, pass fetcher env url etag lastModified attempt = .ends result ∧
      (∀ message, result ≠ .raises message) ∧ (env.answers attempt).retried = false) ∨
    (∃ e, pass fetcher env url etag lastModified attempt = .breaks e ∧
      (env.answers attempt).retried = true ∧ (attempt : Int) = fetcher.maxAttempts) ∨
    (∃ e delay, pass fetcher env url etag lastModified attempt = .continues e delay ∧
      (env.answers attempt).retried = true ∧ (attempt : Int) ≠ fetcher.maxAttempts ∧
      ((∃ d, delay = .ok d ∧ 0 ≤ d) ↔ SoundWait fetcher attempt (env.answers attempt)) ∧
      ∀ d, delay = .ok d → 0 ≤ d → d ≤ maxBackoffSeconds) := by
  unfold pass
  cases hanswer : env.answers attempt with
  | transportError message =>
    right
    by_cases hlast : (attempt : Int) = fetcher.maxAttempts
    · left
      exact ⟨message, if_pos hlast, rfl, hlast⟩
    · right
      refine ⟨message, _, if_neg hlast, rfl, hlast, backoffDelay_none, ?_⟩
      exact fun d hd h0 => backoffDelay_le hd h0
  | response r =>
    simp only
    by_cases hretry : r.statusCode ∈ retryableStatuses
    · have hretried : (Answer.response r).retried = true := decide_eq_true hretry
      have hblock := of_decide_eq_false (not_block_of_retried hretried)
      have h304 : r.statusCode ≠ 304 := by
        intro h
        rw [h] at hretry
        exact absurd hretry (by decide)
      rw [if_neg hblock, if_neg h304, if_pos hretry]
      right
      by_cases hlast : (attempt : Int) = fetcher.maxAttempts
      · left
        exact ⟨_, if_pos hlast, hretried, hlast⟩
      · right
        refine ⟨_, _, if_neg hlast, hretried, hlast, retryAfter_sound, ?_⟩
        intro d hd h0
        obtain ⟨retryAfter, _, hdelay⟩ := bind_eq_ok.mp hd
        exact backoffDelay_le hdelay h0
    · left
      have hretried : (Answer.response r).retried = false := decide_eq_false hretry
      rw [if_neg hretry]
      split
      · exact ⟨_, rfl, fun _ => Fetch.noConfusion, hretried⟩
      · split
        · exact ⟨_, rfl, fun _ => Fetch.noConfusion, hretried⟩
        · split
          · exact ⟨_, rfl, fun _ => Fetch.noConfusion, hretried⟩
          · exact ⟨_, rfl, fun _ => Fetch.noConfusion, hretried⟩

/-! ## whole runs -/

/-- what the loop does from one attempt on: it stops in a declared way, it stops at a delay that
cannot be slept, or it sleeps and goes on -/
inductive FromAttempt (fetcher : HttpFetcher) (env : FetchEnv) (url : Text)
    (etag lastModified : Option Text) (attempt : Nat) (rest : List Nat) : Fetching → Prop
  | stops (result : Fetch) (declared : ∀ message, result ≠ .raises message)
      (last : (env.answers attempt).retried = true → (attempt : Int) = fetcher.maxAttempts) :
      FromAttempt fetcher env url etag lastModified attempt rest
        ⟨[(conditionalHeaders etag lastModified, env.answers attempt)], [], result⟩
  | raises (delays : List Double) (message : Text)
      (retried : (env.answers attempt).retried = true)
      (notLast : (attempt : Int) ≠ fetcher.maxAttempts)
      (unsound : ¬SoundWait fetcher attempt (env.answers attempt)) :
      FromAttempt fetcher env url etag lastModified attempt rest
        ⟨[(conditionalHeaders etag lastModified, env.answers attempt)], delays, .raises message⟩
  | sleeps (error : Text) (delay : Double) (retried : (env.answers attempt).retried = true)
      (sound : SoundWait fetcher attempt (env.answers attempt))
      (inRange : 0 ≤ delay ∧ delay ≤ maxBackoffSeconds) :
      FromAttempt fetcher env url etag lastModified attempt rest
        ⟨(conditionalHeaders etag lastModified, env.answers attempt) ::
            (attempts fetcher env url etag lastModified rest (some error)).requests,
          delay :: (attempts fetcher env url etag lastModified rest (some error)).delays,
          (attempts fetcher env url etag lastModified rest (some error)).result⟩

theorem attempts_from (rest : List Nat) (e : Option Text) :
    FromAttempt fetcher env url etag lastModified attempt rest
      (attempts fetcher env url etag lastModified (attempt :: rest) e) := by
  rw [attempts]
  rcases @pass_cases fetcher env url etag lastModified attempt with
    ⟨result, hpass, hdeclared, hretried⟩ | ⟨error, hpass, _, hlast⟩ |
      ⟨error, delay, hpass, hretried, hnot, hsound, hcap⟩
  · simp only [hpass]
    refine .stops result hdeclared fun h => ?_
    rw [hretried] at h
    cases h
  · simp only [hpass]
    exact .stops _ (fun _ => Fetch.noConfusion) fun _ => hlast
  · simp only [hpass]
    cases delay with
    | error x =>
      refine .raises [] x.name hretried hnot fun h => ?_
      obtain ⟨d, hd, _⟩ := hsound.mpr h
      cases hd
    | ok d =>
      simp only
      cases hsleep : sleep d with
      | error x =>
        refine .raises [d] x.name hretried hnot fun h => ?_
        obtain ⟨d', hd', h0⟩ := hsound.mpr h
        cases hd'
        rw [sleep_eq_ok.mpr h0] at hsleep
        cases hsleep
      | ok u =>
        have h0 : 0 ≤ d := sleep_eq_ok.mp hsleep
        exact .sleeps error d hretried (hsound.mp ⟨d, rfl, h0⟩) ⟨h0, hcap d rfl h0⟩

/-- **However the loop goes, it makes at most one request an attempt, and none after a refusal.** -/
theorem attempts_bounded (rest : List Nat) (e : Option Text) :
    (attempts fetcher env url etag lastModified rest e).requests.length ≤ rest.length ∧
      ∀ before request after,
        (attempts fetcher env url etag lastModified rest e).requests = before ++ request :: after →
          request.2.isBlock = true → after = [] := by
  -- a loop that stops has made one request
  have hone : ∀ (request : List (Text × Text) × Answer) before x after,
      [request] = before ++ x :: after → after = [] := by
    intro request before x after h
    cases before with
    | nil => exact (List.cons.inj h).2.symm
    | cons y before => exact absurd (List.cons.inj h).2 (by simp)
  induction rest generalizing e with
  | nil =>
    refine ⟨Nat.zero_le _, ?_⟩
    intro before request after h
    exact absurd h (by simp [attempts])
  | cons attempt rest ih =>
    have h : FromAttempt fetcher env url etag lastModified attempt rest _ := attempts_from rest e
    generalize attempts fetcher env url etag lastModified (attempt :: rest) e = f at h ⊢
    cases h with
    | stops result => exact ⟨Nat.succ_le_succ (Nat.zero_le _), fun b x a k _ => hone _ b x a k⟩
    | raises delays message =>
      exact ⟨Nat.succ_le_succ (Nat.zero_le _), fun b x a k _ => hone _ b x a k⟩
    | sleeps error delay hretried =>
      obtain ⟨hlength, hblocks⟩ := ih (some error)
      refine ⟨Nat.succ_le_succ hlength, ?_⟩
      intro before request after k hblock
      cases before with
      | nil =>
        obtain ⟨rfl, _⟩ := List.cons.inj k
        rw [not_block_of_retried hretried] at hblock
        cases hblock
      | cons y before => exact hblocks before request after (List.cons.inj k).2 hblock

/-- **A loop that ends in a declared way has slept no delay outside the cap.** -/
theorem attempts_delays (rest : List Nat) (e : Option Text)
    (h : ∀ message, (attempts fetcher env url etag lastModified rest e).result ≠ .raises message) :
    ∀ delay ∈ (attempts fetcher env url etag lastModified rest e).delays,
      0 ≤ delay ∧ delay ≤ maxBackoffSeconds := by
  induction rest generalizing e with
  | nil => exact List.forall_mem_nil _
  | cons attempt rest ih =>
    have hfrom : FromAttempt fetcher env url etag lastModified attempt rest _ :=
      attempts_from rest e
    generalize attempts fetcher env url etag lastModified (attempt :: rest) e = f at h hfrom ⊢
    cases hfrom with
    | stops result => exact List.forall_mem_nil _
    | raises delays message => exact absurd rfl (h message)
    | sleeps error delay _ _ hrange => exact List.forall_mem_cons.mpr ⟨hrange, ih _ h⟩

/-- **The loop ends in a declared way exactly if every wait it reaches goes well.** -/
theorem attempts_declared_iff {k c : Nat} (e : Option Text)
    (hlast : c ≠ 0 → (k + c : Int) = fetcher.maxAttempts + 1) :
    (∀ message, (attempts fetcher env url etag lastModified (List.range' k c) e).result ≠
        .raises message) ↔ SoundFrom fetcher env.answers k c := by
  induction c generalizing k e with
  | zero =>
    refine iff_of_true (fun _ => Fetch.noConfusion) ?_
    intro n hk hn
    omega
  | succ c ih =>
    have hmax := hlast (Nat.succ_ne_zero c)
    have hfrom : FromAttempt fetcher env url etag lastModified k (List.range' (k + 1) c) _ :=
      attempts_from _ e
    rw [List.range'_succ]
    generalize attempts fetcher env url etag lastModified (k :: List.range' (k + 1) c) e = f
      at hfrom ⊢
    cases hfrom with
    | stops result hdeclared hstop =>
      refine iff_of_true hdeclared ?_
      intro n hk hn hretried
      have := hstop (hretried k (le_refl k) hk)
      omega
    | raises delays message hretried hnot hunsound =>
      refine iff_of_false (fun h => h message rfl) fun h => hunsound ?_
      refine h k (le_refl k) (by push_cast at hmax; omega) ?_
      intro m h1 h2
      rw [Nat.le_antisymm h2 h1]
      exact hretried
    | sleeps error delay hretried hsound _ =>
      rw [ih (some error) (fun _ => by push_cast at hmax ⊢; omega)]
      constructor
      · intro h n hk hn hall
        rcases Nat.eq_or_lt_of_le hk with rfl | hlt
        · exact hsound
        · exact h n hlt (by omega) fun m h1 h2 => hall m (by omega) h2
      · intro h n hk hn hall
        refine h n (by omega) (by omega) ?_
        intro m h1 h2
        rcases Nat.eq_or_lt_of_le h1 with rfl | hlt
        · exact hretried
        · exact hall m hlt h2

/-- a fetch is the loop, unless robots.txt or a validator is in the way -/
theorem fetch_cases :
    (∃ result, fetch fetcher env url etag lastModified = ⟨[], [], result⟩ ∧
      (∀ response, result ≠ .returned response) ∧
      ((∀ message, result ≠ .raises message) ↔ SoundFetch fetcher env etag lastModified)) ∨
    (fetch fetcher env url etag lastModified = attempts fetcher env url etag lastModified
        (List.range' 1 fetcher.maxAttempts.toNat) none ∧
      (SoundFetch fetcher env etag lastModified ↔
        SoundFrom fetcher env.answers 1 fetcher.maxAttempts.toNat)) := by
  by_cases hsent : 0 < fetcher.maxAttempts ∧ ¬AsciiValidators etag lastModified
  · left
    unfold fetch SoundFetch
    simp only [if_pos hsent]
    have hunsound : ¬((0 < fetcher.maxAttempts → AsciiValidators etag lastModified) ∧
        SoundFrom fetcher env.answers 1 fetcher.maxAttempts.toNat) := fun h => hsent.2 (h.1 hsent.1)
    rcases env.robots with _ | ⟨message | allowed⟩
    · exact ⟨_, rfl, nofun, iff_of_false (fun h => h _ rfl) hunsound⟩
    · exact ⟨_, rfl, nofun, iff_of_false (fun h => h message rfl) id⟩
    · cases allowed with
      | false => exact ⟨_, rfl, nofun, iff_of_true (fun _ => Fetch.noConfusion) trivial⟩
      | true => exact ⟨_, rfl, nofun, iff_of_false (fun h => h _ rfl) hunsound⟩
  · have htaken : 0 < fetcher.maxAttempts → AsciiValidators etag lastModified :=
      fun h => by_contra fun hn => hsent ⟨h, hn⟩
    unfold fetch SoundFetch
    simp only [if_neg hsent, and_iff_right htaken]
    rcases env.robots with _ | ⟨message | allowed⟩
    · exact Or.inr ⟨rfl, Iff.rfl⟩
    · exact Or.inl ⟨_, rfl, nofun, iff_of_false (fun h => h message rfl) id⟩
    · cases allowed with
      | false => exact Or.inl ⟨_, rfl, nofun, iff_of_true (fun _ => Fetch.noConfusion) trivial⟩
      | true => exact Or.inr ⟨rfl, Iff.rfl⟩

/-- a fetch ends in a declared way exactly if every wait it reaches goes well -/
theorem fetch_ends_iff :
    (∀ message, (fetch fetcher env url etag lastModified).result ≠ .raises message) ↔
      SoundFetch fetcher env etag lastModified := by
  rcases @fetch_cases fetcher env url etag lastModified with
    ⟨result, hfetch, _, hends⟩ | ⟨hfetch, hs⟩
  · rw [hfetch]
    exact hends
  · rw [hfetch, hs]
    refine attempts_declared_iff none ?_
    intro h
    push_cast
    omega

theorem declared_of_sound (h : SoundFetch fetcher env etag lastModified) :
    Declared fetcher.maxAttempts.toNat (fetch fetcher env url etag lastModified) := by
  have hends : ∀ message, (fetch fetcher env url etag lastModified).result ≠ .raises message :=
    fetch_ends_iff.mpr h
  rcases @fetch_cases fetcher env url etag lastModified with ⟨result, hfetch, _⟩ | ⟨hfetch, _⟩
  · rw [hfetch] at hends ⊢
    refine ⟨Nat.zero_le _, List.forall_mem_nil _, ?_, hends⟩
    intro before request after k
    exact absurd k (by simp)
  · rw [hfetch] at hends ⊢
    obtain ⟨hlength, hblocks⟩ := @attempts_bounded fetcher env url etag lastModified
      (List.range' 1 fetcher.maxAttempts.toNat) none
    rw [List.length_range'] at hlength
    exact ⟨hlength, attempts_delays _ _ hends, hblocks, hends⟩

/-- **A fetch keeps what its docstring promises exactly if robots.txt and the validators raise nothing
and every wait it reaches goes well.** -/
theorem fetch_declared_iff (fetcher : HttpFetcher) (env : FetchEnv) (url : Text)
    (etag lastModified : Option Text) :
    Declared fetcher.maxAttempts.toNat (fetch fetcher env url etag lastModified) ↔
      SoundFetch fetcher env etag lastModified :=
  ⟨fun h => fetch_ends_iff.mp h.ends, declared_of_sound⟩

namespace Sample

def polite : HttpFetcher := { userAgent := txt "geo-risk-intelligence" }

/-- a server that refuses for now, and asks to be asked again a second ago -/
def impatient : FetchEnv :=
  { answers := fun _ => .response
      { url := txt "https://notices.example.invalid/feed.xml"
        statusCode := 429
        header := fun name => if name = txt "retry-after" then some (txt "-1") else none }
    clock := fun _ => ⟨0⟩ }

end Sample

theorem parseFloat_negative : ∃ x, parseFloat (txt "-1") = some x ∧ x < 0 := by
  refine ⟨.ofInt (-1) (by norm_num), ?_, by decide⟩
  have hnumeral : numeral (txt "-1") = some ['-', '1'] := by decide
  have hdecimal : parseDecimal ['1'] = some 1 := by
    have hvalue : digitsValue ['1'] = some 1 := by decide
    simp [parseDecimal, hvalue]
  have hround : Double.ofRat (-1) = .ofInt (-1) (by norm_num) := by
    rw [← Double.ofRat_intCast, Int.cast_neg, Int.cast_one]
  unfold parseFloat
  simp only [hnumeral, Option.bind_eq_bind, Option.bind_some, signed]
  rw [if_neg (by decide), if_neg (by decide), hdecimal, ← hround]
  rfl

/-- the first delay is negative, and `sleep` refuses it -/
theorem fetch_negative_delay :
    ¬Declared Sample.polite.maxAttempts.toNat (fetch Sample.polite Sample.impatient
      (txt "https://notices.example.invalid/feed.xml") none none) := by
  intro h
  have hsound : SoundFetch Sample.polite Sample.impatient none none := fetch_ends_iff.mp h.ends
  have hfirst := hsound.2 1 (le_refl 1) (by decide) fun _ _ _ => rfl
  obtain ⟨x, hx, hneg⟩ := parseFloat_negative
  change SoundRetryAfter Sample.polite 1 (txt "-1") at hfirst
  rw [SoundRetryAfter, hx] at hfirst
  exact hfirst.2.2 hneg

/-- **Without a `Retry-After`, or with one in plain digits, doubling delays go well.** -/
theorem declared_of_digits {h2 : |(2 : Int)| ≤ 2 ^ 53}
    (hbase : fetcher.backoffBaseSeconds = .ofInt 2 h2)
    (hmax : fetcher.maxAttempts ≤ 1024) (hrobots : ∀ message, env.robots ≠ some (.error message))
    (hascii : AsciiValidators etag lastModified)
    (hdigits : ∀ n r, env.answers n = .response r → ∀ raw, r.header (txt "retry-after") = some raw →
      ∀ c ∈ raw, isAsciiDigit c = true) :
    Declared fetcher.maxAttempts.toNat (fetch fetcher env url etag lastModified) := by
  have hwaits : SoundFrom fetcher env.answers 1 fetcher.maxAttempts.toNat := by
    intro n _ hn _
    have hpower : SoundPower fetcher n := by
      unfold SoundPower
      rw [hbase]
      exact Double.exists_pow_two h2 (by omega)
    cases hanswer : env.answers n with
    | transportError message => exact hpower
    | response r =>
      unfold SoundWait
      simp only
      cases hraw : r.header (txt "retry-after") with
      | none => exact hpower
      | some raw =>
        cases raw with
        | nil => exact hpower
        | cons c raw =>
          obtain ⟨x, hx, h0⟩ := parseFloat_digits (List.cons_ne_nil c raw)
            (hdigits n r hanswer _ hraw)
          simp only [SoundRetryAfter, hx]
          exact h0
  refine declared_of_sound ?_
  unfold SoundFetch
  rcases hverdict : env.robots with _ | ⟨message | allowed⟩
  · exact ⟨fun _ => hascii, hwaits⟩
  · exact absurd hverdict (hrobots message)
  · cases allowed with
    | false => trivial
    | true => exact ⟨fun _ => hascii, hwaits⟩

end

section
variable {fetcher : HttpFetcher} {env : FetchEnv} {url : Text} {etag lastModified : Option Text}
  {U : Unicode} {sha : Text → Text} {store : Store} {source : Source} {run : SourceEnv}
  {now : DateTime}

/-- **Where a wait goes wrong, the run of a source lets the exception of the fetcher through.** -/
theorem ingestSource_of_unsound (ho : run.opens = true) (ha : run.adapter = .ok ())
    (hf : run.fetch = (fetch fetcher env url etag lastModified).result)
    (h : ¬SoundFetch fetcher env etag lastModified) :
    ∃ e, (ingestSource U sha store source run now).result = .error e := by
  obtain ⟨message, hraises⟩ : ∃ message, run.fetch = .raises message := by
    rw [hf]
    by_contra hnone
    exact h (fetch_ends_iff.mp (not_exists.mp hnone))
  refine ⟨message, ?_⟩
  unfold ingestSource
  simp only [ho, ha, hraises, Bool.not_true, Bool.false_eq_true, if_false]

end

end GeoRisk
