import GeoRisk.Ingest.Fetch
import GeoRisk.Kit.Table

/-!
# robots.txt and redirects

`fetch` asks `RobotsPolicy` about its url, once and before its loop; the client then follows the
redirects of every answer by itself.  The robots.txt of each origin, the parser of such a file and
the redirects that are served are the surroundings.

* `parserFor`, `allows`     `RobotsPolicy._parser_for` and `RobotsPolicy.allows`, with the cache;
* `allows_after`            what was asked before does not change a verdict;
* `Redirects`               what a url is answered with, from redirect to redirect;
* `RedirectEnv`             the surroundings, with the client's promise to request the url it is
                            given;
* `documentUrls`            the urls that `fetch` sends a request for a document to;
* `Honoured`                robots.txt allows each of them;
* `Reached`                 the attempts that are made;
* `honoured_iff`            the fetches that honour it.
-/

namespace GeoRisk
open Kit

/-- what `client.get` of a robots.txt comes to -/
inductive RobotsReply
  | response (statusCode : Nat) (text : Text)
  /-- `httpx.HTTPError` -/
  | transportError
  /-- any other exception -/
  | raises (message : Text)

structure RobotsEnv (Parser : Type) where
  /-- the scheme and the host of a url, by `urlparse` -/
  origin : Text → Except Text Text
  /-- the answer to `urljoin(origin, "/robots.txt")` -/
  robotsTxt : Text → RobotsReply
  /-- `parse` of a new `RobotFileParser` -/
  parse : Text → Except Text Parser
  /-- `can_fetch` for an agent and a url -/
  canFetch : Parser → Text → Text → Except Text Bool

structure RobotsPolicy (Parser : Type) where
  userAgent : Text
  /-- the parser of each origin, none where it has no robots.txt -/
  cache : List (Text × Option Parser)

section
variable {Parser : Type} (web : RobotsEnv Parser) (policy : RobotsPolicy Parser)

/-- the `try` block of `_parser_for` -/
def readRobots (origin : Text) : Except Text (Option Parser) :=
  match web.robotsTxt origin with
  | .response statusCode text => if statusCode = 200 then (web.parse text).map some else .ok none
  | .transportError => .ok none
  | .raises message => .error message

def parserFor (url : Text) : Except Text (Option Parser) × RobotsPolicy Parser :=
  match web.origin url with
  | .error message => (.error message, policy)
  | .ok origin =>
    match lookup Prod.fst origin policy.cache with
    | some known => (.ok known.2, policy)
    | none =>
      match readRobots web origin with
      | .error message => (.error message, policy)
      | .ok parser => (.ok parser, { policy with cache := (origin, parser) :: policy.cache })

/-- the verdict on a url, and the policy with what it has learnt -/
def allows (url : Text) : Except Text Bool × RobotsPolicy Parser :=
  let asked := parserFor web policy url
  (asked.1 >>= fun
    | none => .ok true
    | some parser => web.canFetch parser policy.userAgent url,
  asked.2)

end

/-- the redirects that a request meets in turn, and what comes at their end -/
structure Redirects where
  targets : List Text
  final : Answer

/-- the client follows up to `limit` redirects, and requests the target of each -/
def Redirects.requested (limit : Nat) (r : Redirects) : List Text := r.targets.take limit

/-- what `client.get` comes to -/
def Redirects.answer (limit : Nat) (r : Redirects) : Answer :=
  if limit < r.targets.length then .transportError (txt "Exceeded maximum allowed redirects.")
  else r.final

/-- the surroundings of a fetch that enforces robots.txt -/
structure RedirectEnv (Parser : Type) where
  robots : RobotsEnv Parser
  /-- what `RobotsPolicy` remembers of earlier fetches -/
  cache : List (Text × Option Parser) := []
  /-- the url that the client requests for the one it is given: that one, unchanged -/
  requestUrl : Text → Text := id
  requestUrl_given : ∀ u, requestUrl u = u := by exact fun _ => rfl
  /-- `client.max_redirects` -/
  maxRedirects : Nat := 20
  /-- how the request of each attempt is redirected -/
  served : Nat → Redirects
  clock : Nat → DateTime

section
variable {Parser : Type} (fetcher : HttpFetcher) (env : RedirectEnv Parser) (url : Text)
  (etag lastModified : Option Text)

/-- `RobotsPolicy(self._client, self.user_agent)`, as it stands before the fetch -/
def robotsPolicy : RobotsPolicy Parser := ⟨fetcher.userAgent, env.cache⟩

def RedirectEnv.fetchEnv : FetchEnv where
  robots := some (allows env.robots (robotsPolicy fetcher env) url).1
  answers n := (env.served n).answer env.maxRedirects
  clock := env.clock

/-- the urls a document is requested from: at each attempt the one that the client requests for the
url of the fetch, then the target of each redirect that is followed -/
def documentUrls : List Text :=
  let made := (fetch fetcher (env.fetchEnv fetcher url) url etag lastModified).requests.length
  (List.range' 1 made).flatMap fun attempt =>
    env.requestUrl url :: (env.served attempt).requested env.maxRedirects

/-- robots.txt is honoured for every path requested: the policy, as the check of `fetch` leaves it,
allows each of them -/
def Honoured : Prop :=
  ∀ u ∈ documentUrls fetcher env url etag lastModified,
    (allows env.robots (allows env.robots (robotsPolicy fetcher env) url).2 u).1 = .ok true

end

/-- the answer is one to repeat the request after, and the wait goes well -/
def Answer.Waited (fetcher : HttpFetcher) (attempt : Nat) (answer : Answer) : Prop :=
  answer.retried = true ∧ SoundWait fetcher attempt answer

/-- the attempt is one of those allowed, and each one before it is waited after -/
structure Reached (fetcher : HttpFetcher) (answers : Nat → Answer) (attempt : Nat) : Prop where
  pos : 1 ≤ attempt
  le : attempt ≤ fetcher.maxAttempts.toNat
  waited : ∀ m, 1 ≤ m → m < attempt → (answers m).Waited fetcher m

/-! ## the cache -/

section
variable {Parser : Type} {web : RobotsEnv Parser} {policy : RobotsPolicy Parser}

theorem userAgent_parserFor (url : Text) :
    (parserFor web policy url).2.userAgent = policy.userAgent := by
  unfold parserFor
  split
  · rfl
  · split
    · rfl
    · split <;> rfl

/-- an origin that has been asked has the parser it would have if it were asked now -/
theorem parserFor_after (before url : Text) :
    (parserFor web (parserFor web policy before).2 url).1 = (parserFor web policy url).1 := by
  cases hbefore : web.origin before with
  | error message => simp only [parserFor, hbefore]
  | ok asked =>
    cases hknown : lookup Prod.fst asked policy.cache with
    | some known => simp only [parserFor, hbefore, hknown]
    | none =>
      cases hread : readRobots web asked with
      | error message => simp only [parserFor, hbefore, hknown, hread]
      | ok parser =>
        simp only [parserFor, hbefore, hknown, hread]
        cases web.origin url with
        | error message => rfl
        | ok origin =>
          have hcons : lookup Prod.fst origin ((asked, parser) :: policy.cache) =
              if asked = origin then some (asked, parser)
              else lookup Prod.fst origin policy.cache := by
            unfold lookup
            rw [List.find?_cons]
            split <;> simp_all
          by_cases hsame : asked = origin
          · subst hsame
            simp only [hcons, if_true, hknown, hread]
          · simp only [hcons, if_neg hsame]
            cases lookup Prod.fst origin policy.cache with
            | some known => rfl
            | none => cases readRobots web origin <;> rfl

/-- **What was asked before does not change a verdict.** -/
theorem allows_after (before url : Text) :
    (allows web (allows web policy before).2 url).1 = (allows web policy url).1 := by
  unfold allows
  simp only [parserFor_after, userAgent_parserFor]

end

/-! ## the attempts that are made -/

section
variable {fetcher : HttpFetcher} {url : Text} {etag lastModified : Option Text}

/-- **The loop makes request `i` exactly if it has the attempts, and waits after each earlier
one.** -/
theorem lt_requests_attempts_iff {env : FetchEnv} {k c i : Nat} (e : Option Text)
    (hlast : c ≠ 0 → (k + c : Int) = fetcher.maxAttempts + 1) :
    i < (attempts fetcher env url etag lastModified (List.range' k c) e).requests.length ↔
      i < c ∧ ∀ m, k ≤ m → m < k + i → (env.answers m).Waited fetcher m := by
  induction c generalizing k i e with
  | zero => exact iff_of_false (Nat.not_lt_zero i) fun h => Nat.not_lt_zero i h.1
  | succ c ih =>
    have hmax := hlast (Nat.succ_ne_zero c)
    push_cast at hmax
    have hfrom : FromAttempt fetcher env url etag lastModified k (List.range' (k + 1) c) _ :=
      attempts_from _ e
    rw [List.range'_succ]
    generalize attempts fetcher env url etag lastModified (k :: List.range' (k + 1) c) e = f
      at hfrom ⊢
    -- the first request is made in any case
    rcases Nat.eq_zero_or_pos i with rfl | hpos
    · refine iff_of_true ?_ ⟨Nat.succ_pos c, fun m h1 h2 => absurd h1 (Nat.not_le.mpr h2)⟩
      cases hfrom <;> exact Nat.succ_pos _
    · cases hfrom with
      | stops result _ hstop =>
        refine iff_of_false (Nat.not_lt.mpr hpos) ?_
        rintro ⟨hi, hwaited⟩
        have := hstop (hwaited k (le_refl k) (by omega)).1
        omega
      | raises delays message _ _ hunsound =>
        refine iff_of_false (Nat.not_lt.mpr hpos) ?_
        rintro ⟨_, hwaited⟩
        exact hunsound (hwaited k (le_refl k) (by omega)).2
      | sleeps error delay hretried hsound _ =>
        obtain ⟨j, rfl⟩ := Nat.exists_eq_add_of_le' hpos
        rw [List.length_cons, Nat.add_lt_add_iff_right, Nat.add_lt_add_iff_right,
          ih (some error) (fun _ => by push_cast at hmax ⊢; omega)]
        refine and_congr_right fun _ => ?_
        constructor
        · intro h m h1 h2
          rcases Nat.eq_or_lt_of_le h1 with rfl | hlt
          · exact ⟨hretried, hsound⟩
          · exact h m hlt (by omega)
        · intro h m h1 h2
          exact h m (by omega) (by omega)

theorem reached_iff {env : FetchEnv} {n : Nat} (e : Option Text) :
    n ∈ List.range' 1 (attempts fetcher env url etag lastModified
        (List.range' 1 fetcher.maxAttempts.toNat) e).requests.length ↔
      Reached fetcher env.answers n := by
  have hlast : fetcher.maxAttempts.toNat ≠ 0 →
      ((1 : Nat) + fetcher.maxAttempts.toNat : Int) = fetcher.maxAttempts + 1 := by
    intro h
    push_cast
    omega
  rw [List.mem_range'_1]
  constructor
  · rintro ⟨hpos, hlt⟩
    obtain ⟨i, rfl⟩ := Nat.exists_eq_add_of_le hpos
    obtain ⟨hi, hwaited⟩ :=
      (lt_requests_attempts_iff e hlast).mp (Nat.lt_of_add_lt_add_left hlt)
    exact ⟨hpos, by omega, hwaited⟩
  · rintro ⟨hpos, hle, hwaited⟩
    obtain ⟨i, rfl⟩ := Nat.exists_eq_add_of_le hpos
    exact ⟨hpos, Nat.add_lt_add_left
      ((lt_requests_attempts_iff e hlast).mpr ⟨by omega, hwaited⟩) 1⟩

variable {Parser : Type} {env : RedirectEnv Parser}

/-- **A document is requested only if the url of the fetch is allowed and the client takes the
validators, and then from the url and from every redirect of an attempt that is reached.** -/
theorem mem_documentUrls {u : Text} :
    u ∈ documentUrls fetcher env url etag lastModified ↔
      (allows env.robots (robotsPolicy fetcher env) url).1 = .ok true ∧
        AsciiValidators etag lastModified ∧
        ∃ n, Reached fetcher (env.fetchEnv fetcher url).answers n ∧
          (u = url ∨ u ∈ (env.served n).requested env.maxRedirects) := by
  have hrobots : (env.fetchEnv fetcher url).robots =
      some (allows env.robots (robotsPolicy fetcher env) url).1 := rfl
  unfold documentUrls
  rw [List.mem_flatMap]
  rcases hverdict : (allows env.robots (robotsPolicy fetcher env) url).1 with message | allowed
  · rw [hverdict] at hrobots
    simp [fetch, hrobots]
  · rw [hverdict] at hrobots
    cases allowed with
    | false => simp [fetch, hrobots]
    | true =>
      rw [and_iff_right rfl]
      by_cases hsent : 0 < fetcher.maxAttempts ∧ ¬AsciiValidators etag lastModified
      · have hfetch : (fetch fetcher (env.fetchEnv fetcher url) url etag lastModified).requests =
            [] := by
          unfold fetch
          rw [hrobots]
          simp only [if_pos hsent]
        rw [hfetch]
        refine iff_of_false ?_ fun h => hsent.2 h.1
        rintro ⟨n, hn, _⟩
        cases hn
      · have hfetch : fetch fetcher (env.fetchEnv fetcher url) url etag lastModified =
            attempts fetcher (env.fetchEnv fetcher url) url etag lastModified
              (List.range' 1 fetcher.maxAttempts.toNat) none := by
          unfold fetch
          rw [hrobots]
          simp only [if_neg hsent]
        rw [hfetch]
        simp only [reached_iff, List.mem_cons, env.requestUrl_given]
        refine ⟨?_, And.right⟩
        rintro ⟨n, hn, hu⟩
        -- an attempt that is reached is one of those allowed
        have hpos : 0 < fetcher.maxAttempts := by
          have h1 := hn.pos
          have h2 := hn.le
          omega
        exact ⟨by_contra fun hascii => hsent ⟨hpos, hascii⟩, n, hn, hu⟩

end

/-- **robots.txt is honoured exactly if it is in the way of the url itself or the client refuses the
validators, so that nothing is requested, or if it allows every redirect of the attempts that are
reached.** -/
theorem honoured_iff {Parser : Type} (fetcher : HttpFetcher) (env : RedirectEnv Parser) (url : Text)
    (etag lastModified : Option Text) :
    Honoured fetcher env url etag lastModified ↔
      (allows env.robots (robotsPolicy fetcher env) url).1 ≠ .ok true ∨
        ¬AsciiValidators etag lastModified ∨
        ∀ n, Reached fetcher (env.fetchEnv fetcher url).answers n →
          ∀ u ∈ (env.served n).requested env.maxRedirects,
            (allows env.robots (robotsPolicy fetcher env) u).1 = .ok true := by
  unfold Honoured
  simp only [allows_after, mem_documentUrls]
  constructor
  · intro h
    by_cases hallowed : (allows env.robots (robotsPolicy fetcher env) url).1 = .ok true
    · by_cases hascii : AsciiValidators etag lastModified
      · exact Or.inr (Or.inr fun n hn u hu => h u ⟨hallowed, hascii, n, hn, Or.inr hu⟩)
      · exact Or.inr (Or.inl hascii)
    · exact Or.inl hallowed
  · rintro h u ⟨hallowed, hascii, n, hn, rfl | hu⟩
    · exact hallowed
    · exact (h.resolve_left (not_not_intro hallowed)).resolve_left (not_not_intro hascii) n hn u hu

namespace Sample

def host : Text := txt "https://notices.example.invalid"

/-- the one rule of the host is that nothing under `/private/` is to be fetched -/
def privateRule : RobotsEnv Text where
  origin _ := .ok host
  robotsTxt _ := .response 200 (txt "User-agent: *\nDisallow: /private/\n")
  parse text := .ok ((text.drop (txt "User-agent: *\nDisallow: ").length).dropLast)
  canFetch path _ url := .ok (!path.isPrefixOf (url.drop host.length))

/-- the feed has moved to where the rule is -/
def feedMoved : RedirectEnv Text where
  robots := privateRule
  served _ :=
    { targets := [host ++ txt "/private/feed.xml"]
      final := .response
        { url := host ++ txt "/private/feed.xml", statusCode := 200, header := fun _ => none } }
  clock _ := ⟨0⟩

end Sample

/-- the target of the redirect is requested, although robots.txt disallows it -/
theorem redirect_not_honoured :
    ¬Honoured Sample.polite Sample.feedMoved (Sample.host ++ txt "/feed.xml") none none := by
  intro h
  have hrequested : Sample.host ++ txt "/private/feed.xml" ∈
      documentUrls Sample.polite Sample.feedMoved (Sample.host ++ txt "/feed.xml") none none := by
    refine mem_documentUrls.mpr ⟨by decide, by decide, 1, ⟨le_refl 1, by decide, ?_⟩, Or.inr ?_⟩
    · intro m h1 h2
      omega
    · exact List.mem_singleton.mpr rfl
  have hverdict := h _ hrequested
  revert hverdict
  decide

end GeoRisk
