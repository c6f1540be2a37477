import Strfry.RateChecks

/-!
# Requests in flight

The pre-routing handler counts a request in `activeRequests_`, and the post-routing handler takes it out
of the count again. The library runs the post-routing handler for every response, also when the
pre-routing handler has answered the request itself. That handler then has taken the request out of the
count already, so such a request is taken out twice.

`Exact` is what the counter is for. A step keeps it exactly when it is not the pre-routing handler
answering a request (`Step.exact_iff`).

Requests run in threads of their own. The steps of a thread that others can see are the increment at
the start of the pre-routing handler, what the handler decides, and the post-routing handler; the rate
limiter's own thread cleans its buckets up in between. The client
address and the pubkey of a request are what `getClientIP` and `extractPubkeyFromRequest` return for it.
-/

set_option autoImplicit false

namespace Strfry

open Lib

/-- What the pre-routing handler looks at. -/
structure HttpRequest where
  method : String
  path : String
  clientIP : Bytes
  pubkey : Bytes

/-- `httplib::Server::HandlerResponse`. -/
inductive HandlerResponse
  | handled
  | unhandled
  deriving DecidableEq

/-- How far a request in flight is: in the pre-routing handler, or returned from it. -/
inductive RequestPhase
  | preRouting
  | returned (response : HandlerResponse)

/-- The part of `HttpServer` that counts requests. `inFlight` are the requests whose pre-routing handler
has been entered and whose response has not passed the post-routing handler; `notified` counts the calls
of `notify_one`. -/
structure HttpServer where
  enableCors : Bool
  rateLimiter : Option RateLimiter
  activeRequests : Int := 0
  shuttingDown : Bool := false
  notified : Nat := 0
  inFlight : List (HttpRequest × RequestPhase) := []

/-- The value that an `int` takes. -/
def wrapInt (n : Int) : Int := (n + 2 ^ 31) % 2 ^ 32 - 2 ^ 31

namespace HttpServer

/-- The increment at the start of the pre-routing handler. -/
def countRequest (s : HttpServer) : HttpServer :=
  { s with activeRequests := wrapInt (s.activeRequests + 1) }

/-- `decrementActiveRequests`. -/
def decrementActiveRequests (s : HttpServer) : HttpServer :=
  { s with
    activeRequests := wrapInt (s.activeRequests - 1)
    notified := if s.activeRequests = 1 ∧ s.shuttingDown = true then s.notified + 1 else s.notified }

/-- The pre-routing handler after the increment. -/
def preRouting (s : HttpServer) (r : Readings) (req : HttpRequest) : HandlerResponse × HttpServer :=
  if req.method = "OPTIONS" ∧ s.enableCors = true then (.handled, s.decrementActiveRequests)
  else if req.path ≠ "/health" ∧ req.path ≠ "/metrics" then
    match s.rateLimiter with
    | none => (.unhandled, s)
    | some limiter =>
      let res := limiter.checkAndConsume r req.clientIP req.pubkey
      let s := { s with rateLimiter := some res.2 }
      if !res.1.allowed then (.handled, s.decrementActiveRequests) else (.unhandled, s)
  else (.unhandled, s)

/-- Whether `gracefulShutdown` goes on without waiting. -/
def skipsWait (s : HttpServer) : Bool := !decide (0 < s.activeRequests)

/-- The steps. -/
inductive Action
  | enter (req : HttpRequest)
  | preRouting (r : Readings) (req : HttpRequest)
  | postRouting
  | cleanup (r : CleanupReadings)
  | gracefulShutdown

/-- One step of one thread. -/
inductive Step : HttpServer → Action → HttpServer → Prop
  | enter {s : HttpServer} (req : HttpRequest) : Step s (.enter req)
      { s.countRequest with inFlight := s.inFlight ++ [(req, .preRouting)] }
  | preRouting {s : HttpServer} (r : Readings) {req : HttpRequest}
      {before after : List (HttpRequest × RequestPhase)}
      (running : s.inFlight = before ++ (req, .preRouting) :: after) :
      Step s (.preRouting r req) { (s.preRouting r req).2 with
        inFlight := before ++ (req, .returned (s.preRouting r req).1) :: after }
  | postRouting {s : HttpServer} {req : HttpRequest} {response : HandlerResponse}
      {before after : List (HttpRequest × RequestPhase)}
      (running : s.inFlight = before ++ (req, .returned response) :: after) :
      Step s .postRouting { s.decrementActiveRequests with inFlight := before ++ after }
  | cleanup {s : HttpServer} (r : CleanupReadings) :
      Step s (.cleanup r) { s with rateLimiter := s.rateLimiter.map (·.cleanup r) }
  | gracefulShutdown {s : HttpServer} : Step s .gracefulShutdown { s with shuttingDown := true }

/-- A step of a run: the state before, the action, and the state after it. -/
structure Taken where
  before : HttpServer
  act : Action
  after : HttpServer

/-- Any interleaving of steps, from a server that has just been constructed. -/
inductive Run (enableCors : Bool) (rateLimiter : Option RateLimiter) : List Taken → HttpServer → Prop
  | refl : Run enableCors rateLimiter [] { enableCors := enableCors, rateLimiter := rateLimiter }
  | tail {steps : List Taken} {s s' : HttpServer} {act : Action}
      (hrun : Run enableCors rateLimiter steps s) (hstep : Step s act s') :
      Run enableCors rateLimiter (steps ++ [⟨s, act, s'⟩]) s'

/-- The counter is right: it is the number of requests in flight, and a shutdown that does not wait has
none to wait for. -/
structure Exact (s : HttpServer) : Prop where
  count : s.activeRequests = s.inFlight.length
  nonneg : 0 ≤ s.activeRequests
  shutdown : s.skipsWait = true → s.inFlight = []

/-- The pre-routing handler answers the request itself: it is a CORS preflight, or one of the buckets of
the rate limiter has no token for it. -/
def Answers (s : HttpServer) (r : Readings) (req : HttpRequest) : Prop :=
  (req.method = "OPTIONS" ∧ s.enableCors = true) ∨
    (req.path ≠ "/health" ∧ req.path ≠ "/metrics" ∧
      ∃ limiter, s.rateLimiter = some limiter ∧
        ∃ l ∈ limiter.checks r req.clientIP req.pubkey, l < 1)

/-- The step is such an answer. -/
def Taken.Answered (p : Taken) : Prop := ∃ r req, p.act = .preRouting r req ∧ p.before.Answers r req

section

variable {s s' : HttpServer} {act : Action}

theorem exact_of_count (h : s.activeRequests = s.inFlight.length) : Exact s := by
  refine ⟨h, by omega, fun hskip => ?_⟩
  rw [skipsWait, Bool.not_eq_true', decide_eq_false_iff_not] at hskip
  exact List.length_eq_zero_iff.1 (by omega)

/-- What the handler leaves: the count as it was, or one less when it has answered the request. -/
theorem preRouting_spec (s : HttpServer) (r : Readings) (req : HttpRequest) :
    (s.Answers r req ∧ (s.preRouting r req).1 = .handled ∧
        (s.preRouting r req).2.activeRequests = wrapInt (s.activeRequests - 1)) ∨
      (¬ s.Answers r req ∧ (s.preRouting r req).1 = .unhandled ∧
        (s.preRouting r req).2.activeRequests = s.activeRequests) := by
  unfold preRouting Answers
  split_ifs with hcors hpath
  · exact Or.inl ⟨Or.inl hcors, rfl, rfl⟩
  · cases hl : s.rateLimiter with
    | none =>
      refine Or.inr ⟨?_, rfl, rfl⟩
      rintro (h | ⟨-, -, limiter, h, -⟩)
      · exact hcors h
      · cases h
    | some limiter =>
      have hallowed := limiter.allowed_iff r req.clientIP req.pubkey
      cases hres : (limiter.checkAndConsume r req.clientIP req.pubkey).1.allowed with
      | false =>
        left
        simp only [hres, Bool.not_false, if_true]
        refine ⟨Or.inr ⟨hpath.1, hpath.2, limiter, rfl, ?_⟩, trivial, rfl⟩
        by_contra hno
        push Not at hno
        rw [hallowed.2 hno] at hres
        cases hres
      | true =>
        right
        simp only [hres, Bool.not_true, Bool.false_eq_true, if_false]
        refine ⟨?_, trivial, trivial⟩
        rintro (h | ⟨-, -, limiter', h, l, hmem, hlt⟩)
        · exact hcors h
        · cases h
          exact absurd (hallowed.1 hres l hmem) (not_le.2 hlt)
  · refine Or.inr ⟨?_, rfl, rfl⟩
    rintro (h | ⟨hhealth, hmetrics, -⟩)
    · exact hcors h
    · exact hpath ⟨hhealth, hmetrics⟩

/-- The step lemma: the counter stays right exactly when the pre-routing handler does not answer. -/
theorem Step.exact_iff (h : Step s act s') (hs : Exact s) (hfew : s'.inFlight.length < 2 ^ 31) :
    Exact s' ↔ ¬ Taken.Answered ⟨s, act, s'⟩ := by
  have hcount := hs.count
  cases h with
  | enter req =>
    refine ⟨fun _ => ?_, fun _ => exact_of_count ?_⟩
    · rintro ⟨r, req', heq, -⟩
      cases heq
    · rw [List.length_append, List.length_singleton] at hfew ⊢
      simp only [countRequest, wrapInt, hcount]
      omega
  | @preRouting r req before after running =>
    rw [running, List.length_append, List.length_cons] at hcount
    rw [List.length_append, List.length_cons] at hfew
    rcases s.preRouting_spec r req with ⟨hans, -, hval⟩ | ⟨hnot, -, hval⟩
    · refine ⟨fun hex => ?_, fun hno => absurd ⟨r, req, rfl, hans⟩ hno⟩
      -- the request is in flight, and no longer counted
      have := hex.count
      simp only [hval, wrapInt, hcount, List.length_append, List.length_cons] at this
      omega
    · refine ⟨fun _ => ?_, fun _ => exact_of_count ?_⟩
      · rintro ⟨r', req', heq, hans⟩
        cases heq
        exact hnot hans
      · simp only [hval, hcount, List.length_append, List.length_cons]
  | postRouting running =>
    refine ⟨fun _ => ?_, fun _ => exact_of_count ?_⟩
    · rintro ⟨r, req', heq, -⟩
      cases heq
    · rw [running, List.length_append, List.length_cons] at hcount
      rw [List.length_append] at hfew ⊢
      simp only [decrementActiveRequests, wrapInt, hcount]
      omega
  | cleanup r =>
    refine ⟨fun _ => ?_, fun _ => exact_of_count hcount⟩
    rintro ⟨r', req', heq, -⟩
    cases heq
  | gracefulShutdown =>
    refine ⟨fun _ => ?_, fun _ => exact_of_count hcount⟩
    rintro ⟨r, req', heq, -⟩
    cases heq

variable {enableCors : Bool} {rateLimiter : Option RateLimiter} {steps : List Taken}

theorem Run.exact_last (h : Run enableCors rateLimiter steps s) (hall : ∀ p ∈ steps, Exact p.after) :
    Exact s := by
  cases h with
  | refl => exact exact_of_count rfl
  | tail hrun hstep => exact hall _ (List.mem_append_right _ (List.mem_singleton_self _))

/-- The counter is right in every state of a run exactly when the pre-routing handler has answered no
request in it, as long as the requests in flight are fewer than an `int` can count. -/
theorem active_requests_exact_iff (h : Run enableCors rateLimiter steps s)
    (hfew : ∀ p ∈ steps, p.after.inFlight.length < 2 ^ 31) :
    (∀ p ∈ steps, Exact p.after) ↔ ∀ p ∈ steps, ¬ p.Answered := by
  induction h with
  | refl => exact ⟨fun _ _ hp => absurd hp (List.not_mem_nil), fun _ _ hp => absurd hp (List.not_mem_nil)⟩
  | @tail steps s s' act hrun hstep ih =>
    have ih' := ih fun p hp => hfew p (List.mem_append_left _ hp)
    have hlast := hfew ⟨s, act, s'⟩ (List.mem_append_right _ (List.mem_singleton_self _))
    constructor
    · intro hall p hp
      have hpre : ∀ p ∈ steps, Exact p.after := fun p hp => hall p (List.mem_append_left _ hp)
      rcases List.mem_append.1 hp with hp | hp
      · exact ih'.1 hpre p hp
      · rw [List.mem_singleton.1 hp, ← hstep.exact_iff (hrun.exact_last hpre) hlast]
        exact hall ⟨s, act, s'⟩ (List.mem_append_right _ (List.mem_singleton_self _))
    · intro hno p hp
      have hpre := ih'.2 fun p hp => hno p (List.mem_append_left _ hp)
      rcases List.mem_append.1 hp with hp | hp
      · exact hpre p hp
      · rw [List.mem_singleton.1 hp]
        apply (hstep.exact_iff (hrun.exact_last hpre) hlast).2
        exact hno ⟨s, act, s'⟩ (List.mem_append_right _ (List.mem_singleton_self _))

end

/-- A request without a rate limiter in its way: a fetch of the root page. -/
def rootRequest : HttpRequest := { method := "GET", path := "/", clientIP := [], pubkey := [] }

/-- A CORS preflight. -/
def preflight : HttpRequest := { method := "OPTIONS", path := "/", clientIP := [], pubkey := [] }

/-- While the root page is served, the counter is one. -/
theorem active_requests_exact_rootRequest :
    ∃ steps s, Run true none steps s ∧ s.inFlight = [(rootRequest, .returned .unhandled)] ∧
      s.activeRequests = 1 ∧ ∀ p ∈ steps, Exact p.after := by
  have hrun : Run true none _ _ := (Run.refl.tail (.enter rootRequest)).tail (.preRouting
    (RateLimiter.still 0) (rfl : _ = [] ++ (rootRequest, RequestPhase.preRouting) :: []))
  refine ⟨_, _, hrun, rfl, rfl, (active_requests_exact_iff hrun ?_).2 ?_⟩
  · intro p hp
    simp only [List.nil_append, List.cons_append, List.mem_cons, List.not_mem_nil, or_false] at hp
    rcases hp with rfl | rfl
    · exact (by norm_num : (1 : Nat) < 2 ^ 31)
    · exact (by norm_num : (1 : Nat) < 2 ^ 31)
  · intro p hp
    simp only [List.nil_append, List.cons_append, List.mem_cons, List.not_mem_nil, or_false] at hp
    rcases hp with rfl | rfl
    · rintro ⟨r, req, heq, -⟩
      cases heq
    · rintro ⟨r, req, heq, hans⟩
      cases heq
      rcases hans with ⟨hmethod, -⟩ | ⟨-, -, limiter, hlimiter, -⟩
      · exact absurd hmethod (by decide)
      · cases hlimiter

/-- A preflight is taken out of the count when it is answered and once more when the answer is written:
the counter is -1 with no request in flight, and 0 while the next request is being served. -/
theorem preflight_counted_twice :
    ∃ steps s, Run true none steps s ∧ s.inFlight = [(rootRequest, .returned .unhandled)] ∧
      s.activeRequests = 0 ∧ s.skipsWait = true ∧ ∃ p ∈ steps, p.after.activeRequests = -1 := by
  have hfirst : Run true none _ _ := (Run.refl.tail (.enter preflight)).tail (.preRouting
    (RateLimiter.still 0) (rfl : _ = [] ++ (preflight, RequestPhase.preRouting) :: []))
  have hwritten := hfirst.tail (.postRouting
    (rfl : _ = [] ++ (preflight, RequestPhase.returned .handled) :: []))
  have hnext := (hwritten.tail (.enter rootRequest)).tail (.preRouting
    (RateLimiter.still 0) (rfl : _ = [] ++ (rootRequest, RequestPhase.preRouting) :: []))
  refine ⟨_, _, hnext, rfl, rfl, rfl, ?_⟩
  refine ⟨_, List.mem_append_left _ (List.mem_append_left _ (List.mem_append_right _
    (List.mem_singleton_self _))), rfl⟩

end HttpServer

end Strfry
