import Strfry.HttpQuery

/-!
# The status of a query that fails

`handleQuery` takes an exception for the client's error when its text has one of two words in it. The texts
of the constructors about a filter have the word, apart from the one about a request without filters; the
texts of the libraries that the constructors call need not. `blamesClient_iff` says which filters are
answered with status 400 when they are malformed.
-/

set_option autoImplicit false

namespace Strfry

open Lib

namespace QueryEnv

/-- A filter that is rejected is answered with status 400, and the status is 500 only when the filter has
been built. -/
def BlamesClient (env : QueryEnv) (method : String) (body : Bytes) (p : QueryParams) : Prop :=
  ∀ v, env.requestFilter method body p = .ok v → ∀ st fuel,
    (∀ e, NostrFilterGroup.unwrapped env.hex v maxU64 = .error e →
      ∃ response, env.handleQuery st fuel method body p = some response ∧ response.status = 400) ∧
    ∀ response, env.handleQuery st fuel method body p = some response → response.status = 500 →
      ∃ g, NostrFilterGroup.unwrapped env.hex v maxU64 = .ok g

/-- The fault is reported in a text that is recognised as one about a filter. -/
def Recognised (env : QueryEnv) : FilterFault → Prop
  | .own => True
  | .tooSmall => False
  | .library e => env.isFilterError e = true

section Status

variable {env : QueryEnv}

theorem mentions_filter {msg : String} (h : msg ∈ filterMessages) : mentions msg "filter" = true := by
  revert msg
  decide

/-- The text of the exception decides like the fault. -/
theorem isFilterError_iff (hwhat : ∀ msg, env.what (.herr msg) = msg) {f : FilterFault} {e : Err}
    (h : f.Thrown e) : env.isFilterError e = true ↔ env.Recognised f := by
  cases f with
  | own =>
    obtain ⟨msg, hmsg, rfl⟩ := h
    rw [isFilterError, hwhat, mentions_filter hmsg, Bool.true_or]
    exact iff_of_true rfl trivial
  | tooSmall =>
    have he : e = .herr "too small" := h
    rw [he, isFilterError, hwhat]
    exact iff_of_false (by decide) id
  | library e' =>
    have he : e = e' := h
    rw [he]
    exact Iff.rfl

theorem status_queryFailure (e : Err) :
    (env.queryFailure e).status = if env.isFilterError e = true then 400 else 500 := by
  rw [queryFailure]
  split
  · rfl
  · rfl

theorem handleQuery_of_rejected {method : String} {body : Bytes} {p : QueryParams} {v : Json} {e : Err}
    (hv : env.requestFilter method body p = .ok v)
    (he : NostrFilterGroup.unwrapped env.hex v maxU64 = .error e) (st : Store) (fuel : Nat) :
    env.handleQuery st fuel method body p = some (env.queryFailure e) := by
  rw [handleQuery, hv]
  exact runQuery_of_error he st fuel

end Status

/-- Malformed filters are the client's error if and only if the first thing that is wrong with the filter, in
the order of the constructors, is reported in a text that is recognised. -/
theorem blamesClient_iff {env : QueryEnv} (hwhat : ∀ msg, env.what (.herr msg) = msg) (method : String)
    (body : Bytes) (p : QueryParams) :
    env.BlamesClient method body p ↔
      ∀ v, env.requestFilter method body p = .ok v →
        ∀ f, groupFault env.hex v = some f → env.Recognised f := by
  constructor
  · intro h v hv f hf
    have hjudges := @judges_unwrapped env.hex maxU64 v
    rw [hf] at hjudges
    cases hmake : NostrFilterGroup.unwrapped env.hex v maxU64 with
    | ok g =>
      rw [hmake] at hjudges
      cases hjudges
    | error e =>
      rw [hmake] at hjudges
      obtain ⟨f', heq, hthrown⟩ := hjudges
      cases heq
      -- the response does not depend on the store, so any one will do
      obtain ⟨response, hanswer, hstatus⟩ := (h v hv .empty 0).1 e hmake
      rw [handleQuery_of_rejected hv hmake, Option.some.injEq] at hanswer
      rw [← hanswer, status_queryFailure] at hstatus
      apply (isFilterError_iff hwhat hthrown).mp
      by_contra hnot
      rw [if_neg hnot] at hstatus
      cases hstatus
  · intro h v hv st fuel
    have hjudges := @judges_unwrapped env.hex maxU64 v
    cases hmake : NostrFilterGroup.unwrapped env.hex v maxU64 with
    | ok g => exact ⟨nofun, fun _ _ _ => ⟨g, rfl⟩⟩
    | error e =>
      rw [hmake] at hjudges
      obtain ⟨f, hf, hthrown⟩ := hjudges
      have hstatus : (env.queryFailure e).status = 400 := by
        rw [status_queryFailure, if_pos ((isFilterError_iff hwhat hthrown).mpr (h v hv f hf))]
      refine ⟨fun _ _ => ⟨_, handleQuery_of_rejected hv hmake st fuel, hstatus⟩, ?_⟩
      intro response hanswer hinternal
      rw [handleQuery_of_rejected hv hmake, Option.some.injEq] at hanswer
      rw [← hanswer, hstatus] at hinternal
      cases hinternal

/-- An author that is too short is the client's error. -/
theorem blamesClient_iff_author :
    emptyArrayEnv.requestFilter "GET" [] { authors := ascii "ab" } =
        .ok (.object [(ascii "authors", .array [.string (ascii "ab")])]) ∧
      groupFault hexCodec (.object [(ascii "authors", .array [.string (ascii "ab")])]) = some .own ∧
      emptyArrayEnv.BlamesClient "GET" [] { authors := ascii "ab" } := by
  have hfilter : emptyArrayEnv.requestFilter "GET" [] { authors := ascii "ab" } =
      .ok (.object [(ascii "authors", .array [.string (ascii "ab")])]) := by
    rfl
  have hfault : groupFault hexCodec (.object [(ascii "authors", .array [.string (ascii "ab")])]) =
      some .own := by
    rfl
  refine ⟨hfilter, hfault, ?_⟩
  apply (blamesClient_iff (fun _ => rfl) "GET" [] { authors := ascii "ab" }).mpr
  intro v hv f hf
  rw [hfilter] at hv
  cases hv
  have hown : some FilterFault.own = some f := hfault.symm.trans hf
  cases hown
  trivial

/-- A POST of an empty array is answered with status 500, though it is the constructor of the group that
rejects it. -/
theorem empty_array_internal_error :
    NostrFilterGroup.unwrapped hexCodec (.array []) maxU64 = .error (.herr "too small") ∧
      emptyArrayEnv.requestFilter "POST" (ascii "[]") {} = .ok (.array []) ∧
      emptyArrayEnv.handleQuery .empty 0 "POST" (ascii "[]") {} =
        some (.failure 500 "Internal server error") ∧
      ¬ emptyArrayEnv.BlamesClient "POST" (ascii "[]") {} := by
  have hmake : NostrFilterGroup.unwrapped hexCodec (.array []) maxU64 = .error (.herr "too small") := by
    rfl
  have hfilter : emptyArrayEnv.requestFilter "POST" (ascii "[]") {} = .ok (.array []) := by
    rfl
  have hanswer : emptyArrayEnv.handleQuery .empty 0 "POST" (ascii "[]") {} =
      some (.failure 500 "Internal server error") :=
    handleQuery_of_rejected hfilter hmake .empty 0
  refine ⟨hmake, hfilter, hanswer, ?_⟩
  intro h
  obtain ⟨response, hresponse, hstatus⟩ := (h _ hfilter .empty 0).1 _ hmake
  rw [hanswer, Option.some.injEq] at hresponse
  rw [← hresponse] at hstatus
  cases hstatus

end QueryEnv

end Strfry
