import AgentGather.Library.UrlAuthority
import AgentGather.Tunnel.Paths

/-!
# The request listener of the room server

The listener reads the target of a request before anything can catch what it throws, and a
target can name an authority that nobody can read.
-/

namespace AgentGather.Server

open AgentGather.Library AgentGather.Library.Url

variable {ρ ε : Type}

/-- The request listener: the target, or `/`, is read against the base URL of the server, and an
error of `handleRequest` is sent.  None where reading the target throws: nothing catches it. -/
def requestListener (H : HostParser) (baseUrl : List Char) (handleRequest : Url → Except ε ρ)
    (sendError : ε → ρ) (target : Option (List Char)) : Option ρ :=
  (resolve H (target.getD ['/']) baseUrl).map fun url =>
    match handleRequest url with
    | .ok response => response
    | .error error => sendError error

/-- The listener that dispatches, of a server at the origin. -/
theorem listen_eq_requestListener {H : HostParser} (base : WebOrigin H) (method : String)
    (sendError : ε → Option Endpoint) (target : List Char) :
    listen base method target = requestListener H base.written
      (fun url => .ok (dispatch method (String.ofList url.pathname))) sendError (some target) := rfl

/-- The listener throws exactly on a target that names an authority that cannot be read. -/
theorem requestListener_eq_none_iff (H : HostParser) {baseUrl : List Char} {base : Url}
    (hbase : parse H none baseUrl = some base) (hhttp : base.isHttp = true)
    (handleRequest : Url → Except ε ρ) (sendError : ε → ρ) (target : Option (List Char)) :
    requestListener H baseUrl handleRequest sendError target = none ↔
      NamesUnreadable H base.scheme (target.getD ['/']) := by
  rw [requestListener, Option.map_eq_none_iff, resolve, hbase, Option.bind_some,
    parse_eq_none_iff (isWebUrl_of_parse hbase hhttp)]

/-- Every request has its response exactly if its target does not name an authority that cannot be
read. -/
theorem requestListener_responds_iff (H : HostParser) {baseUrl : List Char} {base : Url}
    (hbase : parse H none baseUrl = some base) (hhttp : base.isHttp = true)
    (handleRequest : Url → Except ε ρ) (sendError : ε → ρ) (target : Option (List Char)) :
    (∃ response, requestListener H baseUrl handleRequest sendError target = some response ∧
        ∃ url, (handleRequest url = .ok response ∨
          ∃ error, handleRequest url = .error error ∧ sendError error = response)) ↔
      ¬ NamesUnreadable H base.scheme (target.getD ['/']) := by
  rw [← requestListener_eq_none_iff H hbase hhttp handleRequest sendError target,
    requestListener]
  cases resolve H (target.getD ['/']) baseUrl with
  | none => simp
  | some url =>
      simp only [Option.map_some, Option.some.injEq, reduceCtorEq, not_false_eq_true, iff_true]
      refine ⟨_, rfl, url, ?_⟩
      cases handleRequest url with
      | ok response => exact .inl rfl
      | error error => exact .inr ⟨error, rfl, rfl⟩

theorem requestListener_responds_iff_status :
    ∃ response, requestListener .plain "http://127.0.0.1:8787".toList
        (fun _ => Except.error "internal error") (fun error => (500, error))
        (some "/status".toList) = some response ∧
      ∃ _ : Url, (Except.error "internal error" = Except.ok response ∨
        ∃ error, Except.error (α := Nat × String) "internal error" = .error error ∧
          (500, error) = response) := by
  have hbase : parse .plain none "http://127.0.0.1:8787".toList =
      some ⟨"http".toList, [], [], some "127.0.0.1".toList, some 8787, .segments [[]], none,
        none⟩ := by decide
  refine (requestListener_responds_iff .plain hbase (by decide)
    (fun _ => .error "internal error") (fun error => (500, error)) (some "/status".toList)).mpr ?_
  rintro ⟨scheme, text, hnamed, -⟩
  have hnone : namedAuthority "http".toList "/status".toList = none := by decide
  exact absurd (hnone.symm.trans hnamed) (Option.some_ne_none _).symm

/-- Behind the slug of a room two slashes and a port out of range reach the listener through the
tunnel, and no handler is asked. -/
theorem requestListener_throws :
    ¬ (∀ f, Tunnel.forwarded .plain (· = "abc".toList) "/abc//x:99999/".toList = some f →
      ∀ target, Tunnel.fetchedTarget Tunnel.localRoom (f.path ++ f.search) = some target →
        (requestListener .plain Tunnel.localRoom.written (fun _ => Except.ok 200)
          (fun error : String => error.length) (some target)).isSome = true) := by
  intro h
  have hanswered := h ⟨"abc".toList, "//x:99999/".toList, []⟩ (by decide)
    "//x:99999/".toList (by decide)
  exact absurd hanswered (by decide)

/-! ## The process of the server -/

/-- The responses of a process to the requests that reach it: what a listener throws ends it. -/
def responses {τ : Type} (listener : τ → Option ρ) : List τ → List ρ
  | [] => []
  | request :: requests =>
      match listener request with
      | none => []
      | some response => response :: responses listener requests

theorem responses_length_eq_iff {τ : Type} (listener : τ → Option ρ) (requests : List τ) :
    (responses listener requests).length = requests.length ↔
      ∀ request ∈ requests, listener request ≠ none := by
  induction requests with
  | nil => simp [responses]
  | cons request requests ih =>
      rw [responses, List.forall_mem_cons, ← ih]
      cases listener request with
      | none => simp
      | some response => simp

/-- A server answers all the requests that reach it exactly if none of them names an authority
that cannot be read: the first that does ends the room. -/
theorem requestListener_answersAll_iff (H : HostParser) {baseUrl : List Char} {base : Url}
    (hbase : parse H none baseUrl = some base) (hhttp : base.isHttp = true)
    (handleRequest : Url → Except ε ρ) (sendError : ε → ρ) (targets : List (Option (List Char))) :
    (responses (requestListener H baseUrl handleRequest sendError) targets).length =
        targets.length ↔
      ∀ target ∈ targets, ¬ NamesUnreadable H base.scheme (target.getD ['/']) := by
  rw [responses_length_eq_iff]
  simp only [ne_eq, requestListener_eq_none_iff H hbase hhttp]

end AgentGather.Server
