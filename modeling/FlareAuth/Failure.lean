import FlareAuth.Json

/-!
# Failures of a request

The two error classes that reach a client, with their constructors, and the
internal error that any other exception becomes.
-/

namespace FlareAuth

theorem except_bind_eq_ok {ε α β : Type} {x : Except ε α} {f : α → Except ε β} {b : β}
    (h : x >>= f = .ok b) : ∃ a, x = .ok a ∧ f a = .ok b := by
  cases x with
  | error e => cases h
  | ok a => exact ⟨a, rfl, h⟩

inductive Failure where
  | api (status : ℕ) (code message : String) (details : Option Json)
  | oauth (status : ℕ) (error description : String)
  | error (message : String)

def badRequest (message : String) : Failure := .api 400 "bad_request" message none

def unauthorized (message : String) : Failure := .api 401 "unauthorized" message none

def forbidden (message : String) : Failure := .api 403 "forbidden" message none

def notFound (message : String) : Failure := .api 404 "not_found" message none

def conflict (message : String) : Failure := .api 409 "conflict" message none

def preconditionFailed (message : String) : Failure := .api 412 "precondition_failed" message none

def badGateway (message : String) : Failure := .api 502 "bad_gateway" message none

def oauthError (error description : String) (status : ℕ := 400) : Failure :=
  .oauth status error description

end FlareAuth
