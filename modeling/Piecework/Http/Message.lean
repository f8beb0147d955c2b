/-
# Piecework.Http.Message — requests and responses.

Of a request the service reads the method, the path, the content type and the body; of a response its
callers read the status, the body, its content type and, where a method is not served, the methods that
are.
-/
import Piecework.Http.MediaType

namespace Piecework.Http

/-- A request. -/
structure Request where
  method : String
  /-- The path, with the query behind it. -/
  target : String
  contentType : Option String
  body : String
deriving DecidableEq, Repr

/-- A request without body. -/
def Request.get (target : String) : Request := ⟨"GET", target, none, ""⟩

/-- A request with a body of JSON. -/
def Request.post (target body : String) : Request := ⟨"POST", target, some "application/json", body⟩

/-- The path without query and fragment. -/
def Request.path (r : Request) : List Char := r.target.toList.takeWhile fun c => c ≠ '?' ∧ c ≠ '#'

/-- A response. -/
structure Response where
  status : Nat
  body : String
  contentType : Option String
  /-- The methods that are served. -/
  allow : Option String
deriving DecidableEq, Repr

namespace Response

/-- A response without body. -/
def bare (status : Nat) (allow : Option String) : Response := ⟨status, "", none, allow⟩

/-- A response with a body of JSON. -/
def json (status : Nat) (body : String) : Response := ⟨status, body, some "application/json", none⟩

/-- A response with a body of plain text. -/
def plain (status : Nat) (body : String) : Response :=
  ⟨status, body, some "text/plain; charset=utf-8", none⟩

/-- Whether the request was carried out. -/
def isSuccess (r : Response) : Bool := 200 ≤ r.status ∧ r.status < 300

end Response

end Piecework.Http
