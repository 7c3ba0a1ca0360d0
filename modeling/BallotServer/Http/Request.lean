import BallotServer.Http.Body
import BallotServer.Http.Header
import BallotServer.Http.Target

/-! Requests. A request is made from a method, a target, headers and a body; one whose method,
target or headers are not legal cannot be made. -/

namespace BallotServer.Http

structure Request where
  method : String
  path : String
  headers : List Header
  body : Body
  deriving DecidableEq

namespace Request

def make? (method target : String) (headers : List Header) (body : Body) : Option Request :=
  if isToken method && headers.all Header.isLegal then
    (Target.path? target).map fun path => ⟨method, path, headers, body⟩
  else none

def cookies (r : Request) : List ByteArray := Header.valuesOf "cookie" r.headers

/-- The first `Content-Type`, if it can be read as text. -/
def mediaType? (r : Request) : Option (List Char) :=
  (Header.valuesOf "content-type" r.headers).head?.bind Header.text?

end Request

end BallotServer.Http
