import BallotServer.Bytes

/-! Responses: a status, a media type and a body. -/

namespace BallotServer.Http

inductive MediaType
  | html
  | json
  | pdf
  | png
  | plain
  deriving DecidableEq, Repr

def MediaType.text : MediaType → String
  | html => "text/html; charset=utf-8"
  | json => "application/json"
  | pdf => "application/pdf"
  | png => "image/png"
  | plain => "text/plain"

structure Response where
  status : Nat
  mediaType : MediaType
  body : ByteArray
  deriving DecidableEq

namespace Response

def ok (mediaType : MediaType) (body : ByteArray) : Response := ⟨200, mediaType, body⟩

def page (html : String) : Response := ok .html html.toUTF8

def json (text : String) : Response := ok .json text.toUTF8

def plain (status : Nat) (text : String) : Response := ⟨status, .plain, text.toUTF8⟩

end Response

end BallotServer.Http
