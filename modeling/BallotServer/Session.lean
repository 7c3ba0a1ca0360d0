import BallotServer.Base64
import BallotServer.Decimal
import BallotServer.Http.Header
import BallotServer.Sha256
import BallotServer.Text

/-! Session cookies. A session is a user id, a dot and the keyed digest of the id's text in
base64 that is safe in URLs. A caller is the first session that verifies among all items of all
`Cookie` headers; headers that are not visible ASCII, foreign items and sessions that do not
verify are passed over. -/

namespace BallotServer.Session

def cookieName : String := "studio_session"

def signature (key : ByteArray) (guid : List Char) : List UInt8 :=
  (Sha256.keyed key (String.ofList guid).toUTF8).data.toList

def value (key : ByteArray) (user : Int) : String :=
  Decimal.text user ++ "." ++ Base64.urlSafe.text (signature key (Decimal.write user))

def cookie (key : ByteArray) (user : Int) : String := cookieName ++ "=" ++ value key user

/-- The user of a session, if its signature is that of its id. -/
def verify? (key : ByteArray) (session : List Char) : Option Int :=
  match Text.cut? '.' session with
  | none => none
  | some (guid, sign) =>
    match Base64.urlSafe.decode (String.ofList sign).toUTF8.data.toList with
    | .error _ => none
    | .ok bytes => if bytes = signature key guid then Decimal.readSigned guid else none

def ofItem? (key : ByteArray) (item : List Char) : Option Int :=
  match Text.cut? '=' (Text.trim item) with
  | none => none
  | some (name, session) => if name = cookieName.toList then verify? key session else none

def itemsOf (value : ByteArray) : List (List Char) :=
  match Http.Header.text? value with
  | none => []
  | some cs => Text.parts ';' cs

def caller? (key : ByteArray) (cookies : List ByteArray) : Option Int :=
  (cookies.flatMap itemsOf).findSome? (ofItem? key)

end BallotServer.Session
