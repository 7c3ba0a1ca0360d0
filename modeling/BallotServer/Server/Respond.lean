import BallotServer.Document
import BallotServer.Http.Request
import BallotServer.Page
import BallotServer.Server.Rendering
import BallotServer.Session

/-! How each operation is answered. A write without a caller is refused before anything else is
looked at; then come the body, the store and the backends, in this order, and the first fault is
the answer. -/

namespace BallotServer

structure Site where
  sessionKey : ByteArray
  archives : Bool
  deriving DecidableEq

namespace Server

open Handler

def scanLimit : Nat := 20 * 1024 * 1024

def known (caller : Option Int) : Handler Int :=
  match caller with
  | some user => return user
  | none => throw .unauthorized

def document (body : Http.Body) : Handler String := do
  ask .awaitBody
  orFault (Document.ofBody body) fun
    | .badBody => .badRequest "bad body"
    | .badJson => .badRequest "bad json"

def links (id : Int) : Http.Response := .json (Links.ofElection id).json

def create (owner : Int) (body : Http.Body) : Handler Http.Response := do
  let text ← document body
  connected do
    let id ← writeElection 0 owner text
    Rendering.invalidate id
    return links id

def update (caller id : Int) (body : Http.Body) : Handler Http.Response := do
  let text ← document body
  connected do
    let existing ← readElection id
    if existing.owner ≠ caller then throw .unauthorized
    let id ← writeElection id existing.owner text
    Rendering.invalidate id
    return links id

def read (id : Int) : Handler Http.Response :=
  connected do
    let election ← readElection id
    return .json election.text

def scanned (body : Http.Body) : Handler ByteArray := do
  ask .awaitBody
  match body.read? scanLimit with
  | none => throw (.badRequest "bad body")
  | some image => if image.isEmpty then throw (.badRequest "bad body") else return image

def uploadScan (site : Site) (id : Int) (request : Http.Request) : Handler Http.Response := do
  if !site.archives then throw (.backend "scan archive fail" (.archive .notConfigured))
  let image ← scanned request.body
  let _ ← connected (readElection id)
  let _ ← orFault (← ask (.archive id request.mediaType? image)) fun e =>
    .backend "scan archive fail" (.archive e)
  return .plain 200 "ok"

def handle (site : Site) (request : Http.Request) (caller : Option Int) :
    Operation → Handler Http.Response
  | .home => return .page (Page.home caller)
  | .unsupported => return ⟨400, .json, "\x7b\"error\":\"nope\"\x7d".toUTF8⟩
  | .badItem => throw (.badRequest "bad item")
  | .scanForm id => return .page (Page.scanForm id)
  | .createElection => do create (← known caller) request.body
  | .updateElection id => do update (← known caller) id request.body
  | .readElection id => read id
  | .ballotPdf id => return .ok .pdf (← Rendering.ballot id).pdf
  | .ballotBubbles id => return .ok .json (← Rendering.ballot id).bubbles
  | .preview id => return .ok .png (← Rendering.preview id)
  | .scanUpload id => do
    let _ ← known caller
    uploadScan site id request

def respond (site : Site) (request : Http.Request) : Script Http.Response := do
  let caller := Session.caller? site.sessionKey request.cookies
  let operation := Operation.ofRequest request.method request.path
  match ← (handle site request caller operation).run with
  | .ok response => return response
  | .error fault => return fault.response

end Server

end BallotServer
