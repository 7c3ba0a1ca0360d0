import BallotServer.Artifact
import BallotServer.Base64
import BallotServer.Draw.Reply
import BallotServer.Text

/-! The draw service, which turns the text of an election into its ballot. The text is posted to
the service's address as it is; a reply counts if its status is 2xx and its body holds both parts
of a ballot, with a PDF that is not empty. Nothing is tried twice. -/

namespace BallotServer

inductive DrawError
  | notConfigured
  /-- No address, no answer, or not all of it; the text is that of the connection. -/
  | transport (text : String)
  | status (code : Nat) (excerpt : String)
  | malformed (fault : Json.Fault)
  | pdfEncoding (fault : Base64.Fault)
  | emptyPdf
  deriving DecidableEq, Repr

def Json.Fault.message : Json.Fault → String
  | ended => "the reply ends early"
  | malformed => "the reply is no JSON"
  | mismatched => "the reply lacks a field or has one of another kind"

def DrawError.message : DrawError → String
  | notConfigured => "no draw backend configured"
  | transport text => "draw backend request failed: " ++ text
  | status code excerpt =>
    "draw backend answered " ++ toString code ++ ": " ++ excerpt
  | malformed fault => "malformed draw response: " ++ fault.message
  | pdfEncoding fault => "draw response pdf is not base64: " ++ fault.message
  | emptyPdf => "draw response has an empty pdf"

namespace Draw

def excerptLength : Nat := 512

structure Reply where
  status : Nat
  body : ByteArray
  deriving DecidableEq

def Reply.isSuccess (r : Reply) : Bool := 200 ≤ r.status && r.status ≤ 299

def Reply.ballot (r : Reply) : Except DrawError Ballot :=
  if !r.isSuccess then .error (.status r.status (Utf8.excerpt excerptLength r.body))
  else match readReply r.body.data.toList with
    | .error fault => .error (.malformed fault)
    | .ok (pdf, bubbles) =>
      match Base64.standard.decode pdf with
      | .error fault => .error (.pdfEncoding fault)
      | .ok [] => .error .emptyPdf
      | .ok bytes => .ok ⟨⟨bytes.toArray⟩, ⟨bubbles.toArray⟩⟩

inductive Exchange
  | failed (text : String)
  | answered (reply : Reply)
  deriving DecidableEq

structure Request where
  address : String
  contentType : String
  body : ByteArray
  deriving DecidableEq

end Draw

structure DrawService where
  address : Option String
  deriving DecidableEq, Repr

namespace DrawService

/-- A blank address is none. -/
def ofSetting (address : Option String) : DrawService :=
  ⟨address.filter fun a => !(Text.trim a.toList).isEmpty⟩

def request? (d : DrawService) (text : String) : Option Draw.Request :=
  d.address.map fun a => ⟨a, "application/json", text.toUTF8⟩

def draw (d : DrawService) (exchange : Draw.Exchange) : Except DrawError Ballot :=
  match d.address, exchange with
  | none, _ => .error .notConfigured
  | some _, .failed text => .error (.transport text)
  | some _, .answered reply => reply.ballot

end DrawService

theorem Draw.Reply.size_pdf_of_ballot {r : Draw.Reply} {b : Ballot} (h : r.ballot = .ok b) :
    r.isSuccess ∧ 0 < b.pdf.size := by
  unfold ballot at h
  split at h
  · simp at h
  · rename_i hs
    refine ⟨by simpa using hs, ?_⟩
    split at h
    · simp at h
    · split at h
      · simp at h
      · simp at h
      · rename_i bytes hne _
        obtain rfl := Except.ok.inj h
        cases bytes with
        | nil => exact absurd rfl hne
        | cons b bs => simp [ByteArray.size]

end BallotServer
