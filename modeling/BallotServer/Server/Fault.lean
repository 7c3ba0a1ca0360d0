import BallotServer.Archive
import BallotServer.Draw
import BallotServer.Http.Response
import BallotServer.Preview
import BallotServer.Store

/-! What can go wrong with a request. Either the client is at fault, or something behind the
server is; the answer tells the client only the message, never the cause. -/

namespace BallotServer

inductive Cause
  | words (text : String)
  | store (error : StoreError)
  | draw (error : DrawError)
  | preview (error : PreviewError)
  | archive (error : ArchiveError)
  deriving DecidableEq, Repr

def Cause.message : Cause → String
  | words text => text
  | store error => error.message
  | draw error => error.message
  | preview error => error.message
  | archive error => error.message

inductive Fault
  | client (status : Nat) (message : String)
  | backend (message : String) (cause : Cause)
  deriving DecidableEq, Repr

namespace Fault

def badRequest (message : String) : Fault := client 400 message

/-- No caller, or not the owner. -/
def unauthorized : Fault := client 401 "nope"

/-- An election that is not there is the client's mistake; all else is the store's. -/
def ofStore (message : String) : StoreError → Fault
  | .notFound _ => badRequest "no item"
  | .database cause => backend message (.store (.database cause))

def isClient : Fault → Bool
  | client _ _ => true
  | backend _ _ => false

def status : Fault → Nat
  | client status _ => status
  | backend _ _ => 500

def message : Fault → String
  | client _ message => message
  | backend message _ => message

def cause? : Fault → Option Cause
  | client _ _ => none
  | backend _ cause => some cause

def display : Fault → String
  | client _ message => message
  | backend message cause => message ++ ": " ++ cause.message

def response (f : Fault) : Http.Response := .plain f.status f.message

end Fault

end BallotServer
