import BallotServer.Decimal

/-! What a request asks for. An election path is `/election`, or `/election/` followed by digits
and the ending of one view; the digits are the longest row of digits, so a path is read in one
way only. Every other path leads to the home page, whatever the method.

Paths are taken as they are: queries and percent signs are the business of `Http.Target`. -/

namespace BallotServer

inductive View
  | document
  | pdf
  | bubbles
  | png
  | scan
  deriving DecidableEq, Repr

namespace View

def all : List View := [document, pdf, bubbles, png, scan]

/-- What follows the digits in the path of a view. -/
def ending : View → List Char
  | document => []
  | pdf => ".pdf".toList
  | bubbles => "_bubbles.json".toList
  | png => ".png".toList
  | scan => "/scan".toList

def ofEnding? (cs : List Char) : Option View := all.find? fun v => v.ending == cs

theorem ofEnding?_ending (v : View) : ofEnding? v.ending = some v := by cases v <;> decide

theorem ending_of_ofEnding? {cs : List Char} {v : View} (h : ofEnding? cs = some v) :
    v.ending = cs := by simpa using List.find?_some h

def path (v : View) (id : Int) : String :=
  "/election/" ++ Decimal.text id ++ String.ofList v.ending

end View

/-- An election path, split into what it names. -/
inductive ElectionPath
  | collection
  | view (digits : List Char) (v : View)
  deriving DecidableEq, Repr

namespace ElectionPath

def root : List Char := "/election".toList

/-- Reads what follows `/election/`. -/
def ofTail? (tail : List Char) : Option ElectionPath :=
  let digits := tail.takeWhile Decimal.isDigit
  if digits.isEmpty then none
  else (View.ofEnding? (tail.dropWhile Decimal.isDigit)).map (view digits)

def ofPath? (path : List Char) : Option ElectionPath :=
  match root.isPrefixOf? path with
  | none => none
  | some [] => some collection
  | some ('/' :: tail) => ofTail? tail
  | some (_ :: _) => none

def inRange : ElectionPath → Bool
  | collection => true
  | view digits _ => Decimal.fits Decimal.greatestId digits

def spell : ElectionPath → List Char
  | collection => root
  | view digits v => root ++ '/' :: (digits ++ v.ending)

end ElectionPath

inductive Verb
  | get
  | post
  deriving DecidableEq, Repr

/-- Methods are compared letter by letter; only these two are served. -/
def Verb.ofMethod? (method : String) : Option Verb :=
  if method = "GET" then some .get
  else if method = "POST" then some .post
  else none

inductive Operation
  | createElection
  | readElection (id : Int)
  | updateElection (id : Int)
  | ballotPdf (id : Int)
  | ballotBubbles (id : Int)
  | preview (id : Int)
  | scanForm (id : Int)
  | scanUpload (id : Int)
  | unsupported
  /-- Digits beyond the greatest election id. -/
  | badItem
  | home
  deriving DecidableEq, Repr

namespace Operation

def ofView? (id : Int) : View → Verb → Option Operation
  | .document, .get => some (readElection id)
  | .document, .post => some (updateElection id)
  | .pdf, .get => some (ballotPdf id)
  | .bubbles, .get => some (ballotBubbles id)
  | .png, .get => some (preview id)
  | .scan, .get => some (scanForm id)
  | .scan, .post => some (scanUpload id)
  | _, _ => none

def ofVerb? : ElectionPath → Verb → Option Operation
  | .collection, .post => some createElection
  | .collection, .get => none
  | .view digits v, verb => ofView? (Decimal.value digits) v verb

/-- Digits out of range are told apart before the method is looked at. -/
def ofElectionPath (method : String) (p : ElectionPath) : Operation :=
  if p.inRange then ((Verb.ofMethod? method).bind (ofVerb? p)).getD unsupported else badItem

def ofRequest (method path : String) : Operation :=
  match ElectionPath.ofPath? path.toList with
  | none => home
  | some p => ofElectionPath method p

def needsCaller : Operation → Bool
  | createElection | updateElection _ | scanUpload _ => true
  | _ => false

def election? : Operation → Option Int
  | readElection id | updateElection id | ballotPdf id | ballotBubbles id | preview id
  | scanForm id | scanUpload id => some id
  | _ => none

theorem ofElectionPath_ne_home (method : String) (p : ElectionPath) :
    ofElectionPath method p ≠ home := by
  unfold ofElectionPath
  split
  · cases Verb.ofMethod? method with
    | none => simp
    | some verb =>
      cases p with
      | collection => cases verb <;> simp [ofVerb?]
      | view digits v => cases v <;> cases verb <;> simp [ofVerb?, ofView?]
  · simp

theorem ofRequest_eq_home_iff {method path : String} :
    ofRequest method path = home ↔ ElectionPath.ofPath? path.toList = none := by
  unfold ofRequest
  split <;> simp_all [ofElectionPath_ne_home]

end Operation

end BallotServer
