import BallotServer.Decimal

/-! The stored elections. A record is owned by the user who created it; its text changes only as
a whole, its owner never, and it is never deleted. Ids count up from one and are not reused.

The tables may be missing, and then every statement fails; creating them again changes nothing.
Invites, which live in the same store, are in `Store.Invite`. -/

namespace BallotServer

inductive Table
  | election
  | invite
  deriving DecidableEq, Repr

def Table.name : Table → String
  | election => "election"
  | invite => "invite"

inductive DatabaseError
  | missingTable (table : Table)
  | tokenTaken
  | cannotOpenFile
  | relativeAddress
  | poolClosed
  | other (text : String)
  deriving DecidableEq, Repr

def DatabaseError.message : DatabaseError → String
  | missingTable table =>
    "error returned from database: (code: 1) no such table: " ++ table.name
  | tokenTaken =>
    "error returned from database: (code: 1555) UNIQUE constraint failed: invite.token"
  | cannotOpenFile => "error returned from database: (code: 14) unable to open database file"
  | relativeAddress => "error with configuration: relative URL without a base"
  | poolClosed => "attempted to acquire a connection on a closed pool"
  | other text => text

inductive StoreError
  | notFound (id : Int)
  | database (cause : DatabaseError)
  deriving DecidableEq, Repr

def StoreError.message : StoreError → String
  | notFound id => "election " ++ Decimal.text id ++ " not found"
  | database cause => "database error: " ++ cause.message

structure Election where
  id : Int
  owner : Int
  text : String
  deriving DecidableEq, Repr

structure Invite where
  token : String
  /-- The whole second in which the invite expires. -/
  expires : Int
  deriving DecidableEq, Repr

structure Tables where
  /-- In the order of their ids. -/
  elections : List Election
  lastId : Nat
  invites : List Invite
  deriving DecidableEq, Repr

def Tables.insert (t : Tables) (owner : Int) (text : String) : Tables :=
  { t with elections := t.elections ++ [⟨(t.lastId : Int) + 1, owner, text⟩], lastId := t.lastId + 1 }

def Tables.replace (t : Tables) (id : Int) (text : String) : Tables :=
  { t with elections := t.elections.map fun e => if e.id = id then { e with text := text } else e }

structure Store where
  tables : Option Tables
  deriving DecidableEq, Repr

namespace Store

def blank : Store := ⟨none⟩

def setup (s : Store) : Store := ⟨some (s.tables.getD ⟨[], 0, []⟩)⟩

def fresh : Store := blank.setup

def elections (s : Store) : List Election := (s.tables.map Tables.elections).getD []

def invites (s : Store) : List Invite := (s.tables.map Tables.invites).getD []

def find? (s : Store) (id : Int) : Option Election := s.elections.find? fun e => e.id == id

def read (s : Store) (id : Int) : Except StoreError Election :=
  if s.tables.isNone then .error (.database (.missingTable .election))
  else match s.find? id with
    | none => .error (.notFound id)
    | some e => .ok e

/-- Adds a record if `id` is zero, and otherwise replaces the text of the record with that id;
gives the id. -/
def write (s : Store) (id owner : Int) (text : String) : Except StoreError (Int × Store) :=
  match s.tables with
  | none => .error (.database (.missingTable .election))
  | some t =>
    if id = 0 then .ok ((t.lastId : Int) + 1, ⟨some (t.insert owner text)⟩)
    else if (s.find? id).isSome then .ok (id, ⟨some (t.replace id text)⟩)
    else .error (.notFound id)

theorem setup_of_isSome {s : Store} (h : s.tables.isSome) : s.setup = s := by
  obtain ⟨t⟩ := s
  obtain ⟨u, rfl⟩ := Option.isSome_iff_exists.1 h
  rfl

end Store

end BallotServer
