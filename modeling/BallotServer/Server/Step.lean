import BallotServer.Archive
import BallotServer.Cache
import BallotServer.Draw
import BallotServer.Preview
import BallotServer.Store

/-! The steps that requests are made of. Each acts at once on what the server holds: the stored
elections, the cache and the archive. The outside world decides its outcome as far as that is not
the server's to decide: whether the store can be reached, what is drawn and converted, and what
the disk does. A statement that the store reports as failed has changed nothing. -/

namespace BallotServer

structure State where
  store : Store
  cache : Cache
  archive : Archive
  deriving DecidableEq

def State.fresh (cacheBytes : UInt64) : State := ⟨.fresh, .empty cacheBytes, .empty⟩

inductive Step
  | awaitBody
  | connect
  | release
  | readElection (id : Int)
  | writeElection (id owner : Int) (text : String)
  | lookUp (key : String)
  | generation (key : String)
  | keep (key : String) (artifact : Artifact) (generation : Nat)
  | invalidate (key : String)
  | draw (text : String)
  | convert (pdf : ByteArray)
  | archive (election : Int) (mediaType : Option (List Char)) (image : ByteArray)
  deriving DecidableEq

namespace Step

@[reducible]
def Answer : Step → Type
  | awaitBody | release | invalidate _ => Unit
  | connect => Except DatabaseError Unit
  | readElection _ => Except StoreError Election
  | writeElection _ _ _ => Except StoreError Int
  | lookUp _ => Option Artifact
  | generation _ => Nat
  | keep _ _ _ => Bool
  | draw _ => Except DrawError Ballot
  | convert _ => Except PreviewError ByteArray
  | archive _ _ _ => Except ArchiveError Scan.Name

/-- What the outside world decides about a step. -/
@[reducible]
def Outcome : Step → Type
  | connect | readElection _ | writeElection _ _ _ => Option DatabaseError
  | draw _ => Except DrawError Ballot
  | convert _ => Except PreviewError ByteArray
  | archive _ _ _ => Archive.Disk
  | awaitBody | release | lookUp _ | generation _ | keep _ _ _ | invalidate _ => Unit

end Step

namespace State

def perform (st : State) : (s : Step) → s.Outcome → s.Answer × State
  | .awaitBody, _ => ((), st)
  | .connect, some e => (.error e, st)
  | .connect, none => (.ok (), st)
  | .release, _ => ((), st)
  | .readElection _, some e => (.error (.database e), st)
  | .readElection id, none => (st.store.read id, st)
  | .writeElection _ _ _, some e => (.error (.database e), st)
  | .writeElection id owner text, none =>
    match st.store.write id owner text with
    | .error e => (.error e, st)
    | .ok (id, store) => (.ok id, { st with store := store })
  | .lookUp key, _ => ((st.cache.get key).1, { st with cache := (st.cache.get key).2 })
  | .generation key, _ => (st.cache.generation key, st)
  | .keep key artifact generation, _ =>
    let kept := st.cache.putIfCurrent key artifact artifact.size.toUInt64 generation
    (kept.1, { st with cache := kept.2 })
  | .invalidate key, _ => ((), { st with cache := st.cache.invalidate key })
  | .draw _, outcome => (outcome, st)
  | .convert _, outcome => (outcome, st)
  | .archive election mediaType image, disk =>
    let stored := st.archive.store disk election mediaType image
    (stored.1, { st with archive := stored.2 })

end State

end BallotServer
