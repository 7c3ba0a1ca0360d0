import BallotServer.Proofs.CacheEntries

/-! The calls that clients make of one cache. The cache answers one call at a time, so the calls of
any number of clients are one row of calls. The generation of a key counts its invalidations, so a
value that is put under a generation read before is accepted if and only if its key was not
invalidated since; and what a lookup shows is the value put last, with no invalidation since. -/

namespace BallotServer.Cache

structure Stats where
  entries : Nat
  used : UInt64
  capacity : UInt64
  deriving DecidableEq

def stats (c : Cache) : Stats := ⟨c.entries.length, c.used, c.capacity⟩

inductive Call
  | get (key : String)
  | put (key : String) (value : Artifact) (size : UInt64)
  | putIfCurrent (key : String) (value : Artifact) (size : UInt64) (generation : Nat)
  | generation (key : String)
  | invalidate (key : String)
  | stats
  deriving DecidableEq

@[reducible]
def Call.Answer : Call → Type
  | get _ => Option Artifact
  | putIfCurrent _ _ _ _ => Bool
  | generation _ => Nat
  | stats => Stats
  | put _ _ _ | invalidate _ => Unit

def serve (c : Cache) : (call : Call) → call.Answer × Cache
  | .get key => c.get key
  | .put key value size => ((), c.put key value size)
  | .putIfCurrent key value size generation => c.putIfCurrent key value size generation
  | .generation key => (c.generation key, c)
  | .invalidate key => ((), c.invalidate key)
  | .stats => (c.stats, c)

structure Reply where
  call : Call
  answer : call.Answer

def serveAll (c : Cache) : List Call → List Reply × Cache
  | [] => ([], c)
  | call :: later =>
    let (replies, last) := (c.serve call).2.serveAll later
    (⟨call, (c.serve call).1⟩ :: replies, last)

variable {c : Cache} {key : String}

theorem map_call_serveAll (c : Cache) (calls : List Call) :
    (c.serveAll calls).1.map Reply.call = calls := by
  induction calls generalizing c with
  | nil => rfl
  | cons call later ih => exact congrArg (call :: ·) (ih _)

theorem Distinct.serve (distinct : c.Distinct) (call : Call) : (c.serve call).2.Distinct := by
  cases call with
  | get k => exact distinct.get k
  | put k value size => exact distinct.put k value size
  | putIfCurrent k value size generation =>
    by_cases current : c.generation k = generation
    · rw [Cache.serve, putIfCurrent, if_pos current]
      exact distinct.put k value size
    · rw [Cache.serve, putIfCurrent, if_neg current]
      exact distinct
  | invalidate k => exact distinct.invalidate k
  | _ => exact distinct

theorem Distinct.serveAll (distinct : c.Distinct) (calls : List Call) :
    (c.serveAll calls).2.Distinct := by
  induction calls generalizing c with
  | nil => exact distinct
  | cons call later ih => exact ih (distinct.serve call)

/-- A preview that was made too slowly is refused, and the next one is shown. -/
example (old new : ByteArray) :
    ((empty 100).serveAll [.generation "1", .invalidate "1", .putIfCurrent "1" (.preview old) 4 0,
      .get "1", .putIfCurrent "1" (.preview new) 4 1, .get "1"]).1 =
    [⟨.generation "1", 0⟩, ⟨.invalidate "1", ()⟩, ⟨.putIfCurrent "1" (.preview old) 4 0, false⟩,
      ⟨.get "1", none⟩, ⟨.putIfCurrent "1" (.preview new) 4 1, true⟩,
      ⟨.get "1", some (.preview new)⟩] := rfl

end BallotServer.Cache
