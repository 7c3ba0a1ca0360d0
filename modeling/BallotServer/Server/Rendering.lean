import BallotServer.Server.Script

/-! Rendered artifacts, from the cache or made anew. What is made is kept only if its key was not
invalidated since its generation was read, which is before the record is read. A preview is made
from the ballot, cached or drawn. -/

namespace BallotServer.Rendering

open Handler

def drawn (id : Int) (generation : Nat) : Handler Ballot := do
  let election ← connected (readElection id)
  let ballot ← orFault (← ask (.draw election.text)) fun e => .backend "draw fail" (.draw e)
  let _ ← ask (.keep (Artifact.ballotKey id) (.ballot ballot) generation)
  return ballot

def ballot (id : Int) : Handler Ballot := do
  match ← ask (.lookUp (Artifact.ballotKey id)) with
  | some (.ballot b) => return b
  | _ =>
    let generation ← ask (.generation (Artifact.ballotKey id))
    drawn id generation

def converted (id : Int) (generation : Nat) : Handler ByteArray := do
  let b ← ballot id
  let png ← orFault (← ask (.convert b.pdf)) fun e => .backend "png fail" (.preview e)
  let _ ← ask (.keep (Artifact.previewKey id) (.preview png) generation)
  return png

def preview (id : Int) : Handler ByteArray := do
  match ← ask (.lookUp (Artifact.previewKey id)) with
  | some (.preview png) => return png
  | _ =>
    let generation ← ask (.generation (Artifact.previewKey id))
    converted id generation

/-- Drops both artifacts of an election: the ballot first, so that no preview of the old ballot
can be kept after the preview's key has moved on. -/
def invalidate (id : Int) : Handler Unit := do
  ask (.invalidate (Artifact.ballotKey id))
  ask (.invalidate (Artifact.previewKey id))

end BallotServer.Rendering
