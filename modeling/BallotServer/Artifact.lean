import BallotServer.Bytes
import BallotServer.Decimal

/-! What is rendered from an election: the ballot, which is a PDF together with the map of its
bubbles, and the PNG preview of its first page. Each has a key of its own in the cache, made from
the election's id. -/

namespace BallotServer

structure Ballot where
  pdf : ByteArray
  bubbles : ByteArray
  deriving DecidableEq

inductive Artifact
  | ballot (ballot : Ballot)
  | preview (png : ByteArray)
  deriving DecidableEq

def Ballot.size (b : Ballot) : Nat := b.pdf.size + b.bubbles.size

namespace Artifact

def size : Artifact → Nat
  | ballot b => b.size
  | preview png => png.size

def ballotKey (election : Int) : String := Decimal.text election

def previewKey (election : Int) : String := Decimal.text election ++ ".png"

end Artifact

end BallotServer
