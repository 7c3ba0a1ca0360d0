import BallotServer.Base64
import BallotServer.Store
import BallotServer.Store.Instant

/-! Invites. A token is stored once, with the whole second in which it expires; a purge takes away
the tokens that expired in an earlier second than now. -/

namespace BallotServer

namespace Invite

def tokenBytes : Nat := 12

def tokenOf (chance : Vector UInt8 tokenBytes) : String := Base64.urlSafe.text chance.toList

end Invite

namespace Store

def invite (s : Store) (token : String) (expires : Instant) : Except StoreError Store :=
  match s.tables with
  | none => .error (.database (.missingTable .invite))
  | some t =>
    if t.invites.any fun i => i.token == token then .error (.database .tokenTaken)
    else .ok ⟨some { t with invites := t.invites ++ [⟨token, expires.second⟩] }⟩

def purge (s : Store) (now : Instant) : Except StoreError (Nat × Store) :=
  match s.tables with
  | none => .error (.database (.missingTable .invite))
  | some t =>
    let kept := t.invites.filter fun i => now.second ≤ i.expires
    .ok (t.invites.length - kept.length, ⟨some { t with invites := kept }⟩)

def issue (s : Store) (chance : Vector UInt8 Invite.tokenBytes) (now : Instant) (minutes : Int) :
    Except StoreError (String × Store) :=
  let token := Invite.tokenOf chance
  (s.invite token (now.addMinutes minutes)).map fun s => (token, s)

/-- The tokens left when purging at one instant after another; a purge that fails is skipped. -/
def sweep (s : Store) : List Instant → Store
  | [] => s
  | now :: later => match s.purge now with
    | .ok (_, s) => sweep s later
    | .error _ => sweep s later

end Store

end BallotServer
