import BallotServer.Proofs.Course
import BallotServer.Proofs.Keys
import BallotServer.Server.Rendering

/-! The complete courses of a rendering, one relation for each handler and in it one case for each
way to end, and what a course that ends well has got its artifact from. -/

namespace BallotServer

def Exchange.storageFailed : Exchange → Bool
  | ⟨.connect, .error _⟩ | ⟨.readElection _, .error (.database _)⟩
  | ⟨.writeElection _ _ _, .error (.database _)⟩ => true
  | _ => false

def Exchange.backendFailed : Exchange → Bool
  | ⟨.draw _, .error _⟩ | ⟨.convert _, .error _⟩ => true
  | _ => false

namespace Rendering

/-- From the connection on, after a ballot was not found. -/
inductive DrawnCourse (id : Int) (g : Nat) : List Exchange → Except Fault Ballot → Prop
  | unconnected (e : DatabaseError) :
    DrawnCourse id g [⟨.connect, .error e⟩]
      (.error (.backend "could not open db" (.store (.database e))))
  | unread (e : StoreError) :
    DrawnCourse id g [⟨.connect, .ok ()⟩, ⟨.readElection id, .error e⟩, ⟨.release, ()⟩]
      (.error (.ofStore "db get fail" e))
  | undrawn (election : Election) (e : DrawError) :
    DrawnCourse id g [⟨.connect, .ok ()⟩, ⟨.readElection id, .ok election⟩, ⟨.release, ()⟩,
        ⟨.draw election.text, .error e⟩]
      (.error (.backend "draw fail" (.draw e)))
  | drawn (election : Election) (b : Ballot) (kept : Bool) :
    DrawnCourse id g [⟨.connect, .ok ()⟩, ⟨.readElection id, .ok election⟩, ⟨.release, ()⟩,
        ⟨.draw election.text, .ok b⟩, ⟨.keep (Artifact.ballotKey id) (.ballot b) g, kept⟩]
      (.ok b)

inductive BallotCourse (id : Int) : List Exchange → Except Fault Ballot → Prop
  | hit (b : Ballot) :
    BallotCourse id [⟨.lookUp (Artifact.ballotKey id), some (.ballot b)⟩] (.ok b)
  | miss {found : Option Artifact} {g : Nat} {new : List Exchange} {result : Except Fault Ballot}
      (other : ∀ b, found ≠ some (.ballot b)) (drawn : DrawnCourse id g new result) :
    BallotCourse id (⟨.lookUp (Artifact.ballotKey id), found⟩ ::
      ⟨.generation (Artifact.ballotKey id), g⟩ :: new) result

/-- From the ballot on, after a preview was not found. -/
inductive ConvertedCourse (id : Int) (g : Nat) : List Exchange → Except Fault ByteArray → Prop
  | unmade {new : List Exchange} {fault : Fault} (ballot : BallotCourse id new (.error fault)) :
    ConvertedCourse id g new (.error fault)
  | unconverted {new : List Exchange} {b : Ballot} (ballot : BallotCourse id new (.ok b))
      (e : PreviewError) :
    ConvertedCourse id g (new ++ [⟨.convert b.pdf, .error e⟩])
      (.error (.backend "png fail" (.preview e)))
  | converted {new : List Exchange} {b : Ballot} (ballot : BallotCourse id new (.ok b))
      (png : ByteArray) (kept : Bool) :
    ConvertedCourse id g (new ++ [⟨.convert b.pdf, .ok png⟩,
      ⟨.keep (Artifact.previewKey id) (.preview png) g, kept⟩]) (.ok png)

inductive PreviewCourse (id : Int) : List Exchange → Except Fault ByteArray → Prop
  | hit (png : ByteArray) :
    PreviewCourse id [⟨.lookUp (Artifact.previewKey id), some (.preview png)⟩] (.ok png)
  | miss {found : Option Artifact} {g : Nat} {new : List Exchange}
      {result : Except Fault ByteArray} (other : ∀ png, found ≠ some (.preview png))
      (converted : ConvertedCourse id g new result) :
    PreviewCourse id (⟨.lookUp (Artifact.previewKey id), found⟩ ::
      ⟨.generation (Artifact.previewKey id), g⟩ :: new) result

def Drew (id : Int) (past : List Exchange) (b : Ballot) : Prop :=
  ∃ e : Election,
    [(⟨.readElection id, .ok e⟩ : Exchange), ⟨.draw e.text, .ok b⟩].Sublist past

def Found (id : Int) (past : List Exchange) (artifact : Artifact) : Prop :=
  (⟨.lookUp (artifact.keyFor id), some artifact⟩ : Exchange) ∈ past

def Converted (id : Int) (past : List Exchange) (png : ByteArray) : Prop :=
  ∃ b before after, past = before ++ ⟨.convert b.pdf, .ok png⟩ :: after ∧
    (Found id before (.ballot b) ∨ Drew id before b)

def Made (id : Int) (past : List Exchange) : Artifact → Prop
  | .ballot b => Drew id past b
  | .preview png => Converted id past png

def Has (id : Int) (past : List Exchange) (artifact : Artifact) : Prop :=
  Found id past artifact ∨ Made id past artifact

/-- Why there is no artifact: no election, or something behind the server that failed. -/
inductive Faulty (id : Int) (past : List Exchange) : Fault → Prop
  | missing {id' : Int} (unread : ⟨.readElection id, .error (.notFound id')⟩ ∈ past) :
    Faulty id past (.badRequest "no item")
  | failed {x : Exchange} (member : x ∈ past) (failed : x.storageFailed ∨ x.backendFailed)
      (message : String) (cause : Cause) : Faulty id past (.backend message cause)

variable {fault : Fault} {id : Int} {g : Nat} {past : List Exchange} {b : Ballot} {png : ByteArray}

theorem Drew.append_left (h : Drew id past b) (before : List Exchange) :
    Drew id (before ++ past) b :=
  h.imp fun _ order => order.trans (List.sublist_append_right before past)

theorem Converted.append_left (h : Converted id past png) (earlier : List Exchange) :
    Converted id (earlier ++ past) png := by
  obtain ⟨b, before, after, rfl, had⟩ := h
  refine ⟨b, earlier ++ before, after, (List.append_assoc ..).symm, ?_⟩
  exact had.imp (List.mem_append_right earlier) (·.append_left earlier)

theorem DrawnCourse.drew (course : DrawnCourse id g past (.ok b)) : Drew id past b := by
  cases course with
  | drawn e _ kept => exact ⟨e, .cons _ (.cons_cons _ (.cons _ (.cons_cons _ (.cons _ .slnil))))⟩

theorem BallotCourse.has (course : BallotCourse id past (.ok b)) : Has id past (.ballot b) := by
  cases course with
  | hit => exact .inl List.mem_cons_self
  | miss other drawn => exact .inr (drawn.drew.append_left [_, _])

theorem ConvertedCourse.made (course : ConvertedCourse id g past (.ok png)) :
    Converted id past png := by
  cases course with
  | converted ballot _ kept => exact ⟨_, _, _, rfl, ballot.has⟩

theorem PreviewCourse.has (course : PreviewCourse id past (.ok png)) :
    Has id past (.preview png) := by
  cases course with
  | hit => exact .inl List.mem_cons_self
  | miss other converted => exact .inr (converted.made.append_left [_, _])

theorem Faulty.status_ne (faulty : Faulty id past fault) : fault.status ≠ 200 := by
  cases faulty with
  | missing unread => exact Nat.ne_of_beq_eq_false rfl
  | failed member failed message cause => exact Nat.ne_of_beq_eq_false rfl

theorem Faulty.mono {past' : List Exchange} (faulty : Faulty id past fault)
    (subset : past ⊆ past') : Faulty id past' fault := by
  cases faulty with
  | missing unread => exact .missing (subset unread)
  | failed member failed message cause => exact .failed (subset member) failed message cause

theorem DrawnCourse.faulty (course : DrawnCourse id g past (.error fault)) :
    Faulty id past fault := by
  cases course with
  | unconnected e => exact .failed List.mem_cons_self (.inl rfl) _ _
  | unread e =>
    have here : ⟨.readElection id, .error e⟩ ∈ [(⟨.connect, .ok ()⟩ : Exchange),
        ⟨.readElection id, .error e⟩, ⟨.release, ()⟩] := .tail _ List.mem_cons_self
    cases e with
    | notFound id' => exact .missing here
    | database cause => exact .failed here (.inl rfl) _ _
  | undrawn election e =>
    exact .failed (List.mem_append_right [_, _, _] List.mem_cons_self) (.inr rfl) _ _

theorem BallotCourse.faulty (course : BallotCourse id past (.error fault)) :
    Faulty id past fault := by
  cases course with
  | miss other drawn => exact drawn.faulty.mono (List.subset_append_right [_, _] _)

theorem ConvertedCourse.faulty (course : ConvertedCourse id g past (.error fault)) :
    Faulty id past fault := by
  cases course with
  | unmade ballot => exact ballot.faulty
  | unconverted ballot e =>
    exact .failed (List.mem_append_right _ List.mem_cons_self) (.inr rfl) _ _

theorem PreviewCourse.faulty (course : PreviewCourse id past (.error fault)) :
    Faulty id past fault := by
  cases course with
  | miss other converted => exact converted.faulty.mono (List.subset_append_right [_, _] _)

end Rendering

end BallotServer
