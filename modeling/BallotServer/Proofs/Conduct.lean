import BallotServer.Proofs.RenderingCourse
import BallotServer.Server.Respond

/-! How requests conduct themselves towards what they share. A record is written at most once, by
a recognised caller who sends a document and, for a record that is there, was read to be its owner;
what was written is then invalidated, the ballot before the preview; only a request for a rendering
looks into the cache or calls a backend, and it keeps an artifact only under a generation read
before the record that it was made from. `respond_keeps` says so of every request, whatever it is
answered, and says how a request ends. -/

namespace BallotServer

def Step.isWrite : Step → Bool
  | writeElection _ _ _ => true
  | _ => false

def Step.isArchive : Step → Bool
  | archive _ _ _ => true
  | _ => false

def Exchange.idle : Exchange → Bool
  | ⟨.writeElection _ _ _, .ok _⟩ | ⟨.lookUp _, some _⟩ | ⟨.keep _ _ _, _⟩ | ⟨.invalidate _, _⟩
  | ⟨.archive _ _ _, _⟩ => false
  | _ => true

/-- What was written was invalidated. -/
def Settled : List Exchange → Prop
  | [] => True
  | ⟨.writeElection _ _ _, .ok id⟩ :: rest =>
    ⟨.invalidate (Artifact.previewKey id), ()⟩ ∈ rest ∧ Settled rest
  | _ :: rest => Settled rest

def Operation.rendering? : Operation → Option Int
  | ballotPdf id | ballotBubbles id | preview id => some id
  | _ => none

def Operation.show? : Operation → Artifact → Option Http.Response
  | ballotPdf _, .ballot b => some (.ok .pdf b.pdf)
  | ballotBubbles _, .ballot b => some (.ok .json b.bubbles)
  | preview _, .preview png => some (.ok .png png)
  | _, _ => none

namespace Server

open Handler Rendering

/-- What a request may do to what requests share, after some exchanges. -/
def Conduct (site : Site) (request : Http.Request) (past : List Exchange) : Step → Prop
  | .lookUp _ | .generation _ | .draw _ | .convert _ =>
    (Operation.ofRequest request.method request.path).rendering?.isSome
  | .keep key artifact generation =>
    ∃ id before after, past = before ++ ⟨.generation key, generation⟩ :: after ∧
      key = artifact.keyFor id ∧ Made id after artifact ∧
      (Operation.ofRequest request.method request.path).rendering? = some id
  | .writeElection id owner text =>
    (∀ x ∈ past, x.step.isWrite = false) ∧
      Session.caller? site.sessionKey request.cookies = some owner ∧
      Document.ofBody request.body = .ok text ∧
      (id = 0 ∧ Operation.ofRequest request.method request.path = .createElection ∨
        Operation.ofRequest request.method request.path = .updateElection id ∧
          ∃ e : Election, e.owner = owner ∧
            (⟨.readElection id, .ok e⟩ : Exchange) ∈ past)
  | .invalidate key =>
    ∃ before target owner text id, (∀ x ∈ before, x.step.isWrite = false) ∧
      (key = Artifact.ballotKey id ∧
          past = before ++ [⟨.writeElection target owner text, .ok id⟩] ∨
        key = Artifact.previewKey id ∧
          past = before ++ [⟨.writeElection target owner text, .ok id⟩,
            ⟨.invalidate (Artifact.ballotKey id), ()⟩])
  | .archive id _ _ => Operation.ofRequest request.method request.path = .scanUpload id
  | .awaitBody | .connect | .release | .readElection _ => True

def answerOf {α : Type} (answer : α → Http.Response) : Except Fault α → Http.Response
  | .ok a => answer a
  | .error fault => fault.response

def Ends (past : List Exchange) (response : Http.Response) : Operation → Prop
  | .ballotPdf id =>
    ∃ result, BallotCourse id past result ∧
      response = answerOf (fun b => .ok .pdf b.pdf) result
  | .ballotBubbles id =>
    ∃ result, BallotCourse id past result ∧
      response = answerOf (fun b => .ok .json b.bubbles) result
  | .preview id =>
    ∃ result, PreviewCourse id past result ∧ response = answerOf (.ok .png) result
  | _ =>
    response.status = 200 ∧ Settled past ∨
      ∀ x ∈ past, x.idle ∨ response.status = 500 ∧ x.step.isArchive

/-- A fault comes before anything is changed, except in the archive. -/
def Refused (past : List Exchange) (fault : Fault) : Prop :=
  ∀ x ∈ past, x.idle ∨ fault.status = 500 ∧ x.step.isArchive

variable {site : Site} {request : Http.Request} {past : List Exchange}

theorem refused_of_idle {fault : Fault} (idle : past.all Exchange.idle) : Refused past fault :=
  fun x member => .inl (List.all_eq_true.1 idle x member)

theorem drawn_keeps {id : Int} {generation : Nat} {before after : List Exchange}
    (asked : (Operation.ofRequest request.method request.path).rendering? = some id)
    (read : past = before ++ ⟨.generation (Artifact.ballotKey id), generation⟩ :: after) :
    (drawn id generation).Runs (Conduct site request) (DrawnCourse id generation) past := by
  unfold drawn
  refine keeps_bind.2 (keeps_connected.2 ⟨trivial, fun e => ⟨_, rfl, .unconnected e⟩,
    keeps_readElection.2 ⟨trivial, fun e => ⟨trivial, ?_⟩, fun e => ⟨trivial, ?_⟩⟩⟩)
  · refine keeps_bind.2 (keeps_ask.2 ⟨Option.isSome_of_eq_some asked, fun answer => ?_⟩)
    refine keeps_bind.2 (keeps_orFault.2 ⟨?_, ?_⟩)
    · rintro b rfl
      refine keeps_bind.2 (keeps_ask.2 ⟨?_, fun kept => keeps_pure.2 ?_⟩)
      · have drew : Drew id [⟨.connect, .ok ()⟩, ⟨.readElection id, .ok e⟩, ⟨.release, ()⟩,
            ⟨.draw e.text, .ok b⟩] b := ⟨e, .cons _ (.cons_cons _ (.cons _ (.cons_cons _ .slnil)))⟩
        refine ⟨id, before, after ++ _, ?_, rfl, drew.append_left after, asked⟩
        rw [read]
        simp only [List.append_assoc, List.cons_append, List.nil_append]
      · exact ⟨_, by simp only [List.append_assoc, List.cons_append, List.nil_append],
          .drawn e b kept⟩
    · rintro fault rfl
      exact ⟨_, by simp only [List.append_assoc, List.cons_append, List.nil_append],
        .undrawn e fault⟩
  · exact ⟨_, by simp only [List.append_assoc, List.cons_append, List.nil_append], .unread e⟩

theorem ballot_keeps {id : Int}
    (asked : (Operation.ofRequest request.method request.path).rendering? = some id) :
    (ballot id).Runs (Conduct site request) (BallotCourse id) past := by
  have missed (found : Option Artifact) (other : ∀ b, found ≠ some (.ballot b)) :
      (ask (.generation (Artifact.ballotKey id)) >>= drawn id).Keeps (Conduct site request)
        (fun past' b => ∃ new, past' = past ++ new ∧ BallotCourse id new (.ok b))
        (fun past' fault => ∃ new, past' = past ++ new ∧ BallotCourse id new (.error fault))
        (past ++ [⟨.lookUp (Artifact.ballotKey id), found⟩]) := by
    refine keeps_bind.2 (keeps_ask.2 ⟨Option.isSome_of_eq_some asked, fun generation => ?_⟩)
    refine (drawn_keeps asked rfl).mono ?_ ?_
    all_goals
      rintro _ _ ⟨new, rfl, course⟩
      exact ⟨_, by simp only [List.append_assoc, List.cons_append, List.nil_append],
        .miss other course⟩
  unfold ballot
  refine keeps_bind.2 (keeps_ask.2 ⟨Option.isSome_of_eq_some asked, fun found => ?_⟩)
  cases found with
  | none => exact missed none nofun
  | some artifact =>
    cases artifact with
    | ballot b => exact keeps_pure.2 ⟨_, rfl, .hit b⟩
    | preview png => exact missed (some (.preview png)) nofun

theorem converted_keeps {id : Int} {generation : Nat} {before after : List Exchange}
    (asked : (Operation.ofRequest request.method request.path).rendering? = some id)
    (read : past = before ++ ⟨.generation (Artifact.previewKey id), generation⟩ :: after) :
    (converted id generation).Runs (Conduct site request) (ConvertedCourse id generation) past := by
  unfold converted
  refine keeps_bind.2 ((ballot_keeps asked).mono ?_ ?_)
  · rintro _ b ⟨new, rfl, course⟩
    refine keeps_bind.2 (keeps_ask.2 ⟨Option.isSome_of_eq_some asked, fun answer => ?_⟩)
    refine keeps_bind.2 (keeps_orFault.2 ⟨?_, ?_⟩)
    · rintro png rfl
      refine keeps_bind.2 (keeps_ask.2 ⟨?_, fun kept => keeps_pure.2 ?_⟩)
      · have made : Converted id (new ++ [⟨.convert b.pdf, .ok png⟩]) png :=
          ⟨b, new, [], rfl, course.has⟩
        refine ⟨id, before, after ++ (new ++ _), ?_, rfl, made.append_left after, asked⟩
        rw [read]
        simp only [List.append_assoc, List.cons_append]
      · exact ⟨_, by simp only [List.append_assoc, List.cons_append, List.nil_append],
          .converted course png kept⟩
    · rintro fault rfl
      exact ⟨_, by simp only [List.append_assoc], .unconverted course fault⟩
  · rintro _ fault ⟨new, rfl, course⟩
    exact ⟨new, rfl, .unmade course⟩

theorem preview_keeps {id : Int}
    (asked : (Operation.ofRequest request.method request.path).rendering? = some id) :
    (preview id).Runs (Conduct site request) (PreviewCourse id) past := by
  have missed (found : Option Artifact) (other : ∀ png, found ≠ some (.preview png)) :
      (ask (.generation (Artifact.previewKey id)) >>= converted id).Keeps (Conduct site request)
        (fun past' png => ∃ new, past' = past ++ new ∧ PreviewCourse id new (.ok png))
        (fun past' fault => ∃ new, past' = past ++ new ∧ PreviewCourse id new (.error fault))
        (past ++ [⟨.lookUp (Artifact.previewKey id), found⟩]) := by
    refine keeps_bind.2 (keeps_ask.2 ⟨Option.isSome_of_eq_some asked, fun generation => ?_⟩)
    refine (converted_keeps asked rfl).mono ?_ ?_
    all_goals
      rintro _ _ ⟨new, rfl, course⟩
      exact ⟨_, by simp only [List.append_assoc, List.cons_append, List.nil_append],
        .miss other course⟩
  unfold preview
  refine keeps_bind.2 (keeps_ask.2 ⟨Option.isSome_of_eq_some asked, fun found => ?_⟩)
  cases found with
  | none => exact missed none nofun
  | some artifact =>
    cases artifact with
    | preview png => exact keeps_pure.2 ⟨_, rfl, .hit png⟩
    | ballot b => exact missed (some (.ballot b)) nofun

theorem invalidate_keeps {before : List Exchange} {target owner id : Int} {text : String}
    {bad : List Exchange → Fault → Prop} {good : List Exchange → Unit → Prop}
    (unwritten : ∀ x ∈ before, x.step.isWrite = false)
    (met : good (before ++ [⟨.writeElection target owner text, .ok id⟩,
      ⟨.invalidate (Artifact.ballotKey id), ()⟩, ⟨.invalidate (Artifact.previewKey id), ()⟩]) ()) :
    (Rendering.invalidate id).Keeps (Conduct site request) good bad
      (before ++ [⟨.writeElection target owner text, .ok id⟩]) := by
  unfold Rendering.invalidate
  refine keeps_bind.2 (keeps_ask.2 ⟨?_, fun _ => keeps_ask.2 ⟨?_, fun _ => ?_⟩⟩)
  · exact ⟨before, target, owner, text, id, unwritten, .inl ⟨rfl, rfl⟩⟩
  · refine ⟨before, target, owner, text, id, unwritten, .inr ⟨rfl, ?_⟩⟩
    rw [List.append_assoc]
    rfl
  · rw [List.append_assoc, List.append_assoc]
    exact met

theorem known_keeps {α : Type} {caller : Option Int} {f : Int → Handler α}
    {good : List Exchange → α → Prop}
    (met : ∀ user, caller = some user → (f user).Keeps (Conduct site request) good Refused []) :
    (known caller >>= f).Keeps (Conduct site request) good Refused [] := by
  cases caller with
  | none => exact keeps_throw.2 (refused_of_idle rfl)
  | some user => exact met user rfl

theorem document_keeps {body : Http.Body} {good : List Exchange → String → Prop}
    (met : ∀ text, Document.ofBody body = .ok text → good [⟨.awaitBody, ()⟩] text) :
    (document body).Keeps (Conduct site request) good Refused [] := by
  unfold document
  refine keeps_bind.2 (keeps_ask.2 ⟨trivial, fun _ => keeps_orFault.2 ⟨met, fun e _ => ?_⟩⟩)
  cases e <;> exact refused_of_idle rfl

/-- How both handlers of a document end: it is written, and what was rendered of it is dropped. -/
def written (id owner : Int) (text : String) : Handler Http.Response := do
  let id ← writeElection id owner text
  Rendering.invalidate id
  return links id

theorem create_eq (owner : Int) (body : Http.Body) :
    create owner body = document body >>= fun text => connected (written 0 owner text) := rfl

theorem update_eq (caller id : Int) (body : Http.Body) :
    update caller id body = document body >>= fun text =>
      connected (readElection id >>= fun existing =>
        if existing.owner = caller then written id caller text else throw .unauthorized) := by
  refine congrArg (document body >>= ·) (funext fun text => congrArg connected ?_)
  refine congrArg (readElection id >>= ·) (funext fun existing => ?_)
  by_cases owns : existing.owner = caller
  · simp only [owns, ne_eq, not_true_eq_false, if_false, if_true]
    rfl
  · simp only [owns, ne_eq, not_false_eq_true, if_false, if_true]
    rfl

theorem written_keeps {before : List Exchange} {target owner : Int} {text : String}
    {good : List Exchange → Http.Response → Prop} {bad : List Exchange → Fault → Prop}
    (may : Conduct site request before (.writeElection target owner text))
    (met : ∀ id, good (before ++ [⟨.writeElection target owner text, .ok id⟩,
      ⟨.invalidate (Artifact.ballotKey id), ()⟩, ⟨.invalidate (Artifact.previewKey id), ()⟩])
      (links id))
    (failed : ∀ e, bad (before ++ [⟨.writeElection target owner text, .error e⟩])
      (.ofStore "db put fail" e)) :
    (written target owner text).Keeps (Conduct site request) good bad before :=
  keeps_bind.2 (keeps_writeElection.2 ⟨may,
    fun id => keeps_bind.2 (invalidate_keeps may.1 (keeps_pure.2 (met id))), failed⟩)

theorem create_keeps {owner : Int}
    (caller : Session.caller? site.sessionKey request.cookies = some owner)
    (asked : Operation.ofRequest request.method request.path = .createElection) :
    (create owner request.body).Keeps (Conduct site request)
      (fun past response => response.status = 200 ∧ Settled past) Refused [] := by
  rw [create_eq]
  refine keeps_bind.2 (document_keeps fun text accepted => ?_)
  refine keeps_connected.2 ⟨trivial, fun _ => refused_of_idle rfl, ?_⟩
  refine written_keeps ?_ (fun id => ⟨trivial, rfl, ?_⟩) fun e => ⟨trivial, refused_of_idle rfl⟩
  · exact ⟨by simp [Step.isWrite], caller, accepted, .inl ⟨rfl, asked⟩⟩
  · simp [Settled]

theorem update_keeps {caller id : Int}
    (known : Session.caller? site.sessionKey request.cookies = some caller)
    (asked : Operation.ofRequest request.method request.path = .updateElection id) :
    (update caller id request.body).Keeps (Conduct site request)
      (fun past response => response.status = 200 ∧ Settled past) Refused [] := by
  rw [update_eq]
  refine keeps_bind.2 (document_keeps fun text accepted => ?_)
  refine keeps_connected.2 ⟨trivial, fun _ => refused_of_idle rfl, ?_⟩
  refine keeps_bind.2 (keeps_readElection.2 ⟨trivial, fun e => ?_,
    fun e => ⟨trivial, refused_of_idle rfl⟩⟩)
  split
  case isTrue owns =>
    refine written_keeps ?_ (fun id => ⟨trivial, rfl, ?_⟩) fun e => ⟨trivial, refused_of_idle rfl⟩
    · exact ⟨by simp [Step.isWrite], known, accepted, .inr ⟨asked, e, owns, by simp⟩⟩
    · simp [Settled]
  case isFalse => exact keeps_throw.2 ⟨trivial, refused_of_idle rfl⟩

theorem read_keeps {id : Int} :
    (read id).Keeps (Conduct site request)
      (fun past response => response.status = 200 ∧ Settled past) Refused [] := by
  unfold read
  refine keeps_connected.2 ⟨trivial, fun _ => refused_of_idle rfl, keeps_bind.2
    (keeps_readElection.2 ⟨trivial, fun e => keeps_pure.2 ⟨trivial, rfl, ?_⟩,
      fun e => ⟨trivial, refused_of_idle rfl⟩⟩)⟩
  simp [Settled]

theorem scanned_keeps {body : Http.Body} :
    (scanned body).Keeps (Conduct site request) (fun past _ => past = [⟨.awaitBody, ()⟩]) Refused
      [] := by
  have bad : Refused [⟨.awaitBody, ()⟩] (.badRequest "bad body") := refused_of_idle rfl
  unfold scanned
  refine keeps_bind.2 (keeps_ask.2 ⟨trivial, fun _ => ?_⟩)
  split
  · exact keeps_throw.2 bad
  · split
    · exact keeps_throw.2 bad
    · exact keeps_pure.2 rfl

theorem uploadScan_keeps {id : Int}
    (asked : Operation.ofRequest request.method request.path = .scanUpload id) :
    (uploadScan site id request).Keeps (Conduct site request)
      (fun past response => response.status = 200 ∧ Settled past) Refused [] := by
  unfold uploadScan
  by_cases configured : site.archives
  · simp only [configured, Bool.not_true, Bool.false_eq_true, if_false]
    refine keeps_bind.2 (scanned_keeps.mono (fun past image awaited => ?_) fun _ _ bad => bad)
    subst awaited
    refine keeps_bind.2 (keeps_connected.2 ⟨trivial, fun _ => refused_of_idle rfl,
      keeps_readElection.2 ⟨trivial, fun e => ⟨trivial, ?_⟩,
        fun e => ⟨trivial, refused_of_idle rfl⟩⟩⟩)
    refine keeps_bind.2 (keeps_ask.2 ⟨asked, fun answer => ?_⟩)
    refine keeps_bind.2 (keeps_orFault.2 ⟨fun _ _ => keeps_pure.2 ⟨rfl, ?_⟩, fun e _ => ?_⟩)
    · simp [Settled]
    · simp [Refused, Exchange.idle, Step.isArchive, Fault.status]
  · simp only [configured, Bool.not_false, if_true]
    exact keeps_bind.2 (keeps_throw.2 (refused_of_idle rfl))

theorem handle_keeps {operation : Operation}
    (asked : Operation.ofRequest request.method request.path = operation) :
    (handle site request (Session.caller? site.sessionKey request.cookies) operation).Keeps
      (Conduct site request) (fun past response => Ends past response operation)
      (fun past fault => Ends past fault.response operation) [] := by
  cases operation with
  | home => exact keeps_pure.2 (.inl ⟨rfl, trivial⟩)
  | unsupported => exact keeps_pure.2 (.inr nofun)
  | badItem => exact keeps_throw.2 (.inr nofun)
  | scanForm id => exact keeps_pure.2 (.inl ⟨rfl, trivial⟩)
  | createElection =>
    exact (known_keeps fun owner known => create_keeps known asked).mono
      (fun _ _ => .inl) fun _ _ => .inr
  | updateElection id =>
    exact (known_keeps fun caller known => update_keeps known asked).mono
      (fun _ _ => .inl) fun _ _ => .inr
  | readElection id => exact read_keeps.mono (fun _ _ => .inl) fun _ _ => .inr
  | ballotPdf id =>
    refine keeps_bind.2 ((ballot_keeps (by rw [asked]; rfl)).mono ?_ ?_) <;>
      rintro _ _ ⟨new, rfl, course⟩
    · exact keeps_pure.2 ⟨_, course, rfl⟩
    · exact ⟨_, course, rfl⟩
  | ballotBubbles id =>
    refine keeps_bind.2 ((ballot_keeps (by rw [asked]; rfl)).mono ?_ ?_) <;>
      rintro _ _ ⟨new, rfl, course⟩
    · exact keeps_pure.2 ⟨_, course, rfl⟩
    · exact ⟨_, course, rfl⟩
  | preview id =>
    refine keeps_bind.2 ((preview_keeps (by rw [asked]; rfl)).mono ?_ ?_) <;>
      rintro _ _ ⟨new, rfl, course⟩
    · exact keeps_pure.2 ⟨_, course, rfl⟩
    · exact ⟨_, course, rfl⟩
  | scanUpload id =>
    exact (known_keeps fun _ _ => uploadScan_keeps asked).mono (fun _ _ => .inl) fun _ _ => .inr

/-- Every request conducts itself, whatever it is answered, and ends in one of its ways. -/
theorem respond_keeps (site : Site) (request : Http.Request) :
    (respond site request).Keeps (Conduct site request)
      (fun past response =>
        Ends past response (Operation.ofRequest request.method request.path)) [] := by
  unfold respond
  refine (Script.keeps_bind ..).2 (Script.Keeps.mono (handle_keeps rfl) ?_)
  rintro past (fault | response) met <;> exact met

theorem Ends.shows {response : Http.Response} {operation : Operation} {id : Int}
    (asked : operation.rendering? = some id) (ends : Ends past response operation) :
    (∃ artifact, operation.show? artifact = some response ∧ Has id past artifact) ∨
      ∃ fault, response = fault.response ∧ Faulty id past fault := by
  cases operation with
  | ballotPdf id' | ballotBubbles id' =>
    cases asked
    obtain ⟨fault | b, course, rfl⟩ := ends
    · exact .inr ⟨fault, rfl, course.faulty⟩
    · exact .inl ⟨.ballot b, rfl, course.has⟩
  | preview id' =>
    cases asked
    obtain ⟨fault | png, course, rfl⟩ := ends
    · exact .inr ⟨fault, rfl, course.faulty⟩
    · exact .inl ⟨.preview png, rfl, course.has⟩
  | _ => cases asked

end Server

end BallotServer
