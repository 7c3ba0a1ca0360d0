import BallotServer.Proofs.System

/-! Faults behind the server. A request fails if and only if something failed that it used itself,
and it says which was the first: the answer holds a fixed text for each kind of failure, and no more.
Each handler stops at its first failure, so what it went through holds at most one. -/

namespace BallotServer

def Exchange.failure? : Exchange → Option String
  | ⟨.connect, .error _⟩ => some "could not open db"
  | ⟨.readElection _, .error (.database _)⟩ => some "db get fail"
  | ⟨.writeElection _ _ _, .error (.database _)⟩ => some "db put fail"
  | ⟨.draw _, .error _⟩ => some "draw fail"
  | ⟨.convert _, .error _⟩ => some "png fail"
  | ⟨.archive _ _ _, .error _⟩ => some "scan archive fail"
  | _ => none

def failures (past : List Exchange) : List String := past.filterMap Exchange.failure?

theorem failures_append (past new : List Exchange) :
    failures (past ++ new) = failures past ++ failures new := List.filterMap_append

theorem failures_singleton (x : Exchange) : failures [x] = x.failure?.toList := by
  cases h : x.failure? <;> simp [failures, h]

/-- The fault is the client's and nothing failed, or it is what failed. -/
def Fault.Tells : Fault → List String → Prop
  | .client status _, failed => status < 500 ∧ failed = []
  | .backend message _, failed => failed = [message]

namespace Handler

variable {α β : Type} {h : Handler α} {f : α → Handler β} {good : α → Prop} {good' : β → Prop}

/-- From exchanges without a failure on, a result comes without one and a fault tells of one. -/
def Candid (good : α → Prop) (h : Handler α) : Prop :=
  ∀ past, failures past = [] → h.Keeps (fun _ _ => True)
    (fun past a => failures past = [] ∧ good a) (fun past fault => fault.Tells (failures past)) past

theorem candid_pure {a : α} (met : good a) : Candid good (pure a : Handler α) :=
  fun _ quiet => keeps_pure.2 ⟨quiet, met⟩

theorem candid_refuse {status : Nat} {message : String} (client : status < 500) :
    Candid good (throw (.client status message) : Handler α) :=
  fun _ quiet => keeps_throw.2 ⟨client, quiet⟩

theorem Candid.bind (candid : Candid good h) (next : ∀ a, good a → Candid good' (f a)) :
    Candid good' (h >>= f) := by
  intro past quiet
  apply keeps_bind.2
  apply (candid past quiet).mono
  · exact fun past a met => next a met.2 past met.1
  · exact fun _ _ told => told

theorem candid_ask {s : Step} (safe : ∀ answer, Exchange.failure? ⟨s, answer⟩ = none) :
    Candid (fun _ => True) (ask s) := by
  intro past quiet
  refine keeps_ask.2 ⟨trivial, fun answer => ⟨?_, trivial⟩⟩
  rw [failures_append, failures_singleton, quiet, safe]
  rfl

theorem candid_ask_bind {s : Step} {f : s.Answer → Handler β}
    (next : ∀ answer, Exchange.failure? ⟨s, answer⟩ = none ∧ Candid good' (f answer) ∨
      ∃ message cause, Exchange.failure? ⟨s, answer⟩ = some message ∧
        f answer = throw (.backend message cause)) :
    Candid good' (ask s >>= f) := by
  intro past quiet
  refine keeps_bind.2 (keeps_ask.2 ⟨trivial, fun answer => ?_⟩)
  have told : failures (past ++ [⟨s, answer⟩]) = (Exchange.failure? ⟨s, answer⟩).toList := by
    rw [failures_append, failures_singleton, quiet, List.nil_append]
  rcases next answer with ⟨safe, candid⟩ | ⟨message, cause, failed, stops⟩
  · apply candid
    rw [told, safe]
    rfl
  · rw [stops]
    apply keeps_throw.2
    rw [told, failed]
    rfl

theorem Candid.connected (candid : Candid good h) : Candid good (connected h) := by
  intro past quiet
  have opened : failures (past ++ [⟨.connect, .ok ()⟩]) = [] := by
    rw [failures_append, quiet]
    rfl
  refine keeps_connected.2 ⟨trivial, fun e => ?_, (candid _ opened).mono ?_ ?_⟩
  · rw [failures_append, quiet]
    rfl
  · rintro past a ⟨quiet, met⟩
    refine ⟨trivial, ?_, met⟩
    rw [failures_append, quiet]
    rfl
  · intro past fault told
    refine ⟨trivial, ?_⟩
    rw [failures_append]
    exact (List.append_nil (failures past)).symm ▸ told

theorem candid_readElection (id : Int) : Candid (fun _ => True) (readElection id) := by
  refine candid_ask_bind fun answer => ?_
  cases answer with
  | ok e => exact .inl ⟨rfl, candid_pure trivial⟩
  | error e =>
    cases e with
    | notFound id' => exact .inl ⟨rfl, candid_refuse (by decide)⟩
    | database cause => exact .inr ⟨_, _, rfl, rfl⟩

theorem candid_writeElection (id owner : Int) (text : String) :
    Candid (fun _ => True) (writeElection id owner text) := by
  refine candid_ask_bind fun answer => ?_
  cases answer with
  | ok id' => exact .inl ⟨rfl, candid_pure trivial⟩
  | error e =>
    cases e with
    | notFound id' => exact .inl ⟨rfl, candid_refuse (by decide)⟩
    | database cause => exact .inr ⟨_, _, rfl, rfl⟩

end Handler

namespace Rendering

open Handler

theorem candid_drawn (id : Int) (g : Nat) : Candid (fun _ => True) (drawn id g) := by
  refine (candid_readElection id).connected.bind fun election _ => ?_
  refine candid_ask_bind fun answer => ?_
  cases answer with
  | error e => exact .inr ⟨_, _, rfl, rfl⟩
  | ok b => exact .inl ⟨rfl, (candid_ask fun _ => rfl).bind fun _ _ => candid_pure trivial⟩

theorem candid_ballot (id : Int) : Candid (fun _ => True) (ballot id) := by
  have missed := (@candid_ask (.generation (Artifact.ballotKey id)) fun _ => rfl).bind
    fun g _ => candid_drawn id g
  refine (candid_ask fun _ => rfl).bind fun found _ => ?_
  cases found with
  | none => exact missed
  | some artifact =>
    cases artifact with
    | ballot b => exact candid_pure trivial
    | preview png => exact missed

theorem candid_converted (id : Int) (g : Nat) : Candid (fun _ => True) (converted id g) := by
  refine (candid_ballot id).bind fun b _ => ?_
  refine candid_ask_bind fun answer => ?_
  cases answer with
  | error e => exact .inr ⟨_, _, rfl, rfl⟩
  | ok png => exact .inl ⟨rfl, (candid_ask fun _ => rfl).bind fun _ _ => candid_pure trivial⟩

theorem candid_preview (id : Int) : Candid (fun _ => True) (preview id) := by
  have missed := (@candid_ask (.generation (Artifact.previewKey id)) fun _ => rfl).bind
    fun g _ => candid_converted id g
  refine (candid_ask fun _ => rfl).bind fun found _ => ?_
  cases found with
  | none => exact missed
  | some artifact =>
    cases artifact with
    | preview png => exact candid_pure trivial
    | ballot b => exact missed

theorem candid_invalidate (id : Int) : Candid (fun _ => True) (invalidate id) :=
  (candid_ask fun _ => rfl).bind fun _ _ => candid_ask fun _ => rfl

end Rendering

namespace Server

open Handler

def Unfailed (response : Http.Response) : Prop := response.status < 500

theorem candid_success {response : Http.Response} (success : response.status = 200) :
    Candid Unfailed (pure response) := by
  apply candid_pure
  unfold Unfailed
  omega

theorem candid_known (caller : Option Int) : Candid (fun _ => True) (known caller) := by
  cases caller with
  | none => exact candid_refuse (by decide)
  | some user => exact candid_pure trivial

theorem candid_document (body : Http.Body) : Candid (fun _ => True) (document body) := by
  refine (candid_ask fun _ => rfl).bind fun _ _ => ?_
  cases Document.ofBody body with
  | ok text => exact candid_pure trivial
  | error e => cases e <;> exact candid_refuse (by decide)

theorem candid_written (id owner : Int) (text : String) :
    Candid Unfailed (written id owner text) := by
  refine (candid_writeElection id owner text).bind fun id _ => ?_
  exact (Rendering.candid_invalidate id).bind fun _ _ => candid_success rfl

theorem candid_create (owner : Int) (body : Http.Body) : Candid Unfailed (create owner body) :=
  (candid_document body).bind fun text _ => (candid_written 0 owner text).connected

theorem candid_update (caller id : Int) (body : Http.Body) :
    Candid Unfailed (update caller id body) := by
  rw [update_eq]
  refine (candid_document body).bind fun text _ => Candid.connected ?_
  refine (candid_readElection id).bind fun existing _ => ?_
  split
  case isTrue => exact candid_written id caller text
  case isFalse => exact candid_refuse (by decide)

theorem candid_read (id : Int) : Candid Unfailed (read id) :=
  ((candid_readElection id).bind fun _ _ => candid_success rfl).connected

theorem candid_scanned (body : Http.Body) : Candid (fun _ => True) (scanned body) := by
  refine (candid_ask fun _ => rfl).bind fun _ _ => ?_
  cases body.read? scanLimit with
  | none => exact candid_refuse (by decide)
  | some image =>
    dsimp only
    split
    · exact candid_refuse (by decide)
    · exact candid_pure trivial

theorem candid_uploadScan {site : Site} (configured : site.archives = true) (id : Int)
    (request : Http.Request) : Candid Unfailed (uploadScan site id request) := by
  unfold uploadScan
  simp only [configured, Bool.not_true, Bool.false_eq_true, if_false]
  refine (candid_scanned request.body).bind fun image _ => ?_
  refine (candid_readElection id).connected.bind fun _ _ => ?_
  refine candid_ask_bind fun answer => ?_
  cases answer with
  | error e => exact .inr ⟨_, _, rfl, rfl⟩
  | ok name => exact .inl ⟨rfl, candid_success rfl⟩

/-- An upload by a caller to a server without an archive, which fails as one that cannot be
archived. -/
def unarchived (site : Site) (caller : Option Int) : Operation → List String
  | .scanUpload _ => if caller.isSome && !site.archives then ["scan archive fail"] else []
  | _ => []

/-- A response together with the failures of its request: it tells the first of them, and if there
are none it is not the server's fault. -/
def Answers (response : Http.Response) : List String → Prop
  | [] => Unfailed response
  | message :: _ => response = .plain 500 message

theorem Answers.status_eq_iff {response : Http.Response} {failed : List String}
    (answers : Answers response failed) : response.status = 500 ↔ failed ≠ [] := by
  cases failed with
  | nil =>
    have unfailed : response.status < 500 := answers
    simpa using Nat.ne_of_lt unfailed
  | cons message rest =>
    obtain rfl : response = .plain 500 message := answers
    simp [Http.Response.plain]

theorem Answers.first {response : Http.Response} {failed : List String}
    (answers : Answers response failed) (fails : 500 ≤ response.status) :
    ∃ message, failed.head? = some message ∧ response = .plain 500 message := by
  cases failed with
  | nil =>
    have unfailed : response.status < 500 := answers
    omega
  | cons message rest => exact ⟨message, rfl, answers⟩

theorem answers_of_tells {fault : Fault} {failed : List String} (tells : fault.Tells failed) :
    Answers fault.response failed := by
  cases fault with
  | client status message =>
    obtain ⟨client, rfl⟩ := tells
    exact client
  | backend message cause =>
    obtain rfl := tells
    rfl

theorem answers_of_candid {h : Handler Http.Response} (candid : Candid Unfailed h) :
    h.Keeps (fun _ _ => True) (fun past response => Answers response (failures past))
      (fun past fault => Answers fault.response (failures past)) [] := by
  apply (candid [] rfl).mono
  · rintro past response ⟨quiet, unfailed⟩
    rw [quiet]
    exact unfailed
  · exact fun past fault tells => answers_of_tells tells

theorem handle_answers (site : Site) (request : Http.Request) (caller : Option Int)
    (operation : Operation) :
    (handle site request caller operation).Keeps (fun _ _ => True)
      (fun past response => Answers response (unarchived site caller operation ++ failures past))
      (fun past fault =>
        Answers fault.response (unarchived site caller operation ++ failures past)) [] := by
  cases operation with
  | home => exact answers_of_candid (candid_success rfl)
  | unsupported => exact answers_of_candid (candid_pure (show 400 < 500 by decide))
  | badItem => exact answers_of_candid (candid_refuse (by decide))
  | scanForm id => exact answers_of_candid (candid_success rfl)
  | createElection =>
    exact answers_of_candid ((candid_known caller).bind fun user _ => candid_create user _)
  | updateElection id =>
    exact answers_of_candid ((candid_known caller).bind fun user _ => candid_update user id _)
  | readElection id => exact answers_of_candid (candid_read id)
  | ballotPdf id =>
    exact answers_of_candid ((Rendering.candid_ballot id).bind fun _ _ => candid_success rfl)
  | ballotBubbles id =>
    exact answers_of_candid ((Rendering.candid_ballot id).bind fun _ _ => candid_success rfl)
  | preview id =>
    exact answers_of_candid ((Rendering.candid_preview id).bind fun _ _ => candid_success rfl)
  | scanUpload id =>
    cases caller with
    | none => exact answers_of_candid (candid_refuse (by decide))
    | some user =>
      by_cases configured : site.archives = true
      · simp only [unarchived, configured, Option.isSome_some, Bool.not_true, Bool.and_false,
          Bool.false_eq_true, if_false, List.nil_append]
        exact answers_of_candid (candid_uploadScan configured id request)
      · simp only [handle, uploadScan, unarchived, configured, Option.isSome_some, Bool.not_false,
          Bool.and_true, if_true]
        exact keeps_bind.2 (keeps_pure.2 (keeps_bind.2 (keeps_throw.2 rfl)))

/-- Everything behind the server that failed for a request, in order. -/
def failuresOf (site : Site) (request : Http.Request) (past : List Exchange) : List String :=
  unarchived site (Session.caller? site.sessionKey request.cookies)
    (Operation.ofRequest request.method request.path) ++ failures past

theorem respond_answers (site : Site) (request : Http.Request) :
    (respond site request).Keeps (fun _ _ => True)
      (fun past response => Answers response (failuresOf site request past)) [] := by
  unfold respond
  refine (Script.keeps_bind ..).2 (Script.Keeps.mono (handle_answers site request _ _) ?_)
  rintro past (fault | response) met <;> exact met

end Server

end BallotServer
