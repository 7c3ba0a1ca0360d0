import BallotServer.Proofs.ArtifactKinds
import BallotServer.Proofs.Records

/-! The keys under which requests touch the cache. A rendering looks for the artifacts of its
election, and keeps them, under the keys of that election; an update drops what it wrote. So a
request about an election touches the keys of no other, whatever happens in between. -/

namespace BallotServer

def Step.key? : Step → Option String
  | lookUp key | generation key | keep key _ _ | invalidate key => some key
  | _ => none

namespace Server

open Handler Rendering

variable {site : Site} {request : Http.Request} {past : List Exchange} {id : Int}

/-- A step that is not about the cache, or about a key of the election. -/
def Touches (id : Int) (_ : List Exchange) (s : Step) : Prop :=
  ∀ key, s.key? = some key → key ∈ Artifact.keysOf id

def Anyhow {α : Type} (_ : List Exchange) (_ : α) : Prop := True

theorem touches_of_proper {s : Step} (proper : Proper id past s) : Touches id past s := by
  cases s with
  | lookUp key =>
    rintro _ ⟨⟩
    exact proper
  | generation key =>
    rintro _ ⟨⟩
    exact proper.1
  | keep key artifact generation =>
    rintro _ ⟨⟩
    rw [show key = artifact.keyFor id from proper]
    exact artifact.keyFor_mem id
  | invalidate key =>
    rintro _ ⟨⟩
    exact proper
  | _ => nofun

theorem handle_touches {caller : Option Int} {operation : Operation}
    (asked : operation.rendering? = some id) :
    (handle site request caller operation).Keeps (Touches id) Anyhow Anyhow past := by
  cases operation with
  | ballotPdf id' | ballotBubbles id' =>
    cases asked
    have touches := Script.Keeps.weaken (@ballot_proper id past) fun _ _ => touches_of_proper
    exact keeps_bind.2 (Keeps.mono touches (fun _ _ _ => trivial) fun _ _ _ => trivial)
  | preview id' =>
    cases asked
    have touches := Script.Keeps.weaken (@preview_proper id past) fun _ _ => touches_of_proper
    exact keeps_bind.2 (Keeps.mono touches (fun _ _ _ => trivial) fun _ _ _ => trivial)
  | _ => cases asked

theorem respond_touches
    (asked : (Operation.ofRequest request.method request.path).rendering? = some id) :
    (respond site request).Keeps (Touches id) Anyhow [] := by
  unfold respond
  refine (Script.keeps_bind ..).2 (Script.Keeps.mono (handle_touches asked) ?_)
  rintro past (fault | response) _ <;> trivial

end Server

theorem Operation.election?_of_rendering? {operation : Operation} {id : Int}
    (asked : operation.rendering? = some id) : operation.election? = some id := by
  cases operation with
  | ballotPdf id' | ballotBubbles id' | preview id' => exact asked
  | _ => cases asked

namespace System

variable {site : Site} {S T U : System} {es : List Event} {i : Nat} {request : Http.Request}
  {id : Int}

theorem Run.written_about {id' target owner : Int} {text : String} (run : Run site S es T)
    (idle : S.tasks = []) (numbered : S.state.store.Numbered) (arrived : .arrival i request ∈ es)
    (about : (Operation.ofRequest request.method request.path).election? = some id)
    (wrote : .act i ⟨.writeElection target owner text, .ok id'⟩ ∈ es) : id' = id := by
  obtain ⟨before, after, rfl⟩ := List.append_of_mem wrote
  obtain ⟨V, W, first, next, -⟩ := run.at
  obtain ⟨request', arrived', -, ⟨asked, -⟩ | ⟨asked, -⟩⟩ := first.write idle numbered next
  all_goals
    obtain rfl := run.arrival_unique arrived (List.mem_append_left _ arrived')
    rw [asked] at about
    cases about
  rfl

theorem Run.key_mem {did : Exchange} {key : String} (run : Run site S es T) (idle : S.tasks = [])
    (numbered : S.state.store.Numbered) (arrived : .arrival i request ∈ es)
    (about : (Operation.ofRequest request.method request.path).election? = some id)
    (member : .act i did ∈ es) (touched : did.step.key? = some key) :
    key ∈ Artifact.keysOf id := by
  obtain ⟨before, after, rfl⟩ := List.append_of_mem member
  obtain ⟨request', arrived', conduct⟩ := run.conduct idle
  obtain rfl := run.arrival_unique arrived (List.mem_append_left _ arrived')
  cases renders : (Operation.ofRequest request.method request.path).rendering? with
  | some id' =>
    have same := about.symm.trans (Operation.election?_of_rendering? renders)
    obtain rfl := Option.some.inj same
    obtain ⟨V, W, first, next, -⟩ := run.at
    obtain ⟨request', rest, waits⟩ := next.waits
    obtain ⟨arrived'', course⟩ := first.course idle waits
    obtain rfl := run.arrival_unique arrived (List.mem_append_left _ arrived'')
    exact ((Server.respond_touches renders).along course).1 key touched
  | none =>
    -- Only the invalidations after a write are left.
    obtain ⟨step, answer⟩ := did
    cases step with
    | invalidate key' =>
      cases touched
      obtain ⟨past, target, owner, text, id', -, drops⟩ := conduct
      have among : (⟨.writeElection target owner text, .ok id'⟩ : Exchange) ∈
          exchangesOf i before := by
        rcases drops with ⟨-, wrote⟩ | ⟨-, wrote⟩ <;> simp [wrote]
      obtain rfl := run.written_about idle numbered arrived about
        (List.mem_append_left _ (mem_exchangesOf.1 among))
      rcases drops with ⟨rfl, -⟩ | ⟨rfl, -⟩
      · exact Artifact.ballotKey_mem id'
      · exact Artifact.previewKey_mem id'
    | lookUp key' | generation key' =>
      have looks : (Operation.ofRequest request.method request.path).rendering?.isSome := conduct
      rw [renders] at looks
      cases looks
    | keep key' artifact generation =>
      obtain ⟨id', -, -, -, -, -, keeps⟩ := conduct
      rw [renders] at keeps
      cases keeps
    | _ => cases touched

end System

end BallotServer
