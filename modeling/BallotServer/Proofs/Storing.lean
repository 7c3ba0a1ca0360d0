import BallotServer.Proofs.Rendered

/-! What handlers make of a store that works. Where the store cannot fail, what is written and read
depends on the records alone: `Yields` says, for any cache and any archive and whatever the backends
do, what a handler comes to and which records it leaves. -/

namespace BallotServer

def Step.StoreWorks : (s : Step) → s.Outcome → Prop
  | .connect, failure | .readElection _, failure | .writeElection _ _ _, failure => failure = none
  | _, _ => True

def Script.World.StoreWorks {σ : Type} (w : Script.World σ) : Prop :=
  ∀ (s : Step) (outside : σ), s.StoreWorks (w.decide s outside).1

namespace Handler

variable {σ α β : Type} {w : Script.World σ} {h : Handler α} {f : α → Handler β}
  {s s' s'' : Store} {a : α} {fault : Fault}

/-- From the store `s` the handler comes to a result and leaves the store `s'`. -/
def Yields (w : Script.World σ) (h : Handler α) (s : Store) (result : Except Fault α)
    (s' : Store) : Prop :=
  ∀ (st : State) (outside : σ), st.store = s →
    (h.run.run w st outside).1 = result ∧ (h.run.run w st outside).2.1.store = s'

theorem yields_pure : Yields w (pure a : Handler α) s (.ok a) s := fun _ _ is => ⟨rfl, is⟩

theorem yields_throw : Yields w (throw fault : Handler α) s (.error fault) s :=
  fun _ _ is => ⟨rfl, is⟩

theorem Yields.bind {result : Except Fault β} (first : Yields w h s (.ok a) s')
    (rest : Yields w (f a) s' result s'') : Yields w (h >>= f) s result s'' := by
  intro st outside is
  obtain ⟨answer, store⟩ := first st outside is
  rw [run_bind, Script.run_bind, answer]
  exact rest _ _ store

theorem Yields.bind_fault (first : Yields w h s (.error fault) s') :
    Yields w (h >>= f) s (.error fault) s' := by
  intro st outside is
  obtain ⟨answer, store⟩ := first st outside is
  rw [run_bind, Script.run_bind, answer]
  exact ⟨rfl, store⟩

theorem yields_ask {step : Step} {answer : step.Answer} (works : w.StoreWorks)
    (does : ∀ (st : State) (outcome : step.Outcome), st.store = s → step.StoreWorks outcome →
      (st.perform step outcome).1 = answer ∧ (st.perform step outcome).2.store = s') :
    Yields w (ask step) s (.ok answer) s' := by
  intro st outside is
  obtain ⟨same, store⟩ := does st _ is (works step outside)
  exact ⟨congrArg Except.ok same, store⟩

theorem yields_orFault {ε : Type} {answer : Except ε α} {fault : ε → Fault} :
    Yields w (orFault answer fault) s (answer.mapError fault) s := by
  cases answer with
  | error e => exact yields_throw
  | ok a => exact yields_pure

variable (works : w.StoreWorks)
include works

theorem Yields.connected {result : Except Fault α} (body : Yields w h s result s') :
    Yields w (connected h) s result s' := by
  intro st outside is
  have opened : (w.decide .connect outside).1 = none := works .connect outside
  rw [run_connected]
  simp only [Script.run, opened, State.perform, Script.run_bind]
  exact body st _ is

theorem yields_readElection (id : Int) :
    Yields w (readElection id) s ((s.read id).mapError (.ofStore "db get fail")) s := by
  have asked : Yields w (ask (.readElection id)) s (.ok (s.read id)) s := by
    apply yields_ask works
    intro st outcome is quiet
    obtain rfl : outcome = none := quiet
    exact ⟨congrArg (Store.read · id) is, is⟩
  exact asked.bind yields_orFault

theorem yields_writeElection {id id' owner : Int} {text : String}
    (wrote : s.write id owner text = .ok (id', s')) :
    Yields w (writeElection id owner text) s (.ok id') s' := by
  have asked : Yields w (ask (.writeElection id owner text)) s (.ok (.ok id')) s' := by
    apply yields_ask works
    intro st outcome is quiet
    obtain rfl : outcome = none := quiet
    simp only [State.perform, is, wrote, and_self]
  exact asked.bind yields_orFault

theorem yields_invalidate (id : Int) : Yields w (Rendering.invalidate id) s (.ok ()) s := by
  have dropped (key : String) : Yields w (ask (.invalidate key)) s (.ok ()) s :=
    yields_ask works fun _ _ is _ => ⟨rfl, is⟩
  exact (dropped _).bind (dropped _)

end Handler

namespace Server

open Handler

variable {σ : Type} {w : Script.World σ} (works : w.StoreWorks) {s s' : Store} {e : Election}
  {caller id id' : Int} {text : String}
include works

theorem yields_document (body : Http.Body) :
    Yields w (document body) s ((Document.ofBody body).mapError fun
      | .badBody => .badRequest "bad body"
      | .badJson => .badRequest "bad json") s := by
  have awaited : Yields w (ask .awaitBody) s (.ok ()) s :=
    yields_ask works fun _ _ is _ => ⟨rfl, is⟩
  exact awaited.bind yields_orFault

theorem yields_written {owner : Int} (wrote : s.write id owner text = .ok (id', s')) :
    Yields w (written id owner text) s (.ok (links id')) s' := by
  apply (yields_writeElection works wrote).bind
  exact (yields_invalidate works id').bind yields_pure

theorem yields_read (found : s.read id = .ok e) :
    Yields w (read id) s (.ok (.json e.text)) s := by
  have read : Yields w (readElection id) s _ s := yields_readElection works id
  rw [found] at read
  have shown : Yields w (do
      let election ← readElection id
      return .json election.text) s (.ok (Http.Response.json e.text)) s := read.bind yields_pure
  exact shown.connected works

theorem yields_read_missing (missing : s.read id = .error (.notFound id)) :
    Yields w (read id) s (.error (.badRequest "no item")) s := by
  have read : Yields w (readElection id) s _ s := yields_readElection works id
  rw [missing] at read
  exact read.bind_fault.connected works

variable {body : Http.Body} (accepted : Document.ofBody body = .ok text)
include accepted

theorem yields_accepted : Yields w (document body) s (.ok text) s := by
  have sent : Yields w (document body) s _ s := yields_document works body
  rwa [accepted] at sent

theorem yields_create (wrote : s.write 0 caller text = .ok (id', s')) :
    Yields w (create caller body) s (.ok (links id')) s' := by
  have written := yields_written works wrote
  exact (yields_accepted works accepted).bind (written.connected works)

theorem yields_update_missing (missing : s.read id = .error (.notFound id)) :
    Yields w (update caller id body) s (.error (.badRequest "no item")) s := by
  have read : Yields w (readElection id) s _ s := yields_readElection works id
  rw [missing] at read
  exact (yields_accepted works accepted).bind (read.bind_fault.connected works)

theorem yields_update_found {result : Except Fault Http.Response} (found : s.read id = .ok e)
    (rest : Yields w (if e.owner = caller then written id caller text else throw .unauthorized) s
      result s') :
    Yields w (update caller id body) s result s' := by
  have read : Yields w (readElection id) s _ s := yields_readElection works id
  rw [found] at read
  rw [update_eq]
  exact (yields_accepted works accepted).bind ((read.bind rest).connected works)

theorem yields_update_foreign (found : s.read id = .ok e) (foreign : e.owner ≠ caller) :
    Yields w (update caller id body) s (.error .unauthorized) s := by
  apply yields_update_found works accepted found
  rw [if_neg foreign]
  exact yields_throw

theorem yields_update (found : s.read id = .ok e) (owns : e.owner = caller)
    (wrote : s.write id caller text = .ok (id', s')) :
    Yields w (update caller id body) s (.ok (links id')) s' := by
  apply yields_update_found works accepted found
  rw [if_pos owns]
  exact yields_written works wrote

end Server

theorem Server.respond_eq (site : Site) (request : Http.Request) :
    respond site request = (handle site request
      (Session.caller? site.sessionKey request.cookies)
      (Operation.ofRequest request.method request.path)).run.bind fun result =>
        .done (answerOf id result) := by
  refine congrArg (Script.bind _) (funext fun result => ?_)
  cases result <;> rfl

namespace Visit

variable {σ : Type} {site : Site} {st : State} {v : Visit σ}

theorem answer_of_yields {result : Except Fault Http.Response} {s' : Store}
    (yields : Handler.Yields v.world (Server.handle site v.request
      (Session.caller? site.sessionKey v.request.cookies) v.operation) st.store result s') :
    v.answer site st = Server.answerOf id result ∧ (v.after site st).store = s' := by
  obtain ⟨answer, store⟩ := yields st v.outside rfl
  unfold Visit.answer Visit.after
  rw [Server.respond_eq, Script.run_bind]
  exact ⟨congrArg (Server.answerOf id) answer, store⟩

theorem store_after (created : v.operation ≠ .createElection)
    (updated : ∀ id, v.operation ≠ .updateElection id) : (v.after site st).store = st.store := by
  have unwritten : ∀ x ∈ v.exchanges site st, x.step.isWrite = false := by
    intro x member
    obtain ⟨past, may⟩ := (Server.respond_keeps site v.request).steps member
    obtain ⟨step, answer⟩ := x
    cases step with
    | writeElection id owner text =>
      obtain ⟨-, -, -, ⟨-, create⟩ | ⟨update, -⟩⟩ := may
      · exact absurd create created
      · exact absurd update (updated id)
    | _ => rfl
  exact (State.goes_reads (v.goes site st) unwritten).1

end Visit

end BallotServer
