import BallotServer.Server.Fault
import BallotServer.Server.Step

/-! Requests as scripts: what is done next depends only on the answers so far. A script can be run
to its end, stopped before a step and taken up again, interleaved with others, or dropped. -/

namespace BallotServer

inductive Script (α : Type) : Type
  | done (result : α)
  | call (step : Step) (next : step.Answer → Script α)

namespace Script

def bind {α β : Type} : Script α → (α → Script β) → Script β
  | done a, f => f a
  | call s next, f => call s fun answer => (next answer).bind f

instance : Monad Script where
  pure := done
  bind := bind

theorem bind_done {α : Type} (s : Script α) : s.bind done = s := by
  induction s with
  | done a => rfl
  | call s next ih => simp only [bind, ih]

theorem bind_assoc {α β γ : Type} (s : Script α) (f : α → Script β) (g : β → Script γ) :
    (s.bind f).bind g = s.bind fun a => (f a).bind g := by
  induction s with
  | done a => rfl
  | call s next ih => simp only [bind, ih]

instance : LawfulMonad Script :=
  LawfulMonad.mk' Script bind_done (fun _ _ => rfl) bind_assoc

def ask (s : Step) : Script s.Answer := call s done

/-- The world around the server, which decides outcomes one after another. -/
structure World (σ : Type) where
  decide : (s : Step) → σ → s.Outcome × σ

def runUntil {σ α : Type} (w : World σ) (stop : Step → Bool) :
    Script α → State → σ → Script α × State × σ
  | done a, st, outside => (done a, st, outside)
  | call s next, st, outside =>
    if stop s then (call s next, st, outside)
    else
      let (outcome, outside) := w.decide s outside
      let (answer, st) := st.perform s outcome
      runUntil w stop (next answer) st outside

def run {σ α : Type} (w : World σ) : Script α → State → σ → α × State × σ
  | done a, st, outside => (a, st, outside)
  | call s next, st, outside =>
    let (outcome, outside) := w.decide s outside
    let (answer, st) := st.perform s outcome
    run w (next answer) st outside

theorem runUntil_never {σ α : Type} (w : World σ) (s : Script α) (st : State) (outside : σ) :
    s.runUntil w (fun _ => false) st outside =
      (done (s.run w st outside).1, (s.run w st outside).2) := by
  induction s generalizing st outside with
  | done a => rfl
  | call s next ih => simp only [runUntil, run, Bool.false_eq_true, if_false, ih]

theorem run_bind {σ α β : Type} (w : World σ) (s : Script α) (f : α → Script β) (st : State)
    (outside : σ) :
    (s.bind f).run w st outside =
      (f (s.run w st outside).1).run w (s.run w st outside).2.1 (s.run w st outside).2.2 := by
  induction s generalizing st outside with
  | done a => rfl
  | call s next ih => simp only [bind, run, ih]

end Script

abbrev Handler := ExceptT Fault Script

namespace Handler

def ask (s : Step) : Handler s.Answer := ExceptT.lift (Script.ask s)

/-- Goes on with a good answer; a bad one ends the request with the fault it stands for. -/
def orFault {ε α : Type} (answer : Except ε α) (fault : ε → Fault) : Handler α :=
  match answer with
  | .ok a => return a
  | .error e => throw (fault e)

/-- Does something over a connection to the store, and releases it whatever comes of it. -/
def connected {α : Type} (body : Handler α) : Handler α := do
  orFault (← ask .connect) fun e => .backend "could not open db" (.store (.database e))
  let result ← ExceptT.lift body.run
  ask .release
  orFault result id

def readElection (id : Int) : Handler Election := do
  orFault (← ask (.readElection id)) (.ofStore "db get fail")

def writeElection (id owner : Int) (text : String) : Handler Int := do
  orFault (← ask (.writeElection id owner text)) (.ofStore "db put fail")

end Handler

end BallotServer
