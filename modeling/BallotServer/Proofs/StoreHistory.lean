import BallotServer.Proofs.StoreRows
import BallotServer.Proofs.System

/-! What a run leaves in the store. Every row that is there stays, with its owner and the text last
written to it; a row that is new was added by one of the writes of the run. -/

namespace BallotServer

def Exchange.wrote? (id : Int) : Exchange → Option String
  | ⟨.writeElection _ _ text, .ok id'⟩ => if id' = id then some text else none
  | _ => none

def Event.wrote? (id : Int) : Event → Option String
  | arrival _ _ => none
  | act _ did => did.wrote? id

def textsWritten (id : Int) (es : List Event) : List String := es.filterMap (Event.wrote? id)

theorem textsWritten_append (id : Int) (es es' : List Event) :
    textsWritten id (es ++ es') = textsWritten id es ++ textsWritten id es' :=
  List.filterMap_append

theorem textsWritten_act (id : Int) (i : Nat) (did : Exchange) :
    textsWritten id [.act i did] = (did.wrote? id).toList := by
  have same : Event.wrote? id (.act i did) = did.wrote? id := rfl
  rw [textsWritten, List.filterMap_cons, List.filterMap_nil, same]
  cases did.wrote? id <;> rfl

theorem wrote?_self (id target owner : Int) (text : String) :
    Exchange.wrote? id ⟨.writeElection target owner text, .ok id⟩ = some text := if_pos rfl

theorem Exchange.wrote?_eq_some {id : Int} {text : String} {x : Exchange}
    (h : x.wrote? id = some text) :
    ∃ target owner, x = ⟨.writeElection target owner text, .ok id⟩ := by
  obtain ⟨step, answer⟩ := x
  cases step with
  | writeElection target owner text' =>
    cases answer with
    | error e => cases h
    | ok id' =>
      by_cases same : id' = id
      · simp only [wrote?, same, if_true, Option.some.injEq] at h
        exact ⟨target, owner, by rw [same, h]⟩
      · simp [wrote?, same] at h
  | _ => cases h

theorem State.perform_store (st : State) (s : Step) (outcome : s.Outcome) :
    (st.perform s outcome).2.store = st.store ∧
        (∀ id, Exchange.wrote? id ⟨s, (st.perform s outcome).1⟩ = none) ∨
      ∃ target owner text id,
        (⟨s, (st.perform s outcome).1⟩ : Exchange) = ⟨.writeElection target owner text, .ok id⟩ ∧
          st.store.write target owner text = .ok (id, (st.perform s outcome).2.store) := by
  cases s with
  | connect => cases outcome <;> exact .inl ⟨rfl, fun _ => rfl⟩
  | readElection id => cases outcome <;> exact .inl ⟨rfl, fun _ => rfl⟩
  | writeElection target owner text =>
    cases outcome with
    | some e => exact .inl ⟨rfl, fun _ => rfl⟩
    | none =>
      cases written : st.store.write target owner text with
      | error e =>
        simp only [perform, written]
        exact .inl ⟨trivial, fun _ => rfl⟩
      | ok result =>
        simp only [perform, written]
        exact .inr ⟨target, owner, text, result.1, rfl, written⟩
  | _ => exact .inl ⟨rfl, fun _ => rfl⟩

namespace System

variable {site : Site} {S T U : System} {es es' : List Event} {i : Nat}

theorem Next.store {did : Exchange} (next : Next site T (.act i did) U) :
    U.state.store = T.state.store ∧ (∀ id, did.wrote? id = none) ∨
      ∃ target owner text id, did = ⟨.writeElection target owner text, .ok id⟩ ∧
        T.state.store.write target owner text = .ok (id, U.state.store) := by
  cases next with
  | act waits outcome => exact State.perform_store T.state _ outcome

theorem Next.numbered {e : Event} (next : Next site T e U) (numbered : T.state.store.Numbered) :
    U.state.store.Numbered := by
  cases e with
  | arrival j request =>
    cases next
    exact numbered
  | act j did =>
    rcases next.store with ⟨same, -⟩ | ⟨target, owner, text, id, -, written⟩
    · rwa [same]
    · exact numbered.write written

theorem Run.numbered (run : Run site S es T) (numbered : S.state.store.Numbered) :
    T.state.store.Numbered := by
  induction run with
  | nil => exact numbered
  | snoc run next ih => exact next.numbered ih

theorem Run.find? (run : Run site S es T) (numbered : S.state.store.Numbered) {id : Int}
    {e : Election} (found : S.state.store.find? id = some e) :
    T.state.store.find? id = some { e with text := (textsWritten id es).getLastD e.text } := by
  induction run with
  | nil => exact found
  | @snoc es T U event run next ih =>
    rw [textsWritten_append]
    cases event with
    | arrival j request =>
      cases next
      rw [show textsWritten id [.arrival T.tasks.length request] = [] from rfl, List.append_nil]
      exact ih
    | act j did =>
      rw [textsWritten_act]
      rcases next.store with ⟨same, silent⟩ | ⟨target, owner, text, id', rfl, written⟩
      · rw [same, silent id, Option.toList_none, List.append_nil]
        exact ih
      · rw [Store.find?_of_write (run.numbered numbered) written]
        by_cases this : id = id'
        · subst this
          rw [wrote?_self, Option.toList_some, List.getLastD_concat, if_pos rfl, ih,
            (Store.find?_eq_some found).2.symm]
          rfl
        · have other : Exchange.wrote? id ⟨.writeElection target owner text, .ok id'⟩ = none :=
            if_neg (Ne.symm this)
          rw [if_neg this, other, Option.toList_none, List.append_nil]
          exact ih

theorem Next.find?_of_read {id : Int} {e : Election}
    (next : Next site T (.act i ⟨.readElection id, .ok e⟩) U) :
    T.state.store.find? id = some e ∧ U.state.store = T.state.store := by
  obtain ⟨outcome, answer, after⟩ := next.performs
  cases outcome with
  | some cause => exact nomatch answer
  | none => exact ⟨(Store.read_eq_ok.1 (Eq.symm answer)).2, congrArg State.store after⟩

theorem Next.find?_of_write {target owner id : Int} {text : String}
    (next : Next site T (.act i ⟨.writeElection target owner text, .ok id⟩) U)
    (numbered : T.state.store.Numbered) :
    ∃ e, U.state.store.find? id = some e ∧ e.text = text := by
  rcases next.store with ⟨-, silent⟩ | ⟨target', owner', text', id', is, written⟩
  · have loud := silent id
    rw [wrote?_self] at loud
    cases loud
  · cases is
    rw [Store.find?_of_write numbered written, if_pos rfl]
    exact ⟨_, rfl, rfl⟩

end System

end BallotServer
