import Mathlib.Data.List.Induction
import BallotServer.Proofs.StoreRows
import BallotServer.Store.Invite

/-! The calls that clients make of one store. The store answers one call at a time, so the calls of
any number of clients are one row of calls, with setups and reopenings of the file anywhere among
them. A call that fails changes nothing. -/

namespace BallotServer.Store

inductive Call
  | connect
  /-- Closes the file and opens it again, which sets it up. -/
  | reopen
  | setup
  | get (id : Int)
  | put (id owner : Int) (text : String)
  | invite (token : String) (expires : Instant)
  | purge (now : Instant)
  deriving DecidableEq

@[reducible]
def Call.Answer : Call → Type
  | connect | reopen | setup => Unit
  | get _ => Except StoreError Election
  | put _ _ _ => Except StoreError Int
  | invite _ _ => Except StoreError Unit
  | purge _ => Except StoreError Nat

/-- What a statement tells, and the store that it leaves. -/
def commit {α : Type} (s : Store) : Except StoreError (α × Store) → Except StoreError α × Store
  | .error cause => (.error cause, s)
  | .ok (answer, s') => (.ok answer, s')

def serve (s : Store) : (call : Call) → call.Answer × Store
  | .connect => ((), s)
  | .reopen => ((), s.setup)
  | .setup => ((), s.setup)
  | .get id => (s.read id, s)
  | .put id owner text => s.commit (s.write id owner text)
  | .invite token expires => s.commit ((s.invite token expires).map fun s' => ((), s'))
  | .purge now => s.commit (s.purge now)

structure Reply where
  call : Call
  answer : call.Answer

def serveAll (s : Store) : List Call → List Reply × Store
  | [] => ([], s)
  | call :: later =>
    let (replies, last) := (s.serve call).2.serveAll later
    (⟨call, (s.serve call).1⟩ :: replies, last)

theorem append_singleton_eq_append_cons {α : Type} {all before after : List α} {new cut : α} :
    all ++ [new] = before ++ cut :: after ↔
      (all = before ∧ new = cut ∧ after = []) ∨
        ∃ later, after = later ++ [new] ∧ all = before ++ cut :: later := by
  constructor
  · intro split
    rcases after.eq_nil_or_concat with rfl | ⟨later, last, rfl⟩
    · obtain ⟨same, only⟩ := List.append_inj' split rfl
      exact .inl ⟨same, List.head_eq_of_cons_eq only, rfl⟩
    · rw [List.concat_eq_append, ← List.cons_append, ← List.append_assoc] at split
      obtain ⟨same, only⟩ := List.append_inj' split rfl
      obtain rfl : new = last := List.head_eq_of_cons_eq only
      exact .inr ⟨later, List.concat_eq_append, same⟩
  · rintro (⟨rfl, rfl, rfl⟩ | ⟨later, rfl, rfl⟩)
    · rfl
    · rw [List.append_assoc, List.cons_append]

variable {s : Store} {t : Tables} {id owner : Int} {text token : String} {expires now : Instant}

theorem map_call_serveAll (s : Store) (calls : List Call) :
    (s.serveAll calls).1.map Reply.call = calls := by
  induction calls generalizing s with
  | nil => rfl
  | cons call later ih => exact congrArg (call :: ·) (ih _)

theorem serveAll_concat (s : Store) (calls : List Call) (call : Call) :
    s.serveAll (calls ++ [call]) =
      ((s.serveAll calls).1 ++ [⟨call, ((s.serveAll calls).2.serve call).1⟩],
        ((s.serveAll calls).2.serve call).2) := by
  induction calls generalizing s with
  | nil => rfl
  | cons first later ih =>
    rw [List.cons_append, serveAll, ih]
    rfl

/-- What holds of a new store before any reply, and with each further reply, holds after any
calls. -/
theorem serveAll_induction {P : List Reply → Store → Prop} (new : P [] fresh)
    (next : ∀ replies s call, P replies s →
      P (replies ++ [⟨call, (s.serve call).1⟩]) (s.serve call).2) (calls : List Call) :
    P (fresh.serveAll calls).1 (fresh.serveAll calls).2 := by
  induction calls using List.reverseRecOn with
  | nil => exact new
  | append_singleton calls call ih =>
    rw [serveAll_concat]
    exact next _ _ call ih

theorem serve_idle (tables : s.tables = some t) {call : Call}
    (idle : call ∈ [Call.connect, .reopen, .setup]) : (s.serve call).2 = s := by
  have same : s.setup = s := setup_of_isSome (Option.isSome_of_eq_some tables)
  simp only [List.mem_cons, List.not_mem_nil, or_false] at idle
  obtain rfl | rfl | rfl := idle
  · rfl
  · exact same
  · exact same

theorem serve_put_new (tables : s.tables = some t) :
    s.serve (.put 0 owner text) =
      (.ok ((t.lastId : Int) + 1), ⟨some (t.insert owner text)⟩) := by
  rw [serve, write_new tables]
  rfl

theorem serve_put_old {e : Election} (tables : s.tables = some t) (old : id ≠ 0)
    (found : s.find? id = some e) :
    s.serve (.put id owner text) = (.ok id, ⟨some (t.replace id text)⟩) := by
  rw [serve, write_old tables old found]
  rfl

theorem serve_put_missing (tables : s.tables = some t) (old : id ≠ 0)
    (missing : s.find? id = none) :
    s.serve (.put id owner text) = (.error (.notFound id), s) := by
  rw [serve, write_missing tables old missing]
  rfl

theorem serve_invite_taken (tables : s.tables = some t)
    (taken : ∃ i ∈ t.invites, i.token = token) :
    s.serve (.invite token expires) = (.error (.database .tokenTaken), s) := by
  have any : t.invites.any (fun i => i.token == token) := by simpa using taken
  simp only [serve, invite, tables, any, if_true]
  rfl

theorem serve_invite_new (tables : s.tables = some t)
    (free : ∀ i ∈ t.invites, i.token ≠ token) :
    s.serve (.invite token expires) =
      (.ok (), ⟨some { t with invites := t.invites ++ [⟨token, expires.second⟩] }⟩) := by
  have none : ¬ t.invites.any (fun i => i.token == token) := by simpa using free
  simp only [serve, invite, tables, none]
  rfl

theorem serve_purge (tables : s.tables = some t) :
    s.serve (.purge now) =
      (.ok (t.invites.length - (t.invites.filter fun i => now.second ≤ i.expires).length),
        ⟨some { t with invites := t.invites.filter fun i => now.second ≤ i.expires }⟩) := by
  simp only [serve, purge, tables]
  rfl

end BallotServer.Store
