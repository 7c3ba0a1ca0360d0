import BallotServer.Proofs.Paths
import BallotServer.Proofs.Storing

/-! The server as a store of documents. A journal of the writes that were accepted, which is made
from the requests alone, tells what every request to create, to read or to update an election is
answered, as long as the store works; what else is asked for in between does not matter. -/

namespace BallotServer

/-- A write that was accepted, of a new election or of one that was there. -/
structure Accepted where
  id : Int
  owner : Int
  bytes : ByteArray
  new : Bool

/-- The accepted writes, the latest first. -/
abbrev Journal := List Accepted

namespace Journal

def created (j : Journal) : Nat := j.countP Accepted.new

def last? (j : Journal) (id : Int) : Option Accepted := j.find? fun e => e.id == id

/-- Who wants to write, and what, or why nobody may or nothing can be written. -/
def offer (site : Site) (request : Http.Request) : Except Http.Response (Int × ByteArray) :=
  match Session.caller? site.sessionKey request.cookies with
  | none => .error (.plain 401 "nope")
  | some user =>
    match request.body.read? 1000000 with
    | none => .error (.plain 400 "bad body")
    | some bytes =>
      if (Document.ofBytes? bytes).isSome then .ok (user, bytes)
      else .error (.plain 400 "bad json")

/-- The write of an election that is there, which its owner alone may make. -/
def revise (j : Journal) (id user : Int) (bytes : ByteArray) : Except Http.Response Accepted :=
  match j.last? id with
  | none => .error (.plain 400 "no item")
  | some e => if e.owner = user then .ok ⟨id, user, bytes, false⟩ else .error (.plain 401 "nope")

def verdict? (site : Site) (j : Journal) (request : Http.Request) :
    Operation → Option (Except Http.Response Accepted)
  | .createElection =>
    some ((offer site request).map fun (user, bytes) => ⟨j.created + 1, user, bytes, true⟩)
  | .updateElection id => some ((offer site request).bind fun (user, bytes) => j.revise id user bytes)
  | _ => none

def shown (j : Journal) (id : Int) : Http.Response :=
  match j.last? id with
  | none => .plain 400 "no item"
  | some e => ⟨200, .json, e.bytes⟩

def answer? (site : Site) (j : Journal) (request : Http.Request) :
    Operation → Option Http.Response
  | .readElection id => some (j.shown id)
  | operation => (verdict? site j request operation).map fun
    | .ok e => .json (Links.ofElection e.id).json
    | .error response => response

def enter (j : Journal) : Option (Except Http.Response Accepted) → Journal
  | some (.ok e) => e :: j
  | _ => j

def after (site : Site) (j : Journal) (request : Http.Request) : Journal :=
  j.enter (verdict? site j request (.ofRequest request.method request.path))

variable {site : Site} {request : Http.Request} {j : Journal} {s s' : Store} {user : Int}
  {bytes : ByteArray}

theorem last?_cons (e : Accepted) (k : Int) :
    last? (e :: j) k = if k = e.id then some e else j.last? k := by
  unfold last?
  rw [List.find?_cons]
  by_cases this : k = e.id
  · simp [this]
  · have other : (e.id == k) = false := beq_eq_false_iff_ne.2 (Ne.symm this)
    rw [other, if_neg this]

theorem after_cases (site : Site) (j : Journal) (request : Http.Request) :
    j.after site request = j ∨ ∃ e, j.after site request = e :: j ∧
      (e.new = true ∧ e.id = (j.created : Int) + 1 ∨
        e.new = false ∧ ∃ old, j.last? e.id = some old ∧ old.owner = e.owner) := by
  unfold after
  cases Operation.ofRequest request.method request.path with
  | createElection =>
    cases offered : offer site request with
    | error response => exact .inl (by simp only [verdict?, offered, Except.map, enter])
    | ok sent =>
      obtain ⟨user, bytes⟩ := sent
      refine .inr ⟨⟨j.created + 1, user, bytes, true⟩, ?_, .inl ⟨rfl, rfl⟩⟩
      simp only [verdict?, offered, Except.map, enter]
  | updateElection id =>
    cases offered : offer site request with
    | error response => exact .inl (by simp only [verdict?, offered, Except.bind, enter])
    | ok sent =>
      obtain ⟨user, bytes⟩ := sent
      cases last : j.last? id with
      | none => exact .inl (by simp only [verdict?, offered, Except.bind, revise, last, enter])
      | some old =>
        by_cases owns : old.owner = user
        · refine .inr ⟨⟨id, user, bytes, false⟩, ?_, .inr ⟨rfl, old, last, owns⟩⟩
          simp only [verdict?, offered, Except.bind, revise, last, owns, if_true, enter]
        · left
          simp only [verdict?, offered, Except.bind, revise, last, owns, if_false, enter]
  | _ => exact .inl rfl

/-- The numbers are given without gaps, from one on. -/
def Dense (j : Journal) : Prop := ∀ id, (j.last? id).isSome ↔ 1 ≤ id ∧ id ≤ (j.created : Int)

theorem Dense.after (dense : Dense j) (site : Site) (request : Http.Request) :
    Dense (j.after site request) := by
  intro id
  rcases after_cases site j request with same | ⟨e, grown, ⟨new, number⟩ | ⟨old, entry, last, -⟩⟩
  · rw [same]
    exact dense id
  · have count : created (e :: j) = created j + 1 := List.countP_cons_of_pos new
    rw [grown, last?_cons, count]
    by_cases this : id = e.id
    · simp only [this, if_true, Option.isSome_some, true_iff]
      omega
    · rw [if_neg this, dense]
      omega
  · have count : created (e :: j) = created j := List.countP_cons_of_neg (by simp [old])
    rw [grown, last?_cons, count]
    by_cases this : id = e.id
    · have numbered := (dense e.id).1 (Option.isSome_of_eq_some last)
      simp only [this, if_true, Option.isSome_some, true_iff]
      exact numbered
    · rw [if_neg this]
      exact dense id

/-- The store holds what was last accepted. -/
structure Matches (j : Journal) (s : Store) : Prop where
  counted : ∃ t, s.tables = some t ∧ t.lastId = j.created
  numbered : s.Numbered
  rows : ∀ id, (s.find? id).map (fun e => (e.owner, e.text.toByteArray)) =
    (j.last? id).map fun e => (e.owner, e.bytes)

theorem Matches.isSome (held : Matches j s) : s.tables.isSome := by
  obtain ⟨t, is, -⟩ := held.counted
  rw [is]
  rfl

theorem Matches.read_missing (held : Matches j s) {id : Int} (none : j.last? id = none) :
    s.read id = .error (.notFound id) := by
  have row := held.rows id
  rw [none, Option.map_none, Option.map_eq_none_iff] at row
  exact Store.read_eq_notFound held.isSome row

theorem Matches.read_found (held : Matches j s) {id : Int} {entry : Accepted}
    (last : j.last? id = some entry) :
    ∃ e, s.read id = .ok e ∧ e.owner = entry.owner ∧ e.text.toByteArray = entry.bytes := by
  have row := held.rows id
  rw [last, Option.map_some, Option.map_eq_some_iff] at row
  obtain ⟨e, found, same⟩ := row
  rw [Prod.mk.injEq] at same
  exact ⟨e, Store.read_eq_ok.2 ⟨held.isSome, found⟩, same⟩

theorem Matches.write (held : Matches j s) {target id : Int} {text : String} {new : Bool}
    (wrote : s.write target user text = .ok (id, s'))
    (counted : ∃ t, s'.tables = some t ∧ t.lastId = created (⟨id, user, text.toByteArray, new⟩ :: j))
    (owned : (s.find? id).elim user Election.owner = user) :
    Matches (⟨id, user, text.toByteArray, new⟩ :: j) s' where
  counted := counted
  numbered := held.numbered.write wrote
  rows := by
    intro k
    rw [Store.find?_of_write held.numbered wrote, last?_cons]
    by_cases this : k = id
    · rw [if_pos this, if_pos this, this, owned]
      rfl
    · rw [if_neg this, if_neg this]
      exact held.rows k

theorem Matches.create (held : Matches j s) (user : Int) (text : String) :
    ∃ s', s.write 0 user text = .ok ((j.created : Int) + 1, s') ∧
      Matches (⟨j.created + 1, user, text.toByteArray, true⟩ :: j) s' := by
  obtain ⟨t, tables, last⟩ := held.counted
  have wrote : s.write 0 user text = _ := Store.write_new tables
  rw [last] at wrote
  refine ⟨_, wrote, held.write wrote ⟨_, rfl, ?_⟩ ?_⟩
  · simp [Tables.insert, created, last]
  · rw [← last, held.numbered.find?_next tables]
    rfl

theorem Matches.update (held : Matches j s) {id : Int} {e : Election} (found : s.read id = .ok e)
    (text : String) :
    ∃ s', s.write id e.owner text = .ok (id, s') ∧
      Matches (⟨id, e.owner, text.toByteArray, false⟩ :: j) s' := by
  obtain ⟨t, tables, last⟩ := held.counted
  obtain ⟨-, row⟩ := Store.read_eq_ok.1 found
  obtain ⟨member, is⟩ := Store.find?_eq_some row
  have positive := held.numbered.positive member
  have wrote : s.write id e.owner text = _ := Store.write_old tables (by omega) row
  refine ⟨_, wrote, held.write wrote ⟨_, rfl, ?_⟩ ?_⟩
  · simp [Tables.replace, created, last]
  · rw [row]
    rfl

section Handlers

open Handler Server

theorem offer_eq_ok (offered : offer site request = .ok (user, bytes)) :
    Session.caller? site.sessionKey request.cookies = some user ∧
      ∃ text, Document.ofBody request.body = .ok text ∧ text.toByteArray = bytes := by
  unfold offer at offered
  cases caller : Session.caller? site.sessionKey request.cookies with
  | none => simp [caller] at offered
  | some owner =>
    cases body : request.body.read? 1000000 with
    | none => simp [caller, body] at offered
    | some sent =>
      cases read : Document.ofBytes? sent with
      | none => simp [caller, body, read] at offered
      | some text =>
        simp only [caller, body, read, Option.isSome_some, if_true, Except.ok.injEq,
          Prod.mk.injEq] at offered
        obtain ⟨rfl, rfl⟩ := offered
        refine ⟨rfl, text, ?_, Document.toByteArray_of_ofBytes? read⟩
        simp only [Document.ofBody, Document.limit, body, read]

variable {σ : Type} {w : Script.World σ} (works : w.StoreWorks)
include works

theorem yields_refused {response : Http.Response} (write : Int → String → Handler Http.Response)
    (refused : offer site request = .error response) :
    ∃ fault, fault.response = response ∧
      Yields w (do
        let user ← known (Session.caller? site.sessionKey request.cookies)
        let text ← document request.body
        write user text) s (.error fault) s := by
  unfold offer at refused
  cases caller : Session.caller? site.sessionKey request.cookies with
  | none =>
    simp only [caller, Except.error.injEq] at refused
    exact ⟨.unauthorized, refused, yields_throw.bind_fault⟩
  | some user =>
    have sent : Yields w (document request.body) s _ s := yields_document works request.body
    cases body : request.body.read? 1000000 with
    | none =>
      simp only [caller, body, Except.error.injEq] at refused
      simp only [Document.ofBody, Document.limit, body] at sent
      exact ⟨.badRequest "bad body", refused, yields_pure.bind sent.bind_fault⟩
    | some bytes =>
      cases read : Document.ofBytes? bytes with
      | none =>
        simp only [caller, body, read, Option.isSome_none, Bool.false_eq_true, if_false,
          Except.error.injEq] at refused
        simp only [Document.ofBody, Document.limit, body, read] at sent
        exact ⟨.badRequest "bad json", refused, yields_pure.bind sent.bind_fault⟩
      | some text => simp [caller, body, read] at refused

/-- A request is handled as the journal says, and the journal is kept up to date. -/
def Follows (w : Script.World σ) (site : Site) (request : Http.Request) (j : Journal) (s : Store)
    (operation : Operation) : Prop :=
  ∃ result s', Yields w (handle site request
      (Session.caller? site.sessionKey request.cookies) operation) s result s' ∧
    answer? site j request operation = some (answerOf id result) ∧
    Matches (j.enter (verdict? site j request operation)) s'

theorem Matches.follows_create (held : Matches j s) :
    Follows w site request j s .createElection := by
  cases offered : offer site request with
  | error response =>
    obtain ⟨fault, rfl, yields⟩ := yields_refused works (fun user text => connected do
      let id ← writeElection 0 user text
      Rendering.invalidate id
      return links id) offered
    refine ⟨.error fault, s, yields, ?_, ?_⟩
    · simp only [answer?, verdict?, offered, Except.map, Option.map_some, answerOf]
    · simp only [verdict?, offered, Except.map, enter]
      exact held
  | ok sent =>
    obtain ⟨user, bytes⟩ := sent
    obtain ⟨caller, text, accepted, rfl⟩ := offer_eq_ok offered
    obtain ⟨s', wrote, held'⟩ := held.create user text
    refine ⟨.ok (links (j.created + 1)), s', ?_, ?_, ?_⟩
    · rw [caller]
      exact yields_pure.bind (yields_create works accepted wrote)
    · simp only [answer?, verdict?, offered, Except.map, Option.map_some, answerOf, links, id]
    · simp only [verdict?, offered, Except.map, enter]
      exact held'

theorem Matches.follows_update (held : Matches j s) (target : Int) :
    Follows w site request j s (.updateElection target) := by
  cases offered : offer site request with
  | error response =>
    obtain ⟨fault, rfl, yields⟩ := yields_refused works (fun user text => connected do
      let existing ← readElection target
      if existing.owner ≠ user then throw .unauthorized
      let id ← writeElection target existing.owner text
      Rendering.invalidate id
      return links id) offered
    refine ⟨.error fault, s, yields, ?_, ?_⟩
    · simp only [answer?, verdict?, offered, Except.bind, Option.map_some, answerOf]
    · simp only [verdict?, offered, Except.bind, enter]
      exact held
  | ok sent =>
    obtain ⟨user, bytes⟩ := sent
    obtain ⟨caller, text, accepted, rfl⟩ := offer_eq_ok offered
    have known : Yields w (known (Session.caller? site.sessionKey request.cookies)) s (.ok user) s := by
      rw [caller]
      exact yields_pure
    cases last : j.last? target with
    | none =>
      refine ⟨.error (.badRequest "no item"), s,
        known.bind (yields_update_missing works accepted (held.read_missing last)), ?_, ?_⟩
      · simp only [answer?, verdict?, offered, Except.bind, revise, last, Option.map_some, answerOf]
        rfl
      · simp only [verdict?, offered, Except.bind, revise, last, enter]
        exact held
    | some entry =>
      obtain ⟨e, found, owner, -⟩ := held.read_found last
      by_cases owns : e.owner = user
      · obtain ⟨s', wrote, held'⟩ := held.update found text
        rw [owns] at wrote held'
        refine ⟨.ok (links target), s',
          known.bind (yields_update works accepted found owns wrote), ?_, ?_⟩
        · simp only [answer?, verdict?, offered, Except.bind, revise, last, ← owner, owns, if_true,
            Option.map_some, answerOf, links, id]
        · simp only [verdict?, offered, Except.bind, revise, last, ← owner, owns, if_true, enter]
          exact held'
      · refine ⟨.error .unauthorized, s,
          known.bind (yields_update_foreign works accepted found owns), ?_, ?_⟩
        · simp only [answer?, verdict?, offered, Except.bind, revise, last, ← owner, owns, if_false,
            Option.map_some, answerOf]
          rfl
        · simp only [verdict?, offered, Except.bind, revise, last, ← owner, owns, if_false, enter]
          exact held

theorem Matches.follows_read (held : Matches j s) (target : Int) :
    Follows w site request j s (.readElection target) := by
  cases last : j.last? target with
  | none =>
    refine ⟨.error (.badRequest "no item"), s,
      yields_read_missing works (held.read_missing last), ?_, held⟩
    simp only [answer?, shown, last, answerOf]
    rfl
  | some entry =>
    obtain ⟨e, found, -, text⟩ := held.read_found last
    refine ⟨.ok (.json e.text), s, yields_read works found, ?_, held⟩
    simp only [answer?, shown, last, answerOf, ← text]
    rfl

end Handlers

variable {σ : Type} {v : Visit σ} {st : State}

theorem Follows.visit (follows : Follows v.world site v.request j st.store v.operation) :
    answer? site j v.request v.operation = some (v.answer site st) ∧
      Matches (j.after site v.request) (v.after site st).store := by
  obtain ⟨result, s', yields, answered, held⟩ := follows
  obtain ⟨answer, store⟩ := Visit.answer_of_yields yields
  rw [answer, store]
  exact ⟨answered, held⟩

theorem Matches.visit (held : Matches j st.store) (works : v.world.StoreWorks) :
    (∀ response, answer? site j v.request v.operation = some response →
        v.answer site st = response) ∧
      Matches (j.after site v.request) (v.after site st).store := by
  have judged (follows : Follows v.world site v.request j st.store v.operation) :
      (∀ response, answer? site j v.request v.operation = some response →
          v.answer site st = response) ∧
        Matches (j.after site v.request) (v.after site st).store := by
    obtain ⟨answered, held'⟩ := follows.visit
    exact ⟨fun response is => Option.some.inj (answered.symm.trans is), held'⟩
  cases asked : v.operation with
  | createElection => exact asked ▸ judged (asked ▸ held.follows_create works)
  | updateElection id => exact asked ▸ judged (asked ▸ held.follows_update works id)
  | readElection id => exact asked ▸ judged (asked ▸ held.follows_read works id)
  | _ =>
    have store : (v.after site st).store = st.store :=
      v.store_after (by simp [asked]) (by simp [asked])
    have kept : j.after site v.request = j := by
      have same : Operation.ofRequest v.request.method v.request.path = _ := asked
      simp only [Journal.after, same, verdict?, enter]
    rw [store, kept]
    exact ⟨fun response is => (by simp [answer?, verdict?] at is), held⟩

theorem Matches.serveAll (visits : List (Visit σ)) (held : Matches j st.store)
    (works : ∀ u ∈ visits, u.world.StoreWorks) :
    Matches ((visits.map Visit.request).foldl (after site) j)
      (Visit.serveAll site st visits).2.store := by
  induction visits generalizing st j with
  | nil => exact held
  | cons u later ih =>
    have first := (@Matches.visit site j σ u st held (works u (.head _))).2
    exact ih first fun u' member => works u' (.tail _ member)

end Journal

end BallotServer
