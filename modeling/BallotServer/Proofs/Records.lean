import BallotServer.Proofs.Paths
import BallotServer.Proofs.Serving
import BallotServer.Proofs.StoreHistory

/-! Who writes which records. The owner of a record is read some time before the record is written;
the test of the owner still holds at the write because owners never change and records are never
removed. A path below `/election/` never adds a record: an id that was read is not zero. -/

namespace BallotServer

namespace Document

theorem ofBody_eq_ok {body : Http.Body} {text : String} (h : ofBody body = .ok text) :
    ∃ bytes, body.read? limit = some bytes ∧ bytes.size ≤ limit ∧
      Json.isObjectOrNull bytes.data.toList ∧ text.toByteArray = bytes := by
  unfold ofBody at h
  cases read : body.read? limit with
  | none => simp [read] at h
  | some bytes =>
    cases accepted : ofBytes? bytes with
    | none => simp [read, accepted] at h
    | some text' =>
      simp only [read, accepted, Except.ok.injEq] at h
      subst h
      have strict : Json.isObjectOrNull bytes.data.toList := by
        unfold ofBytes? at accepted
        split at accepted
        · assumption
        · cases accepted
      exact ⟨bytes, rfl, Http.Body.size_of_read? read, strict, toByteArray_of_ofBytes? accepted⟩

end Document

namespace Operation

theorem ofElectionPath_view_ne (method : String) (digits : List Char) (v : View) :
    ofElectionPath method (.view digits v) ≠ createElection := by
  unfold ofElectionPath
  split
  · cases Verb.ofMethod? method with
    | none => simp
    | some verb => cases v <;> cases verb <;> simp [ofVerb?, ofView?]
  · simp

theorem ofRequest_ne_createElection {method path : String} {tail : List Char}
    (below : path.toList = ElectionPath.root ++ '/' :: tail) :
    ofRequest method path ≠ createElection := by
  unfold ofRequest ElectionPath.ofPath?
  rw [below, isPrefixOf?_append]
  cases read : ElectionPath.ofTail? tail with
  | none => simp [read]
  | some p =>
    simp only [read]
    unfold ElectionPath.ofTail? at read
    dsimp only at read
    split at read
    · cases read
    · obtain ⟨v, -, rfl⟩ := Option.map_eq_some_iff.1 read
      exact ofElectionPath_view_ne method _ v

end Operation

structure Http.Request.Sends (request : Http.Request) (site : Site) (user : Int) (text : String) :
    Prop where
  caller : Session.caller? site.sessionKey request.cookies = some user
  document : ∃ bytes, request.body.read? 1000000 = some bytes ∧ bytes.size ≤ 1000000 ∧
    Json.isObjectOrNull bytes.data.toList ∧ text.toByteArray = bytes

/-- How a record came about in a run: its owner created it, and its text is what its owner sent. -/
structure Recorded (site : Site) (es : List Event) (e : Election) : Prop where
  positive : 1 ≤ e.id
  created : ∃ i request text, .arrival i request ∈ es ∧
    Operation.ofRequest request.method request.path = .createElection ∧
    Session.caller? site.sessionKey request.cookies = some e.owner ∧
    .act i ⟨.writeElection 0 e.owner text, .ok e.id⟩ ∈ es
  sent : ∃ i request target, .arrival i request ∈ es ∧
    (Operation.ofRequest request.method request.path = .createElection ∨
      Operation.ofRequest request.method request.path = .updateElection e.id) ∧
    request.Sends site e.owner e.text ∧
    .act i ⟨.writeElection target e.owner e.text, .ok e.id⟩ ∈ es

theorem Recorded.mono {site : Site} {es es' : List Event} {e : Election}
    (recorded : Recorded site es e) (subset : es ⊆ es') : Recorded site es' e := by
  obtain ⟨positive, created, sent⟩ := recorded
  obtain ⟨i, request, text, arrived, asked, caller, wrote⟩ := created
  obtain ⟨j, request', target, arrived', asked', sends, wrote'⟩ := sent
  exact ⟨positive, ⟨i, request, text, subset arrived, asked, caller, subset wrote⟩,
    ⟨j, request', target, subset arrived', asked', sends, subset wrote'⟩⟩

namespace System

variable {site : Site} {S T U : System} {es es' : List Event} {i : Nat} {id target owner : Int}
  {text : String}

/-- A write that succeeds adds a record for the caller of a create request, or replaces the text of
a record that belongs to the caller of an update request. -/
theorem Run.write (run : Run site S es T) (idle : S.tasks = [])
    (numbered : S.state.store.Numbered)
    (next : Next site T (.act i ⟨.writeElection target owner text, .ok id⟩) U) :
    ∃ request, .arrival i request ∈ es ∧ request.Sends site owner text ∧
      (Operation.ofRequest request.method request.path = .createElection ∧ target = 0 ∧
          T.state.store.find? id = none ∨
        Operation.ofRequest request.method request.path = .updateElection id ∧ target = id ∧
          ∃ e, T.state.store.find? id = some e ∧ e.owner = owner) := by
  have wrote : T.state.store.write target owner text = .ok (id, U.state.store) := by
    rcases next.store with ⟨-, silent⟩ | ⟨target', owner', text', id', is, wrote⟩
    · have loud := silent id
      rw [wrote?_self] at loud
      cases loud
    · cases is
      exact wrote
  obtain ⟨request, arrived, -, caller, accepted, asked⟩ :=
    (run.snoc next : Run site S (es ++ _ :: []) U).conduct idle
  refine ⟨request, arrived, ⟨caller, Document.ofBody_eq_ok accepted⟩, ?_⟩
  obtain ⟨t, tables, change⟩ := Store.write_eq_ok wrote
  rcases asked with ⟨new, asked⟩ | ⟨asked, e, owns, read⟩
  · rcases change with ⟨-, next', -⟩ | ⟨old, -⟩
    · refine .inl ⟨asked, new, ?_⟩
      rw [next']
      exact (run.numbered numbered).find?_next tables
    · exact absurd new old
  · -- The record was there when it was read, so its id is positive, and it is still there.
    obtain ⟨x, y, rfl⟩ := List.append_of_mem (mem_exchangesOf.1 read)
    obtain ⟨V, W, first, reading, rest⟩ := run.at
    obtain ⟨found, same⟩ := reading.find?_of_read
    have numbered' := first.numbered numbered
    have now := rest.find? (same.symm ▸ numbered') (same.symm ▸ found)
    obtain ⟨member, is⟩ := Store.find?_eq_some found
    have positive := numbered'.positive member
    rcases change with ⟨zero, -⟩ | ⟨-, same', -⟩
    · omega
    · subst same'
      exact .inr ⟨asked, rfl, _, now, owns⟩

theorem Next.recorded_of_write (run : Run site S es T) (idle : S.tasks = [])
    (numbered : S.state.store.Numbered)
    (next : Next site T (.act i ⟨.writeElection target owner text, .ok id⟩) U)
    (recorded : ∀ r ∈ T.state.store.elections, Recorded site es r) {user : Int}
    (member : ⟨id, user, text⟩ ∈ U.state.store.elections)
    (owned : user = (T.state.store.find? id).elim owner Election.owner) :
    Recorded site (es ++ [.act i ⟨.writeElection target owner text, .ok id⟩])
      ⟨id, user, text⟩ := by
  have subset := List.subset_append_left es [.act i ⟨.writeElection target owner text, .ok id⟩]
  have last : .act i ⟨.writeElection target owner text, .ok id⟩ ∈
      es ++ [.act i ⟨.writeElection target owner text, .ok id⟩] :=
    List.mem_append_right es List.mem_cons_self
  obtain ⟨request, arrived, sends, ⟨asked, rfl, new⟩ | ⟨asked, rfl, e, found, rfl⟩⟩ :=
    run.write idle numbered next
  · rw [new, Option.elim_none] at owned
    subst owned
    have positive := (next.numbered (run.numbered numbered)).positive member
    exact ⟨positive, ⟨i, request, text, subset arrived, asked, sends.caller, last⟩,
      ⟨i, request, 0, subset arrived, .inl asked, sends, last⟩⟩
  · rw [found, Option.elim_some] at owned
    subst owned
    obtain ⟨old, rfl⟩ := Store.find?_eq_some found
    obtain ⟨positive, created, -⟩ := (recorded e old).mono subset
    exact ⟨positive, created, ⟨i, request, e.id, subset arrived, .inr asked, sends, last⟩⟩

theorem Next.recorded {e : Event} (run : Run site S es T) (idle : S.tasks = [])
    (numbered : S.state.store.Numbered) (next : Next site T e U)
    (recorded : ∀ r ∈ T.state.store.elections, Recorded site es r) :
    ∀ r ∈ U.state.store.elections, Recorded site (es ++ [e]) r := by
  have subset : es ⊆ es ++ [e] := List.subset_append_left es [e]
  cases e with
  | arrival j request =>
    cases next
    exact fun r member => (recorded r member).mono subset
  | act i did =>
    rcases next.store with ⟨same, -⟩ | ⟨target, owner, text, id, rfl, wrote⟩
    · rw [same]
      exact fun r member => (recorded r member).mono subset
    · intro r member
      have now := (next.numbered (run.numbered numbered)).find?_of_mem member
      rw [Store.find?_of_write (run.numbered numbered) wrote] at now
      by_cases this : r.id = id
      · obtain ⟨rid, rowner, rtext⟩ := r
        dsimp only at this now
        subst this
        rw [if_pos rfl, Option.some.injEq, Election.mk.injEq] at now
        obtain ⟨-, owned, rfl⟩ := now
        exact next.recorded_of_write run idle numbered recorded member owned.symm
      · rw [if_neg this] at now
        exact (recorded r (Store.find?_eq_some now).1).mono subset

theorem Run.recorded (run : Run site S es T) (idle : S.tasks = [])
    (empty : S.state.store.elections = []) (numbered : S.state.store.Numbered) :
    ∀ r ∈ T.state.store.elections, Recorded site es r := by
  induction run with
  | nil => simp [empty]
  | snoc run next ih => exact next.recorded run idle numbered ih

theorem Run.keeps_record (run : Run site S es T) (numbered : S.state.store.Numbered)
    {r : Election} (member : r ∈ S.state.store.elections) :
    ∃ r' ∈ T.state.store.elections, r'.id = r.id ∧ r'.owner = r.owner :=
  ⟨_, (Store.find?_eq_some (run.find? numbered (numbered.find?_of_mem member))).1, rfl, rfl⟩

theorem Next.ids (run : Run site S es T) (idle : S.tasks = []) (numbered : S.state.store.Numbered)
    {request : Http.Request} {did : Exchange} (arrived : .arrival i request ∈ es)
    (other : Operation.ofRequest request.method request.path ≠ .createElection)
    (next : Next site T (.act i did) U) :
    U.state.store.elections.map Election.id = T.state.store.elections.map Election.id := by
  rcases next.store with ⟨same, -⟩ | ⟨target, owner, text, id, rfl, wrote⟩
  · rw [same]
  · obtain ⟨request', arrived', -, ⟨asked, -⟩ | ⟨-, rfl, e, found, -⟩⟩ :=
      run.write idle numbered next
    · rw [run.arrival_unique arrived' arrived] at asked
      exact absurd asked other
    · obtain ⟨member, is⟩ := Store.find?_eq_some found
      have positive := (run.numbered numbered).positive member
      obtain ⟨t, tables, ⟨zero, -⟩ | ⟨-, -, -, after⟩⟩ := Store.write_eq_ok wrote
      · omega
      · rw [after, Store.elections_some, Store.elections_of_tables tables]
        simp only [Tables.replace, List.map_map, Function.comp_def, Tables.id_replaced]

/-- Starting from empty tables, in every run of any requests: each record has a positive id, was
created by its owner and has a text that its owner sent; whatever happens next, it stays, with its
owner; and no step of a request below `/election/` changes which records there are. -/
theorem records_authorized {archive : Archive} {cacheBytes : UInt64}
    (run : Run site (start .fresh archive cacheBytes) es S) :
    (∀ r ∈ S.state.store.elections, Recorded site es r ∧
      ∀ es' T, Run site S es' T →
        ∃ r' ∈ T.state.store.elections, r'.id = r.id ∧ r'.owner = r.owner) ∧
    ∀ i request tail did T, .arrival i request ∈ es →
      request.path.toList = ElectionPath.root ++ '/' :: tail → Next site S (.act i did) T →
        T.state.store.elections.map Election.id = S.state.store.elections.map Election.id := by
  have numbered := run.numbered Store.numbered_fresh
  constructor
  · intro r member
    refine ⟨run.recorded rfl rfl Store.numbered_fresh r member, fun es' T later => ?_⟩
    exact later.keeps_record numbered member
  · intro i request tail did T arrived below next
    exact next.ids run rfl Store.numbered_fresh arrived
      (Operation.ofRequest_ne_createElection below)

theorem records_authorized_created :
    ∃ es S, Run Sample.site (start .fresh .empty 100) es S ∧
      S.state.store.elections = [⟨1, 7, "\x7b\x7d"⟩] ∧
      Recorded Sample.site es ⟨1, 7, "\x7b\x7d"⟩ := by
  have created : Run Sample.site (start .fresh .empty 100) _ _ := .visit _ Sample.create
  have after : Sample.create.after Sample.site (start .fresh .empty 100).state = _ :=
    Sample.create_after 100
  rw [after] at created
  exact ⟨_, _, created, rfl, ((records_authorized created).1 _ (.head _)).1⟩

end System

end BallotServer
