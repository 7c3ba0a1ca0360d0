import BallotServer.Proofs.Rendered

/-! The cache does not show. A server with any cache is compared with one that finds its cache empty
at each request and whose backends never fail: they store the same, and give the same answers, up to
the requests that a failing backend spoils; and the one with the cache calls the backends less. -/

namespace BallotServer

def Step.isRendering : Step → Bool
  | lookUp _ | generation _ | keep _ _ _ | draw _ | convert _ => true
  | _ => false

structure State.Agrees (st st' : State) : Prop where
  store : st.store = st'.store
  archive : st.archive = st'.archive

def State.forget (st : State) : State := { st with cache := .empty 0 }

theorem State.Agrees.forget {st st' : State} (agree : st.Agrees st') : st.Agrees st'.forget :=
  ⟨agree.store, agree.archive⟩

section Reliable

variable (draw : String → Ballot) (convert : ByteArray → ByteArray)

/-- The same outcome, but backends do not fail. -/
def Step.reliable : (s : Step) → s.Outcome → s.Outcome
  | .draw text, _ => .ok (draw text)
  | .convert pdf, _ => .ok (convert pdf)
  | _, outcome => outcome

def Script.World.reliable {σ : Type} (w : World σ) : World σ :=
  ⟨fun s outside => (s.reliable draw convert (w.decide s outside).1, (w.decide s outside).2)⟩

def Visit.reliable {σ : Type} (v : Visit σ) : Visit σ :=
  { v with world := v.world.reliable draw convert }

/-- A server that renders everything from scratch, at each of some visits. -/
def Visit.fromScratch {σ : Type} (site : Site) : State → List (Visit σ) → State
  | st, [] => st
  | st, v :: later => fromScratch site ((v.reliable draw convert).after site st.forget) later

end Reliable

variable {σ : Type} {draw : String → Ballot} {convert : ByteArray → ByteArray} {site : Site}
  {st st' : State} {v : Visit σ} {past : List Exchange}

theorem Step.Fair.reliable {s : Step} {outcome : s.Outcome} (fair : s.Fair draw convert outcome) :
    s.Fair draw convert (s.reliable draw convert outcome) := by
  cases s with
  | draw text => exact fun b is => (Except.ok.inj is).symm
  | convert pdf => exact fun png is => (Except.ok.inj is).symm
  | _ => exact fair

theorem Visit.Faithful.reliable (faithful : v.Faithful draw convert) :
    (v.reliable draw convert).Faithful draw convert :=
  fun s outside => (faithful s outside).reliable

theorem Visit.backends_of_reliable {x : Exchange}
    (member : x ∈ (v.reliable draw convert).exchanges site st) : x.backendFailed = false := by
  obtain ⟨st', outside, -, answer⟩ := Script.mem_exchanges member
  obtain ⟨step, given⟩ := x
  cases step with
  | draw text | convert pdf =>
    obtain rfl : given = .ok _ := answer
    rfl
  | _ => rfl

theorem State.Agrees.perform (agree : st.Agrees st') {s : Step} (plain : s.isRendering = false)
    (outcome : s.Outcome) :
    (st.perform s outcome).1 = (st'.perform s outcome).1 ∧
      (st.perform s outcome).2.Agrees (st'.perform s outcome).2 := by
  obtain ⟨store, archive⟩ := agree
  cases s with
  | lookUp key | generation key | draw text | convert pdf => cases plain
  | keep key artifact generation => cases plain
  | connect => cases outcome <;> exact ⟨rfl, store, archive⟩
  | readElection id =>
    cases outcome with
    | some e => exact ⟨rfl, store, archive⟩
    | none => exact ⟨congrArg (·.read id) store, store, archive⟩
  | writeElection id owner text =>
    cases outcome with
    | some e => exact ⟨rfl, store, archive⟩
    | none =>
      simp only [State.perform, store]
      cases st'.store.write id owner text with
      | error e => exact ⟨rfl, store, archive⟩
      | ok result => exact ⟨rfl, rfl, archive⟩
  | archive election mediaType image =>
    simp only [State.perform, archive]
    exact ⟨trivial, store, rfl⟩
  | _ => exact ⟨rfl, store, archive⟩

theorem Step.reliable_of_plain {s : Step} (plain : s.isRendering = false) (outcome : s.Outcome) :
    s.reliable draw convert outcome = outcome := by
  cases s with
  | draw text | convert pdf => cases plain
  | _ => rfl

theorem State.Agrees.run {α : Type} {w : Script.World σ} {s : Script α}
    {post : List Exchange → α → Prop}
    (plain : s.Keeps (fun _ step => step.isRendering = false) post past) (agree : st.Agrees st')
    (outside : σ) :
    s.exchanges w st outside = s.exchanges (w.reliable draw convert) st' outside ∧
      (s.run w st outside).1 = (s.run (w.reliable draw convert) st' outside).1 ∧
      (s.run w st outside).2.1.Agrees (s.run (w.reliable draw convert) st' outside).2.1 := by
  induction s generalizing st st' outside past with
  | done a => exact ⟨rfl, rfl, agree⟩
  | call step next ih =>
    have same : ((w.reliable draw convert).decide step outside).1 = (w.decide step outside).1 :=
      Step.reliable_of_plain plain.1 _
    obtain ⟨answer, after⟩ := agree.perform plain.1 (w.decide step outside).1
    have rest := ih (st.perform step (w.decide step outside).1).1 (plain.2 _) after
      (w.decide step outside).2
    simp only [Script.exchanges, Script.run]
    rw [same, ← answer]
    exact ⟨congrArg _ rest.1, rest.2⟩

theorem State.goes_archived (goes : st.Goes past st')
    (unarchived : ∀ x ∈ past, x.step.isArchive = false) : st'.archive = st.archive := by
  induction past generalizing st with
  | nil => exact congrArg State.archive goes
  | cons x xs ih =>
    obtain ⟨outcome, -, rest⟩ := goes
    rw [ih rest fun y member => unarchived y (.tail _ member)]
    have plain := unarchived x List.mem_cons_self
    obtain ⟨step, given⟩ := x
    cases step with
    | archive election mediaType image => cases plain
    | connect | readElection id => cases outcome <;> rfl
    | writeElection id owner text =>
      cases outcome with
      | some e => rfl
      | none =>
        dsimp only [State.perform]
        cases st.store.write id owner text <;> rfl
    | _ => rfl

namespace Visit

theorem agrees_after (asked : v.operation.rendering?.isSome) : st.Agrees (v.after site st) := by
  have goes := v.goes site st
  have store := (State.goes_reads goes fun x member => (spares asked x member).1).1
  have archive := State.goes_archived goes fun x member => (spares asked x member).2
  exact ⟨store.symm, archive.symm⟩

theorem plain (unasked : v.operation.rendering? = none) :
    (Server.respond site v.request).Keeps (fun _ step => step.isRendering = false)
      (fun past response => Server.Ends past response v.operation) [] := by
  refine (Server.respond_keeps site v.request).weaken fun past step may => ?_
  have none : (Operation.ofRequest v.request.method v.request.path).rendering? = none := unasked
  cases step with
  | lookUp key | generation key | draw text | convert pdf =>
    simp only [Server.Conduct, none, Option.isSome_none] at may
    cases may
  | keep key artifact generation =>
    obtain ⟨id, -, -, -, -, -, asked⟩ := may
    rw [none] at asked
    cases asked
  | _ => rfl

theorem agrees (v : Visit σ) (agree : st.Agrees st') :
    (v.after site st).Agrees ((v.reliable draw convert).after site st') := by
  cases asked : v.operation.rendering? with
  | none => exact (agree.run (v.plain asked) v.outside).2.2
  | some id =>
    have some := Option.isSome_of_eq_some asked
    have left : st.Agrees (v.after site st) := agrees_after some
    have right : st'.Agrees ((v.reliable draw convert).after site st') := agrees_after some
    exact ⟨left.store.symm.trans (agree.store.trans right.store),
      left.archive.symm.trans (agree.archive.trans right.archive)⟩

theorem agrees_fromScratch (visits : List (Visit σ)) (agree : st.Agrees st') :
    (serveAll site st visits).2.Agrees (fromScratch draw convert site st' visits) := by
  induction visits generalizing st st' with
  | nil => exact agree
  | cons v later ih => exact ih (v.agrees agree.forget)

theorem served_forget (tables : st.store.tables.isSome) :
    st.forget.Served draw convert site where
  reachable := ⟨st.store, st.archive, 0, [], _, .nil, rfl⟩
  tables := tables
  current := fun _ _ holds => absurd holds (Cache.not_holds_of_empty rfl _ _)

theorem answered_fromScratch {id : Int} (tables : st.store.tables.isSome)
    (faithful : v.Faithful draw convert) (asked : v.operation.rendering? = some id) :
    (∃ e, st.store.find? id = some e ∧
        backendCalls ((v.reliable draw convert).exchanges site st.forget) =
          v.operation.calls draw e.text ∧
        v.operation.render? draw convert e.text =
          some ((v.reliable draw convert).answer site st.forget)) ∨
      st.store.find? id = none ∧
        (v.reliable draw convert).answer site st.forget = .plain 400 "no item" := by
  have served : st.forget.Served draw convert site := served_forget tables
  have answered := Visit.answered served faithful.reliable asked
  generalize (v.reliable draw convert).answer site st.forget = response at answered
  cases answered with
  | shown found calls all is => exact .inl ⟨_, found, all rfl, is⟩
  | missing none calls => exact .inr ⟨none, rfl⟩
  | failed found calls member failed message =>
    rw [backends_of_reliable member] at failed
    cases failed

end Visit

theorem Operation.status_of_render? {operation : Operation} {text : String}
    {response : Http.Response} (h : operation.render? draw convert text = some response) :
    response.status = 200 := by
  cases operation with
  | ballotPdf id | ballotBubbles id | preview id =>
    cases h
    rfl
  | _ => cases h

theorem Answered.compare {id : Int} {operation : Operation} {response response' : Http.Response}
    {calls' : List Step}
    (answered : Answered draw convert st id operation past response)
    (scratch : (∃ e, st.store.find? id = some e ∧ calls' = operation.calls draw e.text ∧
        operation.render? draw convert e.text = some response') ∨
      st.store.find? id = none ∧ response' = .plain 400 "no item") :
    (response = response' ∨ response.status = 500 ∧ ∃ x ∈ past, x.backendFailed) ∧
      (backendCalls past).Sublist calls' ∧
      (response.status = 200 → ∃ e, st.store.find? id = some e ∧
        operation.render? draw convert e.text = some response) ∧
      (st.store.find? id = none → response = .plain 400 "no item") ∧
      (response.status = 500 → ∃ x ∈ past, x.backendFailed) := by
  cases answered with
  | shown found calls all is =>
    have success := Operation.status_of_render? is
    rcases scratch with ⟨e', found', whole, is'⟩ | ⟨none, -⟩
    · obtain rfl := Option.some.inj (found.symm.trans found')
      refine ⟨.inl (Option.some.inj (is.symm.trans is')), whole ▸ calls,
        fun _ => ⟨_, found, is⟩, fun none => ?_, fun failed => ?_⟩
      · rw [found] at none
        cases none
      · omega
    · rw [found] at none
      cases none
  | missing none calls =>
    rcases scratch with ⟨e, found, -⟩ | ⟨-, refused⟩
    · rw [found] at none
      cases none
    · exact ⟨.inl refused.symm, calls ▸ List.nil_sublist _, nofun, fun _ => rfl, nofun⟩
  | failed found calls member failed message =>
    rcases scratch with ⟨e', found', whole, -⟩ | ⟨none, -⟩
    · obtain rfl := Option.some.inj (found.symm.trans found')
      refine ⟨.inr ⟨rfl, _, member, failed⟩, whole ▸ calls, nofun, fun none => ?_,
        fun _ => ⟨_, member, failed⟩⟩
      rw [found] at none
      cases none
    · rw [found] at none
      cases none

namespace Visit

/-- After any visits to a server with any cache, the next is answered as one that renders from
scratch would answer it, or, if it asks for a rendering, with a fault because a call to a backend
that it made itself failed; it makes no calls that rendering from scratch does not take, and it
leaves the same store and archive. A rendering that is shown is that of the text that is stored; an election
that is not there is always refused. -/
theorem cache_transparent {store : Store} (numbered : store.Numbered)
    (tables : store.tables.isSome) (archive : Archive) (cacheBytes : UInt64)
    {before : List (Visit σ)} (faithful : ∀ u ∈ before, u.Faithful draw convert)
    (faithful' : v.Faithful draw convert) :
    let st := (serveAll site ⟨store, .empty cacheBytes, archive⟩ before).2
    let scratch := (fromScratch draw convert site ⟨store, .empty 0, archive⟩ before).forget
    let v' := v.reliable draw convert
    (v.after site st).Agrees (v'.after site scratch) ∧
      (v.answer site st = v'.answer site scratch ∨ v.operation.rendering?.isSome ∧
        (v.answer site st).status = 500 ∧ ∃ x ∈ v.exchanges site st, x.backendFailed) ∧
      (backendCalls (v.exchanges site st)).Sublist (backendCalls (v'.exchanges site scratch)) ∧
      ∀ id, v.operation.rendering? = some id →
        ((v.answer site st).status = 200 → ∃ e, st.store.find? id = some e ∧
          v.operation.render? draw convert e.text = some (v.answer site st)) ∧
        (st.store.find? id = none → v.answer site st = .plain 400 "no item") ∧
        ((v.answer site st).status = 500 → ∃ x ∈ v.exchanges site st, x.backendFailed) := by
  intro st scratch v'
  have agree : st.Agrees (fromScratch draw convert site ⟨store, .empty 0, archive⟩ before) :=
    agrees_fromScratch before ⟨rfl, rfl⟩
  have served : st.Served draw convert site :=
    served_serveAll numbered tables archive cacheBytes before faithful
  refine ⟨v.agrees agree.forget, ?_⟩
  cases asked : v.operation.rendering? with
  | none =>
    obtain ⟨exchanges, answer, -⟩ := agree.forget.run (v.plain asked) v.outside
    exact ⟨.inl answer, (congrArg backendCalls exchanges) ▸ List.Sublist.refl _, nofun⟩
  | some id =>
    have real := answered served faithful' asked
    have ideal := @answered_fromScratch _ draw convert site _ v id
      (agree.store ▸ served.tables) faithful' asked
    rw [← agree.store] at ideal
    obtain ⟨same, calls, shown⟩ := real.compare ideal
    refine ⟨same.imp_right fun failed => ⟨rfl, failed⟩, calls, fun id' is => ?_⟩
    cases is
    exact shown

theorem faithful_sample (request : Http.Request) :
    (Sample.visit request).Faithful Sample.draw id := by
  intro s outside
  cases s with
  | draw text | convert pdf => exact fun _ is => (Except.ok.inj is).symm
  | connect | readElection id | writeElection id owner text => rfl
  | _ => trivial

theorem operation_sample : (Sample.get "/election/1.png").operation = .preview 1 := by decide

theorem status_sample :
    ((Sample.get "/election/1.png").answer Sample.site
      ((Sample.get "/election/1.pdf").after Sample.site (Sample.created 100))).status = 200 := by
  decide

theorem cache_transparent_created :
    let before := [Sample.create, Sample.get "/election/1.pdf"]
    let v := Sample.get "/election/1.png"
    let st := (serveAll Sample.site (.fresh 100) before).2
    let scratch := (fromScratch Sample.draw id Sample.site (.fresh 0) before).forget
    v.answer Sample.site st = (v.reliable Sample.draw id).answer Sample.site scratch ∧
      (backendCalls (v.exchanges Sample.site st)).Sublist
        (backendCalls ((v.reliable Sample.draw id).exchanges Sample.site scratch)) ∧
      ∃ e, st.store.find? 1 = some e ∧
        (Operation.preview 1).render? Sample.draw id e.text = some (v.answer Sample.site st) := by
  intro before v st scratch
  have faithful : ∀ u ∈ before, u.Faithful Sample.draw id := by
    intro u member
    rcases List.mem_cons.1 member with rfl | later
    · exact faithful_sample _
    · rw [List.mem_singleton.1 later]
      exact faithful_sample _
  obtain ⟨-, answer, calls, shown⟩ := @cache_transparent _ _ _ Sample.site v _
    Store.numbered_fresh rfl .empty 100 before faithful (faithful_sample _)
  have success : (v.answer Sample.site st).status = 200 := by
    change (v.answer Sample.site ((Sample.get "/election/1.pdf").after Sample.site
      (Sample.create.after Sample.site (.fresh 100)))).status = 200
    rw [Sample.create_after]
    exact status_sample
  have asked : v.operation = .preview 1 := operation_sample
  rw [asked] at shown
  refine ⟨answer.resolve_right fun failed => ?_, calls, (shown 1 rfl).1 success⟩
  have status : (v.answer Sample.site st).status = 500 := failed.2.1
  omega

end Visit

end BallotServer
