import BallotServer.Proofs.Serving
import Mathlib.Algebra.BigOperators.Group.Finset.Piecewise
import Mathlib.Algebra.BigOperators.Ring.Finset

/-! Connections to the store. A request takes one connection at a time, and while it holds one it
waits for nobody but the store: the client's body, the backends and the archive are waited for
before a connection is taken or after it was released, and an answer is given with none in hand.
So a request that holds a connection of a shared pool always comes to release it, if only the store
goes on answering; no request can stall the others, even over a single connection. -/

namespace BallotServer

inductive Party
  | client
  | pool
  | store
  | drawService
  | previewProgram
  | disk
  deriving DecidableEq

namespace Step

/-- Whom a step waits for. Giving a connection back and work on the cache are done at once. -/
def waitsFor? : Step → Option Party
  | awaitBody => some .client
  | connect => some .pool
  | readElection _ | writeElection _ _ _ => some .store
  | draw _ => some .drawService
  | convert _ => some .previewProgram
  | archive _ _ _ => some .disk
  | release | lookUp _ | generation _ | keep _ _ _ | invalidate _ => none

def isBrief (s : Step) : Bool := s.waitsFor?.all (· == .store)

def needsConnection (s : Step) : Bool := s.waitsFor? == some .store || s == release

def isTransfer (s : Step) : Bool := s == connect || s == release

/-- What may be done by a request that holds so many connections. -/
structure Proper (connections : Int) (s : Step) : Prop where
  free : s.isBrief = false → connections = 0
  holding : s.needsConnection = true → connections = 1

end Step

/-- How an exchange changes the number of connections that its request holds. -/
def Exchange.opened : Exchange → Int
  | ⟨.connect, .ok _⟩ => 1
  | ⟨.release, _⟩ => -1
  | _ => 0

def held (past : List Exchange) : Int := (past.map Exchange.opened).sum

theorem held_concat (past : List Exchange) (x : Exchange) :
    held (past ++ [x]) = held past + x.opened := by
  simp [held]

theorem Exchange.opened_eq_zero {x : Exchange} (other : x.step.isTransfer = false) :
    x.opened = 0 := by
  obtain ⟨step, answer⟩ := x
  cases step with
  | connect | release => cases other
  | _ => rfl

theorem held_step {past : List Exchange} {x : Exchange} (proper : x.step.Proper (held past))
    (before : held past = 0 ∨ held past = 1) :
    held (past ++ [x]) = 0 ∨ held (past ++ [x]) = 1 := by
  rw [held_concat]
  obtain ⟨step, answer⟩ := x
  cases step with
  | connect =>
    have none : held past = 0 := proper.free rfl
    cases answer with
    | error e => exact .inl (by simp [none, Exchange.opened])
    | ok _ => exact .inr (by simp [none, Exchange.opened])
  | release =>
    have one : held past = 1 := proper.holding rfl
    exact .inl (by simp [one, Exchange.opened])
  | _ => rwa [Exchange.opened_eq_zero rfl, add_zero]

namespace Handler

variable {α β : Type} {n : Int} {h : Handler α} {f : α → Handler β}

/-- The handler takes proper steps only, and leaves its request with the connections it had. -/
def Steady (n : Int) (h : Handler α) : Prop :=
  ∀ past, held past = n → h.Keeps (fun past s => s.Proper (held past))
    (fun past _ => held past = n) (fun past _ => held past = n) past

theorem steady_pure (a : α) : Steady n (pure a : Handler α) := fun _ same => keeps_pure.2 same

theorem steady_throw (fault : Fault) : Steady n (throw fault : Handler α) :=
  fun _ same => keeps_throw.2 same

theorem steady_orFault {ε : Type} (answer : Except ε α) (fault : ε → Fault) :
    Steady n (orFault answer fault) :=
  fun _ same => keeps_orFault.2 ⟨fun _ _ => same, fun _ _ => same⟩

theorem Steady.bind (steady : Steady n h) (next : ∀ a, Steady n (f a)) : Steady n (h >>= f) :=
  fun past same => keeps_bind.2 ((steady past same).mono (fun past a => next a past) fun _ _ => id)

theorem steady_ask {s : Step} (other : s.isTransfer = false) (proper : s.Proper n) :
    Steady n (ask s) := by
  intro past same
  refine keeps_ask.2 ⟨same ▸ proper, fun answer => ?_⟩
  rw [held_concat, Exchange.opened_eq_zero other, add_zero, same]

theorem steady_local (s : Step) (at_once : s.waitsFor? = none) (other : s.isTransfer = false) :
    Steady n (ask s) := by
  simp only [Step.isTransfer, Bool.or_eq_false_iff] at other
  refine steady_ask (by simp [Step.isTransfer, other]) ⟨fun waits => ?_, fun needs => ?_⟩
  · simp [Step.isBrief, at_once] at waits
  · simp [Step.needsConnection, at_once, other] at needs

theorem steady_query (s : Step) (store : s.isBrief = true) (other : s.isTransfer = false) :
    Steady 1 (ask s) :=
  steady_ask other ⟨fun waits => (nomatch store.symm.trans waits), fun _ => rfl⟩

theorem steady_wait (s : Step) (others : s.needsConnection = false) (other : s.isTransfer = false) :
    Steady 0 (ask s) :=
  steady_ask other ⟨fun _ => rfl, fun needs => nomatch others.symm.trans needs⟩

theorem Steady.connected (steady : Steady 1 h) : Steady 0 (connected h) := by
  have closed (past : List Exchange) (one : held past = 1) :
      Step.release.Proper (held past) ∧ held (past ++ [⟨.release, ()⟩]) = 0 := by
    rw [held_concat, one]
    exact ⟨{ free := nofun, holding := fun _ => rfl }, rfl⟩
  intro past none
  refine keeps_connected.2 ⟨?_, fun e => ?_, (steady _ ?_).mono (fun past _ => closed past)
    fun past _ => closed past⟩
  · exact { free := fun _ => none, holding := nofun }
  · rw [held_concat, none]
    rfl
  · rw [held_concat, none]
    rfl

theorem steady_readElection (id : Int) : Steady 1 (readElection id) :=
  (steady_query (.readElection id) rfl rfl).bind fun _ => steady_orFault _ _

theorem steady_writeElection (id owner : Int) (text : String) :
    Steady 1 (writeElection id owner text) :=
  (steady_query (.writeElection id owner text) rfl rfl).bind fun _ => steady_orFault _ _

end Handler

namespace Rendering

open Handler

theorem steady_drawn (id : Int) (generation : Nat) : Steady 0 (drawn id generation) := by
  refine (steady_readElection id).connected.bind fun election => ?_
  refine (steady_wait (.draw election.text) rfl rfl).bind fun answer => ?_
  refine (steady_orFault answer _).bind fun b => ?_
  exact (steady_local (.keep _ _ _) rfl rfl).bind fun _ => steady_pure b

theorem steady_ballot (id : Int) : Steady 0 (ballot id) := by
  have missed : Steady 0 (ask (.generation (Artifact.ballotKey id)) >>= drawn id) :=
    (steady_local (.generation _) rfl rfl).bind fun generation => steady_drawn id generation
  refine (steady_local (.lookUp _) rfl rfl).bind fun found => ?_
  cases found with
  | none => exact missed
  | some artifact =>
    cases artifact with
    | ballot b => exact steady_pure b
    | preview png => exact missed

theorem steady_converted (id : Int) (generation : Nat) : Steady 0 (converted id generation) := by
  refine (steady_ballot id).bind fun b => ?_
  refine (steady_wait (.convert b.pdf) rfl rfl).bind fun answer => ?_
  refine (steady_orFault answer _).bind fun png => ?_
  exact (steady_local (.keep _ _ _) rfl rfl).bind fun _ => steady_pure png

theorem steady_preview (id : Int) : Steady 0 (preview id) := by
  have missed : Steady 0 (ask (.generation (Artifact.previewKey id)) >>= converted id) :=
    (steady_local (.generation _) rfl rfl).bind fun generation => steady_converted id generation
  refine (steady_local (.lookUp _) rfl rfl).bind fun found => ?_
  cases found with
  | none => exact missed
  | some artifact =>
    cases artifact with
    | preview png => exact steady_pure png
    | ballot b => exact missed

theorem steady_invalidate {n : Int} (id : Int) : Steady n (invalidate id) :=
  (steady_local (.invalidate _) rfl rfl).bind fun _ => steady_local (.invalidate _) rfl rfl

end Rendering

namespace Server

open Handler

theorem steady_known (caller : Option Int) : Steady 0 (known caller) := by
  cases caller with
  | none => exact steady_throw _
  | some user => exact steady_pure user

theorem steady_document (body : Http.Body) : Steady 0 (document body) :=
  (steady_wait .awaitBody rfl rfl).bind fun _ => steady_orFault _ _

theorem steady_written (id owner : Int) (text : String) : Steady 1 (written id owner text) := by
  refine (steady_writeElection id owner text).bind fun id => ?_
  exact (Rendering.steady_invalidate id).bind fun _ => steady_pure (links id)

theorem steady_create (owner : Int) (body : Http.Body) : Steady 0 (create owner body) :=
  (steady_document body).bind fun text => (steady_written 0 owner text).connected

theorem steady_update (caller id : Int) (body : Http.Body) : Steady 0 (update caller id body) := by
  rw [update_eq]
  refine (steady_document body).bind fun text => Steady.connected ?_
  refine (steady_readElection id).bind fun existing => ?_
  split
  case isTrue => exact steady_written id caller text
  case isFalse => exact steady_throw _

theorem steady_read (id : Int) : Steady 0 (read id) := by
  refine Steady.connected ?_
  exact (steady_readElection id).bind fun election => steady_pure (Http.Response.json election.text)

theorem steady_scanned (body : Http.Body) : Steady 0 (scanned body) := by
  refine (steady_wait .awaitBody rfl rfl).bind fun _ => ?_
  cases body.read? scanLimit with
  | none => exact steady_throw _
  | some image =>
    dsimp only
    split
    · exact steady_throw _
    · exact steady_pure image

theorem steady_uploadScan (site : Site) (id : Int) (request : Http.Request) :
    Steady 0 (uploadScan site id request) := by
  have upload : Steady 0 (scanned request.body >>= fun image =>
      connected (readElection id) >>= fun _ =>
      ask (.archive id request.mediaType? image) >>= fun answer =>
      orFault answer (fun e => .backend "scan archive fail" (.archive e)) >>= fun _ =>
      pure (Http.Response.plain 200 "ok")) := by
    refine (steady_scanned request.body).bind fun image => ?_
    refine (steady_readElection id).connected.bind fun _ => ?_
    refine (steady_wait (.archive id request.mediaType? image) rfl rfl).bind fun answer => ?_
    exact (steady_orFault answer _).bind fun _ => steady_pure _
  unfold uploadScan
  cases site.archives with
  | true => exact upload
  | false => exact (steady_throw _).bind fun _ => upload

theorem steady_handle (site : Site) (request : Http.Request) (caller : Option Int)
    (operation : Operation) : Steady 0 (handle site request caller operation) := by
  cases operation with
  | home => exact steady_pure _
  | unsupported => exact steady_pure _
  | badItem => exact steady_throw _
  | scanForm id => exact steady_pure _
  | createElection => exact (steady_known caller).bind fun user => steady_create user _
  | updateElection id => exact (steady_known caller).bind fun user => steady_update user id _
  | readElection id => exact steady_read id
  | ballotPdf id => exact (Rendering.steady_ballot id).bind fun b => steady_pure _
  | ballotBubbles id =>
    exact (Rendering.steady_ballot id).bind fun b => steady_pure _
  | preview id => exact (Rendering.steady_preview id).bind fun png => steady_pure _
  | scanUpload id =>
    exact (steady_known caller).bind fun _ => steady_uploadScan site id request

theorem respond_steady (site : Site) (request : Http.Request) :
    (respond site request).Keeps (fun past s => s.Proper (held past)) (fun past _ => held past = 0)
      [] := by
  unfold respond
  refine (Script.keeps_bind ..).2 (Script.Keeps.mono (steady_handle site request _ _ [] rfl) ?_)
  rintro past (fault | response) met <;> exact met

end Server

namespace Script

variable {σ α : Type} {s left : Script α} {past : List Exchange}

theorem Course.held_eq {post : List Exchange → α → Prop}
    (proper : s.Keeps (fun past step => step.Proper (held past)) post [])
    (course : s.Course past left) : held past = 0 ∨ held past = 1 := by
  induction course with
  | start => exact .inl rfl
  | answered before answer ih => exact held_step (proper.along before).1 ih

/-- Whatever happens in the world, a script that holds a connection and ends without one gives it
back, and until then takes brief steps only. -/
theorem Keeps.releases (proper : s.Keeps (fun past step => step.Proper (held past))
      (fun past _ => held past = 0) past) (one : held past = 1) (w : World σ) (st : State)
    (outside : σ) :
    ∃ first rest, s.exchanges w st outside = first ++ ⟨.release, ()⟩ :: rest ∧
      ∀ x ∈ first, x.step.isBrief = true := by
  induction s generalizing past st outside with
  | done a => exact absurd (proper.symm.trans one) (by decide)
  | call step next ih =>
    obtain ⟨now, later⟩ := proper
    have brief : step.isBrief = true := by
      by_contra waits
      exact absurd ((now.free (by simpa using waits)).symm.trans one) (by decide)
    by_cases release : step = .release
    · subst release
      exact ⟨[], _, rfl, nofun⟩
    · have other : step.isTransfer = false := by
        cases step with
        | connect => cases brief
        | release => exact absurd rfl release
        | _ => rfl
      have still (answer : step.Answer) : held (past ++ [⟨step, answer⟩]) = 1 := by
        rw [held_concat, Exchange.opened_eq_zero other, add_zero, one]
      obtain ⟨first, rest, split, ok⟩ := ih _ (later _) (still _)
        (st.perform step (w.decide step outside).1).2 (w.decide step outside).2
      exact ⟨_ :: first, rest, congrArg (List.cons _) split, List.forall_mem_cons.2 ⟨brief, ok⟩⟩

end Script

def Event.opened : Event → Int
  | arrival _ _ => 0
  | act _ did => did.opened

/-- The connections in use after a run, over all requests. -/
def inUse (es : List Event) : Int := (es.map Event.opened).sum

theorem inUse_concat (es : List Event) (e : Event) : inUse (es ++ [e]) = inUse es + e.opened := by
  simp [inUse]

/-- The connections come from a pool: one is handed out only while fewer are in use than there
are. -/
def Pooled (size : Nat) (es : List Event) : Prop :=
  ∀ before i after, es = before ++ .act i ⟨.connect, .ok ()⟩ :: after → inUse before < size

theorem Pooled.inUse_le {size : Nat} {es : List Event} (pooled : Pooled size es) :
    inUse es ≤ size := by
  induction es using List.reverseRecOn with
  | nil => exact Int.natCast_nonneg size
  | append_singleton es e ih =>
    have before := ih fun x i y split =>
      pooled x i (y ++ [e]) (by rw [split, List.append_assoc, List.cons_append])
    rw [inUse_concat]
    rcases e with ⟨i, request⟩ | ⟨i, step, answer⟩
    · simpa [Event.opened] using before
    · cases step with
      | connect =>
        cases answer with
        | error e => simpa [Event.opened, Exchange.opened] using before
        | ok _ =>
          have free := pooled es i [] rfl
          simp only [Event.opened, Exchange.opened]
          omega
      | release =>
        simp only [Event.opened, Exchange.opened]
        omega
      | _ => simpa [Event.opened, Exchange.opened] using before

namespace System

variable {site : Site} {S T : System} {es : List Event} {i : Nat}

theorem Run.held_eq (run : Run site S es T) (idle : S.tasks = []) (i : Nat) :
    held (exchangesOf i es) = 0 ∨ held (exchangesOf i es) = 1 := by
  cases found : T.tasks[i]? with
  | none =>
    rw [run.exchangesOf_eq_nil (List.getElem?_eq_none_iff.1 found)]
    exact .inl rfl
  | some task =>
    exact (run.course idle found).2.held_eq (Server.respond_steady site task.request)

theorem Run.inUse_eq (run : Run site S es T) (idle : S.tasks = []) :
    inUse es = ∑ i ∈ Finset.range T.tasks.length, held (exchangesOf i es) := by
  induction run with
  | nil => simp [idle, inUse]
  | @snoc es T U e run next ih =>
    rw [inUse_concat, ih]
    cases next with
    | arrival request =>
      have new : exchangesOf T.tasks.length es = [] := run.exchangesOf_eq_nil (Nat.le_refl _)
      simp [Finset.sum_range_succ, exchangesOf_append, exchangesOf_arrival, new, held, Event.opened]
    | @act j request step rest waits outcome =>
      have known : j < T.tasks.length := (List.getElem?_eq_some_iff.1 waits).1
      have one (i : Nat) (x : Exchange) : held (exchangesOf i (es ++ [.act j x])) =
          held (exchangesOf i es) + if j = i then x.opened else 0 := by
        rw [exchangesOf_append, exchangesOf_act]
        split
        · exact held_concat _ _
        · rw [List.append_nil, add_zero]
      simp only [one, List.length_set, Finset.sum_add_distrib, Finset.sum_ite_eq, Finset.mem_range,
        known, if_true]
      rfl

def holders (S : System) (es : List Event) : Finset Nat :=
  (Finset.range S.tasks.length).filter fun i => held (exchangesOf i es) = 1

theorem Run.card_holders_le {size : Nat} (run : Run site S es T) (idle : S.tasks = [])
    (pooled : Pooled size es) : (T.holders es).card ≤ size := by
  have same (i : Nat) : held (exchangesOf i es) = if held (exchangesOf i es) = 1 then 1 else 0 := by
    rcases run.held_eq idle i with none | one
    · rw [none]
      rfl
    · rw [one]
      rfl
  have counted : ((T.holders es).card : Int) = inUse es := by
    rw [holders, Finset.natCast_card_filter, run.inUse_eq idle]
    exact Finset.sum_congr rfl fun i _ => (same i).symm
  have bound := pooled.inUse_le
  omega

/-- In every run of any number of requests, a request holds at most one connection at any time. It
takes one, or waits for anybody but the store, only while it holds none; it asks the store over the
one it holds; and it is answered with none in hand. One that holds a connection gives it back after
steps that wait for nobody but the store, whatever the world does. And where the connections come
from a pool, no more requests hold one than the pool has. -/
theorem connections_disciplined {store : Store} {archive : Archive} {cacheBytes : UInt64}
    (run : Run site (start store archive cacheBytes) es S) :
    (∀ i, held (exchangesOf i es) = 0 ∨ held (exchangesOf i es) = 1) ∧
    (∀ i request step next, S.tasks[i]? = some ⟨request, .call step next⟩ →
      (∀ party, step.waitsFor? = some party → party ≠ .store → held (exchangesOf i es) = 0) ∧
        (step.needsConnection = true → held (exchangesOf i es) = 1)) ∧
    (∀ i request response, S.tasks[i]? = some ⟨request, .done response⟩ →
      held (exchangesOf i es) = 0) ∧
    (∀ i task, S.tasks[i]? = some task → held (exchangesOf i es) = 1 →
      ∀ (σ : Type) (w : Script.World σ) (outside : σ), ∃ first rest,
        task.left.exchanges w S.state outside = first ++ ⟨.release, ()⟩ :: rest ∧
          ∀ x ∈ first, ∀ party, x.step.waitsFor? = some party → party = .store) ∧
    ∀ size, Pooled size es → (S.holders es).card ≤ size := by
  have steady {i : Nat} {task : Task} (found : S.tasks[i]? = some task) :=
    (Server.respond_steady site task.request).along (run.course rfl found).2
  refine ⟨run.held_eq rfl, ?_, fun i request response answered => steady answered, ?_,
    fun size pooled => run.card_holders_le rfl pooled⟩
  · intro i request step next waits
    have proper : step.Proper (held (exchangesOf i es)) := (steady waits).1
    refine ⟨fun party is other => proper.free ?_, proper.holding⟩
    simpa [Step.isBrief, is] using other
  · intro i task found one σ w outside
    obtain ⟨first, rest, split, brief⟩ := (steady found).releases one w S.state outside
    refine ⟨first, rest, split, fun x member party is => ?_⟩
    simpa [Step.isBrief, is] using brief x member

theorem connections_disciplined_created :
    ∃ S, Run Sample.site (start .fresh .empty 100)
        [.arrival 0 Sample.create.request, .act 0 ⟨.awaitBody, ()⟩, .act 0 ⟨.connect, .ok ()⟩] S ∧
      (∃ request next, S.tasks[0]? = some ⟨request, .call (.writeElection 0 7 "\x7b\x7d") next⟩) ∧
      held [⟨.awaitBody, ()⟩, ⟨.connect, .ok ()⟩] = 1 ∧
      (S.holders [.arrival 0 Sample.create.request, .act 0 ⟨.awaitBody, ()⟩,
        .act 0 ⟨.connect, .ok ()⟩]).card ≤ 1 := by
  have created : Run Sample.site (start .fresh .empty 100) _ _ := .visit _ Sample.create
  have exchanges : Sample.create.exchanges Sample.site (start .fresh .empty 100).state = _ :=
    Sample.create_exchanges 100
  rw [exchanges] at created
  have cut : Run Sample.site (start .fresh .empty 100)
      ([.arrival 0 Sample.create.request, .act 0 ⟨.awaitBody, ()⟩, .act 0 ⟨.connect, .ok ()⟩] ++
        .act 0 ⟨.writeElection 0 7 "\x7b\x7d", .ok 1⟩ ::
        [.act 0 ⟨.invalidate "1", ()⟩, .act 0 ⟨.invalidate "1.png", ()⟩, .act 0 ⟨.release, ()⟩]) _ :=
    created
  obtain ⟨S, T, run, next, -⟩ := cut.at
  have pooled : Pooled 1 [.arrival 0 Sample.create.request, .act 0 ⟨.awaitBody, ()⟩,
      .act 0 ⟨.connect, .ok ()⟩] := by
    intro before i after split
    match before with
    | [] => cases split
    | [x] => cases split
    | [x, y] =>
      cases split
      decide
    | x :: y :: z :: l => simp at split
  have disciplined := connections_disciplined run
  exact ⟨S, run, next.waits, rfl, disciplined.2.2.2.2 1 pooled⟩

end System

end BallotServer
