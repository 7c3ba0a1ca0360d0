import BallotServer.Proofs.CacheHistory

/-! Requests served one after another, each in a world of its own. Such a row of requests is one of
the runs in which requests are served side by side: each arrives and takes all its steps before the
next arrives. -/

namespace BallotServer

namespace Script

variable {σ α : Type} {w : World σ}

def exchanges (w : World σ) : Script α → State → σ → List Exchange
  | done _, _, _ => []
  | call s next, st, outside =>
    let (outcome, outside) := w.decide s outside
    let (answer, st) := st.perform s outcome
    ⟨s, answer⟩ :: (next answer).exchanges w st outside

theorem Keeps.run {may : List Exchange → Step → Prop} {post : List Exchange → α → Prop}
    {s : Script α} {past : List Exchange} (h : s.Keeps may post past) (st : State) (outside : σ) :
    post (past ++ s.exchanges w st outside) (s.run w st outside).1 := by
  induction s generalizing past st outside with
  | done a => rwa [exchanges, List.append_nil]
  | call step next ih =>
    simp only [exchanges, Script.run]
    rw [List.append_cons]
    exact ih _ (h.2 _) _ _

theorem course_of_exchanges {s : Script α} {st : State} {outside : σ} {past : List Exchange}
    (first : past <+: s.exchanges w st outside) : ∃ left, s.Course past left := by
  induction s generalizing past st outside with
  | done a =>
    obtain rfl := List.prefix_nil.1 first
    exact ⟨_, .start⟩
  | call step next ih =>
    cases past with
    | nil => exact ⟨_, .start⟩
    | cons x past =>
      obtain ⟨rfl, rest⟩ := List.cons_prefix_cons.1 first
      obtain ⟨left, course⟩ := ih _ rest
      exact ⟨left, course.after_call⟩

variable {may : List Exchange → Step → Prop} {post : List Exchange → α → Prop} {s : Script α}
  {st : State} {outside : σ} {x : Exchange}

theorem Keeps.at (h : s.Keeps may post []) {before after : List Exchange}
    (split : s.exchanges w st outside = before ++ x :: after) : may before x.step := by
  have whole : before ++ x :: after <+: s.exchanges w st outside := ⟨[], by simp [split]⟩
  obtain ⟨left, course⟩ := course_of_exchanges whole
  exact h.may_of_course course

theorem Keeps.steps (h : s.Keeps may post []) (member : x ∈ s.exchanges w st outside) :
    ∃ past, may past x.step := by
  obtain ⟨before, after, split⟩ := List.append_of_mem member
  exact ⟨before, h.at split⟩

end Script

def State.Goes : State → List Exchange → State → Prop
  | st, [], st' => st' = st
  | st, x :: xs, st' => ∃ outcome, x.answer = (st.perform x.step outcome).1 ∧
    (st.perform x.step outcome).2.Goes xs st'

theorem Script.goes_exchanges {σ α : Type} (w : World σ) (s : Script α) (st : State)
    (outside : σ) : st.Goes (s.exchanges w st outside) (s.run w st outside).2.1 := by
  induction s generalizing st outside with
  | done a => rfl
  | call step next ih => exact ⟨_, rfl, ih ..⟩

theorem State.goes_append {st st' : State} {xs ys : List Exchange} :
    st.Goes (xs ++ ys) st' ↔ ∃ mid, st.Goes xs mid ∧ mid.Goes ys st' := by
  induction xs generalizing st with
  | nil => exact ⟨fun h => ⟨st, rfl, h⟩, fun ⟨_, same, h⟩ => same ▸ h⟩
  | cons x xs ih =>
    constructor
    · rintro ⟨outcome, answer, rest⟩
      obtain ⟨mid, first, second⟩ := ih.1 rest
      exact ⟨mid, ⟨outcome, answer, first⟩, second⟩
    · rintro ⟨mid, ⟨outcome, answer, first⟩, second⟩
      exact ⟨outcome, answer, ih.2 ⟨mid, first, second⟩⟩

/-- A request, and the world as it is towards it. -/
structure Visit (σ : Type) where
  request : Http.Request
  world : Script.World σ
  outside : σ

namespace Visit

variable {σ : Type}

def operation (v : Visit σ) : Operation := .ofRequest v.request.method v.request.path

def exchanges (site : Site) (v : Visit σ) (st : State) : List Exchange :=
  (Server.respond site v.request).exchanges v.world st v.outside

def answer (site : Site) (v : Visit σ) (st : State) : Http.Response :=
  ((Server.respond site v.request).run v.world st v.outside).1

def after (site : Site) (v : Visit σ) (st : State) : State :=
  ((Server.respond site v.request).run v.world st v.outside).2.1

def serveAll (site : Site) : State → List (Visit σ) → List Http.Response × State
  | st, [] => ([], st)
  | st, v :: later =>
    let (answers, last) := serveAll site (v.after site st) later
    (v.answer site st :: answers, last)

section Scripted

variable {site : Site} {v : Visit σ} {s : Script Http.Response}
  (is : Server.respond site v.request = s) (st : State)
include is

theorem exchanges_of_respond : v.exchanges site st = s.exchanges v.world st v.outside :=
  congrArg (Script.exchanges v.world · st v.outside) is

theorem answer_of_respond : v.answer site st = (s.run v.world st v.outside).1 :=
  congrArg (fun s => (Script.run v.world s st v.outside).1) is

theorem after_of_respond : v.after site st = (s.run v.world st v.outside).2.1 :=
  congrArg (fun s => (Script.run v.world s st v.outside).2.1) is

end Scripted

theorem ends (site : Site) (v : Visit σ) (st : State) :
    Server.Ends (v.exchanges site st) (v.answer site st) v.operation :=
  (Server.respond_keeps site v.request).run st v.outside

theorem goes (site : Site) (v : Visit σ) (st : State) :
    st.Goes (v.exchanges site st) (v.after site st) :=
  Script.goes_exchanges ..

end Visit

/-- A state that requests served side by side can lead to. -/
def State.Reachable (site : Site) (st : State) : Prop :=
  ∃ store archive cacheBytes es S,
    System.Run site (System.start store archive cacheBytes) es S ∧ S.state = st

namespace System

variable {σ : Type} {site : Site} {S T : System} {es : List Event} {i : Nat}

theorem Run.of_exchanges {request : Http.Request} {s : Script Http.Response}
    (waits : S.tasks[i]? = some ⟨request, s⟩) (w : Script.World σ) (outside : σ) :
    Run site S ((s.exchanges w S.state outside).map (Event.act i))
      ⟨(s.run w S.state outside).2.1,
        S.tasks.set i ⟨request, .done (s.run w S.state outside).1⟩⟩ := by
  induction s generalizing S outside with
  | done a =>
    obtain ⟨known, same⟩ := List.getElem?_eq_some_iff.1 waits
    have unchanged : S.tasks.set i ⟨request, .done a⟩ = S.tasks := by
      rw [← same, List.set_getElem_self]
    simp only [Script.run]
    rw [unchanged]
    exact .nil
  | call step next ih =>
    have first : Next site S _ _ := .act waits (w.decide step outside).1
    obtain ⟨known, -⟩ := List.getElem?_eq_some_iff.1 waits
    have rest := @ih _ ⟨(S.state.perform step (w.decide step outside).1).2, S.tasks.set i ⟨request,
      next (S.state.perform step (w.decide step outside).1).1⟩⟩
      (List.getElem?_set_self known) (w.decide step outside).2
    rw [List.set_set] at rest
    exact (Run.nil.snoc first).trans rest

theorem Run.visit (S : System) (v : Visit σ) :
    Run site S
      (.arrival S.tasks.length v.request ::
        (v.exchanges site S.state).map (Event.act S.tasks.length))
      ⟨v.after site S.state, S.tasks ++ [⟨v.request, .done (v.answer site S.state)⟩]⟩ := by
  have arrival : Next site S _ _ := .arrival S v.request
  have all := @Run.of_exchanges _ site ⟨S.state, S.tasks ++ [⟨v.request,
    Server.respond site v.request⟩]⟩ _ _ _ List.getElem?_concat_length v.world v.outside
  rw [List.set_append_right _ _ (Nat.le_refl _), Nat.sub_self] at all
  exact (Run.nil.snoc arrival).trans all

end System

theorem State.Reachable.after {σ : Type} {site : Site} {st : State} (reachable : st.Reachable site)
    (v : Visit σ) : (v.after site st).Reachable site := by
  obtain ⟨store, archive, cacheBytes, es, S, run, rfl⟩ := reachable
  exact ⟨store, archive, cacheBytes, _, _, run.trans (System.Run.visit S v), rfl⟩

namespace Server

theorem respond_create {site : Site} {request : Http.Request} {owner : Int} {text : String}
    (caller : Session.caller? site.sessionKey request.cookies = some owner)
    (asked : Operation.ofRequest request.method request.path = .createElection)
    (accepted : Document.ofBody request.body = .ok text) :
    respond site request = .call .awaitBody fun _ => .call .connect fun
      | .error e => .done (Fault.backend "could not open db" (.store (.database e))).response
      | .ok _ => .call (.writeElection 0 owner text) fun
        | .error e => .call .release fun _ => .done (Fault.ofStore "db put fail" e).response
        | .ok id => .call (.invalidate (Artifact.ballotKey id)) fun _ =>
          .call (.invalidate (Artifact.previewKey id)) fun _ =>
          .call .release fun _ => .done (links id) := by
  unfold respond
  simp only [caller, asked, handle, known, create, document, accepted]
  refine congrArg (Script.call .awaitBody) (funext fun _ => ?_)
  refine congrArg (Script.call .connect) (funext fun answer => ?_)
  cases answer with
  | error e => rfl
  | ok _ =>
    refine congrArg (Script.call (.writeElection 0 owner text)) (funext fun answer => ?_)
    cases answer <;> rfl

end Server

/-- A world in which nothing fails. -/
def Step.calm (draw : String → Ballot) (convert : ByteArray → ByteArray) :
    (s : Step) → s.Outcome
  | .connect | .readElection _ | .writeElection _ _ _ => none
  | .draw text => .ok (draw text)
  | .convert pdf => .ok (convert pdf)
  | .archive _ _ _ => ⟨none, 0, none⟩
  | .awaitBody | .release | .lookUp _ | .generation _ | .keep _ _ _ | .invalidate _ => ()

namespace Sample

def site : Site := ⟨"k".toUTF8, false⟩

def draw (text : String) : Ballot := ⟨text.toUTF8, text.toUTF8⟩

def visit (request : Http.Request) : Visit Unit :=
  ⟨request, ⟨fun s _ => (s.calm draw id, ())⟩, ()⟩

def create : Visit Unit :=
  visit ⟨"POST", "/election",
    [⟨"cookie", "studio_session=7.nHN9FjvNExW7aVsAJi47pEh64mcLsrDmuO5_atNUIVo".toUTF8⟩],
    .ofBytes "\x7b\x7d".toUTF8⟩

def get (path : String) : Visit Unit := visit ⟨"GET", path, [], .ofBytes .empty⟩

def created (cacheBytes : UInt64) : State :=
  ⟨⟨some ⟨[⟨1, 7, "\x7b\x7d"⟩], 1, []⟩⟩, ⟨cacheBytes, [], 0, [("1", 1), ("1.png", 1)]⟩, .empty⟩

set_option maxRecDepth 100000 in
theorem caller_create : Session.caller? site.sessionKey create.request.cookies = some 7 := by
  decide +kernel

theorem asked_create :
    Operation.ofRequest create.request.method create.request.path = .createElection := by
  decide

theorem create_exchanges (cacheBytes : UInt64) :
    create.exchanges site (.fresh cacheBytes) =
      [⟨.awaitBody, ()⟩, ⟨.connect, .ok ()⟩, ⟨.writeElection 0 7 "\x7b\x7d", .ok 1⟩,
        ⟨.invalidate "1", ()⟩, ⟨.invalidate "1.png", ()⟩, ⟨.release, ()⟩] := by
  rw [Visit.exchanges_of_respond (Server.respond_create caller_create asked_create rfl)]
  rfl

theorem create_after (cacheBytes : UInt64) :
    create.after site (.fresh cacheBytes) = created cacheBytes := by
  rw [Visit.after_of_respond (Server.respond_create caller_create asked_create rfl)]
  rfl

theorem reachable_created (cacheBytes : UInt64) : (created cacheBytes).Reachable site := by
  rw [← create_after]
  exact ⟨_, _, cacheBytes, _, _, .visit (.start .fresh .empty cacheBytes) create, rfl⟩

end Sample

end BallotServer
