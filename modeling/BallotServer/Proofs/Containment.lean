import BallotServer.Proofs.Secrecy
import BallotServer.Proofs.Serving
import Mathlib.Data.List.Forall2

/-! Whole courses of events, driven from outside. What is decided outside is which request arrives or
goes on next and how its step turns out; everything else follows. So two courses can be compared in
which the same is decided but for what errors say, and no answer differs. -/

namespace BallotServer

/-- What may happen next: a request arrives, or a request takes its next step, whichever that is,
and the outside world decides its outcome. -/
inductive Move
  | arrival (request : Http.Request)
  | act (task : Nat) (decide : (s : Step) → s.Outcome)

inductive Move.Alike : Move → Move → Prop
  | arrival (request : Http.Request) : Alike (.arrival request) (.arrival request)
  | act (task : Nat) {decide decide' : (s : Step) → s.Outcome}
      (alike : ∀ s : Step, s.OutcomesAlike (decide s) (decide' s)) :
      Alike (.act task decide) (.act task decide')

/-- The same request, with rests of its script that go on alike. -/
structure Task.Twin (t t' : Task) : Prop where
  request : t.request = t'.request
  left : Script.Twin Eq t.left t'.left

namespace System

/-- One move. Nothing happens if the request that is to take a step is done or has not arrived. -/
def move (site : Site) (S : System) : Move → System
  | .arrival request => ⟨S.state, S.tasks ++ [⟨request, Server.respond site request⟩]⟩
  | .act i decide =>
    match S.tasks[i]? with
    | some ⟨request, .call step next⟩ =>
      let (answer, state) := S.state.perform step (decide step)
      ⟨state, S.tasks.set i ⟨request, next answer⟩⟩
    | _ => S

def play (site : Site) (S : System) (moves : List Move) : System := moves.foldl (move site) S

variable {site : Site} {S T U : System} {es : List Event}

theorem run_move (m : Move) : ∃ es, Run site S es (S.move site m) := by
  cases m with
  | arrival request => exact ⟨_, Run.nil.snoc (.arrival S request)⟩
  | act i decide =>
    rcases found : S.tasks[i]? with _ | ⟨request, response | ⟨step, next⟩⟩
    · exact ⟨[], by simpa only [move, found] using Run.nil⟩
    · exact ⟨[], by simpa only [move, found] using Run.nil⟩
    · have next : Next site S _ _ := .act found (decide step)
      simp only [move, found]
      exact ⟨_, Run.nil.snoc next⟩

theorem Next.move {e : Event} (next : Next site S e T) : ∃ m, S.move site m = T := by
  cases next with
  | arrival request => exact ⟨.arrival request, rfl⟩
  | @act i request step rest waits outcome =>
    -- the decision about all other steps is never asked for
    refine ⟨.act i fun s => if same : step = s then same ▸ outcome
      else s.calm (fun _ => ⟨.empty, .empty⟩) id, ?_⟩
    simp only [System.move, waits, dite_true]

/-- Runs and plays lead to the same systems. -/
theorem runs_iff_plays : (∃ es, Run site S es T) ↔ ∃ moves, S.play site moves = T := by
  constructor
  · rintro ⟨es, run⟩
    induction run with
    | nil => exact ⟨[], rfl⟩
    | snoc run next ih =>
      obtain ⟨moves, rfl⟩ := ih
      obtain ⟨m, rfl⟩ := next.move
      exact ⟨moves ++ [m], by simp [play]⟩
  · rintro ⟨moves, rfl⟩
    induction moves generalizing S with
    | nil => exact ⟨[], .nil⟩
    | cons m moves ih =>
      obtain ⟨_, first⟩ := run_move m
      obtain ⟨_, rest⟩ := ih
      exact ⟨_, first.trans rest⟩

/-- The same shared state, and requests that go on alike. -/
structure Twin (S T : System) : Prop where
  state : S.state = T.state
  tasks : List.Forall₂ Task.Twin S.tasks T.tasks

theorem twin_start (store : Store) (archive : Archive) (cacheBytes : UInt64) :
    Twin (start store archive cacheBytes) (start store archive cacheBytes) := ⟨rfl, .nil⟩

theorem Twin.task (twin : Twin S T) (i : Nat) :
    S.tasks[i]? = none ∧ T.tasks[i]? = none ∨
      ∃ t t', S.tasks[i]? = some t ∧ T.tasks[i]? = some t' ∧ t.Twin t' := by
  obtain ⟨length, each⟩ := List.forall₂_iff_get.1 twin.tasks
  by_cases known : i < S.tasks.length
  · have known' : i < T.tasks.length := length ▸ known
    exact .inr ⟨_, _, List.getElem?_eq_getElem known, List.getElem?_eq_getElem known',
      each i known known'⟩
  · exact .inl ⟨List.getElem?_eq_none (by omega), List.getElem?_eq_none (by omega)⟩

theorem Twin.set {t t' : Task} {state : State} (twin : Twin S T) (i : Nat) (tasks : t.Twin t') :
    Twin ⟨state, S.tasks.set i t⟩ ⟨state, T.tasks.set i t'⟩ := by
  refine ⟨rfl, List.forall₂_iff_get.2 ⟨?_, fun j known known' => ?_⟩⟩
  · simp [twin.tasks.length_eq]
  · simp only [List.get_eq_getElem, List.getElem_set]
    split
    · exact tasks
    · exact (List.forall₂_iff_get.1 twin.tasks).2 j (by simpa using known) (by simpa using known')

theorem Twin.move {m m' : Move} (twin : Twin S T) (alike : m.Alike m') :
    Twin (S.move site m) (T.move site m') := by
  cases alike with
  | arrival request =>
    exact ⟨twin.state, List.rel_append twin.tasks
      (.cons ⟨rfl, Server.twin_respond site request⟩ .nil)⟩
  | @act i decide decide' alike =>
    rcases twin.task i with ⟨absent, absent'⟩ | ⟨⟨request, left⟩, ⟨_, left'⟩, here, here', rfl, lefts⟩
    · simp only [System.move, absent, absent']
      exact twin
    · cases lefts with
      | done same =>
        simp only [System.move, here, here']
        exact twin
      | @call step next next' goes =>
        obtain ⟨answers, same⟩ := S.state.perform_alike step (alike step)
        simp only [System.move, here, here', ← twin.state, same]
        exact twin.set i ⟨rfl, goes _ _ answers⟩

theorem Twin.play {moves moves' : List Move} (alike : List.Forall₂ Move.Alike moves moves')
    (twin : Twin S T) : Twin (S.play site moves) (T.play site moves') := by
  induction alike generalizing S T with
  | nil => exact twin
  | cons first _ ih => exact ih (twin.move first)

theorem Twin.answered (twin : Twin S T) (i : Nat) (request : Http.Request)
    (response : Http.Response) : S.tasks[i]? = some ⟨request, .done response⟩ ↔
      T.tasks[i]? = some ⟨request, .done response⟩ := by
  rcases twin.task i with ⟨absent, absent'⟩ | ⟨⟨_, left⟩, ⟨_, left'⟩, here, here', rfl, lefts⟩
  · rw [absent, absent']
  · rw [here, here']
    cases lefts with
    | done same => rw [same]
    | call goes => simp

/-- Whatever clients send, and however their requests are interleaved: a request is answered with
status 500 if and only if something that it used behind the server failed, and with no other status
from 500 on; then the answer is the fixed text for the first failure. And two courses of events that
differ in what errors say only give every request the same answer, and leave the same behind. -/
theorem faults_contained (site : Site) (store : Store) (archive : Archive) (cacheBytes : UInt64) :
    (∀ es S, Run site (start store archive cacheBytes) es S → ∀ (i : Nat) request response,
      S.tasks[i]? = some ⟨request, .done response⟩ →
      let failed := Server.failuresOf site request (exchangesOf i es)
      (response.status = 500 ↔ failed ≠ []) ∧
        (500 ≤ response.status →
          ∃ message, failed.head? = some message ∧ response = .plain 500 message)) ∧
    (∀ S, (∃ es, Run site (start store archive cacheBytes) es S) ↔
      ∃ moves, (start store archive cacheBytes).play site moves = S) ∧
    ∀ moves moves', List.Forall₂ Move.Alike moves moves' →
      let S := (start store archive cacheBytes).play site moves
      let S' := (start store archive cacheBytes).play site moves'
      S.state = S'.state ∧ S.tasks.length = S'.tasks.length ∧ ∀ (i : Nat) request response,
        S.tasks[i]? = some ⟨request, .done response⟩ ↔
          S'.tasks[i]? = some ⟨request, .done response⟩ := by
  refine ⟨fun es S run i request response answered => ?_, fun _ => runs_iff_plays,
    fun moves moves' alike => ?_⟩
  · have answers : Server.Answers response (Server.failuresOf site request (exchangesOf i es)) :=
      (Server.respond_answers site request).along (run.course rfl answered).2
    exact ⟨answers.status_eq_iff, answers.first⟩
  · have twin := @Twin.play site _ _ _ _ alike (twin_start store archive cacheBytes)
    exact ⟨twin.state, twin.tasks.length_eq, twin.answered⟩

end System

end BallotServer
