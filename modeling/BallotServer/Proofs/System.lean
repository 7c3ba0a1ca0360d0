import BallotServer.Proofs.Conduct

/-! Requests served side by side. Any number of them arrive, at any time; each takes its steps one
by one, and between two steps of one request there may be any steps of the others. A request that is
abandoned just takes no further step. A run is the row of events from one system to another. -/

namespace BallotServer

structure Task where
  request : Http.Request
  left : Script Http.Response

/-- What requests share, and the requests, numbered in the order of their arrival. -/
structure System where
  state : State
  tasks : List Task

inductive Event
  | arrival (task : Nat) (request : Http.Request)
  | act (task : Nat) (did : Exchange)

def Event.exchange? (task : Nat) : Event → Option Exchange
  | arrival _ _ => none
  | act i did => if i = task then some did else none

def exchangesOf (task : Nat) (es : List Event) : List Exchange :=
  es.filterMap (Event.exchange? task)

section exchangesOf

variable {i : Nat} {es : List Event}

theorem exchangesOf_append (es es' : List Event) :
    exchangesOf i (es ++ es') = exchangesOf i es ++ exchangesOf i es' := List.filterMap_append

theorem exchangesOf_arrival (j : Nat) (request : Http.Request) :
    exchangesOf i [.arrival j request] = [] := rfl

theorem exchangesOf_act (j : Nat) (did : Exchange) :
    exchangesOf i [.act j did] = if j = i then [did] else [] := by
  by_cases same : j = i <;> simp [exchangesOf, Event.exchange?, same]

theorem mem_exchangesOf {did : Exchange} : did ∈ exchangesOf i es ↔ .act i did ∈ es := by
  unfold exchangesOf
  rw [List.mem_filterMap]
  constructor
  · rintro ⟨e, member, is⟩
    cases e with
    | arrival j request => cases is
    | act j x =>
      by_cases same : j = i
      · simp only [Event.exchange?, same, if_true, Option.some.injEq] at is
        rwa [same, is] at member
      · simp [Event.exchange?, same] at is
  · exact fun member => ⟨_, member, by simp [Event.exchange?]⟩

theorem map_act_sublist (i : Nat) (es : List Event) :
    ((exchangesOf i es).map (Event.act i)).Sublist es := by
  induction es with
  | nil => exact .slnil
  | cons e es ih =>
    cases e with
    | arrival j request => exact .cons _ ih
    | act j did =>
      by_cases same : j = i
      · subst same
        simpa [exchangesOf, Event.exchange?] using ih
      · simpa [exchangesOf, Event.exchange?, same] using ih.cons (Event.act j did)

theorem split_exchangesOf {before after : List Exchange} {did : Exchange}
    (h : exchangesOf i es = before ++ did :: after) :
    ∃ x y, es = x ++ .act i did :: y ∧ exchangesOf i x = before ∧ exchangesOf i y = after := by
  obtain ⟨x, z, rfl, hx, hz⟩ := List.filterMap_eq_append_iff.1 h
  obtain ⟨u, e, y, rfl, none, is, hy⟩ := List.filterMap_eq_cons_iff.1 hz
  have e_eq : e = .act i did := by
    cases e with
    | arrival j request => cases is
    | act j x =>
      by_cases same : j = i
      · simp only [Event.exchange?, same, if_true, Option.some.injEq] at is
        rw [same, is]
      · simp [Event.exchange?, same] at is
  refine ⟨x ++ u, y, by rw [e_eq, List.append_assoc], ?_, hy⟩
  have skipped : exchangesOf i u = [] := List.filterMap_eq_nil_iff.2 none
  rw [exchangesOf_append, skipped, List.append_nil]
  exact hx

end exchangesOf

namespace System

def start (store : Store) (archive : Archive) (cacheBytes : UInt64) : System :=
  ⟨⟨store, .empty cacheBytes, archive⟩, []⟩

/-- One event: a request arrives, or one of those that are under way takes its next step, with any
outcome. -/
inductive Next (site : Site) : System → Event → System → Prop
  | arrival (S : System) (request : Http.Request) :
    Next site S (.arrival S.tasks.length request)
      ⟨S.state, S.tasks ++ [⟨request, Server.respond site request⟩]⟩
  | act {S : System} {i : Nat} {request : Http.Request} {step : Step}
      {next : step.Answer → Script Http.Response}
      (waits : S.tasks[i]? = some ⟨request, .call step next⟩) (outcome : step.Outcome) :
    Next site S (.act i ⟨step, (S.state.perform step outcome).1⟩)
      ⟨(S.state.perform step outcome).2,
        S.tasks.set i ⟨request, next (S.state.perform step outcome).1⟩⟩

inductive Run (site : Site) (S : System) : List Event → System → Prop
  | nil : Run site S [] S
  | snoc {es : List Event} {T U : System} {e : Event} (run : Run site S es T)
      (next : Next site T e U) : Run site S (es ++ [e]) U

variable {site : Site} {S T U : System} {es es' : List Event} {i : Nat}

theorem Run.trans (first : Run site S es T) (second : Run site T es' U) :
    Run site S (es ++ es') U := by
  induction second with
  | nil => rwa [List.append_nil]
  | snoc run next ih =>
    rw [← List.append_assoc]
    exact ih.snoc next

theorem Run.of_snoc {e : Event} (run : Run site S (es ++ [e]) U) :
    ∃ T, Run site S es T ∧ Next site T e U := by
  generalize all : es ++ [e] = l at run
  cases run with
  | nil => exact absurd all (List.append_ne_nil_of_right_ne_nil _ (List.cons_ne_nil _ _))
  | snoc run next =>
    obtain ⟨rfl, last⟩ := List.append_inj' all rfl
    cases last
    exact ⟨_, run, next⟩

theorem Run.split (run : Run site S (es ++ es') U) :
    ∃ T, Run site S es T ∧ Run site T es' U := by
  induction es' generalizing es with
  | nil => exact ⟨U, by rwa [List.append_nil] at run, .nil⟩
  | cons e l ih =>
    rw [List.append_cons] at run
    obtain ⟨V, init, rest⟩ := ih run
    obtain ⟨T, first, next⟩ := init.of_snoc
    exact ⟨T, first, (Run.nil.snoc next).trans rest⟩

theorem Run.at {e : Event} (run : Run site S (es ++ e :: es') U) :
    ∃ T T', Run site S es T ∧ Next site T e T' ∧ Run site T' es' U := by
  rw [List.append_cons] at run
  obtain ⟨T', init, rest⟩ := run.split
  obtain ⟨T, first, next⟩ := init.of_snoc
  exact ⟨T, T', first, next, rest⟩

theorem Next.performs {did : Exchange} (next : Next site T (.act i did) U) :
    ∃ outcome, did.answer = (T.state.perform did.step outcome).1 ∧
      U.state = (T.state.perform did.step outcome).2 := by
  cases next with
  | act waits outcome => exact ⟨outcome, rfl, rfl⟩

theorem Next.waits {did : Exchange} (next : Next site T (.act i did) U) :
    ∃ request rest, T.tasks[i]? = some ⟨request, .call did.step rest⟩ := by
  cases next with
  | act waits outcome => exact ⟨_, _, waits⟩

theorem Next.length_le {e : Event} (next : Next site T e U) :
    T.tasks.length ≤ U.tasks.length := by
  cases next with
  | arrival request => simp
  | act waits outcome => simp

theorem Run.length_le (run : Run site S es T) : S.tasks.length ≤ T.tasks.length := by
  induction run with
  | nil => exact Nat.le_refl _
  | snoc run next ih => exact Nat.le_trans ih next.length_le

theorem Run.lt_of_act {did : Exchange} (run : Run site S es T) (member : .act i did ∈ es) :
    i < T.tasks.length := by
  obtain ⟨before, after, rfl⟩ := List.append_of_mem member
  obtain ⟨V, W, -, next, rest⟩ := run.at
  cases next with
  | act waits outcome =>
    have bound := rest.length_le
    rw [List.length_set] at bound
    exact Nat.lt_of_lt_of_le (List.getElem?_eq_some_iff.1 waits).1 bound

theorem Run.exchangesOf_eq_nil (run : Run site S es T) (new : T.tasks.length ≤ i) :
    exchangesOf i es = [] := by
  refine List.eq_nil_iff_forall_not_mem.2 fun did member => ?_
  have known := run.lt_of_act (mem_exchangesOf.1 member)
  omega

/-- Every request under way has arrived and went the course of its own script. -/
theorem Run.course {task : Task} (run : Run site S es T) (idle : S.tasks = [])
    (found : T.tasks[i]? = some task) :
    .arrival i task.request ∈ es ∧
      (Server.respond site task.request).Course (exchangesOf i es) task.left := by
  induction run generalizing task with
  | nil => simp [idle] at found
  | @snoc es T U e run next ih =>
    rw [exchangesOf_append]
    cases next with
    | arrival request =>
      rw [exchangesOf_arrival, List.append_nil]
      by_cases old : i < T.tasks.length
      · rw [List.getElem?_append_left old] at found
        exact ⟨List.mem_append_left _ (ih found).1, (ih found).2⟩
      · rw [List.getElem?_append_right (by omega), List.getElem?_singleton] at found
        split at found
        · cases found
          have number : i = T.tasks.length := by omega
          rw [run.exchangesOf_eq_nil (by omega), number]
          exact ⟨List.mem_append_right _ List.mem_cons_self, .start⟩
        · cases found
    | @act j request step rest waits outcome =>
      rw [exchangesOf_act]
      by_cases same : j = i
      · subst same
        obtain ⟨known, -⟩ := List.getElem?_eq_some_iff.1 waits
        rw [List.getElem?_set_self known] at found
        cases found
        rw [if_pos rfl]
        exact ⟨List.mem_append_left _ (ih waits).1, (ih waits).2.answered _⟩
      · rw [List.getElem?_set_ne same] at found
        rw [if_neg same, List.append_nil]
        exact ⟨List.mem_append_left _ (ih found).1, (ih found).2⟩

theorem Run.arrived {request : Http.Request} (run : Run site S es T)
    (member : .arrival i request ∈ es) : ∃ left, T.tasks[i]? = some ⟨request, left⟩ := by
  induction run with
  | nil => cases member
  | @snoc es T U e run next ih =>
    rcases List.mem_append.1 member with old | new
    · obtain ⟨left, found⟩ := ih old
      cases next with
      | arrival request' =>
        rw [List.getElem?_append_left (List.getElem?_eq_some_iff.1 found).1]
        exact ⟨left, found⟩
      | @act j request' step next waits outcome =>
        by_cases same : j = i
        · subst same
          rw [found] at waits
          cases waits
          exact ⟨_, List.getElem?_set_self (List.getElem?_eq_some_iff.1 found).1⟩
        · rw [List.getElem?_set_ne same]
          exact ⟨left, found⟩
    · obtain rfl := List.mem_singleton.1 new
      cases next with
      | arrival => exact ⟨_, List.getElem?_concat_length⟩

theorem Run.arrival_unique {request request' : Http.Request} (run : Run site S es T)
    (first : .arrival i request ∈ es) (second : .arrival i request' ∈ es) :
    request = request' := by
  obtain ⟨left, found⟩ := run.arrived first
  obtain ⟨left', found'⟩ := run.arrived second
  rw [found] at found'
  exact congrArg Task.request (Option.some.inj found')

theorem Run.conduct {did : Exchange} (run : Run site S (es ++ .act i did :: es') U)
    (idle : S.tasks = []) :
    ∃ request, .arrival i request ∈ es ∧
      Server.Conduct site request (exchangesOf i es) did.step := by
  obtain ⟨T, T', first, next, -⟩ := run.at
  cases next with
  | @act j request step rest waits outcome =>
    obtain ⟨arrived, course⟩ := first.course idle waits
    exact ⟨request, arrived, ((Server.respond_keeps site request).along course).1⟩

/-- Every answer ends the course of its request. -/
theorem Run.ends {request : Http.Request} {response : Http.Response}
    (run : Run site S es T) (idle : S.tasks = [])
    (answered : T.tasks[i]? = some ⟨request, .done response⟩) :
    Server.Ends (exchangesOf i es) response
      (Operation.ofRequest request.method request.path) :=
  (Server.respond_keeps site request).along (run.course idle answered).2

end System

end BallotServer
