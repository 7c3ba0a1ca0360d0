import BallotServer.Server.Script

/-! What a script has done and may still do, whatever it is answered. An exchange is a step with
its answer; a course is a row of exchanges through a script. `Keeps` is the rule for all courses at
once: every step is allowed after the exchanges before it, and every result fits the exchanges that
led to it. It is proved handler by handler and then read off any course. -/

namespace BallotServer

structure Exchange where
  step : Step
  answer : step.Answer

namespace Script

variable {α β : Type}

/-- The exchanges a script went through, and what is left of it. -/
inductive Course (s : Script α) : List Exchange → Script α → Prop
  | start : Course s [] s
  | answered {past : List Exchange} {step : Step} {next : step.Answer → Script α}
      (before : Course s past (call step next)) (answer : step.Answer) :
      Course s (past ++ [⟨step, answer⟩]) (next answer)

/-- Every step of the script is one that `may` be taken after the exchanges before it, and every
result meets `post` together with the exchanges that led to it. -/
def Keeps (may : List Exchange → Step → Prop) (post : List Exchange → α → Prop) :
    Script α → List Exchange → Prop
  | done a, past => post past a
  | call s next, past =>
    may past s ∧ ∀ answer, (next answer).Keeps may post (past ++ [⟨s, answer⟩])

variable {may : List Exchange → Step → Prop}

theorem keeps_bind {post : List Exchange → β → Prop} (s : Script α) (f : α → Script β)
    (past : List Exchange) :
    (s.bind f).Keeps may post past ↔
      s.Keeps may (fun past a => (f a).Keeps may post past) past := by
  induction s generalizing past with
  | done a => rfl
  | call step next ih => simp only [bind, Keeps, ih]

theorem Keeps.mono {post post' : List Exchange → α → Prop} {s : Script α}
    {past : List Exchange} (h : s.Keeps may post past)
    (weaker : ∀ past a, post past a → post' past a) : s.Keeps may post' past := by
  induction s generalizing past with
  | done a => exact weaker _ _ h
  | call step next ih => exact ⟨h.1, fun answer => ih answer (h.2 answer)⟩

theorem Keeps.weaken {may' : List Exchange → Step → Prop} {post : List Exchange → α → Prop}
    {s : Script α} {past : List Exchange} (h : s.Keeps may post past)
    (weaker : ∀ past step, may past step → may' past step) : s.Keeps may' post past := by
  induction s generalizing past with
  | done a => exact h
  | call step next ih => exact ⟨weaker _ _ h.1, fun answer => ih answer (h.2 answer)⟩

theorem Keeps.along {post : List Exchange → α → Prop} {s left : Script α}
    {past : List Exchange} (h : s.Keeps may post []) (course : Course s past left) :
    left.Keeps may post past := by
  induction course with
  | start => exact h
  | answered before answer ih => exact ih.2 answer

theorem Course.after_call {step : Step} {next : step.Answer → Script α} {answer : step.Answer}
    {past : List Exchange} {left : Script α} (course : (next answer).Course past left) :
    (call step next).Course (⟨step, answer⟩ :: past) left := by
  induction course with
  | start => exact Course.start.answered answer
  | answered before answer' ih => exact ih.answered answer'

theorem Keeps.may_of_course {post : List Exchange → α → Prop} {s left : Script α}
    {before after : List Exchange} {x : Exchange} (h : s.Keeps may post [])
    (course : s.Course (before ++ x :: after) left) : may before x.step := by
  generalize all : before ++ x :: after = past at course
  induction course generalizing after with
  | start => exact absurd all (by simp)
  | @answered past step next earlier answer ih =>
    rcases List.eq_nil_or_concat after with rfl | ⟨after, last, rfl⟩
    · obtain ⟨rfl, same⟩ := List.append_inj' all rfl
      obtain rfl := List.singleton_inj.1 same
      exact (h.along earlier).1
    · have first : before ++ x :: after ++ [last] = past ++ [⟨step, answer⟩] := by simpa using all
      exact ih (List.append_inj' first rfl).1

end Script

namespace Handler

variable {α β : Type}

theorem run_bind (h : Handler α) (f : α → Handler β) :
    (h >>= f).run = h.run.bind fun
      | .ok a => (f a).run
      | .error fault => .done (.error fault) := by
  refine congrArg (Script.bind h.run) (funext fun result => ?_)
  cases result <;> rfl

theorem run_ask_bind (s : Step) (f : s.Answer → Handler β) :
    (ask s >>= f).run = .call s fun answer => (f answer).run := rfl

theorem run_orFault {ε : Type} (answer : Except ε α) (fault : ε → Fault) :
    (orFault answer fault).run = .done (answer.mapError fault) := by
  cases answer <;> rfl

theorem run_connected (body : Handler α) :
    (connected body).run = .call .connect fun
      | .error e => .done (.error (.backend "could not open db" (.store (.database e))))
      | .ok _ => body.run.bind fun result => .call .release fun _ => .done result := by
  unfold connected
  rw [run_ask_bind]
  refine congrArg (Script.call Step.connect) (funext fun answer => ?_)
  cases answer with
  | error e => rfl
  | ok _ =>
    change (ExceptT.lift body.run >>= fun result =>
      ask .release >>= fun _ => orFault result id).run = _
    rw [ExceptT.run_bind_lift]
    refine congrArg (Script.bind body.run) (funext fun result => ?_)
    rw [run_ask_bind]
    cases result <;> rfl

/-- `Keeps` of a handler: its results meet `good` and its faults `bad`. -/
def Keeps (may : List Exchange → Step → Prop) (good : List Exchange → α → Prop)
    (bad : List Exchange → Fault → Prop) (h : Handler α) (past : List Exchange) : Prop :=
  h.run.Keeps may
    (fun past result => match result with
      | .ok a => good past a
      | .error fault => bad past fault) past

variable {may : List Exchange → Step → Prop} {bad : List Exchange → Fault → Prop}
  {past : List Exchange}

theorem Keeps.mono {good good' : List Exchange → α → Prop} {bad' : List Exchange → Fault → Prop}
    {h : Handler α} (kept : h.Keeps may good bad past)
    (weaker : ∀ past a, good past a → good' past a)
    (weaker' : ∀ past fault, bad past fault → bad' past fault) :
    h.Keeps may good' bad' past := by
  refine Script.Keeps.mono kept ?_
  rintro past (fault | a) met
  · exact weaker' past fault met
  · exact weaker past a met

/-- `Keeps` of a handler whose exchanges from now on and whose result are related. -/
def Runs (may : List Exchange → Step → Prop) (ends : List Exchange → Except Fault α → Prop)
    (h : Handler α) (past : List Exchange) : Prop :=
  h.Keeps may (fun past' a => ∃ new, past' = past ++ new ∧ ends new (.ok a))
    (fun past' fault => ∃ new, past' = past ++ new ∧ ends new (.error fault)) past

theorem keeps_pure {good : List Exchange → α → Prop} {a : α} :
    (pure a : Handler α).Keeps may good bad past ↔ good past a := Iff.rfl

theorem keeps_throw {good : List Exchange → α → Prop} {fault : Fault} :
    (throw fault : Handler α).Keeps may good bad past ↔ bad past fault := Iff.rfl

theorem keeps_bind {good : List Exchange → β → Prop} {h : Handler α} {f : α → Handler β} :
    (h >>= f).Keeps may good bad past ↔
      h.Keeps may (fun past a => (f a).Keeps may good bad past) bad past := by
  unfold Keeps
  rw [run_bind, Script.keeps_bind]
  constructor <;> refine fun kept => kept.mono ?_ <;> rintro past (fault | a) met <;> exact met

theorem keeps_ask {s : Step} {good : List Exchange → s.Answer → Prop} :
    (ask s).Keeps may good bad past ↔
      may past s ∧ ∀ answer, good (past ++ [⟨s, answer⟩]) answer := Iff.rfl

theorem keeps_orFault {ε : Type} {answer : Except ε α} {fault : ε → Fault}
    {good : List Exchange → α → Prop} :
    (orFault answer fault).Keeps may good bad past ↔
      (∀ a, answer = .ok a → good past a) ∧ ∀ e, answer = .error e → bad past (fault e) := by
  rw [Keeps, run_orFault]
  cases answer with
  | error e => exact ⟨fun met => ⟨nofun, fun _ same => by cases same; exact met⟩,
      fun met => met.2 e rfl⟩
  | ok a => exact ⟨fun met => ⟨fun _ same => by cases same; exact met, nofun⟩,
      fun met => met.1 a rfl⟩

theorem keeps_connected {good : List Exchange → α → Prop} {body : Handler α} :
    (connected body).Keeps may good bad past ↔
      may past .connect ∧
      (∀ e, bad (past ++ [⟨.connect, .error e⟩])
        (.backend "could not open db" (.store (.database e)))) ∧
      body.Keeps may
        (fun past a => may past .release ∧ good (past ++ [⟨.release, ()⟩]) a)
        (fun past fault => may past .release ∧ bad (past ++ [⟨.release, ()⟩]) fault)
        (past ++ [⟨.connect, .ok ()⟩]) := by
  unfold Keeps
  rw [run_connected]
  constructor
  · intro kept
    refine ⟨kept.1, fun e => kept.2 (.error e), ?_⟩
    refine ((Script.keeps_bind ..).1 (kept.2 (.ok ()))).mono ?_
    rintro past (fault | a) met <;> exact ⟨met.1, met.2 ()⟩
  · rintro ⟨opened, refused, kept⟩
    refine ⟨opened, fun answer => ?_⟩
    cases answer with
    | error e => exact refused e
    | ok _ =>
      refine (Script.keeps_bind ..).2 (kept.mono ?_)
      rintro past (fault | a) met <;> exact ⟨met.1, fun _ => met.2⟩

theorem keeps_readElection {id : Int} {good : List Exchange → Election → Prop} :
    (readElection id).Keeps may good bad past ↔
      may past (.readElection id) ∧
      (∀ e, good (past ++ [⟨.readElection id, .ok e⟩]) e) ∧
      ∀ e, bad (past ++ [⟨.readElection id, .error e⟩]) (.ofStore "db get fail" e) := by
  unfold readElection
  rw [keeps_bind, keeps_ask]
  simp only [keeps_orFault, forall_and]
  exact and_congr_right fun _ => and_congr
    ⟨fun met e => met (.ok e) e rfl, fun met _ e same => by rw [same]; exact met e⟩
    ⟨fun met e => met (.error e) e rfl, fun met _ e same => by rw [same]; exact met e⟩

theorem keeps_writeElection {id owner : Int} {text : String}
    {good : List Exchange → Int → Prop} :
    (writeElection id owner text).Keeps may good bad past ↔
      may past (.writeElection id owner text) ∧
      (∀ id', good (past ++ [⟨.writeElection id owner text, .ok id'⟩]) id') ∧
      ∀ e, bad (past ++ [⟨.writeElection id owner text, .error e⟩])
        (.ofStore "db put fail" e) := by
  unfold writeElection
  rw [keeps_bind, keeps_ask]
  simp only [keeps_orFault, forall_and]
  exact and_congr_right fun _ => and_congr
    ⟨fun met e => met (.ok e) e rfl, fun met _ e same => by rw [same]; exact met e⟩
    ⟨fun met e => met (.error e) e rfl, fun met _ e same => by rw [same]; exact met e⟩

end Handler

end BallotServer
