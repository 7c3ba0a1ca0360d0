import BallotServer.Proofs.Faithful

/-! How renderings end where everything in the cache is current and the backends are faithful. What
is shown is what the functions make of the text that is stored; an election that is not there is
refused; and else a backend failed. The calls to the backends are among those that it takes to
render the text, and all of those if the cache is empty. -/

namespace BallotServer

def Step.isBackend : Step → Bool
  | draw _ | convert _ => true
  | _ => false

def backendCalls (xs : List Exchange) : List Step := (xs.map Exchange.step).filter Step.isBackend

theorem backendCalls_append (xs ys : List Exchange) :
    backendCalls (xs ++ ys) = backendCalls xs ++ backendCalls ys := by
  rw [backendCalls, List.map_append, List.filter_append]
  rfl

section Rendered

variable (draw : String → Ballot) (convert : ByteArray → ByteArray)

def Operation.render? (text : String) : Operation → Option Http.Response
  | ballotPdf _ => some (.ok .pdf (draw text).pdf)
  | ballotBubbles _ => some (.ok .json (draw text).bubbles)
  | preview _ => some (.ok .png (convert (draw text).pdf))
  | _ => none

def Operation.calls (text : String) : Operation → List Step
  | ballotPdf _ | ballotBubbles _ => [.draw text]
  | preview _ => [.draw text, .convert (draw text).pdf]
  | _ => []

/-- How a rendering ends in a state: `make` is what is made of a text, and `full` are the calls that
this takes, which are all made if the cache is empty. -/
inductive Rendered {α : Type} (st : State) (id : Int) (make : String → α)
    (full : String → List Step) (past : List Exchange) : Except Fault α → Prop
  | shown {e : Election} (found : st.store.find? id = some e)
      (calls : (backendCalls past).Sublist (full e.text))
      (all : st.cache.entries = [] → backendCalls past = full e.text) :
    Rendered st id make full past (.ok (make e.text))
  | missing (none : st.store.find? id = none) (calls : backendCalls past = []) :
    Rendered st id make full past (.error (.badRequest "no item"))
  | failed {e : Election} {x : Exchange} (found : st.store.find? id = some e)
      (calls : (backendCalls past).Sublist (full e.text)) (member : x ∈ past)
      (failed : x.backendFailed) (message : String) (cause : Cause) :
    Rendered st id make full past (.error (.backend message cause))

/-- Exchanges of a request for a rendering, with a store that is there and faithful backends. -/
structure Honest (past : List Exchange) : Prop where
  keyed : Keyed past
  fair : ∀ x ∈ past, x.Fair draw convert
  unwritten : ∀ x ∈ past, x.step.isWrite = false

end Rendered

variable {draw : String → Ballot} {convert : ByteArray → ByteArray} {st st' : State} {id : Int}
  {g : Nat} {past : List Exchange}

theorem Honest.mono {past' : List Exchange} (honest : Honest draw convert past)
    (subset : past' ⊆ past) : Honest draw convert past' :=
  ⟨honest.keyed.mono subset, fun x member => honest.fair x (subset member),
    fun x member => honest.unwritten x (subset member)⟩

theorem mem_backendCalls {x : Exchange} (member : x ∈ past) (backend : x.step.isBackend) :
    x.step ∈ backendCalls past :=
  List.mem_filter.2 ⟨List.mem_map_of_mem member, backend⟩

theorem Exchange.isBackend_of_backendFailed {x : Exchange} (failed : x.backendFailed) :
    x.step.isBackend := by
  obtain ⟨step, answer⟩ := x
  cases step with
  | draw text | convert pdf => rfl
  | _ => cases failed

theorem Cache.not_holds_of_empty {c : Cache} (empty : c.entries = []) (key : String)
    (artifact : Artifact) : ¬c.Holds key artifact := by
  rintro ⟨e, member, -⟩
  rw [empty] at member
  cases member

theorem State.goes_reads (goes : st.Goes past st')
    (unwritten : ∀ x ∈ past, x.step.isWrite = false) :
    st'.store = st.store ∧
      ∀ id answer, ⟨.readElection id, answer⟩ ∈ past → answer = st.store.read id ∨
        ∃ e, answer = .error (.database e) := by
  induction past generalizing st with
  | nil =>
    obtain rfl : st' = st := goes
    exact ⟨rfl, nofun⟩
  | cons x xs ih =>
    obtain ⟨outcome, answered, rest⟩ := goes
    obtain ⟨store, reads⟩ := ih rest fun y member => unwritten y (.tail _ member)
    have same : (st.perform x.step outcome).2.store = st.store := by
      rcases st.perform_store x.step outcome with ⟨same, -⟩ | ⟨target, owner, text, id, is, -⟩
      · exact same
      · have write := unwritten x List.mem_cons_self
        rw [congrArg Exchange.step is] at write
        cases write
    rw [same] at store reads
    refine ⟨store, fun id answer member => ?_⟩
    rcases List.mem_cons.1 member with rfl | later
    · cases outcome with
      | none => exact .inl answered
      | some e => exact .inr ⟨e, answered⟩
    · exact reads id answer later

theorem Honest.find?_of_read {e : Election} (honest : Honest draw convert past)
    (goes : st.Goes past st') (read : ⟨.readElection id, .ok e⟩ ∈ past) :
    st.store.find? id = some e := by
  rcases (State.goes_reads goes honest.unwritten).2 id _ read with same | ⟨error, failed⟩
  · exact (Store.read_eq_ok.1 same.symm).2
  · cases failed

theorem Honest.find?_of_notFound {id' : Int} (honest : Honest draw convert past)
    (goes : st.Goes past st') (unread : ⟨.readElection id, .error (.notFound id')⟩ ∈ past) :
    st.store.find? id = none := by
  rcases (State.goes_reads goes honest.unwritten).2 id _ unread with same | ⟨error, failed⟩
  · exact Store.find?_of_read_notFound same.symm
  · cases failed

theorem Rendered.append_left {α : Type} {make : String → α} {full : String → List Step}
    {result : Except Fault α} {before : List Exchange}
    (rendered : Rendered st id make full past result) (quiet : backendCalls before = []) :
    Rendered st id make full (before ++ past) result := by
  have same : backendCalls (before ++ past) = backendCalls past := by
    rw [backendCalls_append, quiet, List.nil_append]
  cases rendered with
  | shown found calls all => exact .shown found (same ▸ calls) (same ▸ all)
  | missing none calls => exact .missing none (same ▸ calls)
  | failed found calls member failed message cause =>
    exact .failed found (same ▸ calls) (List.mem_append_right before member) failed message cause

namespace Rendering

theorem BallotCourse.calls {result : Except Fault Ballot} (course : BallotCourse id past result) :
    backendCalls past = [] ∨
      ∃ e : Election, ⟨.readElection id, .ok e⟩ ∈ past ∧ backendCalls past = [.draw e.text] := by
  cases course with
  | hit b => exact .inl rfl
  | miss other drawn =>
    cases drawn with
    | unconnected e => exact .inl rfl
    | unread e => exact .inl rfl
    | undrawn e error => exact .inr ⟨e, by simp, rfl⟩
    | drawn e b kept => exact .inr ⟨e, by simp, rfl⟩

theorem BallotCourse.rendered_ok {b : Ballot} (course : BallotCourse id past (.ok b))
    (goes : st.Goes past st') (current : st.Current draw convert)
    (honest : Honest draw convert past) :
    Rendered st id draw (fun text => [.draw text]) past (.ok b) := by
  have drawn : ∃ e, st.store.find? id = some e ∧ b = draw e.text ∧
      (st.cache.entries = [] → .draw e.text ∈ backendCalls past) := by
    obtain ⟨-, -, ⟨hit, -⟩ | ⟨-, ⟨e, found, drew⟩, -⟩⟩ := course.lookedUp honest.keyed goes
    · have holds := Cache.holds_of_get hit
      obtain ⟨e, found, is⟩ := current id (.ballot b) holds
      exact ⟨e, found, is, fun empty => absurd holds (Cache.not_holds_of_empty empty _ _)⟩
    · exact ⟨e, found, (honest.fair _ drew).2.1 _ _ rfl, fun _ => mem_backendCalls drew rfl⟩
  obtain ⟨e, found, rfl, called⟩ := drawn
  rcases course.calls with none | ⟨e', read, one⟩
  · refine .shown found (none ▸ List.nil_sublist _) fun empty => ?_
    rw [none] at called
    cases called empty
  · have row := honest.find?_of_read goes read
    obtain rfl := Option.some.inj (found.symm.trans row)
    exact .shown found (one ▸ List.Sublist.refl _) fun _ => one

theorem BallotCourse.rendered_error {fault : Fault} (course : BallotCourse id past (.error fault))
    (goes : st.Goes past st') (honest : Honest draw convert past) :
    Rendered st id draw (fun text => [.draw text]) past (.error fault) := by
  cases course.faulty with
  | missing unread =>
    have none := honest.find?_of_notFound goes unread
    refine .missing none (course.calls.resolve_right ?_)
    rintro ⟨e, read, -⟩
    rw [honest.find?_of_read goes read] at none
    cases none
  | @failed x member failed message cause =>
    have backend : x.backendFailed := by
      refine failed.resolve_left fun storage => ?_
      rw [(honest.fair x member).1] at storage
      cases storage
    have called := mem_backendCalls member (Exchange.isBackend_of_backendFailed backend)
    rcases course.calls with none | ⟨e, read, one⟩
    · rw [none] at called
      cases called
    · exact .failed (honest.find?_of_read goes read) (one ▸ List.Sublist.refl _) member backend
        message cause

theorem BallotCourse.rendered {result : Except Fault Ballot} (course : BallotCourse id past result)
    (goes : st.Goes past st') (current : st.Current draw convert)
    (honest : Honest draw convert past) :
    Rendered st id draw (fun text => [.draw text]) past result := by
  cases result with
  | ok b => exact course.rendered_ok goes current honest
  | error fault => exact course.rendered_error goes honest

theorem ConvertedCourse.rendered {result : Except Fault ByteArray}
    (course : ConvertedCourse id g past result) (goes : st.Goes past st')
    (current : st.Current draw convert) (honest : Honest draw convert past) :
    Rendered st id (fun text => convert (draw text).pdf)
      (fun text => [.draw text, .convert (draw text).pdf]) past result := by
  cases course with
  | unmade ballot =>
    cases ballot.rendered_error goes honest with
    | missing none called => exact .missing none called
    | failed found called member failed message cause =>
      exact .failed found (called.trans (List.sublist_append_left [_] [_])) member failed message
        cause
  | @unconverted new _ ballot e =>
    obtain ⟨mid, made, -⟩ := State.goes_append.1 goes
    cases ballot.rendered_ok made current (honest.mono (List.subset_append_left new _)) with
    | shown found called all =>
      refine .failed found ?_ (List.mem_append_right new List.mem_cons_self) rfl _ _
      rw [backendCalls_append]
      exact called.append (List.Sublist.refl [_])
  | @converted new b ballot png kept =>
    obtain ⟨mid, made, -⟩ := State.goes_append.1 goes
    have is := (honest.fair ⟨.convert b.pdf, .ok png⟩
      (List.mem_append_right new List.mem_cons_self)).2.2 _ _ rfl
    cases ballot.rendered_ok made current (honest.mono (List.subset_append_left new _)) with
    | shown found called all =>
      subst is
      refine .shown found ?_ fun empty => ?_
      · rw [backendCalls_append]
        exact called.append (List.Sublist.refl [_])
      · rw [backendCalls_append, all empty]
        rfl

theorem PreviewCourse.rendered {result : Except Fault ByteArray}
    (course : PreviewCourse id past result) (goes : st.Goes past st')
    (current : st.Current draw convert) (honest : Honest draw convert past) :
    Rendered st id (fun text => convert (draw text).pdf)
      (fun text => [.draw text, .convert (draw text).pdf]) past result := by
  cases course with
  | hit png =>
    obtain ⟨_, found, -⟩ := goes
    have holds := Cache.holds_of_get found.symm
    obtain ⟨e, stored, is⟩ := current id (.preview png) holds
    rw [show png = convert (draw e.text).pdf from is]
    exact .shown stored (List.nil_sublist _) fun empty =>
      absurd holds (Cache.not_holds_of_empty empty _ _)
  | @miss _ g new _ other converted =>
    obtain rfl := preview_not_found honest.keyed other
    have split : st.Goes ([⟨.lookUp (Artifact.previewKey id), none⟩,
        ⟨.generation (Artifact.previewKey id), g⟩] ++ new) st' := goes
    obtain ⟨mid, quiet, rest⟩ := State.goes_append.1 split
    obtain ⟨rfl, -⟩ := State.goes_idle rfl quiet
    have rendered := converted.rendered rest current
      (honest.mono (List.subset_append_right [_, _] _))
    have idle : backendCalls [⟨.lookUp (Artifact.previewKey id), none⟩,
        ⟨.generation (Artifact.previewKey id), g⟩] = [] := rfl
    exact rendered.append_left idle

end Rendering

inductive Answered (draw : String → Ballot) (convert : ByteArray → ByteArray) (st : State)
    (id : Int) (operation : Operation) (past : List Exchange) : Http.Response → Prop
  | shown {e : Election} {response : Http.Response} (found : st.store.find? id = some e)
      (calls : (backendCalls past).Sublist (operation.calls draw e.text))
      (all : st.cache.entries = [] → backendCalls past = operation.calls draw e.text)
      (is : operation.render? draw convert e.text = some response) :
    Answered draw convert st id operation past response
  | missing (none : st.store.find? id = none) (calls : backendCalls past = []) :
    Answered draw convert st id operation past (.plain 400 "no item")
  | failed {e : Election} {x : Exchange} (found : st.store.find? id = some e)
      (calls : (backendCalls past).Sublist (operation.calls draw e.text)) (member : x ∈ past)
      (failed : x.backendFailed) (message : String) :
    Answered draw convert st id operation past (.plain 500 message)

theorem Rendered.answered {α : Type} {make : String → α} {answer : α → Http.Response}
    {operation : Operation} {result : Except Fault α}
    (rendered : Rendered st id make (operation.calls draw) past result)
    (render : ∀ text, operation.render? draw convert text = some (answer (make text))) :
    Answered draw convert st id operation past (Server.answerOf answer result) := by
  cases rendered with
  | shown found calls all => exact .shown found calls all (render _)
  | missing none calls => exact .missing none calls
  | failed found calls member failed message cause =>
    exact .failed found calls member failed message

namespace Visit

variable {σ : Type} {site : Site} {v : Visit σ}

theorem answered (served : st.Served draw convert site) (faithful : v.Faithful draw convert)
    (asked : v.operation.rendering? = some id) :
    Answered draw convert st id v.operation (v.exchanges site st) (v.answer site st) := by
  have honest : Honest draw convert (v.exchanges site st) :=
    ⟨served.reachable.keyed v, faithful.fair served.tables,
      fun x member => (spares (Option.isSome_of_eq_some asked) x member).1⟩
  have goes := v.goes site st
  have ends := v.ends site st
  cases is : v.operation with
  | ballotPdf id' | ballotBubbles id' =>
    rw [is] at ends asked
    cases asked
    obtain ⟨result, course, answer⟩ := ends
    rw [answer]
    exact (course.rendered goes served.current honest).answered fun _ => rfl
  | preview id' =>
    rw [is] at ends asked
    cases asked
    obtain ⟨result, course, answer⟩ := ends
    rw [answer]
    exact (course.rendered goes served.current honest).answered fun _ => rfl
  | _ => simp [is, Operation.rendering?] at asked

end Visit

end BallotServer
