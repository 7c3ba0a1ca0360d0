import BallotServer.Proofs.DrawReply
import BallotServer.Proofs.Failures
import BallotServer.Proofs.Freshness

/-! What the backends leave. A draw service and a rasterizer may do anything: the service may give
any reply or none, the program may end in any way, take the PDF or not, and print anything. Whatever
is kept or shown was made by a service's reply that succeeded and holds a ballot, and by a program
that ended well, took the whole PDF and printed something. In all other cases the request ends there
and then, the fault is the server's, and nothing is kept under the keys of what was to be made. -/

namespace BallotServer

/-- A draw service and a rasterizer, and what comes of the calls to them: of that at each place of a
run, if there is one. -/
structure Backends where
  service : DrawService
  rasterizer : Rasterizer
  exchange : Nat → Draw.Exchange
  run : Nat → Preview.Run

namespace Backends

/-- What requests are told of their calls in a run is what comes of these. -/
structure Tell (w : Backends) (es : List Event) : Prop where
  draw : ∀ n i text answer, es[n]? = some (.act i ⟨.draw text, answer⟩) →
    answer = w.service.draw (w.exchange n)
  convert : ∀ n i pdf answer, es[n]? = some (.act i ⟨.convert pdf, answer⟩) →
    answer = w.rasterizer.preview (w.run n)

def Gives (w : Backends) (n : Nat) (b : Ballot) : Prop :=
  ∃ reply, w.exchange n = .answered reply ∧ reply.Gives b

/-- The program that ran at this place ended well, took the whole PDF, and printed this PNG and no
more. -/
def Prints (w : Backends) (n : Nat) (png : ByteArray) : Prop :=
  0 < png.size ∧ ∃ complaint, w.run n = .ended (.code 0) none png complaint

def Drew (w : Backends) (es : List Event) (b : Ballot) : Prop :=
  ∃ n i text, es[n]? = some (.act i ⟨.draw text, .ok b⟩) ∧ w.Gives n b

/-- The artifact was made in these events, and from whole outputs. -/
def Made (w : Backends) (es : List Event) : Artifact → Prop
  | .ballot b => w.Drew es b
  | .preview png => ∃ n i b, es[n]? = some (.act i ⟨.convert b.pdf, .ok png⟩) ∧ w.Prints n png ∧
    w.Drew es b

variable {w : Backends} {es : List Event} {n i : Nat} {b : Ballot} {png : ByteArray}

theorem Tell.gives (tell : w.Tell es) {text : String}
    (call : es[n]? = some (.act i ⟨.draw text, .ok b⟩)) : w.Gives n b := by
  have told := tell.draw n i text _ call
  unfold DrawService.draw at told
  split at told
  · cases told
  · cases told
  · exact ⟨_, by assumption, Draw.Reply.gives_of_ballot told.symm⟩

theorem Tell.prints (tell : w.Tell es) {pdf : ByteArray}
    (call : es[n]? = some (.act i ⟨.convert pdf, .ok png⟩)) : w.Prints n png := by
  have told := tell.convert n i pdf _ call
  obtain ⟨complaint, ran, some⟩ := (w.rasterizer.preview_eq_ok_iff _ _).1 told.symm
  refine ⟨Nat.pos_of_ne_zero fun empty => ?_, complaint, ran⟩
  rw [ByteArray.isEmpty, empty] at some
  cases some

theorem Tell.made (tell : w.Tell es) {id : Int} {text : String} {artifact : Artifact}
    (derived : Derived id text es artifact) : w.Made es artifact := by
  have drew {i : Nat} {b : Ballot} (member : .act i ⟨.draw text, .ok b⟩ ∈ es) : w.Drew es b := by
    obtain ⟨n, call⟩ := List.mem_iff_getElem?.1 member
    exact ⟨n, i, text, call, tell.gives call⟩
  cases artifact with
  | ballot b =>
    obtain ⟨i, e, -, steps⟩ := derived
    exact drew (steps.subset (.tail _ (.head _)))
  | preview png =>
    obtain ⟨i, j, e, b, -, steps⟩ := derived
    have converted : .act j ⟨.convert b.pdf, .ok png⟩ ∈ es :=
      steps.subset (.tail _ (.tail _ (.head _)))
    obtain ⟨n, call⟩ := List.mem_iff_getElem?.1 converted
    exact ⟨n, j, b, call, tell.prints call, drew (steps.subset (.tail _ (.head _)))⟩

end Backends

def Exchange.drawFailed : Exchange → Bool
  | ⟨.draw _, .error _⟩ => true
  | _ => false

def Exchange.kept? : Exchange → Option String
  | ⟨.keep key _ _, _⟩ => some key
  | _ => none

def keptKeys (past : List Exchange) : List String := past.filterMap Exchange.kept?

theorem keptKeys_append (past new : List Exchange) :
    keptKeys (past ++ new) = keptKeys past ++ keptKeys new := List.filterMap_append

theorem mem_keptKeys {past : List Exchange} {key : String} {artifact : Artifact} {g : Nat}
    {kept : Bool} (member : ⟨.keep key artifact g, kept⟩ ∈ past) : key ∈ keptKeys past :=
  List.mem_filterMap.2 ⟨_, member, rfl⟩

theorem Exchange.backendFailed_of_drawFailed {x : Exchange} (failed : x.drawFailed) :
    x.backendFailed := by
  obtain ⟨step, answer⟩ := x
  cases step with
  | draw text =>
    cases answer with
    | ok b => cases failed
    | error e => rfl
  | _ => cases failed

theorem Step.nonempty_answer (s : Step) : Nonempty s.Answer := by
  cases s with
  | awaitBody | release | invalidate key => exact ⟨()⟩
  | connect => exact ⟨.ok ()⟩
  | readElection id => exact ⟨.error (.notFound id)⟩
  | writeElection id owner text => exact ⟨.ok id⟩
  | lookUp key => exact ⟨none⟩
  | generation key => exact ⟨(0 : Nat)⟩
  | keep key artifact g => exact ⟨false⟩
  | draw text => exact ⟨.error .notConfigured⟩
  | convert pdf => exact ⟨.error .emptyOutput⟩
  | archive id mediaType image => exact ⟨.error .notConfigured⟩

theorem Script.Keeps.completes {α : Type} {may : List Exchange → Step → Prop}
    {post : List Exchange → α → Prop} {s : Script α} {past : List Exchange}
    (h : s.Keeps may post past) : ∃ new a, post (past ++ new) a ∧ (new = [] → s = .done a) := by
  induction s generalizing past with
  | done a => exact ⟨[], a, by rwa [List.append_nil], fun _ => rfl⟩
  | call step next ih =>
    obtain ⟨answer⟩ := step.nonempty_answer
    obtain ⟨new, a, met, -⟩ := ih answer (h.2 answer)
    exact ⟨⟨step, answer⟩ :: new, a, by rwa [List.append_cons], nofun⟩

namespace Rendering

variable {id : Int} {g : Nat} {past : List Exchange} {b : Ballot} {fault : Fault}

/-- A backend that fails a rendering is the last that is asked: nothing is kept under the preview's
key, and if no ballot was drawn, nothing is kept at all. -/
structure Unspoiled (id : Int) (past : List Exchange) : Prop where
  last : past.dropLast.any Exchange.backendFailed = false
  preview : past.any Exchange.backendFailed → Artifact.previewKey id ∉ keptKeys past
  ballot : past.any Exchange.drawFailed → keptKeys past = []

theorem unspoiled_of_quiet (quiet : past.any Exchange.backendFailed = false) :
    Unspoiled id past where
  last := by
    rw [List.any_eq_false] at quiet ⊢
    exact fun x member => quiet x ((List.dropLast_sublist past).subset member)
  preview failed := by
    rw [quiet] at failed
    cases failed
  ballot failed := by
    obtain ⟨x, member, undrawn⟩ := List.any_eq_true.1 failed
    exact absurd (Exchange.backendFailed_of_drawFailed undrawn) (List.any_eq_false.1 quiet x member)

theorem Unspoiled.cons (unspoiled : Unspoiled id past) {x : Exchange}
    (quiet : x.backendFailed = false) (idle : x.kept? = none) : Unspoiled id (x :: past) := by
  have kept : keptKeys (x :: past) = keptKeys past := List.filterMap_cons_none idle
  have drawn : x.drawFailed = false := by
    by_contra undrawn
    have failed := Exchange.backendFailed_of_drawFailed (Bool.not_eq_false _ ▸ undrawn)
    rw [quiet] at failed
    cases failed
  refine ⟨?_, ?_, ?_⟩
  · cases past with
    | nil => rfl
    | cons y past =>
      rw [List.dropLast_cons_of_ne_nil (List.cons_ne_nil y past), List.any_cons, quiet,
        unspoiled.last]
      rfl
  · rw [List.any_cons, quiet, Bool.false_or, kept]
    exact unspoiled.preview
  · rw [List.any_cons, drawn, Bool.false_or, kept]
    exact unspoiled.ballot

theorem BallotCourse.quiet (course : BallotCourse id past (.ok b)) :
    past.any Exchange.backendFailed = false := by
  cases course with
  | hit => rfl
  | miss other drawn =>
    cases drawn
    rfl

theorem BallotCourse.keptKeys_eq_nil (course : BallotCourse id past (.error fault)) :
    keptKeys past = [] := by
  cases course with
  | miss other drawn => cases drawn <;> rfl

theorem BallotCourse.keptKeys_subset (course : BallotCourse id past (.ok b)) :
    keptKeys past ⊆ [Artifact.ballotKey id] := by
  cases course with
  | hit => exact List.nil_subset _
  | miss other drawn =>
    cases drawn
    exact List.Subset.refl _

theorem BallotCourse.unspoiled {result : Except Fault Ballot}
    (course : BallotCourse id past result) : Unspoiled id past := by
  cases result with
  | ok b => exact unspoiled_of_quiet course.quiet
  | error fault =>
    have nothing := course.keptKeys_eq_nil
    refine ⟨?_, fun _ => nothing ▸ List.not_mem_nil, fun _ => nothing⟩
    cases course with
    | miss other drawn => cases drawn <;> rfl

theorem ConvertedCourse.unspoiled {result : Except Fault ByteArray}
    (course : ConvertedCourse id g past result) : Unspoiled id past := by
  cases course with
  | unmade ballot => exact ballot.unspoiled
  | @unconverted new b ballot e =>
    have kept : keptKeys (new ++ [⟨.convert b.pdf, .error e⟩]) = keptKeys new := by
      rw [keptKeys_append]
      exact List.append_nil _
    have drawn : (new ++ [(⟨.convert b.pdf, .error e⟩ : Exchange)]).any Exchange.drawFailed =
        new.any Exchange.drawFailed := by
      rw [List.any_append]
      exact Bool.or_false _
    refine ⟨?_, fun _ => ?_, fun undrawn => ?_⟩
    · rw [List.dropLast_concat]
      exact ballot.quiet
    · rw [kept]
      intro member
      have same := List.mem_singleton.1 (ballot.keptKeys_subset member)
      exact Artifact.ballotKey_ne_previewKey id id same.symm
    · rw [drawn] at undrawn
      rw [kept]
      exact ballot.unspoiled.ballot undrawn
  | converted ballot png kept =>
    refine unspoiled_of_quiet ?_
    rw [List.any_append, ballot.quiet]
    rfl

theorem PreviewCourse.unspoiled {result : Except Fault ByteArray}
    (course : PreviewCourse id past result) : Unspoiled id past := by
  cases course with
  | hit png => exact unspoiled_of_quiet rfl
  | miss other converted => exact (converted.unspoiled.cons rfl rfl).cons rfl rfl

end Rendering

open Rendering

theorem Server.Ends.unspoiled {past : List Exchange} {response : Http.Response}
    {operation : Operation} {id : Int} (asked : operation.rendering? = some id)
    (ends : Server.Ends past response operation) : Unspoiled id past := by
  cases operation with
  | ballotPdf id' | ballotBubbles id' =>
    cases asked
    obtain ⟨result, course, -⟩ := ends
    exact course.unspoiled
  | preview id' =>
    cases asked
    obtain ⟨result, course, -⟩ := ends
    exact course.unspoiled
  | _ => cases asked

theorem Exchange.failure?_isSome {x : Exchange} (failed : x.backendFailed) :
    x.failure?.isSome := by
  obtain ⟨step, answer⟩ := x
  cases step with
  | draw text | convert pdf =>
    cases answer with
    | ok made => cases failed
    | error e => rfl
  | _ => cases failed

namespace System

variable {site : Site} {S T : System} {es : List Event} {i : Nat} {did : Exchange}

def Unkept (site : Site) (S : System) (es : List Event) (i : Nat) (key : String) : Prop :=
  ∀ before did after T U, es = before ++ .act i did :: after →
    Run site S before T → Next site T (.act i did) U →
    ∀ e ∈ U.state.cache.entries, e.key = key → e ∈ T.state.cache.entries

/-- A request for a rendering has ended with a fault of the server, and put no entry under the keys
of the election. -/
def Stopped (site : Site) (S : System) (es : List Event) (T : System) (i : Nat)
    (keys : Int → List String) : Prop :=
  ∃ request response id, T.tasks[i]? = some ⟨request, .done response⟩ ∧
    (Operation.ofRequest request.method request.path).rendering? = some id ∧
    response.status = 500 ∧ ∀ key ∈ keys id, Unkept site S es i key

theorem unkept_of_notMem {key : String} (distinct : S.state.cache.Distinct)
    (none : key ∉ keptKeys (exchangesOf i es)) : Unkept site S es i key := by
  rintro before did after T U rfl run next e member rfl
  rcases next.kept (run.distinct distinct) member with ⟨old, -⟩ | ⟨j, g, is⟩
  · exact old
  · obtain ⟨rfl, rfl⟩ := Event.act.inj is
    have kept : .act i ⟨.keep e.key e.value g, true⟩ ∈
        before ++ .act i ⟨.keep e.key e.value g, true⟩ :: after := by simp
    exact absurd (mem_keptKeys (mem_exchangesOf.2 kept)) none

theorem Run.ended_of_failed (run : Run site S es T) (idle : S.tasks = [])
    (member : .act i did ∈ es) (failed : did.backendFailed) :
    ∃ request response id, T.tasks[i]? = some ⟨request, .done response⟩ ∧
      (Operation.ofRequest request.method request.path).rendering? = some id ∧
      response.status = 500 ∧ Unspoiled id (exchangesOf i es) := by
  have past := mem_exchangesOf.2 member
  obtain ⟨before, after, rfl⟩ := List.append_of_mem member
  obtain ⟨request, arrived, conduct⟩ := run.conduct idle
  have rendering : (Operation.ofRequest request.method request.path).rendering?.isSome := by
    obtain ⟨step, answer⟩ := did
    cases step with
    | draw text | convert pdf => exact conduct
    | _ => cases failed
  obtain ⟨id, asked⟩ := Option.isSome_iff_exists.1 rendering
  obtain ⟨left, found⟩ := run.arrived (List.mem_append_left _ arrived)
  have course := (run.course idle found).2
  -- However the request is answered from here on, what failed is its last exchange.
  obtain ⟨new, response, ends, done⟩ := ((Server.respond_keeps site request).along course).completes
  have unspoiled := ends.unspoiled asked
  have nothing : new = [] := by
    by_contra more
    have last := unspoiled.last
    rw [List.dropLast_append_of_ne_nil more] at last
    exact List.any_eq_false.1 last did (List.mem_append_left _ past) failed
  subst nothing
  obtain rfl := done rfl
  rw [List.append_nil] at unspoiled
  have answers : Server.Answers response _ := (Server.respond_answers site request).along course
  refine ⟨request, response, id, found, asked, answers.status_eq_iff.2 ?_, unspoiled⟩
  obtain ⟨message, told⟩ := Option.isSome_iff_exists.1 (Exchange.failure?_isSome failed)
  have some : message ∈ failures (exchangesOf i (before ++ .act i did :: after)) :=
    List.mem_filterMap.2 ⟨did, past, told⟩
  exact List.ne_nil_of_mem (List.mem_append_right _ some)

theorem Run.stopped_of_failed {keys : Int → List String} (run : Run site S es T)
    (idle : S.tasks = []) (distinct : S.state.cache.Distinct) (member : .act i did ∈ es)
    (failed : did.backendFailed)
    (none : ∀ id, Unspoiled id (exchangesOf i es) →
      ∀ key ∈ keys id, key ∉ keptKeys (exchangesOf i es)) :
    Stopped site S es T i keys := by
  obtain ⟨request, response, id, answered, asked, status, unspoiled⟩ :=
    run.ended_of_failed idle member failed
  exact ⟨request, response, id, answered, asked, status,
    fun key of => unkept_of_notMem distinct (none id unspoiled key of)⟩

/-- Whatever comes of the calls to the draw service and the rasterizer, in every run from a start: all
that is in the cache and all that is shown is made from whole outputs. Each drawing gives a ballot
from a reply that holds one, or its request has ended with a fault of the server and put nothing
under either key; each conversion gives all that a program printed which ended well and took the
whole PDF, or its request has ended so and put nothing under the preview's key. -/
theorem outputs_whole {w : Backends} {store : Store} {archive : Archive} {cacheBytes : UInt64}
    (run : Run site (start store archive cacheBytes) es S) (tell : w.Tell es) :
    (∀ key artifact, S.state.cache.Holds key artifact → w.Made es artifact) ∧
    (∀ (i : Nat) request response id, S.tasks[i]? = some ⟨request, .done response⟩ →
      (Operation.ofRequest request.method request.path).rendering? = some id →
      response.status = 200 →
      ∃ artifact, (Operation.ofRequest request.method request.path).show? artifact = some response ∧
        w.Made es artifact) ∧
    (∀ n i text answer, es[n]? = some (.act i ⟨.draw text, answer⟩) →
      (∃ b, answer = .ok b ∧ w.Gives n b) ∨
        Stopped site (start store archive cacheBytes) es S i fun id =>
          [Artifact.ballotKey id, Artifact.previewKey id]) ∧
    ∀ n i pdf answer, es[n]? = some (.act i ⟨.convert pdf, answer⟩) →
      (∃ png, answer = .ok png ∧ w.Prints n png) ∨
        Stopped site (start store archive cacheBytes) es S i fun id =>
          [Artifact.previewKey id] := by
  have distinct : (start store archive cacheBytes).state.cache.Distinct := List.nodup_nil
  refine ⟨fun key artifact holds => ?_, fun i request response id answered asked success => ?_,
    fun n i text answer call => ?_, fun n i pdf answer call => ?_⟩
  · obtain ⟨id, rfl⟩ := run.keyed rfl rfl holds
    rw [← List.nil_append es] at run
    obtain ⟨text, derived⟩ := run.held_since rfl rfl (.inl rfl) holds
    exact tell.made derived
  · rcases (run.ends rfl answered).shows asked with ⟨artifact, shown, has⟩ | ⟨fault, rfl, faulty⟩
    · rw [← List.nil_append es, ← List.nil_append es] at run
      obtain ⟨text, derived⟩ := run.had_since rfl rfl (.inl rfl) has
      exact ⟨artifact, shown, tell.made derived⟩
    · exact absurd success faulty.status_ne
  · cases answer with
    | ok b => exact .inl ⟨b, rfl, tell.gives call⟩
    | error e =>
      have member := List.mem_of_getElem? call
      have undrawn : (exchangesOf i es).any Exchange.drawFailed :=
        List.any_eq_true.2 ⟨_, mem_exchangesOf.2 member, rfl⟩
      refine .inr (run.stopped_of_failed rfl distinct member rfl fun id unspoiled key _ => ?_)
      exact unspoiled.ballot undrawn ▸ List.not_mem_nil
  · cases answer with
    | ok png => exact .inl ⟨png, rfl, tell.prints call⟩
    | error e =>
      have member := List.mem_of_getElem? call
      have unconverted : (exchangesOf i es).any Exchange.backendFailed :=
        List.any_eq_true.2 ⟨_, mem_exchangesOf.2 member, rfl⟩
      refine .inr (run.stopped_of_failed rfl distinct member rfl fun id unspoiled key is => ?_)
      exact List.mem_singleton.1 is ▸ unspoiled.preview unconverted

end System

namespace Sample

open Json Draw in
theorem ballot_reply :
    Reply.ballot ⟨200, ⟨#[91, 34, 101, 51, 48, 61, 34, 44, 123, 125, 93]⟩⟩ =
      .ok (draw "\x7b\x7d") := by
  have text : string [] [101, 51, 48, 61, 34, 44, 123, 125, 93] =
      .ok ([101, 51, 48, 61], [44, 123, 125, 93]) := by
    simp [string, quote, backslash]
  have bubbles : scan .value [] [123, 125, 93] = .ok [93] := by
    rw [scan]
    change scan .opened [.object] [125, 93] = _
    rw [scan]
    change scan .complete [] [93] = _
    rw [scan]
  have encoded : (Utf8.read? [101, 51, 48, 61]).isSome ∧ (Utf8.read? [123, 125]).isSome := by
    decide +kernel
  have pdf : Base64.standard.decode [101, 51, 48, 61] = .ok [123, 125] := by decide +kernel
  have read : readReply [91, 34, 101, 51, 48, 61, 34, 44, 123, 125, 93] =
      .ok ([101, 51, 48, 61], [123, 125]) := by
    simp [readReply, readParts, readPair, readText, readString, readRaw, rawValue, skipValue,
      skipBlank, isBlank, text, bubbles, openList, openObject, quote, closeList, comma, checkUtf8,
      encoded, Except.map]
  simp [Reply.ballot, Reply.isSuccess, read, pdf]
  rfl

/-- A service that gives this reply, and a program that prints something and ends well, but does not
take the whole PDF. -/
def backends : Backends where
  service := ⟨some "http://draw"⟩
  rasterizer := .ofProgram "pdftoppm"
  exchange _ := .answered ⟨200, ⟨#[91, 34, 101, 51, 48, 61, 34, 44, 123, 125, 93]⟩⟩
  run _ := .ended (.code 0) (some .brokenPipe) "PNG".toUTF8 .empty

def halfFed : Visit Unit :=
  ⟨(get "/election/1.png").request,
    ⟨fun s _ => (match s with
      | .convert _ => .error (.io .brokenPipe)
      | s => s.calm draw id, ())⟩, ()⟩

theorem halfFed_exchanges :
    halfFed.exchanges site ((get "/election/1.pdf").after site (created 100)) =
      [⟨.lookUp "1.png", none⟩, ⟨.generation "1.png", 1⟩,
        ⟨.lookUp "1", some (.ballot (draw "\x7b\x7d"))⟩,
        ⟨.convert (draw "\x7b\x7d").pdf, .error (.io .brokenPipe)⟩] := rfl

def events : List Event :=
  [.arrival 0 create.request, .act 0 ⟨.awaitBody, ()⟩, .act 0 ⟨.connect, .ok ()⟩,
    .act 0 ⟨.writeElection 0 7 "\x7b\x7d", .ok 1⟩, .act 0 ⟨.invalidate "1", ()⟩,
    .act 0 ⟨.invalidate "1.png", ()⟩, .act 0 ⟨.release, ()⟩,
    .arrival 1 (get "/election/1.pdf").request, .act 1 ⟨.lookUp "1", none⟩,
    .act 1 ⟨.generation "1", (1 : Nat)⟩, .act 1 ⟨.connect, .ok ()⟩,
    .act 1 ⟨.readElection 1, .ok ⟨1, 7, "\x7b\x7d"⟩⟩, .act 1 ⟨.release, ()⟩,
    .act 1 ⟨.draw "\x7b\x7d", .ok (draw "\x7b\x7d")⟩,
    .act 1 ⟨.keep "1" (.ballot (draw "\x7b\x7d")) 1, true⟩,
    .arrival 2 halfFed.request, .act 2 ⟨.lookUp "1.png", none⟩,
    .act 2 ⟨.generation "1.png", (1 : Nat)⟩,
    .act 2 ⟨.lookUp "1", some (.ballot (draw "\x7b\x7d"))⟩,
    .act 2 ⟨.convert (draw "\x7b\x7d").pdf, .error (.io .brokenPipe)⟩]

theorem run_events :
    ∃ S, System.Run site (.start .fresh .empty 100) events S ∧
      S.tasks[1]? = some ⟨(get "/election/1.pdf").request, .done (.ok .pdf "\x7b\x7d".toUTF8)⟩ := by
  have created : System.Run site (.start .fresh .empty 100) _ _ := .visit _ create
  have exchanges : create.exchanges site (System.start .fresh .empty 100).state = _ :=
    create_exchanges 100
  have after : create.after site (System.start .fresh .empty 100).state = _ := create_after 100
  rw [exchanges, after] at created
  have shown := created.trans (.visit _ (get "/election/1.pdf"))
  rw [System.pdf_exchanges] at shown
  have failed := shown.trans (.visit _ halfFed)
  rw [halfFed_exchanges] at failed
  exact ⟨_, failed, rfl⟩

theorem tell_events : backends.Tell events := by
  constructor
  · intro n i text answer call
    have is : i = 1 ∧ text = "\x7b\x7d" ∧ answer = .ok (draw "\x7b\x7d") := by
      simpa [events] using List.mem_of_getElem? call
    rw [is.2.2]
    exact ballot_reply.symm
  · intro n i pdf answer call
    have is : i = 2 ∧ pdf = (draw "\x7b\x7d").pdf ∧ answer = .error (.io .brokenPipe) := by
      simpa [events] using List.mem_of_getElem? call
    rw [is.2.2]
    rfl

end Sample

namespace System

theorem outputs_whole_created :
    ∃ S, Run Sample.site (start .fresh .empty 100) Sample.events S ∧
      Sample.backends.Tell Sample.events ∧
      (∃ artifact,
        (Operation.ballotPdf 1).show? artifact = some (.ok .pdf "\x7b\x7d".toUTF8) ∧
          Sample.backends.Made Sample.events artifact) ∧
      Stopped Sample.site (start .fresh .empty 100) Sample.events S 2 fun id =>
        [Artifact.previewKey id] := by
  obtain ⟨S, run, answered⟩ := Sample.run_events
  have tell := Sample.tell_events
  obtain ⟨-, answers, -, converts⟩ := outputs_whole run tell
  refine ⟨S, run, tell, answers 1 _ _ 1 answered rfl rfl, ?_⟩
  rcases converts 19 2 _ _ rfl with ⟨png, none, -⟩ | stopped
  · cases none
  · exact stopped

end System

end BallotServer
