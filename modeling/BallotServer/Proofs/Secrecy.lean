import BallotServer.Proofs.Failures

/-! What an error behind the server says stays there. Two runs are compared step by step in which the
same things fail, for reasons that may differ: a request goes on in the same way after either
reason, and what requests share never holds one, so all answers are the same. -/

namespace BallotServer

def AlikeUpTo {ε α : Type} (alike : ε → ε → Prop) : Except ε α → Except ε α → Prop
  | .ok a, .ok b => a = b
  | .error e, .error e' => alike e e'
  | _, _ => False

/-- Errors that both say that there is no such election, or both do not. -/
def StoreError.Alike : StoreError → StoreError → Prop
  | notFound id, notFound id' => id = id'
  | database _, database _ => True
  | _, _ => False

namespace Step

def AnswersAlike : (s : Step) → s.Answer → s.Answer → Prop
  | .connect, a, b => AlikeUpTo (fun _ _ => True) a b
  | .readElection _, a, b => AlikeUpTo StoreError.Alike a b
  | .writeElection _ _ _, a, b => AlikeUpTo StoreError.Alike a b
  | .draw _, a, b => AlikeUpTo (fun _ _ => True) a b
  | .convert _, a, b => AlikeUpTo (fun _ _ => True) a b
  | .archive _ _ _, a, b => AlikeUpTo (fun _ _ => True) a b
  | .lookUp _, a, b => a = b
  | .generation _, a, b => a = b
  | .keep _ _ _, a, b => a = b
  | .awaitBody, _, _ | .release, _, _ | .invalidate _, _, _ => True

/-- Outcomes that differ at most in what an error says. -/
def OutcomesAlike : (s : Step) → s.Outcome → s.Outcome → Prop
  | .connect, a, b => a.isSome = b.isSome
  | .readElection _, a, b => a.isSome = b.isSome
  | .writeElection _ _ _, a, b => a.isSome = b.isSome
  | .draw _, a, b => AlikeUpTo (fun _ _ => True) a b
  | .convert _, a, b => AlikeUpTo (fun _ _ => True) a b
  | .archive _ _ _, a, b => a.directory.isSome = b.directory.isSome ∧ a.millis = b.millis ∧
      a.file.map Archive.Refusal.written = b.file.map Archive.Refusal.written
  | _, _, _ => True

end Step

theorem AlikeUpTo.refl {ε α : Type} {alike : ε → ε → Prop} (same : ∀ e, alike e e)
    (a : Except ε α) : AlikeUpTo alike a a := by
  cases a with
  | ok a => rfl
  | error e => exact same e

theorem StoreError.Alike.refl (e : StoreError) : e.Alike e := by
  cases e with
  | notFound id => rfl
  | database cause => trivial

theorem both_none_or_some {ε : Type} {a b : Option ε} (alike : a.isSome = b.isSome) :
    a = none ∧ b = none ∨ ∃ e e', a = some e ∧ b = some e' := by
  cases a <;> cases b <;> simp_all

theorem Archive.store_alike (a : Archive) {disk disk' : Archive.Disk}
    (directory : disk.directory.isSome = disk'.directory.isSome) (millis : disk.millis = disk'.millis)
    (file : disk.file.map Refusal.written = disk'.file.map Refusal.written) (election : Int)
    (mediaType : Option (List Char)) (image : ByteArray) :
    AlikeUpTo (fun _ _ => True) (a.store disk election mediaType image).1
        (a.store disk' election mediaType image).1 ∧
      (a.store disk election mediaType image).2 = (a.store disk' election mediaType image).2 := by
  rcases both_none_or_some directory with ⟨d, d'⟩ | ⟨e, e', d, d'⟩
  · cases f : disk.file with
    | none =>
      rw [f] at file
      have f' := Option.map_eq_none_iff.1 file.symm
      simp only [Archive.store, Disk.content?, d, d', f, f', millis]
      exact ⟨rfl, trivial⟩
    | some refusal =>
      rw [f] at file
      obtain ⟨refusal', f', same⟩ := Option.map_eq_some_iff.1 file.symm
      simp only [Archive.store, Disk.content?, d, d', f, f', millis, same]
      exact ⟨trivial, trivial⟩
  · simp only [Archive.store, d, d']
    exact ⟨trivial, trivial⟩

theorem State.perform_alike (st : State) (s : Step) {outcome outcome' : s.Outcome}
    (alike : s.OutcomesAlike outcome outcome') :
    s.AnswersAlike (st.perform s outcome).1 (st.perform s outcome').1 ∧
      (st.perform s outcome).2 = (st.perform s outcome').2 := by
  cases s with
  | connect =>
    obtain ⟨rfl, rfl⟩ | ⟨e, e', rfl, rfl⟩ := both_none_or_some alike
    · exact ⟨rfl, rfl⟩
    · exact ⟨trivial, rfl⟩
  | readElection id =>
    obtain ⟨rfl, rfl⟩ | ⟨e, e', rfl, rfl⟩ := both_none_or_some alike
    · exact ⟨AlikeUpTo.refl StoreError.Alike.refl _, rfl⟩
    · exact ⟨trivial, rfl⟩
  | writeElection id owner text =>
    obtain ⟨rfl, rfl⟩ | ⟨e, e', rfl, rfl⟩ := both_none_or_some alike
    · exact ⟨AlikeUpTo.refl StoreError.Alike.refl _, rfl⟩
    · exact ⟨trivial, rfl⟩
  | draw text => exact ⟨alike, rfl⟩
  | convert pdf => exact ⟨alike, rfl⟩
  | archive election mediaType image =>
    obtain ⟨directory, millis, file⟩ := alike
    obtain ⟨answers, same⟩ :=
      st.archive.store_alike directory millis file election mediaType image
    exact ⟨answers, congrArg (fun a => { st with archive := a }) same⟩
  | lookUp key | generation key | keep key artifact generation => exact ⟨rfl, rfl⟩
  | awaitBody | release | invalidate key => exact ⟨trivial, rfl⟩

namespace Script

variable {α β : Type}

/-- Scripts that take the same steps and come to related results, whatever the errors say that they
are answered. -/
inductive Twin (related : α → α → Prop) : Script α → Script α → Prop
  | done {a a' : α} (same : related a a') : Twin related (done a) (done a')
  | call {s : Step} {next next' : s.Answer → Script α}
      (goes : ∀ answer answer', s.AnswersAlike answer answer' →
        Twin related (next answer) (next' answer')) : Twin related (call s next) (call s next')

theorem Twin.bind {related : α → α → Prop} {related' : β → β → Prop} {s s' : Script α}
    {f f' : α → Script β} (twin : Twin related s s')
    (next : ∀ a a', related a a' → Twin related' (f a) (f' a')) :
    Twin related' (s.bind f) (s'.bind f') := by
  induction twin with
  | done same => exact next _ _ same
  | call _ ih => exact .call ih

end Script

namespace Handler

variable {α β : Type} {h h' : Handler α} {f f' : α → Handler β}

/-- Handlers that take the same steps and come to the same results, or to faults that the client
cannot tell apart. -/
def Twin (h h' : Handler α) : Prop :=
  Script.Twin (AlikeUpTo fun fault fault' => fault.response = fault'.response) h.run h'.run

theorem twin_pure (a : α) : Twin (pure a) (pure a) := .done rfl

theorem twin_throw {fault fault' : Fault} (same : fault.response = fault'.response) :
    Twin (throw fault : Handler α) (throw fault') := .done same

theorem Twin.bind (twin : Twin h h') (next : ∀ a, Twin (f a) (f' a)) :
    Twin (h >>= f) (h' >>= f') := by
  unfold Twin
  rw [run_bind, run_bind]
  apply Script.Twin.bind twin
  rintro (fault | a) (fault' | a') same
  · exact .done same
  · cases same
  · cases same
  · obtain rfl : a = a' := same
    exact next a

theorem twin_ask (s : Step) (same : ∀ answer answer', s.AnswersAlike answer answer' →
    answer = answer') : Twin (ask s) (ask s) :=
  .call fun answer answer' alike => .done (same answer answer' alike)

theorem twin_ask_bind {s : Step} {f : s.Answer → Handler β}
    (next : ∀ answer answer', s.AnswersAlike answer answer' → Twin (f answer) (f answer')) :
    Twin (ask s >>= f) (ask s >>= f) := .call next

theorem twin_orFault {ε : Type} {alike : ε → ε → Prop} {answer answer' : Except ε α}
    {fault : ε → Fault} (answers : AlikeUpTo alike answer answer')
    (told : ∀ e e', alike e e' → (fault e).response = (fault e').response) :
    Twin (orFault answer fault) (orFault answer' fault) := by
  cases answer with
  | error e =>
    cases answer' with
    | error e' => exact twin_throw (told e e' answers)
    | ok a => cases answers
  | ok a =>
    cases answer' with
    | error e => cases answers
    | ok a' =>
      obtain rfl : a = a' := answers
      exact twin_pure a

theorem Twin.connected (twin : Twin h h') : Twin (connected h) (connected h') := by
  unfold Twin
  rw [run_connected, run_connected]
  refine .call fun answer answer' alike => ?_
  cases answer with
  | error e =>
    cases answer' with
    | error e' => exact .done rfl
    | ok a => cases alike
  | ok a =>
    cases answer' with
    | error e => cases alike
    | ok a' => exact Script.Twin.bind twin fun _ _ same => .call fun _ _ _ => .done same

theorem told_ofStore {message : String} {e e' : StoreError} (alike : e.Alike e') :
    (Fault.ofStore message e).response = (Fault.ofStore message e').response := by
  cases e <;> cases e' <;> first | rfl | cases alike

theorem twin_readElection (id : Int) : Twin (readElection id) (readElection id) :=
  twin_ask_bind fun _ _ alike => twin_orFault alike fun _ _ => told_ofStore

theorem twin_writeElection (id owner : Int) (text : String) :
    Twin (writeElection id owner text) (writeElection id owner text) :=
  twin_ask_bind fun _ _ alike => twin_orFault alike fun _ _ => told_ofStore

end Handler

namespace Rendering

open Handler

theorem twin_drawn (id : Int) (g : Nat) : Twin (drawn id g) (drawn id g) := by
  refine (twin_readElection id).connected.bind fun election => ?_
  refine twin_ask_bind fun answer answer' alike => ?_
  refine (twin_orFault alike fun _ _ _ => rfl).bind fun b => ?_
  exact (twin_ask (.keep _ _ _) fun _ _ same => same).bind fun _ => twin_pure b

theorem twin_ballot (id : Int) : Twin (ballot id) (ballot id) := by
  have missed := (twin_ask (.generation (Artifact.ballotKey id)) fun _ _ same => same).bind
    fun g => twin_drawn id g
  refine twin_ask_bind fun found found' alike => ?_
  obtain rfl : found = found' := alike
  cases found with
  | none => exact missed
  | some artifact =>
    cases artifact with
    | ballot b => exact twin_pure b
    | preview png => exact missed

theorem twin_converted (id : Int) (g : Nat) : Twin (converted id g) (converted id g) := by
  refine (twin_ballot id).bind fun b => ?_
  refine twin_ask_bind fun answer answer' alike => ?_
  refine (twin_orFault alike fun _ _ _ => rfl).bind fun png => ?_
  exact (twin_ask (.keep _ _ _) fun _ _ same => same).bind fun _ => twin_pure png

theorem twin_preview (id : Int) : Twin (preview id) (preview id) := by
  have missed := (twin_ask (.generation (Artifact.previewKey id)) fun _ _ same => same).bind
    fun g => twin_converted id g
  refine twin_ask_bind fun found found' alike => ?_
  obtain rfl : found = found' := alike
  cases found with
  | none => exact missed
  | some artifact =>
    cases artifact with
    | preview png => exact twin_pure png
    | ballot b => exact missed

theorem twin_invalidate (id : Int) : Twin (invalidate id) (invalidate id) :=
  (twin_ask _ fun _ _ _ => rfl).bind fun _ => twin_ask _ fun _ _ _ => rfl

end Rendering

namespace Server

open Handler

theorem twin_known (caller : Option Int) : Twin (known caller) (known caller) := by
  cases caller with
  | none => exact twin_throw rfl
  | some user => exact twin_pure user

theorem twin_document (body : Http.Body) : Twin (document body) (document body) := by
  refine (twin_ask _ fun _ _ _ => rfl).bind fun _ => ?_
  exact twin_orFault (@AlikeUpTo.refl _ _ Eq (fun _ => rfl) _) fun _ _ same => same ▸ rfl

theorem twin_written (id owner : Int) (text : String) :
    Twin (written id owner text) (written id owner text) := by
  refine (twin_writeElection id owner text).bind fun id => ?_
  exact (Rendering.twin_invalidate id).bind fun _ => twin_pure _

theorem twin_create (owner : Int) (body : Http.Body) : Twin (create owner body) (create owner body) :=
  (twin_document body).bind fun text => (twin_written 0 owner text).connected

theorem twin_update (caller id : Int) (body : Http.Body) :
    Twin (update caller id body) (update caller id body) := by
  rw [update_eq]
  refine (twin_document body).bind fun text => Twin.connected ?_
  refine (twin_readElection id).bind fun existing => ?_
  split
  case isTrue => exact twin_written id caller text
  case isFalse => exact twin_throw rfl

theorem twin_read (id : Int) : Twin (read id) (read id) :=
  ((twin_readElection id).bind fun _ => twin_pure _).connected

theorem twin_scanned (body : Http.Body) : Twin (scanned body) (scanned body) := by
  refine (twin_ask _ fun _ _ _ => rfl).bind fun _ => ?_
  cases body.read? scanLimit with
  | none => exact twin_throw rfl
  | some image =>
    dsimp only
    split
    · exact twin_throw rfl
    · exact twin_pure image

theorem twin_uploadScan (site : Site) (id : Int) (request : Http.Request) :
    Twin (uploadScan site id request) (uploadScan site id request) := by
  unfold uploadScan
  have stored : Twin (do
      let image ← scanned request.body
      let _ ← connected (readElection id)
      let _ ← orFault (← ask (.archive id request.mediaType? image)) fun e =>
        .backend "scan archive fail" (.archive e)
      return .plain 200 "ok" : Handler Http.Response) _ :=
    (twin_scanned request.body).bind fun image =>
      (twin_readElection id).connected.bind fun _ =>
      twin_ask_bind fun answer answer' alike =>
      (twin_orFault alike fun _ _ _ => rfl).bind fun _ => twin_pure _
  by_cases configured : site.archives = true
  · simp only [configured, Bool.not_true, Bool.false_eq_true, if_false]
    exact stored
  · simp only [configured, Bool.not_false, if_true]
    exact (twin_throw rfl).bind fun _ => stored

theorem twin_handle (site : Site) (request : Http.Request) (caller : Option Int)
    (operation : Operation) :
    Twin (handle site request caller operation) (handle site request caller operation) := by
  cases operation with
  | home => exact twin_pure _
  | unsupported => exact twin_pure _
  | badItem => exact twin_throw rfl
  | scanForm id => exact twin_pure _
  | createElection => exact (twin_known caller).bind fun user => twin_create user _
  | updateElection id => exact (twin_known caller).bind fun user => twin_update user id _
  | readElection id => exact twin_read id
  | ballotPdf id => exact (Rendering.twin_ballot id).bind fun _ => twin_pure _
  | ballotBubbles id => exact (Rendering.twin_ballot id).bind fun _ => twin_pure _
  | preview id => exact (Rendering.twin_preview id).bind fun _ => twin_pure _
  | scanUpload id => exact (twin_known caller).bind fun _ => twin_uploadScan site id request

/-- A request goes the same way and is answered the same whatever errors say. -/
theorem twin_respond (site : Site) (request : Http.Request) :
    Script.Twin Eq (respond site request) (respond site request) := by
  unfold respond
  refine Script.Twin.bind (twin_handle site request _ _) ?_
  rintro (fault | response) (fault' | response') same
  · exact .done same
  · cases same
  · cases same
  · exact .done same

end Server

end BallotServer
