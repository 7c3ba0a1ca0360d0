import BallotServer.Proofs.Bodies
import BallotServer.Proofs.JsonNumbers
import BallotServer.Proofs.Storing
import BallotServer.Proofs.StrictReading

/-! Which bodies become documents. A request of a recognised caller to create or to update an
election goes on to the store exactly if its body is a document, and then with the text that was
sent; if not, it is refused before anything else is done, and if it is too long, as such. -/

namespace BallotServer

namespace Document

structure Accepts (bytes : ByteArray) (text : String) : Prop where
  short : bytes.size ≤ limit
  encoded : text.toByteArray = bytes
  root : Json.Root bytes.data.toList

variable {bytes : ByteArray} {text : String} {body : Http.Body}

theorem fromUTF8?_eq_some_iff : String.fromUTF8? bytes = some text ↔ text.toByteArray = bytes := by
  unfold String.fromUTF8?
  constructor
  · intro h
    split at h
    · cases h
      rfl
    · cases h
  · rintro rfl
    rw [dif_pos text.isValidUTF8]
    rfl

theorem ofBytes?_eq_some_iff (free : ¬Json.Reserved bytes.data.toList) :
    ofBytes? bytes = some text ↔ text.toByteArray = bytes ∧ Json.Root bytes.data.toList := by
  unfold ofBytes?
  split
  · rename_i taken
    rw [fromUTF8?_eq_some_iff]
    exact (and_iff_left ((Json.isObjectOrNull_iff free).1 taken)).symm
  · rename_i refused
    exact iff_of_false nofun fun met => refused ((Json.isObjectOrNull_iff free).2 met.2)

variable (arrives : body.whole? = some bytes) (free : ¬Json.Reserved bytes.data.toList)
include arrives

theorem ofBody_of_long (long : limit < bytes.size) : ofBody body = .error .badBody := by
  have unread : body.read? limit = none := by
    rw [Http.Body.read?_eq_none_iff]
    rintro _ again
    cases arrives.symm.trans again
    exact long
  rw [ofBody, unread]

include free

theorem ofBody_eq_ok_iff : ofBody body = .ok text ↔ Accepts bytes text := by
  by_cases short : bytes.size ≤ limit
  · have read : body.read? limit = some bytes := Http.Body.read?_eq_some_iff.2 ⟨arrives, short⟩
    have taken := @ofBytes?_eq_some_iff bytes text free
    have fits : Accepts bytes text ↔ ofBytes? bytes = some text :=
      ⟨fun accepts => taken.2 ⟨accepts.encoded, accepts.root⟩,
        fun is => ⟨short, (taken.1 is).1, (taken.1 is).2⟩⟩
    rw [ofBody, read, fits]
    dsimp only
    cases ofBytes? bytes with
    | none => exact iff_of_false nofun nofun
    | some text' => exact ⟨fun is => congrArg some (Except.ok.inj is),
        fun is => congrArg Except.ok (Option.some.inj is)⟩
  · rw [ofBody_of_long arrives (Nat.not_le.1 short)]
    exact iff_of_false nofun fun accepts => short accepts.short

theorem ofBody_of_refused (refused : ¬∃ text, Accepts bytes text) :
    ofBody body = .error (if limit < bytes.size then .badBody else .badJson) := by
  split
  · rename_i long
    exact ofBody_of_long arrives long
  · rename_i short
    have read : body.read? limit = some bytes :=
      Http.Body.read?_eq_some_iff.2 ⟨arrives, Nat.not_lt.1 short⟩
    cases is : ofBytes? bytes with
    | none => simp only [ofBody, read, is]
    | some text =>
      obtain ⟨encoded, root⟩ := (ofBytes?_eq_some_iff free).1 is
      exact absurd ⟨text, Nat.not_lt.1 short, encoded, root⟩ refused

end Document

namespace Operation

def Sends (operation : Operation) : Prop :=
  operation = createElection ∨ ∃ id, operation = updateElection id

/-- The record that the caller may write: a new one, or one that is there and the caller's own. -/
def Permits (s : Store) (caller : Int) : Operation → Int → Prop
  | createElection, target => target = 0
  | updateElection id, target => target = id ∧ ∃ e, s.read id = .ok e ∧ e.owner = caller
  | _, _ => False

end Operation

namespace Server

open Handler

def refusal : Document.Fault → Http.Response
  | .badBody => .plain 400 "bad body"
  | .badJson => .plain 400 "bad json"

theorem respond_document {site : Site} {request : Http.Request} {caller : Int}
    (known : Session.caller? site.sessionKey request.cookies = some caller)
    (sends : (Operation.ofRequest request.method request.path).Sends) :
    ∃ next : String → Except DatabaseError Unit → Script Http.Response,
      respond site request = .call .awaitBody fun _ =>
        match Document.ofBody request.body with
        | .error fault => .done (refusal fault)
        | .ok text => .call .connect (next text) := by
  obtain ⟨rest, handled⟩ : ∃ rest : String → Handler Http.Response,
      handle site request (some caller) (Operation.ofRequest request.method request.path) =
        document request.body >>= fun text => connected (rest text) := by
    rcases sends with is | ⟨id, is⟩ <;> rw [is]
    · exact ⟨_, create_eq caller request.body⟩
    · exact ⟨_, update_eq caller id request.body⟩
  have opens (text : String) : ∃ after : Except DatabaseError Unit → Script Http.Response,
      ((connected (rest text)).run.bind fun result => .done (answerOf id result)) =
        .call .connect after := by
    rw [run_connected]
    exact ⟨_, rfl⟩
  choose next opens using opens
  refine ⟨next, ?_⟩
  rw [respond_eq, known, handled, run_bind]
  unfold document
  rw [run_ask_bind, run_orFault]
  refine congrArg (Script.call .awaitBody) (funext fun _ => ?_)
  cases Document.ofBody request.body with
  | error fault => cases fault <;> rfl
  | ok text => exact opens text

end Server

namespace Visit

variable {σ : Type} {site : Site} {v : Visit σ} {caller : Int} {bytes : ByteArray} {st : State}

/-- A recognised caller's request to create or to update an election takes exactly the documents, as
they are sent: UTF-8 and JSON, an object or null, of bounded length, with checked values. -/
theorem document_validation
    (known : Session.caller? site.sessionKey v.request.cookies = some caller)
    (sends : v.operation.Sends) (arrives : v.request.body.whole? = some bytes)
    (free : ¬Json.Reserved bytes.data.toList) (st : State) :
    ((∃ x ∈ v.exchanges site st, x.step = .connect) ↔ ∃ text, Document.Accepts bytes text) ∧
      (∀ x ∈ v.exchanges site st, ∀ id owner text, x.step = .writeElection id owner text →
        Document.Accepts bytes text) ∧
      (∀ text target id s', Document.Accepts bytes text → v.world.StoreWorks →
        v.operation.Permits st.store caller target →
        st.store.write target caller text = .ok (id, s') →
        v.answer site st = Server.links id ∧ (v.after site st).store = s') ∧
      ((¬∃ text, Document.Accepts bytes text) →
        v.exchanges site st = [⟨.awaitBody, ()⟩] ∧ v.after site st = st ∧
          v.answer site st =
            .plain 400 (if Document.limit < bytes.size then "bad body" else "bad json")) ∧
      ∀ (n : Json.Number) (s : List UInt8), n.Spelled s → s.length ≤ Document.limit →
        (n.absolute ≤ (1 - 1 / 2 ^ 51) * 2 ^ 1024 → n.isFinite) ∧
          ((1 + 1 / 2 ^ 51) * 2 ^ 1024 ≤ n.absolute → n.isFinite = false) := by
  have takes (text : String) := @Document.ofBody_eq_ok_iff bytes text _ arrives free
  have refuses (refused : ¬∃ text, Document.Accepts bytes text) :
      v.exchanges site st = [⟨.awaitBody, ()⟩] ∧ v.after site st = st ∧
        v.answer site st =
          .plain 400 (if Document.limit < bytes.size then "bad body" else "bad json") := by
    obtain ⟨next, responds⟩ := Server.respond_document known sends
    rw [Document.ofBody_of_refused arrives free refused] at responds
    have words : Server.refusal (if Document.limit < bytes.size then .badBody else .badJson) =
        .plain 400 (if Document.limit < bytes.size then "bad body" else "bad json") := by
      split <;> rfl
    unfold Visit.exchanges Visit.answer Visit.after
    rw [responds]
    exact ⟨rfl, rfl, words⟩
  refine ⟨⟨?_, ?_⟩, ?_, ?_, refuses, ?_⟩
  · rintro ⟨x, member, connects⟩
    by_contra refused
    rw [(refuses refused).1] at member
    obtain rfl := List.mem_singleton.1 member
    cases connects
  · rintro ⟨text, accepts⟩
    obtain ⟨next, responds⟩ := Server.respond_document known sends
    rw [(takes _).2 accepts] at responds
    unfold Visit.exchanges
    rw [responds]
    exact ⟨_, .tail _ (.head _), rfl⟩
  · rintro ⟨step, answer⟩ member id owner text rfl
    obtain ⟨past, -, -, accepted, -⟩ :=
      (Server.respond_keeps site v.request).steps member
    exact (takes _).1 accepted
  · intro text target id s' accepts works permits wrote
    have accepted := (takes _).2 accepts
    refine @Visit.answer_of_yields _ site st v (.ok (Server.links id)) s' ?_
    rw [known]
    rcases sends with is | ⟨id', is⟩ <;> rw [is] at permits ⊢
    · cases permits
      exact Server.yields_create works accepted wrote
    · obtain ⟨rfl, e, found, owns⟩ := permits
      exact Server.yields_update works accepted found owns wrote
  · intro n s spelled short
    have practical := spelled.practical (Nat.lt_of_le_of_lt short (by decide))
    exact ⟨Json.Number.isFinite_of_le practical, Json.Number.isFinite_eq_false_of_le practical⟩

end Visit

namespace Sample

def sheet : ByteArray := "\x7b\"a\" : [-15e2]\x7d\n".toUTF8

def createSheet : Visit Unit :=
  visit { create.request with body := .ofBytes sheet }

theorem root_sheet : Json.Root sheet.data.toList := by
  have blank : Json.Blank [32] := by simp [Json.Blank, Json.isBlank]
  have power : Json.Number.Raised false [50] ([101] ++ ([] ++ [50])) :=
    .up (.inl rfl) (.inl rfl) ⟨by decide, by simp⟩
  have number : (⟨true, [49, 53], [], false, [50]⟩ : Json.Number).Spelled [45, 49, 53, 101, 50] :=
    .mk (n := ⟨true, [49, 53], [], false, [50]⟩) ⟨⟨by decide, by simp⟩, by decide⟩ .none power
  have key : Json.Named [97] [34, 97, 34, 32, 58] :=
    ⟨[], [97], [32], Json.blank_nil, Json.spells_self (by simp [Json.quote, Json.backslash]), blank,
      rfl⟩
  have list : Json.Checked 126 .value [91, 45, 49, 53, 101, 50, 93] :=
    .bracket (b := .list) (@Json.Checked.item _ .list [] _ [] Json.blank_nil
      (.scalar (.number number (by decide +kernel))) Json.blank_nil)
  have member : Json.Checked 126 (.inside .object) _ :=
    @Json.Checked.item _ _ _ _ [] ⟨_, _, [32], key, blank, rfl⟩ list Json.blank_nil
  exact ⟨[], _, [10], Json.blank_nil, .bracket (b := .object) member, .inr rfl,
    by simp [Json.Blank, Json.isBlank], by decide +kernel⟩

theorem document_validation_sheet :
    createSheet.operation.Sends ∧ ¬Json.Reserved sheet.data.toList ∧
      ∃ x ∈ createSheet.exchanges site (.fresh 0), x.step = .connect := by
  have sends : createSheet.operation.Sends := .inl (by decide)
  have free : ¬Json.Reserved sheet.data.toList :=
    Json.not_reserved_of_notMem (by decide +kernel) (by decide +kernel)
  have accepts : Document.Accepts sheet "\x7b\"a\" : [-15e2]\x7d\n" :=
    ⟨by decide +kernel, rfl, root_sheet⟩
  exact ⟨sends, free, (Visit.document_validation (v := createSheet) caller_create sends rfl free
    (.fresh 0)).1.2 ⟨_, accepts⟩⟩

end Sample

end BallotServer
