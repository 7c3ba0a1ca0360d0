import BallotServer.Proofs.Decimals
import BallotServer.Proofs.PageAddresses
import BallotServer.Proofs.PathLanguage
import BallotServer.Proofs.RequestKeys

/-! The links of an election lead to the views that they name, and no other paths do, except for
zeros before the digits. The links that a create request hands out are those of a positive number,
so they all lead somewhere; the path of a negative number would lead home. -/

namespace BallotServer

namespace View

/-- The path of a view of an election, with zeros before the digits. -/
def padded (v : View) (zeros : Nat) (id : Int) : String :=
  "/election/" ++ String.ofList (List.replicate zeros '0') ++ Decimal.text id ++
    String.ofList v.ending

theorem padded_zero (v : View) (id : Int) : v.padded 0 id = v.path id := by
  simp [padded, path]

theorem toList_padded (v : View) (zeros n : Nat) :
    (v.padded zeros n).toList =
      (ElectionPath.view (List.replicate zeros '0' ++ Nat.toDigits 10 n) v).spell := by
  have below : "/election/".toList = ElectionPath.root ++ ['/'] := by decide
  simp only [padded, String.toList_append, below, String.toList_ofList, Decimal.toList_text,
    Decimal.write_ofNat, ElectionPath.spell, List.append_assoc, List.cons_append, List.nil_append]

theorem eq_padded {path : String} {digits : List Char} {v : View}
    (numeral : Decimal.isNumeral digits)
    (spelled : path.toList = (ElectionPath.view digits v).spell) :
    ∃ zeros, path = v.padded zeros (Decimal.value digits) := by
  obtain ⟨zeros, same⟩ := Decimal.exists_zeros numeral
  refine ⟨zeros, String.toList_inj.1 ?_⟩
  rw [toList_padded, ← same, spelled]

end View

namespace Operation

def view? : Operation → Option View
  | readElection _ | updateElection _ => some .document
  | ballotPdf _ => some .pdf
  | ballotBubbles _ => some .bubbles
  | preview _ => some .png
  | scanForm _ | scanUpload _ => some .scan
  | _ => none

def method? : Operation → Option String
  | createElection | updateElection _ | scanUpload _ => some "POST"
  | readElection _ | ballotPdf _ | ballotBubbles _ | preview _ | scanForm _ => some "GET"
  | _ => none

variable {method path : String} {v : View} {id : Int} {s : Service}

theorem Service.operation_tells (member : s ∈ services) (id : Int) :
    (s.operation id).view? = s.view? ∧ (s.operation id).method? = some s.method ∧
      (s.operation id).election? = s.view?.map fun _ => id := by
  simp only [services, List.mem_cons, List.not_mem_nil, or_false] at member
  rcases member with rfl | rfl | rfl | rfl | rfl | rfl | rfl | rfl <;> exact ⟨rfl, rfl, rfl⟩

theorem tells_of_ofElectionPath {p : ElectionPath} {operation : Operation}
    (served : ofElectionPath method p = operation) (seen : operation.view? = some v) :
    p.inRange ∧ p.view? = v ∧ operation.method? = method ∧
      operation.election? = some (p.number : Int) := by
  have inRange : p.inRange := by
    by_contra beyond
    rw [ofElectionPath_eq_badItem_iff.2 beyond] at served
    subst served
    cases seen
  by_cases known : ∃ s ∈ services, s.Serves method p
  · obtain ⟨s, member, serves⟩ := known
    rw [ofElectionPath_of_serves inRange member serves] at served
    obtain ⟨view, asked, number⟩ := s.operation_tells member p.number
    rw [served] at view asked number
    refine ⟨inRange, serves.1.symm.trans (view.symm.trans seen),
      asked.trans (congrArg _ serves.2), ?_⟩
    rw [number, ← view, seen]
    rfl
  · rw [(ofElectionPath_eq_unsupported_iff inRange).2 (by simpa using known)] at served
    subst served
    cases seen

theorem padded_of_ofRequest (seen : (ofRequest method path).view? = some v)
    (about : (ofRequest method path).election? = some id) :
    (ofRequest method path).method? = method ∧ 0 ≤ id ∧ id < Nat.pow 2 63 ∧
      ∃ zeros, path = v.padded zeros id := by
  cases read : ElectionPath.ofPath? path.toList with
  | none =>
    rw [ofRequest_eq_home_iff.2 read] at seen
    cases seen
  | some p =>
    obtain ⟨numbered, spelled⟩ := ElectionPath.ofPath?_eq_some_iff.1 read
    rw [ofRequest_spell numbered spelled] at seen about ⊢
    obtain ⟨inRange, view, asked, number⟩ := tells_of_ofElectionPath rfl seen
    cases p with
    | collection => cases view
    | view digits w =>
      obtain rfl := Option.some.inj view
      obtain rfl : (Decimal.value digits : Int) = id := Option.some.inj (number.symm.trans about)
      have most : (Decimal.value digits : Int) < Nat.pow 2 63 :=
        Int.ofNat_lt.2 (Nat.lt_of_le_pred (by decide) (Decimal.fits_iff.1 inRange))
      exact ⟨asked, Int.natCast_nonneg _, most, View.eq_padded numbered spelled⟩

theorem ofRequest_padded (member : s ∈ services) (seen : s.view? = some v) (least : 0 ≤ id)
    (most : id < Nat.pow 2 63) (zeros : Nat) :
    ofRequest s.method (v.padded zeros id) = s.operation id := by
  obtain ⟨n, rfl⟩ := Int.eq_ofNat_of_zero_le least
  have numeral := Decimal.isNumeral_zeros zeros n
  have number : Decimal.value (List.replicate zeros '0' ++ Nat.toDigits 10 n) = n := by
    rw [Decimal.value_zeros, Decimal.value_toDigits]
  rw [ofRequest_spell (p := .view _ v) numeral (View.toList_padded v zeros n)]
  have inRange : (ElectionPath.view (List.replicate zeros '0' ++ Nat.toDigits 10 n) v).inRange := by
    refine Decimal.fits_iff.2 ?_
    rw [number]
    exact Nat.le_pred_of_lt (Int.ofNat_lt.1 most)
  rw [ofElectionPath_of_serves inRange member ⟨seen, rfl⟩]
  exact congrArg (fun n : Nat => s.operation n) number

theorem ofRequest_eq_operation_iff (member : s ∈ services) (seen : s.view? = some v) :
    ofRequest method path = s.operation id ↔
      s.method = method ∧ 0 ≤ id ∧ id < Nat.pow 2 63 ∧ ∃ zeros, path = v.padded zeros id := by
  obtain ⟨view, asked, about⟩ := s.operation_tells member id
  constructor
  · intro served
    rw [← served] at view asked about
    obtain ⟨method', least, most, spelled⟩ :=
      padded_of_ofRequest (view.trans seen) (about.trans (by rw [seen]; rfl))
    exact ⟨Option.some.inj (asked.symm.trans method'), least, most, spelled⟩
  · rintro ⟨rfl, least, most, zeros, rfl⟩
    exact ofRequest_padded member seen least most zeros

theorem ofRequest_path_negative (negative : id < 0) (method : String) (v : View) :
    ofRequest method (v.path id) = home := by
  rw [ofRequest_eq_home_iff, Option.eq_none_iff_forall_ne_some]
  intro p read
  obtain ⟨numbered, spelled⟩ := ElectionPath.ofPath?_eq_some_iff.1 read
  obtain ⟨n, rfl⟩ := Int.eq_negSucc_of_lt_zero negative
  have below : "/election/".toList = ElectionPath.root ++ ['/'] := by decide
  simp only [View.path, String.toList_append, below, String.toList_ofList, Decimal.toList_text,
    List.append_assoc] at spelled
  cases p with
  | collection =>
    have length := congrArg List.length spelled
    simp [ElectionPath.spell] at length
  | view digits w =>
    have rest := List.append_cancel_left spelled
    obtain ⟨some, all⟩ := Bool.and_eq_true_iff.1 numbered
    cases digits with
    | nil => cases some
    | cons c digits =>
      have first : '-' = c := (List.cons.inj (List.cons.inj rest).2).1
      subst first
      cases all

end Operation

namespace Server

open Handler

variable {site : Site} {request : Http.Request}

def HandsOut (past : List Exchange) (response : Http.Response) : Prop :=
  ∃ target owner text id, ⟨.writeElection target owner text, .ok id⟩ ∈ past ∧ response = links id

theorem create_handsOut (owner : Int) (body : Http.Body) :
    (create owner body).Keeps Anyhow HandsOut
      (fun _ fault => fault.response.status ≠ 200) [] := by
  rw [create_eq, keeps_bind]
  unfold document
  refine keeps_bind.2 (keeps_ask.2 ⟨trivial, fun _ => keeps_orFault.2
    ⟨fun text _ => ?_, fun e _ => ?_⟩⟩)
  · refine keeps_connected.2 ⟨trivial, fun _ => nofun, keeps_bind.2 (keeps_writeElection.2
      ⟨trivial, fun id => ?_, fun e => ⟨trivial, ?_⟩⟩)⟩
    · rw [keeps_bind]
      unfold Rendering.invalidate
      refine keeps_bind.2 (keeps_ask.2 ⟨trivial, fun _ => keeps_ask.2 ⟨trivial,
        fun _ => keeps_pure.2 ⟨trivial, 0, owner, text, id, ?_, rfl⟩⟩⟩)
      simp
    · cases e <;> nofun
  · cases e <;> nofun

theorem respond_handsOut
    (asked : Operation.ofRequest request.method request.path = .createElection) :
    (respond site request).Keeps Anyhow
      (fun past response => response.status = 200 → HandsOut past response) [] := by
  unfold respond
  rw [asked]
  refine (Script.keeps_bind ..).2 ?_
  cases Session.caller? site.sessionKey request.cookies with
  | none => exact nofun
  | some owner =>
    refine Script.Keeps.mono (create_handsOut owner request.body) ?_
    rintro past (fault | response) met
    · exact fun success => absurd success met
    · exact fun _ => met

end Server

namespace System

variable {site : Site} {S T : System} {es : List Event} {i : Nat} {request : Http.Request}
  {id : Int}

theorem Run.positive_of_write {target owner : Int} {text : String} (run : Run site S es T)
    (numbered : S.state.store.Numbered)
    (wrote : .act i ⟨.writeElection target owner text, .ok id⟩ ∈ es) : 1 ≤ id := by
  obtain ⟨before, after, rfl⟩ := List.append_of_mem wrote
  obtain ⟨V, W, first, next, -⟩ := run.at
  have numbered' := first.numbered numbered
  obtain ⟨e, found, -⟩ := next.find?_of_write numbered'
  obtain ⟨member, rfl⟩ := Store.find?_eq_some found
  exact (next.numbered numbered').positive member

theorem Run.links_of_created {response : Http.Response} (run : Run site S es T)
    (idle : S.tasks = []) (numbered : S.state.store.Numbered)
    (asked : Operation.ofRequest request.method request.path = .createElection)
    (answered : T.tasks[i]? = some ⟨request, .done response⟩) (success : response.status = 200) :
    ∃ id, 1 ≤ id ∧ response = Server.links id := by
  have course := (run.course idle answered).2
  obtain ⟨target, owner, text, id, wrote, rfl⟩ :=
    (Server.respond_handsOut asked).along course success
  exact ⟨id, run.positive_of_write numbered (mem_exchangesOf.1 wrote), rfl⟩

end System

namespace Links

open Operation

/-- Each link of an election leads to what it names; its form sends to the link for scans. -/
structure Lead (l : Links) (id : Int) : Prop where
  url : ofRequest "GET" l.url = readElection id
  post : ofRequest "POST" l.post = updateElection id
  pdf : ofRequest "GET" l.pdf = ballotPdf id
  bubbles : ofRequest "GET" l.bubbles = ballotBubbles id
  form : ofRequest "GET" l.scan = scanForm id
  upload : ofRequest "POST" l.scan = scanUpload id
  sends : Page.addresses (Page.scanForm id) = [l.scan]

theorem lead_ofElection {id : Int} (least : 0 ≤ id) (most : id < Nat.pow 2 63) :
    (ofElection id).Lead id := by
  have leads (s : Service) {v : View} (member : s ∈ services) (seen : s.view? = some v) :
      ofRequest s.method (v.path id) = s.operation id := by
    rw [← View.padded_zero]
    exact ofRequest_padded member seen least most 0
  exact {
    url := leads ⟨some .document, "GET", readElection⟩ (by simp [services]) rfl
    post := leads ⟨some .document, "POST", updateElection⟩ (by simp [services]) rfl
    pdf := leads ⟨some .pdf, "GET", ballotPdf⟩ (by simp [services]) rfl
    bubbles := leads ⟨some .bubbles, "GET", ballotBubbles⟩ (by simp [services]) rfl
    form := leads ⟨some .scan, "GET", scanForm⟩ (by simp [services]) rfl
    upload := leads ⟨some .scan, "POST", scanUpload⟩ (by simp [services]) rfl
    sends := Page.addresses_scanForm id }

/-- The links of an election that is no less than zero lead to what they name. A path asks for a
view of an election if and only if it is the path of the view, with any number of zeros before its
digits; below zero all paths lead home. In a run of the server each request about an election
touches the cache under two keys only, whichever spelling it came by, and what a create request is
answered with are the links of a positive number. -/
theorem links_lead {site : Site} {store : Store} {archive : Archive} {cacheBytes : UInt64}
    {es : List Event} {S : System} (numbered : store.Numbered)
    (run : System.Run site (.start store archive cacheBytes) es S) :
    (∀ id : Int, 0 ≤ id → id < Nat.pow 2 63 → (ofElection id).Lead id) ∧
    (∀ s ∈ services, ∀ v, s.view? = some v → ∀ method path (id : Int),
      ofRequest method path = s.operation id ↔
        s.method = method ∧ 0 ≤ id ∧ id < Nat.pow 2 63 ∧ ∃ zeros, path = v.padded zeros id) ∧
    (∀ id : Int, id < 0 → ∀ method (v : View), ofRequest method (v.path id) = home) ∧
    (∀ i request id did key, .arrival i request ∈ es →
      (ofRequest request.method request.path).election? = some id → .act i did ∈ es →
        did.step.key? = some key → key ∈ [Artifact.ballotKey id, Artifact.previewKey id]) ∧
    ∀ (i : Nat) request response, ofRequest request.method request.path = createElection →
      S.tasks[i]? = some ⟨request, .done response⟩ → response.status = 200 →
        ∃ id, 1 ≤ id ∧ response = Server.links id ∧
          (id < Nat.pow 2 63 → (ofElection id).Lead id) := by
  refine ⟨fun id => lead_ofElection, fun s member v seen method path id =>
    ofRequest_eq_operation_iff member seen, fun id negative method v =>
    ofRequest_path_negative negative method v, ?_, ?_⟩
  · intro i request id did key arrived about member touched
    exact run.key_mem rfl numbered arrived about member touched
  · intro i request response asked answered success
    obtain ⟨id, positive, same⟩ := run.links_of_created rfl numbered asked answered success
    exact ⟨id, positive, same, lead_ofElection (Int.le_of_lt positive)⟩

theorem links_lead_created :
    Store.fresh.Numbered ∧
      (∃ es S, System.Run Sample.site (.start .fresh .empty 100) es S ∧
        ∃ id, 1 ≤ id ∧ Sample.create.answer Sample.site (.fresh 100) = Server.links id ∧
          (id < Nat.pow 2 63 → (ofElection id).Lead id)) ∧
      (ofElection 9223372036854775807).Lead 9223372036854775807 ∧
      ofRequest "POST" "/election/007" = updateElection 7 := by
  have run : System.Run Sample.site (.start .fresh .empty 100) _ _ := .visit _ Sample.create
  obtain ⟨lead, spelled, -, -, created⟩ := links_lead Store.numbered_fresh run
  have success : (Sample.create.answer Sample.site (.fresh 100)).status = 200 := by
    rw [Visit.answer_of_respond
      (Server.respond_create Sample.caller_create Sample.asked_create rfl)]
    rfl
  have handed := created 0 Sample.create.request _ Sample.asked_create rfl success
  refine ⟨Store.numbered_fresh, ⟨_, _, run, handed⟩, lead _ (by decide) (by decide), ?_⟩
  have update := spelled ⟨some .document, "POST", updateElection⟩ (by simp [services])
  exact (update .document rfl _ _ 7).2 ⟨rfl, by decide, by decide, 2, by decide⟩

end Links

end BallotServer
