import BallotServer.Proofs.Bodies
import BallotServer.Proofs.ScanArchive
import BallotServer.Proofs.Storing

/-! A scan is archived once or not at all. What can stand in the way of it is a list in the order in
which the server notices it; the first hurdle is the answer, and without one the scan is a file in
the directory of its election. Nothing else is changed either way, but for what a write that fails
has left at its own path. -/

namespace BallotServer

namespace Scan.Extension

def ofKind (kind : String) : Extension :=
  if kind ∈ ["image/jpeg", "image/jpg"] then jpg else if kind = "image/png" then png else bin

theorem ofMediaType_eq {mediaType front : List Char} (none : ';' ∉ front)
    (is : mediaType = front ∨ ∃ parameters, mediaType = front ++ ';' :: parameters) :
    ofMediaType (some mediaType) = ofKind (String.ofList ((Text.trim front).map Char.toLower)) := by
  have first : (Text.parts ';' mediaType).head? = some front := by
    rcases is with rfl | ⟨parameters, rfl⟩
    · rw [Text.parts_of_notMem none]
      rfl
    · rw [Text.parts_append, Text.parts_of_notMem none]
      rfl
  have kind : essence mediaType = (Text.trim front).map Char.toLower := by
    rw [essence, first, Option.getD_some]
  rw [ofMediaType, kind]
  simp only [ofKind, List.mem_cons, List.not_mem_nil, or_false, Bool.or_eq_true, decide_eq_true_eq]

end Scan.Extension

namespace Server

open Handler

def image? (body : Http.Body) : Option ByteArray :=
  body.whole?.filter fun bytes => 1 ≤ bytes.size ∧ bytes.size ≤ 20 * 1024 * 1024

theorem image?_eq_some_iff {body : Http.Body} {image : ByteArray} :
    image? body = some image ↔
      body.whole? = some image ∧ 1 ≤ image.size ∧ image.size ≤ 20 * 1024 * 1024 := by
  rw [image?, Option.filter_eq_some_iff, decide_eq_true_eq]

theorem scanned_eq (body : Http.Body) :
    scanned body = ask .awaitBody >>= fun _ =>
      match image? body with
      | none => throw (.badRequest "bad body")
      | some image => pure image := by
  refine congrArg (ask .awaitBody >>= ·) (funext fun _ => ?_)
  unfold image?
  cases read : body.read? scanLimit with
  | none =>
    have long := Http.Body.read?_eq_none_iff.1 read
    cases whole : body.whole? with
    | none => rfl
    | some bytes =>
      have beyond : ¬bytes.size ≤ 20 * 1024 * 1024 := Nat.not_le.2 (long bytes whole)
      rw [Option.filter_some, if_neg (by simp [beyond])]
  | some bytes =>
    obtain ⟨whole, short⟩ := Http.Body.read?_eq_some_iff.1 read
    have short : bytes.size ≤ 20 * 1024 * 1024 := short
    rw [whole, Option.filter_some]
    by_cases empty : bytes.size = 0
    · have is : bytes.isEmpty := by simpa [ByteArray.isEmpty] using empty
      rw [if_neg (by simp [empty])]
      exact if_pos is
    · have is : ¬bytes.isEmpty := by simpa [ByteArray.isEmpty] using empty
      rw [if_pos (by simp [short]; omega)]
      exact if_neg is

structure Weather where
  connect : Option DatabaseError
  read : Option DatabaseError
  disk : Archive.Disk

/-- The same, with a disk that takes the file. -/
def Weather.writable (w : Weather) : Weather := { w with disk := { w.disk with file := none } }

/-- What can stand in the way of a scan, and how it is then answered. -/
def hurdles (site : Site) (request : Http.Request) (store : Store) (id : Int) (weather : Weather) :
    List (Bool × Http.Response) :=
  [((Session.caller? site.sessionKey request.cookies).isNone, .plain 401 "nope"),
    (!site.archives, .plain 500 "scan archive fail"),
    ((image? request.body).isNone, .plain 400 "bad body"),
    (weather.connect.isSome, .plain 500 "could not open db"),
    (weather.read.isSome || store.tables.isNone, .plain 500 "db get fail"),
    ((store.find? id).isNone, .plain 400 "no item"),
    (weather.disk.directory.isSome || weather.disk.file.isSome, .plain 500 "scan archive fail")]

def hurdle? (site : Site) (request : Http.Request) (store : Store) (id : Int) (weather : Weather) :
    Option Http.Response :=
  ((hurdles site request store id weather).find? Prod.fst).map Prod.snd

def storing (id : Int) (mediaType : Option (List Char)) (image : ByteArray) :
    Script Http.Response :=
  .call (.archive id mediaType image) fun
    | .error _ => .done (.plain 500 "scan archive fail")
    | .ok _ => .done (.plain 200 "ok")

def reading (id : Int) (mediaType : Option (List Char)) (image : ByteArray) :
    Script Http.Response :=
  .call (.readElection id) fun found => .call .release fun _ =>
    match found with
    | .error e => .done (Fault.ofStore "db get fail" e).response
    | .ok _ => storing id mediaType image

def archiving (id : Int) (mediaType : Option (List Char)) (image : ByteArray) :
    Script Http.Response :=
  .call .connect fun
    | .error _ => .done (.plain 500 "could not open db")
    | .ok _ => reading id mediaType image

theorem respond_upload {site : Site} {request : Http.Request} {id : Int}
    (asked : Operation.ofRequest request.method request.path = .scanUpload id) :
    respond site request =
      if (Session.caller? site.sessionKey request.cookies).isNone then .done (.plain 401 "nope")
      else if !site.archives then .done (.plain 500 "scan archive fail")
      else .call .awaitBody fun _ =>
        match image? request.body with
        | none => .done (.plain 400 "bad body")
        | some image => archiving id request.mediaType? image := by
  rw [respond_eq, asked]
  cases Session.caller? site.sessionKey request.cookies with
  | none => rfl
  | some caller =>
    simp only [handle, Server.known, uploadScan, scanned_eq, Option.isNone_some, Bool.false_eq_true,
      if_false]
    cases site.archives with
    | false => rfl
    | true =>
      refine congrArg (Script.call .awaitBody) (funext fun _ => ?_)
      cases image? request.body with
      | none => rfl
      | some image =>
        refine congrArg (Script.call .connect) (funext fun opened => ?_)
        cases opened with
        | error e => rfl
        | ok _ =>
          refine congrArg (Script.call (.readElection id)) (funext fun found => ?_)
          cases found with
          | error e => rfl
          | ok e =>
            refine congrArg (Script.call .release) (funext fun _ => ?_)
            refine congrArg (Script.call (.archive ..)) (funext fun stored => ?_)
            cases stored <;> rfl

section Image

variable {σ : Type} (w : Script.World σ) (st : State) (outside : σ) (id : Int)
  (mediaType : Option (List Char)) (image : ByteArray)

def comesTo (s : Script Http.Response) : Http.Response × State :=
  ((s.run w st outside).1, (s.run w st outside).2.1)

def stored (u : Upload) : Http.Response × State :=
  (match (st.archive.upload u).1 with
    | .error _ => .plain 500 "scan archive fail"
    | .ok _ => .plain 200 "ok",
    { st with archive := (st.archive.upload u).2 })

theorem comesTo_call (s : Step) (next : s.Answer → Script Http.Response) :
    comesTo w st outside (.call s next) =
      comesTo w (st.perform s (w.decide s outside).1).2 (w.decide s outside).2
        (next (st.perform s (w.decide s outside).1).1) := rfl

theorem comesTo_awaitBody (s : Script Http.Response) :
    comesTo w st outside (.call .awaitBody fun _ => s) =
      comesTo w st (w.decide .awaitBody outside).2 s := rfl

theorem comesTo_storing :
    comesTo w st outside (storing id mediaType image) =
      stored st ⟨(w.decide (.archive id mediaType image) outside).1, id, mediaType, image⟩ := by
  rw [storing, comesTo_call]
  generalize w.decide (.archive id mediaType image) outside = decided
  obtain ⟨disk, outside⟩ := decided
  unfold stored Archive.upload
  dsimp only [State.perform]
  cases (st.archive.store disk id mediaType image).1 <;> rfl

theorem comesTo_reading :
    comesTo w st outside (reading id mediaType image) =
      match (w.decide (.readElection id) outside).1.elim (st.store.read id)
        (.error ∘ .database) with
      | .error e => ((Fault.ofStore "db get fail" e).response, st)
      | .ok _ => comesTo w st (w.decide .release (w.decide (.readElection id) outside).2).2
          (storing id mediaType image) := by
  rw [reading, comesTo_call]
  generalize w.decide (.readElection id) outside = decided
  obtain ⟨failed, outside⟩ := decided
  cases failed with
  | some e => rfl
  | none =>
    dsimp only [State.perform, Option.elim]
    cases st.store.read id <;> rfl

theorem comesTo_archiving :
    comesTo w st outside (archiving id mediaType image) =
      if (w.decide .connect outside).1.isSome then (.plain 500 "could not open db", st)
      else comesTo w st (w.decide .connect outside).2 (reading id mediaType image) := by
  rw [archiving, comesTo_call]
  generalize w.decide .connect outside = decided
  obtain ⟨failed, outside⟩ := decided
  cases failed <;> rfl

end Image

end Server

namespace Visit

variable {σ : Type} {site : Site} {v : Visit σ} {id : Int} {st : State}

def weather (v : Visit σ) (id : Int) : Server.Weather :=
  let awaited := v.world.decide .awaitBody v.outside
  let opened := v.world.decide .connect awaited.2
  let found := v.world.decide (.readElection id) opened.2
  let released := v.world.decide .release found.2
  let image := (Server.image? v.request.body).getD .empty
  ⟨opened.1, found.1, (v.world.decide (.archive id v.request.mediaType? image) released.2).1⟩

def scan (v : Visit σ) (id : Int) : Upload :=
  ⟨(v.weather id).disk, id, v.request.mediaType?, (Server.image? v.request.body).getD .empty⟩

/-- The first hurdle is the answer. If there is none before the write, the archive takes the upload. -/
theorem upload_result (asked : v.operation = .scanUpload id) :
    (v.answer site st, v.after site st) =
      ((Server.hurdle? site v.request st.store id (v.weather id)).getD (.plain 200 "ok"),
        { st with
          archive := (Server.hurdle? site v.request st.store id (v.weather id).writable).elim
            (st.archive.upload (v.scan id)).2 fun _ => st.archive }) := by
  change Server.comesTo v.world st v.outside (Server.respond site v.request) = _
  rw [Server.respond_upload asked]
  unfold Server.hurdle? Server.hurdles
  by_cases unknown : (Session.caller? site.sessionKey v.request.cookies).isNone
  · simp only [unknown, if_true, List.find?_cons]
    rfl
  by_cases configured : site.archives
  · cases sent : Server.image? v.request.body with
    | none =>
      simp only [unknown, configured, List.find?_cons]
      rfl
    | some image =>
      simp only [unknown, configured, List.find?_cons, Option.isNone_some, Bool.not_true,
        Bool.false_eq_true, if_false]
      obtain rfl : (Server.image? v.request.body).getD .empty = image := by
        rw [sent, Option.getD_some]
      unfold scan weather
      dsimp only [Server.Weather.writable]
      rw [Server.comesTo_awaitBody, Server.comesTo_archiving]
      generalize (Server.image? v.request.body).getD .empty = image
      generalize v.world.decide .awaitBody v.outside = awaited
      generalize v.world.decide .connect awaited.2 = opened
      cases opened.1 with
      | some e => rfl
      | none =>
        rw [if_neg (by simp), Server.comesTo_reading]
        generalize v.world.decide (.readElection id) opened.2 = found
        cases found.1 with
        | some e => rfl
        | none =>
          simp only [Option.elim_none, Store.read]
          by_cases blank : st.store.tables.isNone
          · simp only [blank, if_true]
            rfl
          · cases st.store.find? id with
            | none =>
              simp only [blank]
              rfl
            | some e =>
              simp only [blank, Bool.false_eq_true, if_false, Server.comesTo_storing]
              generalize v.world.decide (.archive id v.request.mediaType? image) _ = decided
              obtain ⟨⟨directory, millis, file⟩, outside⟩ := decided
              cases directory with
              | some e => rfl
              | none => cases file <;> rfl
  · simp only [unknown, configured, List.find?_cons]
    rfl

theorem hurdle?_eq_none_iff {weather : Server.Weather} :
    Server.hurdle? site v.request st.store id weather = none ↔
      (∃ caller, Session.caller? site.sessionKey v.request.cookies = some caller) ∧
        site.archives ∧
        (∃ image, v.request.body.whole? = some image ∧ 1 ≤ image.size ∧
          image.size ≤ 20 * 1024 * 1024) ∧
        weather.connect = none ∧ weather.read = none ∧ (∃ e, st.store.read id = .ok e) ∧
        weather.disk.directory = none ∧ weather.disk.file = none := by
  have sent : (Server.image? v.request.body).isNone = false ↔ ∃ image,
      v.request.body.whole? = some image ∧ 1 ≤ image.size ∧ image.size ≤ 20 * 1024 * 1024 := by
    simp only [Option.isNone_eq_false_iff, Option.isSome_iff_exists, Server.image?_eq_some_iff]
  have there : (∃ e, st.store.read id = .ok e) ↔
      st.store.tables.isNone = false ∧ (st.store.find? id).isNone = false := by
    simp [Store.read_eq_ok, Option.isNone_eq_false_iff, Option.isSome_iff_exists]
  simp only [Server.hurdle?, Server.hurdles, Option.map_eq_none_iff, List.find?_eq_none,
    List.forall_mem_cons, Bool.not_eq_true, sent, there]
  simp [Option.isNone_eq_false_iff, Option.isSome_iff_exists, and_assoc]

theorem upload_refused (asked : v.operation = .scanUpload id)
    (hurdle : Server.hurdle? site v.request st.store id (v.weather id) ≠ none) :
    (v.after site st).archive.files = st.archive.files ∨
      Server.hurdle? site v.request st.store id (v.weather id).writable = none ∧
      ∃ refusal n, (v.weather id).disk.file = some refusal ∧ refusal.written = some n ∧
        ∀ path, (v.after site st).archive.image? path =
          if path = ((v.scan id).name st.archive.next).path then
            some ((v.scan id).image.extract 0 n)
          else st.archive.image? path := by
  obtain ⟨-, left⟩ := Prod.mk.inj (@upload_result _ site v id st asked)
  rw [left]
  cases first : Server.hurdle? site v.request st.store id (v.weather id).writable with
  | some refusal => exact .inl rfl
  | none =>
    dsimp only [Option.elim]
    cases wrote : st.archive.written? (v.scan id) with
    | none => exact .inl (by rw [Archive.files_upload, wrote]; rfl)
    | some file =>
      obtain ⟨-, named, content⟩ := Archive.written?_eq_some_iff.1 wrote
      unfold Archive.Disk.content? at content
      split at content
      case h_1 fine =>
        obtain ⟨known, archives, image, connect, read, found, made, -⟩ :=
          hurdle?_eq_none_iff.1 first
        exact (hurdle (hurdle?_eq_none_iff.2
          ⟨known, archives, image, connect, read, found, made, fine⟩)).elim
      case h_2 refusal refused =>
        obtain ⟨n, written, part⟩ := Option.map_eq_some_iff.1 content
        refine .inr ⟨rfl, refusal, n, refused, written, fun path => ?_⟩
        rw [part, ← named]
        exact st.archive.image?_after (e := .upload (v.scan id)) wrote path

theorem upload_done (asked : v.operation = .scanUpload id)
    (free : Server.hurdle? site v.request st.store id (v.weather id) = none) :
    (v.after site st).archive = (st.archive.upload (v.scan id)).2 ∧ (v.scan id).placed ∧
      v.request.body.whole? = some (v.scan id).image ∧
      st.archive.written? (v.scan id) =
        some ⟨(v.scan id).name st.archive.next, (v.scan id).image⟩ := by
  obtain ⟨known, archives, ⟨image, whole, size⟩, connect, read, found, made, fine⟩ :=
    hurdle?_eq_none_iff.1 free
  have first : Server.hurdle? site v.request st.store id (v.weather id).writable = none :=
    hurdle?_eq_none_iff.2 ⟨known, archives, ⟨image, whole, size⟩, connect, read, found, made, rfl⟩
  obtain ⟨-, left⟩ := Prod.mk.inj (@upload_result _ site v id st asked)
  have placed : (v.scan id).placed := by
    rw [Upload.placed, Option.isNone_iff_eq_none]
    exact made
  have sent : (v.scan id).image = image := by
    change (Server.image? v.request.body).getD .empty = image
    rw [Server.image?_eq_some_iff.2 ⟨whole, size⟩, Option.getD_some]
  have content : (v.scan id).disk.content? (v.scan id).image = some (v.scan id).image := by
    rw [Archive.Disk.content?, show (v.scan id).disk.file = none from fine]
  refine ⟨?_, placed, by rw [sent, whole], Archive.written?_eq_some_iff.2 ⟨placed, rfl, content⟩⟩
  rw [left, first]
  rfl

/-- A scan is archived once or not at all: the first hurdle is the answer, and without one the image
is a file in the directory of the election. That file is new unless the clock has gone back since an
earlier archiver. With a hurdle the files stay as they are, but for one case: a write that fails after
its file was opened leaves a first part of the image at its own path. -/
theorem upload_once (asked : v.operation = .scanUpload id) (st : State) :
    let hurdle := Server.hurdle? site v.request st.store id (v.weather id)
    let scan := v.scan id
    let name := scan.name st.archive.next
    let after := v.after site st
    v.answer site st = hurdle.getD (.plain 200 "ok") ∧
      after.store = st.store ∧ after.cache = st.cache ∧
      (hurdle ≠ none → after.archive.files = st.archive.files ∨
        Server.hurdle? site v.request st.store id (v.weather id).writable = none ∧
        ∃ refusal n, (v.weather id).disk.file = some refusal ∧ refusal.written = some n ∧
          ∀ path, after.archive.image? path =
            if path = name.path then some (scan.image.extract 0 n) else st.archive.image? path) ∧
      (hurdle = none → v.request.body.whole? = some scan.image ∧
        (st.archive.Precedes scan → st.archive.image? name.path = none) ∧
        (st.archive.image? name.path = none →
          after.archive.files = st.archive.files ++ [⟨name, scan.image⟩]) ∧
        ∀ path, after.archive.image? path =
          if path = name.path then some scan.image else st.archive.image? path) ∧
      (hurdle = none ↔
        (∃ caller, Session.caller? site.sessionKey v.request.cookies = some caller) ∧
          site.archives ∧
          (∃ image, v.request.body.whole? = some image ∧ 1 ≤ image.size ∧
            image.size ≤ 20 * 1024 * 1024) ∧
          (v.weather id).connect = none ∧ (v.weather id).read = none ∧
          (∃ e, st.store.read id = .ok e) ∧
          (v.weather id).disk.directory = none ∧ (v.weather id).disk.file = none) ∧
      (∃ file : String, '/' ∉ file.toList ∧ name.path = Decimal.text id ++ "/" ++ file) ∧
      (v.request.mediaType? = none → name.extension = .bin) ∧
      ∀ mediaType front, v.request.mediaType? = some mediaType → ';' ∉ front →
        (mediaType = front ∨ ∃ parameters, mediaType = front ++ ';' :: parameters) →
        name.extension =
          .ofKind (String.ofList ((Text.trim front).map Char.toLower)) := by
  intro hurdle scan name after
  have free : hurdle = none ↔ _ := hurdle?_eq_none_iff
  have shape := name.exists_file
  have kinds : ∀ mediaType front, v.request.mediaType? = some mediaType → ';' ∉ front →
      (mediaType = front ∨ ∃ parameters, mediaType = front ++ ';' :: parameters) →
      name.extension = .ofKind (String.ofList ((Text.trim front).map Char.toLower)) := by
    intro mediaType front sent none is
    change Scan.Extension.ofMediaType v.request.mediaType? = _
    rw [sent, Scan.Extension.ofMediaType_eq none is]
  have missing : v.request.mediaType? = none → name.extension = .bin := by
    intro none
    change Scan.Extension.ofMediaType v.request.mediaType? = _
    rw [none]
    rfl
  obtain ⟨answer, left⟩ := Prod.mk.inj (@upload_result _ site v id st asked)
  have store := congrArg State.store left
  have cache := congrArg State.cache left
  refine ⟨answer, store, cache, upload_refused asked, fun none => ?_, free, shape, missing, kinds⟩
  obtain ⟨archive, placed, whole, wrote⟩ := @upload_done _ site v id st asked none
  rw [show after.archive = _ from archive]
  refine ⟨whole, fun precedes => precedes.free placed, fun nothing => ?_, fun path => ?_⟩
  · rw [Archive.files_upload, wrote]
    exact Archive.overwrite_of_free (Option.map_eq_none_iff.1 nothing)
  · exact st.archive.image?_after (e := .upload scan) wrote path

end Visit

namespace Sample

def archivingSite : Site := { site with archives := true }

def sendScan (mediaType : ByteArray) (file : Option Archive.Refusal) : Visit Unit where
  request := ⟨"POST", "/election/1/scan",
    ⟨"content-type", mediaType⟩ :: create.request.headers, .ofBytes "PNG".toUTF8⟩
  world.decide := fun
    | .archive _ _ _, _ => (⟨none, 0, file⟩, ())
    | s, _ => (s.calm draw id, ())
  outside := ()

section SendScan

variable {mediaType : ByteArray} {file : Option Archive.Refusal} {a : Archive}

theorem sendScan_operation : (sendScan mediaType file).operation = .scanUpload 1 := by
  change Operation.ofRequest "POST" "/election/1/scan" = _
  decide

theorem sendScan_caller :
    Session.caller? archivingSite.sessionKey (sendScan mediaType file).request.cookies = some 7 := by
  have other : ("content-type".toLower == "cookie") = false := by decide +kernel
  have cookies : (sendScan mediaType file).request.cookies = create.request.cookies := by
    simp only [Http.Request.cookies, Http.Header.valuesOf, sendScan, List.filter_cons, other]
    rfl
  have key : archivingSite.sessionKey = site.sessionKey := rfl
  rw [cookies, key]
  exact caller_create

theorem sendScan_mediaType? :
    (sendScan mediaType file).request.mediaType? = Http.Header.text? mediaType := by
  have same : ("content-type".toLower == "content-type") = true := by decide +kernel
  simp only [Http.Request.mediaType?, Http.Header.valuesOf, sendScan, List.filter_cons, same]
  rfl

theorem sendScan_image? :
    Server.image? (sendScan mediaType file).request.body = some "PNG".toUTF8 :=
  Server.image?_eq_some_iff.2 ⟨rfl, by decide, by decide⟩

theorem sendScan_result :
    let st : State := { created 0 with archive := a }
    (sendScan mediaType file).answer archivingSite st =
        (if file.isSome then .plain 500 "scan archive fail" else .plain 200 "ok") ∧
      ((sendScan mediaType file).after archivingSite st).archive =
        (a.upload ⟨⟨none, 0, file⟩, 1, Http.Header.text? mediaType, "PNG".toUTF8⟩).2 := by
  intro st
  have result := @Visit.upload_result _ archivingSite _ 1 st (@sendScan_operation mediaType file)
  obtain ⟨answer, left⟩ := Prod.mk.inj result
  rw [answer, left]
  unfold Server.hurdle? Server.hurdles Visit.scan
  rw [sendScan_caller, sendScan_image?, sendScan_mediaType?]
  cases file <;> exact ⟨rfl, rfl⟩

end SendScan

theorem upload_once_scan :
    let scan := sendScan "Image/PNG; q=1".toUTF8 none
    scan.answer archivingSite (created 0) = .plain 200 "ok" ∧
      (scan.after archivingSite (created 0)).archive.files.length = 1 ∧
      (scan.after archivingSite (created 0)).archive.image? "1/0-0.png" = some "PNG".toUTF8 := by
  obtain ⟨answer, -, -, -, kept, allowed, -, -, -⟩ := @Visit.upload_once _ archivingSite _ 1
    (@sendScan_operation "Image/PNG; q=1".toUTF8 none) (created 0)
  have none := allowed.2 ⟨⟨7, sendScan_caller⟩, rfl,
    ⟨"PNG".toUTF8, rfl, by decide, by decide⟩, rfl, rfl, ⟨⟨1, 7, "\x7b\x7d"⟩, rfl⟩, rfl, rfl⟩
  obtain ⟨-, free, added, image⟩ := kept none
  have precedes : (created 0).archive.Precedes ((sendScan "Image/PNG; q=1".toUTF8 .none).scan 1) :=
    ⟨[], [], rfl, List.pairwise_singleton ..⟩
  refine ⟨answer.trans (by rw [none]; rfl), ?_, (image _).trans ?_⟩
  · rw [added (free precedes)]
    rfl
  · exact (if_pos (by decide +kernel)).trans rfl

/-- A media type with a byte beyond ASCII counts as none, though the part before its semicolon is a
known one; a write that fails has left an empty file; and a scan of an earlier archiver is lost to one
whose clock stands where that one's stood. -/
theorem scans_spoiled :
    let old : Archive := ⟨[⟨⟨1, 0, 0, .png⟩, "old".toUTF8⟩], 0⟩
    let foreign := sendScan ("image/png; x=".toUTF8 ++ ⟨#[0xff]⟩) none
    let full := sendScan "image/png".toUTF8 (some ⟨.other "No space left on device", some 0⟩)
    let again := sendScan "image/png".toUTF8 none
    (foreign.answer archivingSite (created 0) = .plain 200 "ok" ∧
      (foreign.after archivingSite (created 0)).archive.files =
        [⟨⟨1, 0, 0, .bin⟩, "PNG".toUTF8⟩]) ∧
    (full.answer archivingSite (created 0) = .plain 500 "scan archive fail" ∧
      (full.after archivingSite (created 0)).archive.files = [⟨⟨1, 0, 0, .png⟩, .empty⟩]) ∧
    again.answer archivingSite { created 0 with archive := old } = .plain 200 "ok" ∧
      (again.after archivingSite { created 0 with archive := old }).archive.files =
        [⟨⟨1, 0, 0, .png⟩, "PNG".toUTF8⟩] := by
  intro old foreign full again
  obtain ⟨answer, left⟩ := @sendScan_result ("image/png; x=".toUTF8 ++ ⟨#[0xff]⟩) none .empty
  obtain ⟨answer', left'⟩ := @sendScan_result "image/png".toUTF8
    (some ⟨.other "No space left on device", some 0⟩) .empty
  obtain ⟨answer'', left''⟩ := @sendScan_result "image/png".toUTF8 none old
  refine ⟨⟨answer, ?_⟩, ⟨answer', ?_⟩, answer'', ?_⟩
  · exact (congrArg Archive.files left).trans (by decide +kernel)
  · exact (congrArg Archive.files left').trans (by decide +kernel)
  · exact (congrArg Archive.files left'').trans (by decide +kernel)

end Sample

end BallotServer
