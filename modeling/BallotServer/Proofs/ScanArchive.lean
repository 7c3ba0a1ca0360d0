import BallotServer.Archive
import BallotServer.Proofs.Keys
import BallotServer.Proofs.Texts
import Mathlib.Data.List.Nodup

/-! Archived scans never overwrite one another. The path of a scan gives its election, the reading
of the clock and the number back, so two paths are the same only if the archivers were not the same
and the clock went back between them. Archivers come one after the other over the same files; each
counts from the start. -/

namespace BallotServer

namespace Scan

theorem Extension.text_injective {x y : Extension} (same : x.text = y.text) : x = y := by
  cases x <;> cases y <;> first | rfl | exact absurd same (by decide)

namespace Name

theorem toList_path (n : Name) :
    n.path.toList = Decimal.write n.election ++ '/' :: ((Decimal.write n.millis ++
      '-' :: Nat.toDigits 10 n.number) ++ '.' :: n.extension.text.toList) := by
  simp only [path, String.toList_append, Decimal.toList_text, Decimal.write_ofNat,
    List.append_assoc, List.cons_append]
  rfl

theorem slash_notMem_write (i : Int) : '/' ∉ Decimal.write i := by
  intro member
  rcases Decimal.mem_write member with sign | digit
  · exact absurd sign (by decide)
  · exact absurd digit (by decide)

theorem exists_file (n : Name) :
    ∃ file : String, '/' ∉ file.toList ∧ n.path = Decimal.text n.election ++ "/" ++ file := by
  refine ⟨Decimal.text n.millis ++ "-" ++ Decimal.text n.number ++ "." ++ n.extension.text, ?_, ?_⟩
  · have extension : '/' ∉ n.extension.text.toList := by
      cases n.extension <;> decide
    simp [Decimal.toList_text, slash_notMem_write, extension]
  · simp only [path, String.append_assoc]

/-- What stands in a path can be read off it. -/
theorem path_injective {m n : Name} (same : m.path = n.path) : m = n := by
  have spelled := congrArg String.toList same
  rw [toList_path, toList_path] at spelled
  have dot (n : Name) : '.' ∉ Decimal.write n.millis ++ '-' :: Nat.toDigits 10 n.number := by
    have digits : '.' ∉ Nat.toDigits 10 n.number := Decimal.dot_notMem_write n.number
    simp [Decimal.dot_notMem_write, digits]
  have minus (n : Name) : '-' ∉ (Nat.toDigits 10 n.number).reverse := by
    simpa using Decimal.minus_notMem_toDigits n.number
  -- The slash is the first one, the dot the only one and the minus sign the last one.
  have cut := congrArg (Text.cut? '/') spelled
  rw [Text.cut?_append (slash_notMem_write _), Text.cut?_append (slash_notMem_write _)] at cut
  obtain ⟨election, file⟩ := Prod.mk.inj (Option.some.inj cut)
  have cut := congrArg (Text.cut? '.') file
  rw [Text.cut?_append (dot m), Text.cut?_append (dot n)] at cut
  obtain ⟨stem, extension⟩ := Prod.mk.inj (Option.some.inj cut)
  have cut := congrArg (fun cs => Text.cut? '-' cs.reverse) stem
  simp only [List.reverse_append, List.reverse_cons, List.append_assoc, List.singleton_append,
    Text.cut?_append (minus _)] at cut
  obtain ⟨number, millis⟩ := Prod.mk.inj (Option.some.inj cut)
  obtain ⟨e, i, k, x⟩ := m
  obtain ⟨e', i', k', x'⟩ := n
  dsimp only at election number millis extension
  obtain rfl := Decimal.write_injective election
  obtain rfl := Decimal.write_injective (List.reverse_injective millis)
  obtain rfl := Decimal.toDigits_injective (List.reverse_injective number)
  obtain rfl := Extension.text_injective (String.toList_inj.1 extension)
  rfl

def under (root : String) (n : Name) : String :=
  (if root.toList.getLast?.all (· == '/') then root else root ++ "/") ++ n.path

theorem under_injective {root : String} {m n : Name} (same : m.under root = n.under root) :
    m = n := by
  have spelled := congrArg String.toList same
  simp only [under, String.toList_append] at spelled
  exact path_injective (String.toList_inj.1 (List.append_cancel_left spelled))

end Name

end Scan

structure Upload where
  disk : Archive.Disk
  election : Int
  mediaType : Option (List Char)
  image : ByteArray

namespace Upload

/-- The directory of the election is made. -/
def placed (u : Upload) : Bool := u.disk.directory.isNone

def name (u : Upload) (number : Nat) : Scan.Name :=
  ⟨u.election, u.disk.millis, number, .ofMediaType u.mediaType⟩

end Upload

namespace Archive

def image? (a : Archive) (path : String) : Option ByteArray :=
  (a.files.find? fun f => f.name.path == path).map Scan.image

def upload (a : Archive) (u : Upload) : Except ArchiveError Scan.Name × Archive :=
  a.store u.disk u.election u.mediaType u.image

/-- The name that is handed to the file write: the one that is given if the write succeeds. -/
def handed? (a : Archive) (u : Upload) : Option Scan.Name :=
  (a.upload { u with disk := { u.disk with file := none } }).1.toOption

def archived? (a : Archive) (u : Upload) : Option Scan :=
  (a.upload u).1.toOption.map fun name => ⟨name, u.image⟩

/-- The file that an upload writes: a scan, or what a write that fails has left of it. -/
def written? (a : Archive) (u : Upload) : Option Scan :=
  (a.handed? u).bind fun name => (u.disk.content? u.image).map fun content => ⟨name, content⟩

section Step

variable {a : Archive} {u : Upload}

theorem handed?_eq (a : Archive) (u : Upload) :
    a.handed? u = if u.placed then some (u.name a.next) else none := by
  unfold handed? upload store Upload.placed
  cases u.disk.directory <;> rfl

theorem next_upload (a : Archive) (u : Upload) :
    (a.upload u).2.next = if u.placed then a.next + 1 else a.next := by
  unfold upload store Upload.placed
  cases u.disk.directory <;> rfl

theorem files_upload (a : Archive) (u : Upload) :
    (a.upload u).2.files = ((a.written? u).map (overwrite a.files)).getD a.files := by
  rw [written?, handed?_eq]
  unfold upload store Upload.placed
  cases u.disk.directory with
  | some e => rfl
  | none =>
    dsimp only
    cases u.disk.content? u.image <;> rfl

theorem written?_eq_some_iff {scan : Scan} :
    a.written? u = some scan ↔
      u.placed ∧ scan.name = u.name a.next ∧ u.disk.content? u.image = some scan.image := by
  rw [written?, handed?_eq]
  by_cases made : u.placed
  · simp only [made, if_true, Option.bind_some, Option.map_eq_some_iff, true_and]
    constructor
    · rintro ⟨content, left, rfl⟩
      exact ⟨rfl, left⟩
    · rintro ⟨named, left⟩
      exact ⟨scan.image, left, by rw [← named]⟩
  · simp [made]

theorem handed?_of_written? {scan : Scan} (wrote : a.written? u = some scan) :
    a.handed? u = some scan.name := by
  obtain ⟨made, named, -⟩ := written?_eq_some_iff.1 wrote
  rw [handed?_eq, if_pos made, named]

theorem written?_of_archived? {scan : Scan} (archived : a.archived? u = some scan) :
    a.written? u = some scan := by
  rw [written?, handed?_eq]
  unfold archived? upload store at archived
  unfold Upload.placed Disk.content?
  cases made : u.disk.directory with
  | some e =>
    rw [made] at archived
    cases archived
  | none =>
    rw [made] at archived
    cases file : u.disk.file with
    | some refusal =>
      simp only [file] at archived
      cases archived
    | none =>
      simp only [file] at archived
      exact archived

end Step

section Files

variable {files : List Scan} {scan : Scan} {path : String}

theorem find?_overwrite (files : List Scan) (scan : Scan) (path : String) :
    (overwrite files scan).find? (fun f => f.name.path == path) =
      if scan.name.path = path then some scan else files.find? fun f => f.name.path == path := by
  induction files with
  | nil =>
    simp only [overwrite, List.find?_cons, List.find?_nil]
    split <;> simp_all
  | cons f rest ih =>
    simp only [overwrite]
    by_cases there : f.name.path = scan.name.path
    · simp only [there, if_true, List.find?_cons]
      by_cases here : scan.name.path = path
      · simp [here]
      · have other : (scan.name.path == path) = false := by
          simpa using here
        simp [here, other]
    · simp only [there, if_false, List.find?_cons, ih]
      by_cases here : scan.name.path = path
      · have other : (f.name.path == path) = false := by
          simpa [here] using there
        simp [here, other]
      · simp [here]

theorem overwrite_of_free (free : files.find? (fun f => f.name.path == scan.name.path) = none) :
    overwrite files scan = files ++ [scan] := by
  induction files with
  | nil => rfl
  | cons f rest ih =>
    obtain ⟨other, free⟩ := List.forall_mem_cons.1 (List.find?_eq_none.1 free)
    rw [overwrite, if_neg (by simpa using other), ih (List.find?_eq_none.2 free)]
    rfl

end Files

/-- What happens to an archive: an archiver comes up over it, or takes an upload. -/
inductive Event
  | start
  | upload (u : Upload)

def after (a : Archive) : Event → Archive
  | .start => a.restart
  | .upload u => (a.upload u).2

def handedBy? (a : Archive) : Event → Option Scan.Name
  | .start => none
  | .upload u => a.handed? u

def archivedBy? (a : Archive) : Event → Option Scan
  | .start => none
  | .upload u => a.archived? u

def writtenBy? (a : Archive) : Event → Option Scan
  | .start => none
  | .upload u => a.written? u

def run (a : Archive) (es : List Event) : Archive := es.foldl after a

def handed (a : Archive) : List Event → List Scan.Name
  | [] => []
  | e :: es => (a.handedBy? e).toList ++ (a.after e).handed es

def archived (a : Archive) : List Event → List Scan
  | [] => []
  | e :: es => (a.archivedBy? e).toList ++ (a.after e).archived es

/-- Archivers that come one after the other, each with its uploads. -/
def lives (rows : List (List Upload)) : List Event :=
  rows.flatMap fun us => .start :: us.map .upload

section Run

variable {a : Archive} {e : Event} {es : List Event} {scan : Scan} {name : Scan.Name}

theorem files_after (a : Archive) (e : Event) :
    (a.after e).files = ((a.writtenBy? e).map (overwrite a.files)).getD a.files := by
  cases e with
  | start => rfl
  | upload u => exact files_upload a u

theorem handedBy?_of_writtenBy? (wrote : a.writtenBy? e = some scan) :
    a.handedBy? e = some scan.name := by
  cases e with
  | start => cases wrote
  | upload u => exact handed?_of_written? wrote

theorem writtenBy?_of_archivedBy? (archived : a.archivedBy? e = some scan) :
    a.writtenBy? e = some scan := by
  cases e with
  | start => cases archived
  | upload u => exact written?_of_archived? archived

theorem image?_after (wrote : a.writtenBy? e = some scan) (path : String) :
    (a.after e).image? path = if path = scan.name.path then some scan.image else a.image? path := by
  simp only [image?, files_after, wrote, Option.map_some, Option.getD_some, find?_overwrite,
    eq_comm (a := path)]
  split <;> rfl

theorem image?_after_of_notMem (other : name ∉ (a.handedBy? e).toList) :
    (a.after e).image? name.path = a.image? name.path := by
  cases wrote : a.writtenBy? e with
  | none => simp only [image?, files_after, wrote, Option.map_none, Option.getD_none]
  | some scan =>
    rw [handedBy?_of_writtenBy? wrote] at other
    rw [image?_after wrote]
    refine if_neg fun same => other ?_
    rw [Scan.Name.path_injective same]
    exact List.mem_singleton.2 rfl

theorem image?_run_of_notMem (other : name ∉ a.handed es) :
    (a.run es).image? name.path = a.image? name.path := by
  induction es generalizing a with
  | nil => rfl
  | cons e es ih =>
    obtain ⟨here, later⟩ := not_or.1 (fun or => other (List.mem_append.2 or))
    exact (ih later).trans (image?_after_of_notMem here)

theorem image?_run (distinct : (a.handed es).Nodup) (member : scan ∈ a.archived es) :
    (a.run es).image? scan.name.path = some scan.image := by
  induction es generalizing a with
  | nil => cases member
  | cons e es ih =>
    obtain ⟨-, rest, apart⟩ := List.nodup_append.1 distinct
    rcases List.mem_append.1 member with now | later
    · have wrote := writtenBy?_of_archivedBy? (Option.mem_toList.1 now)
      have unlike : scan.name ∉ (a.after e).handed es := fun again =>
        apart _ (Option.mem_toList.2 (handedBy?_of_writtenBy? wrote)) _ again rfl
      refine (image?_run_of_notMem unlike).trans ?_
      rw [image?_after wrote]
      exact if_pos rfl
    · exact ih rest later

theorem handed_append (a : Archive) (es es' : List Event) :
    a.handed (es ++ es') = a.handed es ++ (a.run es).handed es' := by
  induction es generalizing a with
  | nil => rfl
  | cons e es ih =>
    rw [List.cons_append, handed, ih, ← List.append_assoc]
    rfl

theorem handed_uploads (a : Archive) (us : List Upload) :
    a.handed (us.map .upload) =
      (us.filter Upload.placed).mapIdx fun k u => u.name (a.next + k) := by
  induction us generalizing a with
  | nil => rfl
  | cons u us ih =>
    rw [List.map_cons, handed, ih, handedBy?, handed?_eq, after, next_upload]
    by_cases made : u.placed
    · simp only [made, if_true, List.filter_cons_of_pos, List.mapIdx_cons, Option.toList_some,
        List.singleton_append]
      refine congrArg _ (congrFun (congrArg _ (funext fun k => funext fun u => ?_)) _)
      rw [Nat.add_assoc, Nat.add_comm 1]
    · simp [made]

theorem handed_lives (a : Archive) (rows : List (List Upload)) :
    a.handed (lives rows) =
      rows.flatMap fun us => (us.filter Upload.placed).mapIdx fun k u => u.name k := by
  induction rows generalizing a with
  | nil => rfl
  | cons us rows ih =>
    rw [lives, List.flatMap_cons, ← lives, handed_append, ih, List.flatMap_cons]
    refine congrArg (· ++ _) ?_
    change [] ++ a.restart.handed (us.map .upload) = _
    rw [List.nil_append, handed_uploads]
    simp [restart]

end Run

/-- The clock of each archiver is ahead of all readings of the archivers before it; what it does
while an archiver is up is left open. -/
def Clocked (rows : List (List Upload)) : Prop :=
  rows.Pairwise fun us vs => ∀ u ∈ us, u.placed → ∀ v ∈ vs, v.placed → u.disk.millis < v.disk.millis

section Clocked

variable {a : Archive} {rows : List (List Upload)} {us : List Upload}

theorem nodup_numbered (us : List Upload) : (us.mapIdx fun k u => u.name k).Nodup := by
  refine List.Nodup.of_map Scan.Name.number ?_
  have numbers :
      (us.mapIdx fun k u => u.name k).map Scan.Name.number = List.range' 0 us.length := by
    rw [List.mapIdx_eq_zipIdx_map, List.map_map, ← List.zipIdx_map_snd]
    rfl
  rw [numbers]
  exact List.nodup_range'

theorem nodup_handed (a : Archive) (clock : Clocked rows) : (a.handed (lives rows)).Nodup := by
  rw [handed_lives, List.nodup_flatMap]
  refine ⟨fun us _ => nodup_numbered _, clock.imp fun {us vs} ahead => ?_⟩
  intro name first second
  obtain ⟨k, bound, rfl⟩ := List.mem_mapIdx.1 first
  obtain ⟨l, bound', same⟩ := List.mem_mapIdx.1 second
  obtain ⟨member, made⟩ := List.mem_filter.1 (List.getElem_mem bound)
  obtain ⟨member', made'⟩ := List.mem_filter.1 (List.getElem_mem bound')
  have reading := congrArg Scan.Name.millis same
  exact absurd reading (Int.ne_of_gt (ahead _ member made _ member' made'))

/-- Archivers one after the other left the archive in a directory that was empty, and the clock is
ahead for an upload that comes next. -/
def Precedes (a : Archive) (u : Upload) : Prop :=
  ∃ rows us, a = empty.run (lives (rows ++ [us])) ∧ Clocked (rows ++ [us ++ [u]])

theorem Precedes.free {u : Upload} (precedes : a.Precedes u) (made : u.placed) :
    a.image? (u.name a.next).path = none := by
  obtain ⟨rows, us, rfl, clock⟩ := precedes
  have more : lives (rows ++ [us ++ [u]]) = lives (rows ++ [us]) ++ [.upload u] := by
    simp [lives]
  have distinct := nodup_handed empty clock
  rw [more, handed_append] at distinct
  have now : u.name (empty.run (lives (rows ++ [us]))).next ∈
      (empty.run (lives (rows ++ [us]))).handed [.upload u] := by
    rw [handed, handedBy?, handed?_eq, if_pos made]
    exact List.mem_cons_self ..
  exact image?_run_of_notMem fun before => (List.nodup_append.1 distinct).2.2 _ before _ now rfl

/-- No two uploads are written to the same path, whatever the archive, and each scan that is
archived is still there in the end. -/
theorem scans_apart (root : String) (a : Archive) (clock : Clocked rows) :
    ((a.handed (lives rows)).map (Scan.Name.under root)).Nodup ∧
      a.handed (lives rows) =
        rows.flatMap (fun us => (us.filter Upload.placed).mapIdx fun k u => u.name k) ∧
      (∀ (u : Upload) (k : Nat), ∃ extension ∈ ["jpg", "png", "bin"],
        (u.name k).under root =
          (if root.toList.getLast?.all (· == '/') then root else root ++ "/") ++
            (Decimal.text u.election ++ "/" ++ Decimal.text u.disk.millis ++ "-" ++
              Decimal.text k ++ "." ++ extension)) ∧
      (∀ scan ∈ a.archived (lives rows),
        (a.run (lives rows)).image? scan.name.path = some scan.image) ∧
      ∀ (b : Archive) (u : Upload), u.placed = false → (b.upload u).2 = b := by
  have distinct := nodup_handed a clock
  refine ⟨distinct.map fun m n => Scan.Name.under_injective, handed_lives a rows, ?_,
    fun scan => image?_run distinct, ?_⟩
  · intro u k
    refine ⟨(Scan.Extension.ofMediaType u.mediaType).text, ?_, rfl⟩
    cases Scan.Extension.ofMediaType u.mediaType <;> decide
  · intro b u refused
    obtain ⟨e, failed⟩ := Option.isSome_iff_exists.1
      (show u.disk.directory.isSome by simpa [Upload.placed] using refused)
    exact congrArg Prod.snd (b.store_directory_error failed ..)

theorem scans_apart_clock_back :
    ∃ rows : List (List Upload), Clocked rows ∧
      (empty.handed (lives rows)).map (Scan.Name.under "scans") =
        ["scans/9/5-0.png", "scans/9/-3-1.jpg", "scans/9/6-0.bin"] ∧
      ((empty.handed (lives rows)).map (Scan.Name.under "scans")).Nodup := by
  have clock : Clocked [
      [⟨⟨none, 5, none⟩, 9, some "image/png".toList, .empty⟩,
        ⟨⟨some .fileExists, 7, none⟩, 8, none, .empty⟩,
        ⟨⟨none, -3, none⟩, 9, some "IMAGE/JPEG; q=1".toList, .empty⟩],
      [⟨⟨none, 6, none⟩, 9, none, .empty⟩]] := by
    unfold Clocked
    decide
  exact ⟨_, clock, by decide +kernel, (scans_apart "scans" empty clock).1⟩

end Clocked

end Archive

end BallotServer
