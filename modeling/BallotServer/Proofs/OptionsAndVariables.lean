import BallotServer.Proofs.CommandWords

/-! Options and variables give the same settings. An option that stands on the command line hides its
variable, whatever that holds; and the variable of an option that does not stand there might as well
be the first word. What a command line gives does not depend on the order of its options. Cookie keys
that are made by chance are taken for one another throughout. -/

namespace BallotServer

namespace CommandLine

structure Group where
  setting : Setting
  text : String
  attached : Bool
  deriving DecidableEq

namespace Group

def words (g : Group) : List String :=
  if g.attached then [flag g.setting ++ "=" ++ g.text] else [flag g.setting, g.text]

def given (g : Group) : Setting × String := (g.setting, g.text)

/-- A text in a word of its own cannot look like an option. -/
def Fits (g : Group) : Prop := g.attached = false → Word.of g.text = .plain

end Group

variable {s u : Setting} {text word : String} {words tail : List String}
  {given given' : List (Setting × String)} {v v' w : Values}
  {environment environment' : Setting → Option String}

/-- A word that is an option, with its text or without. -/
def Announces (s : Setting) (word : String) : Prop :=
  word = flag s ∨ ∃ text, word = flag s ++ "=" ++ text

def Occurs (s : Setting) (words : List String) : Prop := ∃ word ∈ words, Announces s word

namespace Word

def setting? : Word → Option Setting
  | option s | optionWithValue s _ => some s
  | _ => none

theorem setting?_of_announces (announces : Announces s word) : (of word).setting? = some s := by
  rcases announces with rfl | ⟨text, rfl⟩
  · rw [of_flag]
    rfl
  · rw [of_attached]
    rfl

end Word

theorem announces_flag_iff : Announces s (flag u) ↔ s = u := by
  constructor
  · intro announces
    have same := Word.setting?_of_announces announces
    rw [Word.of_flag] at same
    exact (Option.some.inj same).symm
  · rintro rfl
    exact .inl rfl

theorem announces_attached_iff : Announces s (flag u ++ "=" ++ text) ↔ s = u := by
  constructor
  · intro announces
    have same := Word.setting?_of_announces announces
    rw [Word.of_attached] at same
    exact (Option.some.inj same).symm
  · rintro rfl
    exact .inr ⟨text, rfl⟩

theorem not_announces (other : (Word.of word).setting? = none) : ¬Announces s word := fun announces =>
  nomatch other.symm.trans (Word.setting?_of_announces announces)

theorem occurs_cons : Occurs s (word :: words) ↔ Announces s word ∨ Occurs s words := by
  simp [Occurs]

theorem Written.mem_iff_occurs (written : Written words given) :
    s ∈ given.map Prod.fst ↔ Occurs s words := by
  induction written with
  | nothing => simp [Occurs]
  | ending =>
    have other : ¬Announces s "--" := not_announces (by decide)
    simp [Occurs, other]
  | attached u text later ih =>
    rw [List.map_cons, List.mem_cons, ih, occurs_cons, announces_attached_iff]
  | apart u plain later ih =>
    have other : ¬Announces s _ := not_announces (by rw [plain]; rfl)
    rw [List.map_cons, List.mem_cons, ih, occurs_cons, occurs_cons, announces_flag_iff]
    simp only [other, false_or]

theorem written_attached_iff :
    Written ((flag s ++ "=" ++ text) :: words) given ↔
      ∃ later, given = (s, text) :: later ∧ Written words later := by
  constructor
  · intro written
    generalize spelled : flag s ++ "=" ++ text = word at written
    have is : Word.of word = .optionWithValue s text := spelled ▸ Word.of_attached s text
    cases written with
    | ending =>
      rw [show Word.of "--" = .ending by decide] at is
      cases is
    | attached u other later =>
      rw [Word.of_attached] at is
      cases is
      exact ⟨_, rfl, later⟩
    | apart u plain later =>
      rw [Word.of_flag] at is
      cases is
  · rintro ⟨later, rfl, written⟩
    exact .attached s text written

theorem isSome_of_occurs (read : readWords .none .nothing words = .ok v) (occurs : Occurs s words) :
    (v s).isSome := by
  obtain ⟨given, written, accepted⟩ := written_of_readWords read
  obtain ⟨-, -, filled⟩ := acceptAll_eq_ok_iff.1 accepted
  have member := written.mem_iff_occurs.2 occurs
  have last := filled s
  cases found : given.lookup s with
  | none =>
    obtain ⟨g, among, is⟩ := List.mem_map.1 member
    exact absurd (List.lookup_eq_none_iff.1 found g among) (by simp [is])
  | some text =>
    rw [found] at last
    obtain ⟨x, -, set⟩ := last
    rw [set]
    rfl

theorem isSome_fillIn (filled : fillIn environment v u = .ok w) (given : (v s).isSome) :
    (w s).isSome := by
  obtain ⟨here, beside⟩ := fillIn_eq_ok_iff.1 filled
  by_cases same : s = u
  · subst same
    rw [open?, if_pos given] at here
    rwa [show w s = v s from here]
  · rwa [beside s same]

theorem fillIn_congr (agree : ∀ t, t ≠ s → environment' t = environment t) (given : (v s).isSome)
    (u : Setting) : fillIn environment' v u = fillIn environment v u := by
  by_cases same : u = s
  · subst same
    obtain ⟨x, holds⟩ := Option.isSome_iff_exists.1 given
    simp [fillIn, holds]
  · rw [fillIn, fillIn, agree u same]

theorem foldlM_fillIn_congr (agree : ∀ t, t ≠ s → environment' t = environment t)
    (given : (v s).isSome) (settings : List Setting) :
    settings.foldlM (fillIn environment') v = settings.foldlM (fillIn environment) v := by
  induction settings generalizing v with
  | nil => rfl
  | cons u later ih =>
    rw [List.foldlM_cons, List.foldlM_cons, fillIn_congr agree given]
    cases filled : fillIn environment v u with
    | error e => rfl
    | ok w => exact ih (isSome_fillIn filled given)

theorem read_of_occurs (occurs : Occurs s words)
    (agree : ∀ t, t ≠ s → environment' t = environment t) :
    read words environment' = read words environment := by
  unfold read
  cases words : readWords .none .nothing words with
  | error e => rfl
  | ok v => exact foldlM_fillIn_congr agree (isSome_of_occurs words occurs) Setting.all

theorem read_attached_iff (absent : ¬Occurs s words) (holds : environment s = some text)
    (agree : ∀ t, t ≠ s → environment' t = environment t) :
    read ((flag s ++ "=" ++ text) :: words) environment' = .ok v ↔
      read words environment = .ok v := by
  -- Both give every setting the same text.
  have same {given : List (Setting × String)} (none : s ∉ given.map Prod.fst) (t : Setting) :
      (((s, text) :: given).lookup t).or (environment' t) =
        (given.lookup t).or (environment t) := by
    by_cases is : t = s
    · subst is
      rw [List.lookup_cons_self, lookup_of_notMem none, holds]
      rfl
    · rw [lookup_cons_of_ne is, agree t is]
  simp only [read_eq_ok_iff, written_attached_iff]
  constructor
  · rintro ⟨_, ⟨given, rfl, written⟩, distinct, filled⟩
    obtain ⟨none, distinct⟩ := List.nodup_cons.1 distinct
    exact ⟨given, written, distinct, fun t => same none t ▸ filled t⟩
  · rintro ⟨given, written, distinct, filled⟩
    have none : s ∉ given.map Prod.fst := fun member => absent (written.mem_iff_occurs.1 member)
    refine ⟨_, ⟨given, rfl, written⟩, List.nodup_cons.2 ⟨none, distinct⟩, fun t => ?_⟩
    rw [same none]
    exact filled t

variable {groups groups' : List Group}

theorem Written.exists_groups (written : Written words given) :
    ∃ (groups : List Group) (tail : List String),
      words = groups.flatMap Group.words ++ tail ∧ (tail = [] ∨ tail = ["--"]) := by
  induction written with
  | nothing => exact ⟨[], [], rfl, .inl rfl⟩
  | ending => exact ⟨[], ["--"], rfl, .inr rfl⟩
  | attached u text later ih =>
    obtain ⟨groups, tail, rfl, ends⟩ := ih
    exact ⟨⟨u, text, true⟩ :: groups, tail, rfl, ends⟩
  | apart u plain later ih =>
    obtain ⟨groups, tail, rfl, ends⟩ := ih
    exact ⟨⟨u, _, false⟩ :: groups, tail, rfl, ends⟩

theorem readWords_group_eq_ok (g : Group) :
    readWords v .nothing (g.words ++ tail) = .ok v' ↔
      g.Fits ∧ ∃ w, v.accept g.setting g.text = .ok w ∧ readWords w .nothing tail = .ok v' := by
  obtain ⟨s, text, attached⟩ := g
  cases attached with
  | true =>
    change readWords v .nothing ((flag s ++ "=" ++ text) :: tail) = .ok v' ↔ _
    rw [readWords_attached, bind_eq_ok_iff]
    exact (and_iff_right nofun).symm
  | false =>
    change readWords v .nothing (flag s :: text :: tail) = .ok v' ↔ _
    rw [readWords_flag, readWords_option_eq_ok, readWords_value_eq_ok]
    exact and_congr_left fun _ => ⟨fun plain _ => plain, fun fits => fits rfl⟩

theorem readWords_groups_eq_ok :
    readWords v .nothing (groups.flatMap Group.words ++ tail) = .ok v' ↔
      (∀ g ∈ groups, g.Fits) ∧
        ∃ w, acceptAll v (groups.map Group.given) = .ok w ∧ readWords w .nothing tail = .ok v' := by
  induction groups generalizing v with
  | nil =>
    constructor
    · exact fun read => ⟨nofun, v, rfl, read⟩
    · rintro ⟨-, _, ⟨⟩, read⟩
      exact read
  | cons g later ih =>
    rw [List.flatMap_cons, List.append_assoc, readWords_group_eq_ok, List.forall_mem_cons]
    simp only [ih, List.map_cons, Group.given, acceptAll_cons]
    constructor
    · rintro ⟨fits, w, first, all, u, rest, last⟩
      exact ⟨⟨fits, all⟩, u, ⟨w, first, rest⟩, last⟩
    · rintro ⟨⟨fits, all⟩, u, ⟨w, first, rest⟩, last⟩
      exact ⟨fits, w, first, all, u, rest, last⟩

theorem accept_swap {text' : String} (first : v.accept s text = .ok w)
    (second : w.accept u text' = .ok v') :
    ∃ w', v.accept u text' = .ok w' ∧ w'.accept s text = .ok v' := by
  obtain ⟨free, x, read, rfl⟩ := accept_eq_ok_iff.1 first
  obtain ⟨free', y, read', rfl⟩ := accept_eq_ok_iff.1 second
  have other : s ≠ u := by
    rintro rfl
    rw [Values.set_self] at free'
    cases free'
  rw [Values.set_of_ne v x (Ne.symm other)] at free'
  refine ⟨v.set u y, accept_eq_ok_iff.2 ⟨free', y, read', rfl⟩, accept_eq_ok_iff.2 ⟨?_, x, read, ?_⟩⟩
  · rwa [Values.set_of_ne v y other]
  · exact v.set_comm x y other

theorem acceptAll_perm (perm : given.Perm given') (accepted : acceptAll v given = .ok w) :
    acceptAll v given' = .ok w := by
  induction perm generalizing v with
  | nil => exact accepted
  | cons g _ ih =>
    obtain ⟨u, first, rest⟩ := acceptAll_cons.1 accepted
    exact acceptAll_cons.2 ⟨u, first, ih rest⟩
  | swap g g' later =>
    obtain ⟨a, first, rest⟩ := acceptAll_cons.1 accepted
    obtain ⟨b, second, rest⟩ := acceptAll_cons.1 rest
    obtain ⟨a', first', second'⟩ := accept_swap first second
    exact acceptAll_cons.2 ⟨a', first', acceptAll_cons.2 ⟨b, second', rest⟩⟩
  | trans _ _ ih ih' => exact ih' (ih accepted)

theorem read_groups_perm (perm : groups.Perm groups')
    (accepted : read (groups.flatMap Group.words ++ tail) environment = .ok v) :
    read (groups'.flatMap Group.words ++ tail) environment = .ok v := by
  obtain ⟨u, first, filled⟩ := bind_eq_ok_iff.1 accepted
  obtain ⟨fits, w, taken, rest⟩ := readWords_groups_eq_ok.1 first
  refine bind_eq_ok_iff.2 ⟨u, readWords_groups_eq_ok.2 ⟨?_, w, ?_, rest⟩, filled⟩
  · exact fun g member => fits g (perm.mem_iff.2 member)
  · exact acceptAll_perm (perm.map Group.given) taken

end CommandLine

theorem Setting.variableName_injective : Function.Injective variableName := by
  intro s u same
  cases s <;> cases u <;> first | rfl | exact absurd same (by decide)

inductive Refusal
  | usage (error : UsageError)
  | settings (error : SettingsError)
  deriving DecidableEq

namespace Settings

open CommandLine (Occurs Group flag)

/-- The settings, with all cookie keys made by chance taken for the same one. -/
def identified (s : Settings) : Settings :=
  match s.cookieKey with
  | .provided _ => s
  | .generated _ => { s with cookieKey := .generated (Vector.replicate 16 0) }

/-- What comes of a command line and the variables of the environment. -/
def outcome (chance : Vector UInt8 16) (words : List String) (vars : String → Option String) :
    Except Refusal Settings :=
  match CommandLine.read words fun s => vars s.variableName with
  | .error e => .error (.usage e)
  | .ok v => ((ofValues chance v).map identified).mapError .settings

variable {chance chance' : Vector UInt8 16} {words : List String} {s : Setting} {settings : Settings}
  {vars vars' : String → Option String}

theorem ofText_of_chance (chance chance' : Vector UInt8 16) (text : String) :
    CookieKey.ofText chance text = CookieKey.ofText chance' text ∨
      CookieKey.ofText chance text = .ok (.generated chance) ∧
        CookieKey.ofText chance' text = .ok (.generated chance') := by
  unfold CookieKey.ofText
  dsimp only
  split
  · exact .inr ⟨rfl, rfl⟩
  · exact .inl rfl

theorem map_identified_ofValues (chance chance' : Vector UInt8 16) (v : Values) :
    (ofValues chance v).map identified = (ofValues chance' v).map identified := by
  unfold ofValues
  cases Engine.of (v .sqlite) (v .postgres) with
  | error e => rfl
  | ok engine =>
    by_cases minutes : (v .sweepMinutes).getD defaultSweepMinutes = 0
    · simp only [minutes, if_true]
      rfl
    · by_cases dots : (v .dotsPerInch).getD defaultDotsPerInch = 0
      · simp only [minutes, dots, if_true, if_false]
        rfl
      · simp only [minutes, dots, if_false]
        rcases ofText_of_chance chance chance' ((v .cookieKey).getD "") with same | ⟨made, made'⟩
        · rw [same]
        · rw [made, made']
          by_cases large : UInt64.size ≤ ((v .sweepMinutes).getD defaultSweepMinutes).toNat * 60
          · simp only [large, if_true]
            rfl
          · simp only [large, if_false]
            rfl

theorem outcome_chance (chance chance' : Vector UInt8 16) (words : List String)
    (vars : String → Option String) :
    outcome chance words vars = outcome chance' words vars := by
  unfold outcome
  cases CommandLine.read words fun s => vars s.variableName with
  | error e => rfl
  | ok v => exact congrArg (Except.mapError _) (map_identified_ofValues chance chance' v)

theorem outcome_eq_ok_iff :
    outcome chance words vars = .ok settings ↔
      ∃ v, CommandLine.read words (fun s => vars s.variableName) = .ok v ∧
        ((ofValues chance v).map identified).mapError Refusal.settings = .ok settings := by
  unfold outcome
  cases CommandLine.read words fun s => vars s.variableName with
  | error e => exact ⟨nofun, nofun⟩
  | ok v => exact ⟨fun made => ⟨v, rfl, made⟩, fun ⟨_, same, made⟩ => by cases same; exact made⟩

/-- An option that occurs hides its variable, whatever the variable holds and whatever comes of it.
An option that does not occur has the same part in the settings whether its variable gives its text or
the first word does. Words that are accepted are options with their texts, and no more than two dashes
after them; and the options may be given in any order. -/
theorem option_or_variable (s : Setting) (words : List String)
    (vars : String → Option String) (chance chance' : Vector UInt8 16) :
    (Occurs s words → ∀ vars',
      (∀ name, name ≠ s.variableName → vars' name = vars name) →
        outcome chance' words vars' = outcome chance words vars) ∧
    (¬Occurs s words → ∀ text, vars s.variableName = some text → ∀ settings,
      (outcome chance' ((flag s ++ "=" ++ text) :: words)
          (Function.update vars s.variableName none) = .ok settings ↔
        outcome chance words vars = .ok settings)) ∧
    ∀ settings, outcome chance words vars = .ok settings →
      (∃ (groups : List Group) (tail : List String),
        words = groups.flatMap Group.words ++ tail ∧ (tail = [] ∨ tail = ["--"])) ∧
      ∀ (groups groups' : List Group) (tail : List String),
        words = groups.flatMap Group.words ++ tail → groups.Perm groups' →
          outcome chance' (groups'.flatMap Group.words ++ tail) vars = .ok settings := by
  have beside {t : Setting} (other : t ≠ s) : t.variableName ≠ s.variableName := fun same =>
    other (Setting.variableName_injective same)
  refine ⟨fun occurs vars' agree => ?_, fun absent text holds settings => ?_,
    fun settings made => ?_⟩
  · rw [outcome_chance chance' chance]
    unfold outcome
    rw [CommandLine.read_of_occurs occurs fun t other => agree _ (beside other)]
  · rw [outcome_chance chance' chance]
    have agree (t : Setting) (other : t ≠ s) :
        Function.update vars s.variableName none t.variableName = vars t.variableName :=
      Function.update_of_ne (beside other) _ vars
    have same (v : Values) := @CommandLine.read_attached_iff s text words v
      (fun t => vars t.variableName)
      (fun t => Function.update vars s.variableName none t.variableName) absent holds agree
    simp only [outcome_eq_ok_iff, same]
  · obtain ⟨v, read, rest⟩ := outcome_eq_ok_iff.1 made
    refine ⟨?_, fun groups groups' tail spelled perm => ?_⟩
    · obtain ⟨given, written, -⟩ := CommandLine.read_eq_ok_iff.1 read
      exact written.exists_groups
    · rw [outcome_chance chance' chance]
      subst spelled
      exact outcome_eq_ok_iff.2 ⟨v, CommandLine.read_groups_perm perm read, rest⟩

theorem option_or_variable_three :
    let words := ["--png-dpi", "150", "--http=:9000"]
    let vars := fun name => if name = "STUDIO_DB_MAX_CONNECTIONS" then some "4" else none
    let chance := Vector.replicate 16 1
    let chance' := Vector.replicate 16 2
    let settings : Settings := ⟨":9000", .memory, none, none, .generated (Vector.replicate 16 0), none,
      67108864, "pdftoppm", 150, 3420, 4⟩
    outcome chance words vars = .ok settings ∧
      Occurs .dotsPerInch words ∧
      outcome chance' words (Function.update vars "STUDIO_PNG_DPI" (some "x")) = .ok settings ∧
      ¬Occurs .connections words ∧
      outcome chance' ("--db-max-connections=4" :: words)
        (Function.update vars "STUDIO_DB_MAX_CONNECTIONS" none) = .ok settings ∧
      outcome chance' ["--http=:9000", "--png-dpi", "150"] vars = .ok settings := by
  intro words vars chance chance' settings
  have made : outcome chance words vars = .ok settings := rfl
  have occurs : Occurs .dotsPerInch words := ⟨"--png-dpi", .head _, .inl rfl⟩
  have absent : ¬Occurs .connections words := by
    rintro ⟨word, member, announces⟩
    have is := CommandLine.Word.setting?_of_announces announces
    have other : ∀ word ∈ words, (CommandLine.Word.of word).setting? ≠ some .connections := by decide
    exact other word member is
  obtain ⟨hides, -, -⟩ := option_or_variable .dotsPerInch words vars chance chance'
  obtain ⟨-, moves, orders⟩ := option_or_variable .connections words vars chance chance'
  refine ⟨made, occurs, ?_, absent, (moves absent "4" rfl settings).2 made, ?_⟩
  · exact (hides occurs _ fun name other => Function.update_of_ne other _ vars).trans made
  · exact (orders settings made).2 [⟨.dotsPerInch, "150", false⟩, ⟨.http, ":9000", true⟩]
      [⟨.http, ":9000", true⟩, ⟨.dotsPerInch, "150", false⟩] [] rfl (.swap _ _ _)

end Settings

end BallotServer
