import BallotServer.Decimal

/-! The twelve settings of the server: the option and the environment variable of each, what it
holds, and how its text is read. Text may be empty and a path may not. Some numbers are read as
signed words first, so that a minus sign before zero is legal there. -/

namespace BallotServer

inductive Setting
  | http
  | sqlite
  | postgres
  | drawBackend
  | archiveDirectory
  | cookieKey
  | pidFile
  | cacheBytes
  | rasterizer
  | dotsPerInch
  | sweepMinutes
  | connections
  deriving DecidableEq, Repr

inductive UsageError
  | help
  | version
  | unknown (word : String)
  | unexpectedValue (word : String)
  | noValue (setting : Setting)
  | badNumber (setting : Setting)
  | repeated (setting : Setting)
  deriving DecidableEq, Repr

namespace Setting

/-- All settings, in the order in which their variables are read. -/
def all : List Setting :=
  [http, sqlite, postgres, drawBackend, archiveDirectory, cookieKey, pidFile, cacheBytes,
    rasterizer, dotsPerInch, sweepMinutes, connections]

theorem mem_all (s : Setting) : s ∈ all := by cases s <;> decide

/-- The option that gives the setting, after its two dashes. -/
def option : Setting → String
  | http => "http"
  | sqlite => "sqlite"
  | postgres => "postgres"
  | drawBackend => "draw-backend"
  | archiveDirectory => "im-archive-dir"
  | cookieKey => "cookie-key"
  | pidFile => "pid"
  | cacheBytes => "cache-bytes"
  | rasterizer => "pdftoppm"
  | dotsPerInch => "png-dpi"
  | sweepMinutes => "invite-gc-minutes"
  | connections => "db-max-connections"

def variableName : Setting → String
  | http => "STUDIO_HTTP"
  | sqlite => "STUDIO_SQLITE"
  | postgres => "STUDIO_POSTGRES"
  | drawBackend => "STUDIO_DRAW_BACKEND"
  | archiveDirectory => "STUDIO_IM_ARCHIVE_DIR"
  | cookieKey => "STUDIO_COOKIE_KEY"
  | pidFile => "STUDIO_PID"
  | cacheBytes => "STUDIO_CACHE_BYTES"
  | rasterizer => "STUDIO_PDFTOPPM"
  | dotsPerInch => "STUDIO_PNG_DPI"
  | sweepMinutes => "STUDIO_INVITE_GC_MINUTES"
  | connections => "STUDIO_DB_MAX_CONNECTIONS"

@[reducible]
def Content : Setting → Type
  | http | sqlite | postgres | drawBackend | archiveDirectory | cookieKey | pidFile
  | rasterizer => String
  | cacheBytes | sweepMinutes => UInt64
  | dotsPerInch | connections => UInt32

def readPath (s : Setting) (text : String) : Except UsageError String :=
  if text.isEmpty then .error (.noValue s) else .ok text

def readWord (s : Setting) (text : String) : Except UsageError UInt64 :=
  match Decimal.readUnsigned (Nat.pow 2 64 - 1) text.toList with
  | none => .error (.badNumber s)
  | some n => .ok n.toUInt64

def readHalfWord (s : Setting) (text : String) : Except UsageError UInt32 :=
  match Decimal.readSigned text.toList with
  | none => .error (.badNumber s)
  | some i => if 0 ≤ i ∧ i < Nat.pow 2 32 then .ok i.toNat.toUInt32 else .error (.badNumber s)

def read : (s : Setting) → String → Except UsageError s.Content
  | http, text => .ok text
  | sqlite, text => readPath sqlite text
  | postgres, text => .ok text
  | drawBackend, text => .ok text
  | archiveDirectory, text => readPath archiveDirectory text
  | cookieKey, text => .ok text
  | pidFile, text => readPath pidFile text
  | cacheBytes, text => readWord cacheBytes text
  | rasterizer, text => readPath rasterizer text
  | dotsPerInch, text => readHalfWord dotsPerInch text
  | sweepMinutes, text => readWord sweepMinutes text
  | connections, text => readHalfWord connections text

end Setting

def Values : Type := (s : Setting) → Option s.Content

namespace Values

def none : Values := fun _ => Option.none

def set (v : Values) (s : Setting) (x : s.Content) : Values :=
  fun t => if h : t = s then some (h ▸ x) else v t

def accept (v : Values) (s : Setting) (text : String) : Except UsageError Values :=
  if (v s).isSome then .error (.repeated s) else (s.read text).map (v.set s)

@[simp] theorem set_self (v : Values) (s : Setting) (x : s.Content) : v.set s x s = some x := by
  simp [set]

theorem set_of_ne (v : Values) {s t : Setting} (x : s.Content) (h : t ≠ s) : v.set s x t = v t := by
  simp [set, h]

theorem set_comm (v : Values) {s t : Setting} (x : s.Content) (y : t.Content) (h : s ≠ t) :
    (v.set s x).set t y = (v.set t y).set s x := by
  funext u
  by_cases hs : u = s
  · subst hs
    rw [set_self, set_of_ne _ _ h, set_self]
  · by_cases ht : u = t
    · subst ht
      rw [set_self, set_of_ne _ _ hs, set_self]
    · rw [set_of_ne _ _ ht, set_of_ne _ _ hs, set_of_ne _ _ hs, set_of_ne _ _ ht]

end Values

end BallotServer
