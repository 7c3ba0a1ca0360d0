import BallotServer.Base64
import BallotServer.Bytes
import BallotServer.Settings.CommandLine

/-! The settings a server runs with: the given ones and the defaults of the others. They must
agree with each other; of several faults the engines come first, then the sweep interval, the
resolution and the cookie key. Last of all, minutes whose seconds are no 64-bit word are not reported
as a fault: the product panics. -/

namespace BallotServer

/-- The key that signs sessions. One that was made by chance lasts as long as the server runs. -/
inductive CookieKey
  | provided (key : Vector UInt8 16)
  | generated (key : Vector UInt8 16)
  deriving DecidableEq

namespace CookieKey

def bytes : CookieKey → ByteArray
  | provided key => ⟨key.toArray⟩
  | generated key => ⟨key.toArray⟩

def encoded (k : CookieKey) : String := Base64.standard.text k.bytes.data.toList

end CookieKey

inductive SettingsError
  | twoEngines
  | noSweepInterval
  | noResolution
  | cookieKeyText (fault : Base64.Fault)
  | cookieKeyLength (length : Nat)
  /-- A panic. -/
  | overflow
  deriving DecidableEq, Repr

def SettingsError.message : SettingsError → String
  | twoEngines => "only one of --sqlite and --postgres may be given"
  | noSweepInterval => "invite gc interval must be at least one minute"
  | noResolution => "png resolution must be at least 1 dpi"
  | cookieKeyText fault => "cookie key is not valid base64: " ++ fault.message
  | cookieKeyLength length => "cookie key must be 16 bytes, got " ++ toString length
  | overflow => "attempt to multiply with overflow"

/-- Reads a cookie key from base64; blanks around it do not count, and a blank text stands for a
key made by chance. -/
def CookieKey.ofText (chance : Vector UInt8 16) (text : String) : Except SettingsError CookieKey :=
  let cs := Text.trim text.toList
  if cs.isEmpty then .ok (generated chance)
  else match Base64.standard.decode (String.ofList cs).toUTF8.data.toList with
    | .error fault => .error (.cookieKeyText fault)
    | .ok bytes =>
      if h : bytes.length = 16 then .ok (provided ⟨bytes.toArray, by simpa using h⟩)
      else .error (.cookieKeyLength bytes.length)

inductive Engine
  | memory
  | sqlite (path : String)
  | postgres (address : String)
  deriving DecidableEq, Repr

def Engine.of : Option String → Option String → Except SettingsError Engine
  | some _, some _ => .error .twoEngines
  | some path, none => .ok (sqlite path)
  | none, some address => .ok (postgres address)
  | none, none => .ok memory

structure Settings where
  http : String
  engine : Engine
  drawBackend : Option String
  archiveDirectory : Option String
  cookieKey : CookieKey
  pidFile : Option String
  cacheBytes : UInt64
  rasterizer : String
  dotsPerInch : UInt32
  sweepSeconds : UInt64
  connections : UInt32
  deriving DecidableEq

namespace Settings

def defaultHttp : String := ":8180"

def defaultCacheBytes : UInt64 := 64 * 1024 * 1024

def defaultRasterizer : String := "pdftoppm"

def defaultDotsPerInch : UInt32 := 100

def defaultSweepMinutes : UInt64 := 57

def defaultConnections : UInt32 := 10

def ofValues (chance : Vector UInt8 16) (v : Values) : Except SettingsError Settings := do
  let engine ← Engine.of (v .sqlite) (v .postgres)
  let minutes := (v .sweepMinutes).getD defaultSweepMinutes
  if minutes = 0 then throw .noSweepInterval
  let dotsPerInch := (v .dotsPerInch).getD defaultDotsPerInch
  if dotsPerInch = 0 then throw .noResolution
  let cookieKey ← CookieKey.ofText chance ((v .cookieKey).getD "")
  if UInt64.size ≤ minutes.toNat * 60 then throw .overflow
  return {
    http := (v .http).getD defaultHttp
    engine
    drawBackend := v .drawBackend
    archiveDirectory := v .archiveDirectory
    cookieKey
    pidFile := v .pidFile
    cacheBytes := (v .cacheBytes).getD defaultCacheBytes
    rasterizer := (v .rasterizer).getD defaultRasterizer
    dotsPerInch
    sweepSeconds := minutes * 60
    connections := (v .connections).getD defaultConnections }

/-- The address to listen on; one without a host stands for every interface. -/
def listenAddress (s : Settings) : String :=
  if s.http.toList.head? = some ':' then "0.0.0.0" ++ s.http else s.http

def greatestPort : Nat := 65535

def listenPort? (s : Settings) : Option Nat :=
  let cs := s.http.toList
  if cs.contains ':' then
    Decimal.readUnsigned greatestPort (cs.reverse.takeWhile (· != ':')).reverse
  else none

end Settings

end BallotServer
