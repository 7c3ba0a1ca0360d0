/-! Request targets. A target is a path with an optional query, an absolute URL, or a bare
authority; what is routed is its path, without query and fragment and with percent signs left
as they are. A bare authority has an empty path. -/

namespace BallotServer.Http.Target

def longest : Nat := 65534

def endsAuthority (c : Char) : Bool := c == '/' || c == '?' || c == '#'

/-- Characters of an authority, the percent sign apart. -/
def isAuthorityChar (c : Char) : Bool := c.isAlphanum || "!$&'()*+,-.:;=@[]_~".toList.contains c

def isSchemeChar (c : Char) : Bool := c.isAlphanum || "+-.~".toList.contains c

/-- Any visible character but the signs that end a path and those that a path has to encode. -/
def isPathChar (c : Char) : Bool := 0x21 ≤ c.toNat && !"#<>?`\x7f".toList.contains c

def isQueryChar (c : Char) : Bool := 0x21 ≤ c.toNat && !"\"#<>\x7f".toList.contains c

/-- What has been seen of an authority: the brackets of an address, and the colons and percent
signs since the last `@` or closing bracket. -/
structure Seen where
  opened : Bool := false
  closed : Bool := false
  colons : Nat := 0
  percent : Bool := false
  deriving DecidableEq, Repr

def Seen.next? (s : Seen) (c : Char) : Option Seen :=
  if c = ':' then if s.colons < 8 then some { s with colons := s.colons + 1 } else none
  else if c = '[' then if s.percent || s.opened then none else some { s with opened := true }
  else if c = ']' then
    if !s.opened || s.closed then none
    else some { s with closed := true, colons := 0, percent := false }
  else if c = '@' then some { s with colons := 0, percent := false }
  else if c = '%' then some { s with percent := true }
  else if isAuthorityChar c then some s
  else none

/-- Brackets come in pairs, only the port has a colon, no percent sign is left outside user
information and addresses, and something follows the last `@`. -/
def isAuthority (cs : List Char) : Bool :=
  match cs.foldlM Seen.next? {} with
  | none => false
  | some s => s.opened == s.closed && s.colons ≤ 1 && !s.percent && cs.getLast? != some '@'

/-- The path of a target that has one: what comes before the query and the fragment. -/
def pathOf? (cs : List Char) : Option (List Char) :=
  let path := cs.takeWhile fun c => c != '?' && c != '#'
  let rest := cs.dropWhile fun c => c != '?' && c != '#'
  let query := if rest.head? = some '?' then rest.tail.takeWhile (· != '#') else []
  if path.all isPathChar && query.all isQueryChar then
    some (if path.isEmpty then ['/'] else path)
  else none

def afterScheme? (cs : List Char) : Option (Nat × List Char) :=
  let scheme := cs.takeWhile isSchemeChar
  match cs.dropWhile isSchemeChar with
  | ':' :: '/' :: '/' :: rest => some (scheme.length, rest)
  | _ => none

def longestScheme : Nat := 64

def path? (target : String) : Option String :=
  let cs := target.toList
  if longest < target.utf8ByteSize then none
  else match cs with
    | [] => none
    | ['*'] => some "*"
    | '/' :: _ => (pathOf? cs).map String.ofList
    | _ =>
      match afterScheme? cs with
      | none => if isAuthority cs then some "" else none
      | some (scheme, rest) =>
        let authority := rest.takeWhile fun c => !endsAuthority c
        if scheme ≤ longestScheme && !authority.isEmpty && isAuthority authority then
          (pathOf? (rest.dropWhile fun c => !endsAuthority c)).map String.ofList
        else none

end BallotServer.Http.Target
