import BallotServer.Operation

/-! The links handed out after an election was written: one per view, as a JSON object whose
fields stand in a fixed order. -/

namespace BallotServer

structure Links where
  itemId : Int
  pdf : String
  bubbles : String
  scan : String
  post : String
  edit : String
  url : String
  staticRoot : String
  deriving DecidableEq, Repr

def staticRoot : String := "/static"

namespace Links

def ofElection (id : Int) : Links where
  itemId := id
  pdf := View.pdf.path id
  bubbles := View.bubbles.path id
  scan := View.scan.path id
  post := View.document.path id
  edit := "/edit/" ++ Decimal.text id
  url := View.document.path id
  staticRoot := BallotServer.staticRoot

/-- Field names and their JSON values; the texts hold nothing that JSON escapes. -/
def fields (l : Links) : List (String × String) :=
  [("itemid", Decimal.text l.itemId), ("pdf", quote l.pdf), ("bubbles", quote l.bubbles),
    ("scan", quote l.scan), ("post", quote l.post), ("edit", quote l.edit), ("url", quote l.url),
    ("staticroot", quote l.staticRoot)]
where
  quote (s : String) : String := "\"" ++ s ++ "\""

def json (l : Links) : String :=
  "\x7b" ++ ",".intercalate (l.fields.map fun f => "\"" ++ f.1 ++ "\":" ++ f.2) ++ "\x7d"

end Links

end BallotServer
