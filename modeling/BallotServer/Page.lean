import BallotServer.Links

/-! The two HTML pages: the home page, which says who is signed in, and the form that uploads
a scan. The form sends the chosen file as the whole request body, so that the media type on
the request is that of the file. -/

namespace BallotServer.Page

def home (caller : Option Int) : String :=
  let who := match caller with
    | some user => "signed in as " ++ Decimal.text user
    | none => "not signed in"
  "<!doctype html>\n<html><head><title>Ballot Studio</title>" ++
    "<link rel=\"stylesheet\" href=\"" ++ staticRoot ++ "/style.css\"></head>\n" ++
    "<body><h1>Ballot Studio</h1><p>" ++ who ++ "</p></body></html>\n"

def scanForm (id : Int) : String :=
  let digits := Decimal.text id
  "<!doctype html>\n<html><head><title>Scan election " ++ digits ++ "</title></head>\n" ++
    "<body><h1>Upload scanned ballot for election " ++ digits ++ "</h1>\n" ++
    "<input id=\"image\" type=\"file\" accept=\"image/*\" capture=\"environment\">\n" ++
    "<button id=\"send\">Upload</button><p id=\"status\"></p>\n" ++
    "<script>\n" ++
    "document.getElementById('send').onclick = async () => \x7b\n" ++
    "const file = document.getElementById('image').files[0];\n" ++
    "if (!file) return;\n" ++
    "const resp = await fetch('" ++ View.scan.path id ++ "', \x7b\n" ++
    "method: 'POST', body: file, headers: \x7b'Content-Type': file.type\x7d\x7d);\n" ++
    "document.getElementById('status').textContent = await resp.text();\n" ++
    "\x7d;\n" ++
    "</script></body></html>\n"

end BallotServer.Page
