/-! Rows of bytes are compared by the decision that runs, whichever others are in scope. -/

namespace BallotServer

instance (priority := 2000) decidableEqBytes : DecidableEq ByteArray := ByteArray.instDecidableEq

end BallotServer
