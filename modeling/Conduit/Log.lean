import Conduit.Bytes

/-!
# The Debug Log

Log lines are written only while logging is enabled, each behind the prefix of its logger.
-/

namespace Conduit

/-- Whether log lines are written. -/
structure Log where
  enabled : Bool := false
  deriving DecidableEq, Repr

namespace Log

/-- The bytes that a message adds to the log. -/
def line (log : Log) (heading message : Bytes) : Bytes :=
  if log.enabled then heading ++ message ++ [Bytes.newline] else []

end Log

end Conduit
