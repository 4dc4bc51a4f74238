import Conduit.Bytes

/-!
# Failures of the Host

The reasons for which the operating system refuses a request, with their texts.
-/

namespace Conduit.Host

/-- Why the operating system refused a request. -/
inductive Errno where
  | noSuchEntry
  | isDirectory
  | notDirectory
  | nameTooLong
  | badDescriptor
  | brokenPipe
  | tryAgain
  | connectionReset
  | invalidArgument
  | badFormat
  | notTerminal
  deriving DecidableEq, Repr

/-- The text of a failure. -/
def Errno.text : Errno → Bytes
  | .noSuchEntry => utf8 "No such file or directory"
  | .isDirectory => utf8 "Is a directory"
  | .notDirectory => utf8 "Not a directory"
  | .nameTooLong => utf8 "File name too long"
  | .badDescriptor => utf8 "Bad file descriptor"
  | .brokenPipe => utf8 "Broken pipe"
  | .tryAgain => utf8 "Resource temporarily unavailable"
  | .connectionReset => utf8 "Connection reset by peer"
  | .invalidArgument => utf8 "Invalid argument"
  | .badFormat => utf8 "Exec format error"
  | .notTerminal => utf8 "Inappropriate ioctl for device"

end Conduit.Host
