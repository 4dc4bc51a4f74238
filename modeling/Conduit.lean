import Conduit.Channel.Callers
import Conduit.Descriptor.Handle
import Conduit.Descriptor.Standard
import Conduit.Relay
import Conduit.Workbench
import Conduit.Proofs.Bindings.Shell
import Conduit.Proofs.Ownership.Shell
import Conduit.Proofs.Scoping.Shell
import Conduit.Proofs.Threads.Builtins
import Conduit.Proofs.Threads.Schedule
import Conduit.Channel.Runs
import Conduit.Proofs.Channel.History
import Conduit.Proofs.Channel.Wakeups
import Conduit.Proofs.Writes
import Conduit.Proofs.Assignment
import Conduit.Proofs.Mirror.Values
import Conduit.Proofs.Mirror.Worlds
import Conduit.Proofs.Mirror.Actions
import Conduit.Proofs.Mirror.Blind
import Conduit.Proofs.Mirror.Data
import Conduit.Proofs.Mirror.Evaluation
import Conduit.Proofs.Mirror.Bodies
import Conduit.Proofs.Mirror.Requests
import Conduit.Proofs.Mirror.Whole
import Conduit.Proofs.Splitting.Compiling
import Conduit.Proofs.Splitting.Names
import Conduit.Proofs.Splitting
import Conduit.Proofs.Modules.Transaction
import Conduit.Proofs.Kinds
import Conduit.Proofs.Blame
import Conduit.Proofs.Descriptor.Ledger
import Conduit.Proofs.Descriptor.Standard
import Conduit.Proofs.Relay.Talks
import Conduit.Proofs.Holding
import Conduit.Proofs.Session.Line
import Conduit.Proofs.Offences
import Conduit.Proofs.Destructuring
import Conduit.Proofs.Redirections
import Conduit.Proofs.Capturing.Evaluation
import Conduit.Proofs.Lending.Shell
import Conduit.Proofs.Attribution
import Conduit.Proofs.Interruption.Shell
import Conduit.Proofs.Unicode
import Conduit.Proofs.Unicode.Title
import Conduit.Proofs.Printing
import Conduit.Proofs.Pieces
import Conduit.Proofs.Environment
import Conduit.Proofs.Persistent.Binding
import Conduit.Proofs.SearchPath
import Conduit.Proofs.SearchPath.Histories
import Conduit.Proofs.Report.Words
import Conduit.Proofs.Settings
import Conduit.Proofs.Source
