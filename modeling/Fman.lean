import Fman.Pipeline
import Fman.Determinism
import Fman.Outcome
import Fman.Waiting
import Fman.Curl
import Fman.Headers
import Fman.Checked
import Fman.Saved
import Fman.Claims
import Fman.Calls
import Fman.Readback
import Fman.Pending
import Fman.Atomic
import Fman.Rowids
import Fman.Monitor
import Fman.Wakeups
import Fman.Dsl.Accepts
import Fman.Dsl.File
import Fman.Dsl.Lines
import Fman.Dsl.Layout
import Fman.Dsl.Texts
import Fman.Dsl.Viable
import Fman.Dsl.Errors
import Fman.Dsl.Positions
import Fman.Dsl.Progress
import Fman.FrontEnds
import Fman.Literals
import Fman.Urls
import Fman.Options
import Fman.Callbacks
import Fman.Ownership
import Fman.Startup
import Fman.Destroy
import Fman.Clear
import Fman.Order
import Fman.Dsl.Refusals
import Fman.CommandMemory
import Fman.Process
import Fman.RoundMemory
import Fman.RoundSteps
import Fman.Printed
import Fman.DbTasks
