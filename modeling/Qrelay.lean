import Qrelay.QmqpClassification
import Qrelay.RelayRoundTrip
import Qrelay.RelayLifetime
import Qrelay.ExecRelayOrder
import Qrelay.RawExecChild
import Qrelay.RawExecOutput
import Qrelay.RawExecRuns
import Qrelay.Relay
import Qrelay.Connection
import Qrelay.RelayResponses
import Qrelay.ConnectionEnding
import Qrelay.ConnectionTrace
import Qrelay.ConnectionRuns
import Qrelay.Submissions
import Qrelay.HeaderBlock
import Qrelay.HeaderBoundary
import Qrelay.Lib.Gather
import Qrelay.Transmission
import Qrelay.LuaActions
import Qrelay.Collected
import Qrelay.Spawn
import Qrelay.ExecArguments
import Qrelay.Capacities
import Qrelay.Outline
import Qrelay.Server
import Qrelay.RawExecSubmission
import Qrelay.Downstream
import Qrelay.Journey
import Qrelay.NormalForm
import Qrelay.ExecAcceptance
import Qrelay.Custody
import Qrelay.Startup
import Qrelay.Chain
