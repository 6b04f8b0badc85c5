import Trademgen.DemandStreamSpec
import Trademgen.StatisticsOrder
import Trademgen.DemandStruct
import Trademgen.PoissonProcess
import Trademgen.PoissonMass
import Trademgen.DemandManager
import Trademgen.DemandManagerSpec
import Trademgen.Accounting
import Trademgen.Starvation
import Trademgen.PoissonRun
import Trademgen.DateRange
import Trademgen.DemandParser
import Trademgen.DemandFile
import Trademgen.ConsecutiveRequests
import Trademgen.ServiceOrder
import Trademgen.Categorical
import Trademgen.Continuous
import Trademgen.FailedRequest
import Trademgen.NonInterference
import Trademgen.Reset
import Trademgen.Cancellation
import Trademgen.Lib.Interleaving
import Trademgen.Lib.SpiritLocality
import Trademgen.AcceptedRow
import Trademgen.RowSequence
import Trademgen.RowKnots
import Trademgen.RowDraws
import Trademgen.WillingnessToPay
import Trademgen.CallSteps
import Trademgen.Conservation
import Trademgen.EventClock
import Trademgen.Batch
import Trademgen.KeyString
import Trademgen.Shell
import Trademgen.Session
import Trademgen.PoissonEnds
import Trademgen.FileService
import Trademgen.SampleBom
import Trademgen.Lib.Sampling
import Trademgen.Lib.Windows
import Trademgen.Lib.PoissonRow
import Trademgen.PoissonLaw
import Trademgen.Lib.SortedDraws
import Trademgen.OrderLaw
