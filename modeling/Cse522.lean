import Cse522.Lab01.Unloading
import Cse522.Lab01.TimerWindow
import Cse522.Studio11.SleepLockEnds
import Cse522.Studio11.SpinLockEnds
import Cse522.Studio15.HandshakeEnds
import Cse522.Studio15.PrintIntlist
import Cse522.Lab02.SpinBarrierRuns
import Cse522.Lab02.Experiment
import Cse522.Lab02.DispatcherRuns
import Cse522.Lab02.Workers
import Cse522.Lab02.SleepBarrierRuns
import Cse522.GpioPrj.LedUnload
import Cse522.Studio14.AfLocalRoundTrip
import Cse522.Studio13.FifoOrder
import Cse522.Studio13.PipeTstRuns
import Cse522.Studio13.FifoCopy
import Cse522.Studio07.Kobj
import Cse522.Studio03.ParallelDenseMm
import Cse522.Studio03.RepeatedMmRuns
import Cse522.Studio03.Timing
import Cse522.Studio12.DenseMmSigRuns
import Cse522.Studio12.PeriodTaskRuns
import Cse522.Studio12.Deadlines
import Cse522.Studio03.SortMain
import Cse522.Studio10.RaceSchedules
import Cse522.Studio10.CounterEnds
import Cse522.Studio10.Unload
import Cse522.Studio14.AfLocalReceive
import Cse522.GpioPrj.LedPeriod
import Cse522.GpioPrj.ModePacking
import Cse522.GpioPrj.LedBlinks
import Cse522.Studio07.FamilyReader
import Cse522.Studio07.TreeRuns
import Cse522.Studio14.AfInetClient
import Cse522.Studio14.AfInetService
import Cse522.Studio14.NetworkUtil
import Cse522.Studio12.Messages
import Cse522.Studio09.RtForkRuns
