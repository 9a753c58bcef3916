import Fembot.Library.Run
import Fembot.Flist
import Fembot.Archive
import Fembot.ImportOutcome
import Fembot.FlistUsable
import Fembot.Isolation
import Fembot.Feedback
import Fembot.Agreement
import Fembot.Library.Loop
import Fembot.Library.Tiling
import Fembot.Mkpax
import Fembot.RoundTrip
import Fembot.Sharding
import Fembot.Fdstore
import Fembot.FdstoreSpec
import Fembot.StoreCalls
import Fembot.Accounting
import Fembot.Kernel
import Fembot.Population
import Fembot.Pool
import Fembot.Conservation
import Fembot.Liveness
import Fembot.ImportGrammar
import Fembot.ImportHistory
import Fembot.ShardCount
import Fembot.Library.FisherYates
import Fembot.Shuffle
import Fembot.Probing
import Fembot.RoundRobin
import Fembot.Bits
import Fembot.Fchown
import Fembot.IdTable
import Fembot.Waitpid
import Fembot.Clodagh
import Fembot.FuncTable
import Fembot.Lseek
import Fembot.ImportRounds
import Fembot.Library.Program
import Fembot.Calls
import Fembot.CallRules
import Fembot.Operations
import Fembot.OperationRules
import Fembot.Mappings
import Fembot.Blocks
import Fembot.Children
import Fembot.Stops
import Fembot.OperationUses
import Fembot.Bystanders
import Fembot.PoolAnswers
import Fembot.PoolRuns
import Fembot.Workdir
import Fembot.Pathstore
import Fembot.Inherited
import Fembot.EmptyStore
import Fembot.Aibreann
import Fembot.Brannagh
import Fembot.Replay
import Fembot.MkpaxMain
