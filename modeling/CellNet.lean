import CellNet.Verification.Buffer.Admission
import CellNet.Verification.Buffer.Compaction
import CellNet.Verification.Client.Reentrancy
import CellNet.Verification.Completion.Flags
import CellNet.Verification.Completion.Lifetime
import CellNet.Verification.Completion.Polling
import CellNet.Verification.Completion.Traffic
import CellNet.Verification.Handlers.Echo
import CellNet.Verification.Handlers.Login
import CellNet.Verification.Handlers.Logout
import CellNet.Verification.Heart.Late
import CellNet.Verification.Hello.Runs
import CellNet.Verification.Load.Early
import CellNet.Verification.Load.Shown
import CellNet.Verification.Loop.Healthy
import CellNet.Verification.Loop.Polls
import CellNet.Verification.Memory.Soundness
import CellNet.Verification.Messages.Delivery
import CellNet.Verification.Messages.Readable
import CellNet.Verification.Messages.Termination
import CellNet.Verification.ObjectPool.Usable
import CellNet.Verification.Pool.Accounts
import CellNet.Verification.Semaphore.Counting
import CellNet.Verification.Service.Interchange
import CellNet.Verification.Service.Numbers
import CellNet.Verification.Session.Rounds
import CellNet.Verification.Stream.Bounds
import CellNet.Verification.Stream.Finish
import CellNet.Verification.Stream.Strings
import CellNet.Verification.Tables.Server
import CellNet.Verification.Tasks.Lives
import CellNet.Verification.Tasks.Order
import CellNet.Verification.Thread.Close
import CellNet.Verification.Thread.Deadlock
import CellNet.Verification.Thread.Flag
import CellNet.Verification.Thread.Teardown
