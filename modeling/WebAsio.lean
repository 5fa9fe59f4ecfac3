import WebAsio.Coro.Destruction
import WebAsio.Coro.OwnerSafety
import WebAsio.Coro.Resumption
import WebAsio.Coro.StrandExit
import WebAsio.Coro.UniqueHandle
import WebAsio.Coro.MulticastHistory
import WebAsio.Coro.DeferredAwaitable
import WebAsio.Coro.AwaitExecutor
import WebAsio.Coro.AwaitOnce
import WebAsio.Coro.EntryPoint
import WebAsio.Coro.MainDestruction
import WebAsio.Coro.OutcomeStorage
import WebAsio.Coro.Sleep
import WebAsio.Coro.TimerAwaitable
import WebAsio.Coro.QueuedEmission
import WebAsio.Coro.CancellationPlan
import WebAsio.MemoryCache.Allocator
import WebAsio.MemoryCache.Usage
import WebAsio.Coro.Progress
import WebAsio.Coro.OwnerLifetime
import WebAsio.Coro.AtHome
import WebAsio.Asio.TestOperation
