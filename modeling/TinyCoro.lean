import TinyCoro.Channel
import TinyCoro.AsyncMutex
import TinyCoro.Socket
import TinyCoro.Poller
import TinyCoro.Ebr
import TinyCoro.Scheduler
import TinyCoro.Shutdown
import TinyCoro.StealQueue
import TinyCoro.Runtime
import TinyCoro.Accounting
import TinyCoro.Reactor
import TinyCoro.TaskHandle
import TinyCoro.AsyncSocket
import TinyCoro.MiniRedis
import TinyCoro.HttpServer
import TinyCoro.StealQueueSpec
import TinyCoro.SpinLock
