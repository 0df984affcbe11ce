import Pvz.Order.Model
import Pvz.Order.Errors
import Pvz.Repository.Orders
import Pvz.Cache.Backends
import Pvz.Cache.OrderCache
import Pvz.Audit.Log
import Pvz.Audit.Logger
import Pvz.Audit.Delivery
import Pvz.Service.Packager
import Pvz.Service.World
import Pvz.Service.Ops
import Pvz.Service.Calls
import Pvz.Service.Races
import Pvz.Service.Shapes
import Pvz.Outbox.Dispatcher
import Pvz.Outbox.Stranding
import Pvz.Outbox.Tasks
import Pvz.Outbox.Tables
import Pvz.Cache.Init
import Pvz.Audit.Json
import Pvz.Audit.Schema
import Pvz.Cache.GoList
import Pvz.Cache.Concurrent
import Pvz.Cache.Lru
import Pvz.Repository.Like
import Pvz.Repository.Cursor
import Pvz.Cache.Ttl
import Pvz.Cache.Refinement
import Pvz.Cache.Ring
import Pvz.Cache.Serial
import Pvz.Cache.Agreement
import Pvz.Audit.Worker
import Pvz.Kafka.Consumer
import Pvz.Service.Surfaces
import Pvz.Audit.Row
import Pvz.Auth.Base64
import Pvz.Auth.Password
import Pvz.Auth.Users
import Pvz.Auth.Interceptor
import Pvz.Auth.Handlers
import Pvz.Auth.Concurrent
import Pvz.Service.History
import Pvz.Cache.Live
import Pvz.Service.Coherence
import Pvz.Service.Batch
