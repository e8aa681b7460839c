import AioPika.Foundation.Runs
import AioPika.Foundation.Dict
import AioPika.Foundation.Coroutine
import AioPika.Broker.Session
import AioPika.Exchange.Robust
import AioPika.Queue.Robust
import AioPika.Queue.Consumers
import AioPika.Broker.Amqp
import AioPika.Foundation.Mirror
import AioPika.Queue.Bindings
import AioPika.Exchange.Bindings
import AioPika.Foundation.Registry
import AioPika.Topology.Channel
import AioPika.Topology.History
import AioPika.Topology.Deletion
import AioPika.Foundation.Dependencies
import AioPika.Topology.Order
import AioPika.Topology.Qos
import AioPika.Foundation.Ledger
import AioPika.Queue.Replay
import AioPika.Foundation.Members
import AioPika.Connection.Machine
import AioPika.Connection.Loss
import AioPika.Channel.Lifecycle
import AioPika.Channel.Truthful
import AioPika.Channel.Closing
import AioPika.Channel.Responsibility
import AioPika.Connection.Reconnection
import AioPika.Recovery.Abandonment
import AioPika.Foundation.Custody
import AioPika.Pool.Machine
import AioPika.Pool.Safety
import AioPika.Pool.Waiting
import AioPika.Pool.Closing
import AioPika.Message.Settlement
import AioPika.Message.Processing
import AioPika.Foundation.Binary64
import AioPika.Message.Properties
import AioPika.Queue.Iterator
import AioPika.Rpc.Client
import AioPika.Rpc.Server
import AioPika.Connection.Endurance
import AioPika.Connection.Replacement
import AioPika.Channel.Returns
import AioPika.Channel.Attempt
import AioPika.Channel.Ownership
import AioPika.Channel.Firings
import AioPika.Channel.Transactions
import AioPika.Recovery.Retry
import AioPika.Queue.Subscription
import AioPika.Queue.Waiting
import AioPika.Rpc.Registration
import AioPika.Rpc.Shutdown
import AioPika.Rpc.Replies
import AioPika.Rpc.Traces
import AioPika.Rpc.Setup
import AioPika.Connection.Closing
import AioPika.Connection.Plain
import AioPika.Connection.Firings
import AioPika.Connection.Reconnects
import AioPika.Master.Delivery
import AioPika.Rpc.Callables
import AioPika.Queue.Attempts
import AioPika.Channel.Underlay
import AioPika.Foundation.Simulation
import AioPika.Foundation.Memory
import AioPika.Foundation.Lock
import AioPika.Foundation.MutableSet
import AioPika.Tools.Callbacks
import AioPika.Tools.Contents
import AioPika.Tools.Collections
import AioPika.Tools.Freezing
import AioPika.Tools.Sets
import AioPika.Tools.Dispatch
import AioPika.Foundation.Futures
import AioPika.Tools.Nested
import AioPika.Foundation.Shelves
import AioPika.Rpc.Network
import AioPika.Rpc.Executions
import AioPika.Rpc.Redelivery
import AioPika.Rpc.Answers
import AioPika.Rpc.Waiting
import AioPika.Foundation.Deliveries
import AioPika.Foundation.Settlements
import AioPika.Foundation.Tally
import AioPika.Message.Channels
import AioPika.Master.Jobs
import AioPika.Master.Workers
import AioPika.Foundation.Journal
import AioPika.Channel.Blocks
import AioPika.Queue.Feeds
