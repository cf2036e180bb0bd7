import BrokerClient.Binary64
import BrokerClient.Binary64.Shortest
import BrokerClient.Body
import BrokerClient.Body.MsgPack
import BrokerClient.Client
import BrokerClient.Client.Invocation
import BrokerClient.Consume
import BrokerClient.Contract
import BrokerClient.Contract.Catalog
import BrokerClient.Correlation
import BrokerClient.Duration
import BrokerClient.EventBus
import BrokerClient.HeaderValue
import BrokerClient.HeaderValue.Json
import BrokerClient.Json.Fields
import BrokerClient.Json.NumberText
import BrokerClient.Json.Token
import BrokerClient.Json.Tree
import BrokerClient.Log
import BrokerClient.Message
import BrokerClient.Message.Codec
import BrokerClient.Message.Error
import BrokerClient.Message.Supersession
import BrokerClient.Message.TypeNames
import BrokerClient.Message.TypeProperty
import BrokerClient.Number
import BrokerClient.Proofs.Scene.Basic
import BrokerClient.Properties
import BrokerClient.Properties.Basic
import BrokerClient.Properties.Json
import BrokerClient.Simulation.Run
import BrokerClient.Simulation.Script
import BrokerClient.Simulation.Turn
import BrokerClient.Simulation.World
import BrokerClient.SortedMap
import BrokerClient.Strategy
import BrokerClient.Strategy.Default
import BrokerClient.Strategy.Payload
import BrokerClient.Strategy.Versioned
import BrokerClient.Supervisor
import BrokerClient.Supervisor.Backoff
import BrokerClient.Supervisor.Lock
import BrokerClient.Supervisor.Options
import BrokerClient.Supervisor.Verdict
import BrokerClient.Text.Blank
import BrokerClient.Text.Decimal
import BrokerClient.Text.Quoted
import BrokerClient.Text.Unprintable
import BrokerClient.Text.Utf8
import BrokerClient.Transport
import BrokerClient.Transport.Channel
import BrokerClient.Transport.Connection
import BrokerClient.Proofs.Client.Views
import BrokerClient.Proofs.Scene.Moves
import BrokerClient.Proofs.Scene.Terms
import BrokerClient.Proofs.Scene.Runs
import BrokerClient.Proofs.Scene.Outcomes
import BrokerClient.Proofs.Scene.Attempts
import BrokerClient.Proofs.Scene.Locking
import BrokerClient.Proofs.Scene.Holding
import BrokerClient.Proofs.Scene.Custody
import BrokerClient.Proofs.Scene.Disposal
import BrokerClient.Proofs.Scene.Deletion
import BrokerClient.Proofs.Scene.Cancellation
import BrokerClient.Proofs.Simulation.World
import BrokerClient.Proofs.Simulation.Turn
import BrokerClient.Proofs.Simulation.Run
import BrokerClient.Proofs.Message.TypeProperty
import BrokerClient.Proofs.Strategy.Versioned
import BrokerClient.Proofs.Scene.Serving
import BrokerClient.Proofs.Scene.Readiness
import BrokerClient.Proofs.Properties.Basic
import BrokerClient.Proofs.Strategy.Default
import BrokerClient.Proofs.Scene.Hearing
import BrokerClient.Proofs.Scene.Continuity
import BrokerClient.Proofs.Message.Codec
import BrokerClient.Proofs.Strategy.Recoding
import BrokerClient.Proofs.Scene.Returns
import BrokerClient.Proofs.Strategy.Agreement
import BrokerClient.Proofs.Contract.Catalog
import BrokerClient.Proofs.Message.Candidates
import BrokerClient.Proofs.Strategy.Receiving
import BrokerClient.Proofs.Scene.Lifecycle
import BrokerClient.Proofs.Supervisor.Verdict
import BrokerClient.Proofs.Scene.Refusals
import BrokerClient.Proofs.Scene.Journal
import BrokerClient.Proofs.Message.Declarations
import BrokerClient.Proofs.Message.Rewriting
import BrokerClient.Proofs.Strategy.Damage
import BrokerClient.Proofs.Supervisor.Backoff
import BrokerClient.Proofs.Properties.Expiration
import BrokerClient.Proofs.Properties.Updates
import BrokerClient.Proofs.Properties.Dump
import BrokerClient.Proofs.Properties.Decimals
import BrokerClient.Proofs.Strategy.Naming
import BrokerClient.Proofs.Supervisor.Policy
import BrokerClient.Proofs.Scene.Counting
import BrokerClient.Proofs.Transport.Listening
