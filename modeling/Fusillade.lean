import Fusillade.Lib.Machine
import Fusillade.Lib.Family
import Fusillade.Lib.FiniteMap
import Fusillade.Lib.EntrySum
import Fusillade.Lib.Sharding
import Fusillade.Lib.Words
import Fusillade.Lib.Separators
import Fusillade.Lib.Utf8
import Fusillade.Lib.Binary64
import Fusillade.Lib.Json
import Fusillade.Lib.FileSystem
import Fusillade.Lib.Base64
import Fusillade.Lib.SortedEntries
import Fusillade.Stats.Metric
import Fusillade.Stats.Aggregator
import Fusillade.Stats.Summary
import Fusillade.Stats.Sharded
import Fusillade.Stats.Invariants
import Fusillade.Stats.Report
import Fusillade.Stats.Thresholds
import Fusillade.Stats.ThresholdSoundness
import Fusillade.Stats.Presentation
import Fusillade.Stats.FailureRate
import Fusillade.Stats.Figures
import Fusillade.Stats.ScenarioThresholds
import Fusillade.Stats.Gauges
import Fusillade.Stats.Endpoints
import Fusillade.Stats.CustomHistograms
import Fusillade.Bridge.Emission
import Fusillade.Bridge.CookieJar
import Fusillade.Bridge.Attribution
import Fusillade.Bridge.TagPropagation
import Fusillade.Bridge.Redirects
import Fusillade.Bridge.Console
import Fusillade.Bridge.Protocols
import Fusillade.Bridge.Protobuf
import Fusillade.Bridge.GrpcJson
import Fusillade.Bridge.GrpcRoundTrip
import Fusillade.Bridge.GrpcCodec
import Fusillade.Engine.Pipeline
import Fusillade.Engine.Controller
import Fusillade.Engine.Worker
import Fusillade.Engine.SharedIterations
import Fusillade.Engine.Schedule
import Fusillade.Engine.ArrivalRate
import Fusillade.Engine.NarrowedDivision
import Fusillade.Engine.Pool
import Fusillade.Engine.GracefulStop
import Fusillade.Engine.Executor
import Fusillade.Engine.WorkerControl
import Fusillade.Engine.Control
import Fusillade.Engine.Pausing
import Fusillade.Engine.Handles
import Fusillade.Engine.Scaling
import Fusillade.Engine.MemorySafe
import Fusillade.Engine.DurationSyntax
import Fusillade.Engine.Interpolation
import Fusillade.Engine.Crew
import Fusillade.Engine.ControlLoop
import Fusillade.Tui.RampKeys
import Fusillade.Cluster.Registry
import Fusillade.Cluster.Ingestion
import Fusillade.Cluster.Wire
import Fusillade.Cluster.Authentication
import Fusillade.Cluster.Dispatch
import Fusillade.Cluster.Assets
import Fusillade.Cli.Config
import Fusillade.Cli.Aliases
import Fusillade.Engine.SharedAggregator
import Fusillade.Engine.AbortOnFail
import Fusillade.Bridge.Chaos
import Fusillade.Bridge.Replay
import Fusillade.Bridge.Sse
import Fusillade.Bridge.SseTransparency
import Fusillade.Bridge.SseFormat
import Fusillade.Bridge.SharedCsv
import Fusillade.Lib.Decimal
import Fusillade.Lib.Csv
import Fusillade.Lib.StringLiteral
import Fusillade.Lib.JavaScript
import Fusillade.Lib.JsonText
import Fusillade.Stats.CsvReport
import Fusillade.Stats.Statsd
import Fusillade.Bridge.SequentialId
import Fusillade.Bridge.Reconnect
import Fusillade.Cli.Har
import Fusillade.Cli.Recorder
import Fusillade.Lib.Replacement
import Fusillade.Cli.PathParams
import Fusillade.Cli.Openapi
import Fusillade.Bridge.SetCookies
import Fusillade.Bridge.Segments
import Fusillade.Bridge.Lifecycle
import Fusillade.Engine.IterationLimit
import Fusillade.Engine.WorkerIds
import Fusillade.Bridge.ScriptSleep
import Fusillade.Engine.DurationGrammar
import Fusillade.Lib.JsValue
import Fusillade.Bridge.Expect
import Fusillade.Engine.Bounds
import Fusillade.Cli.CostEstimate
import Fusillade.Stats.HtmlEscape
import Fusillade.Engine.ScenarioNames
import Fusillade.Bridge.LiveStats
import Fusillade.Bridge.DefaultHeaders
import Fusillade.Bridge.FormData
import Fusillade.Lib.ShellQuoting
import Fusillade.Bridge.Curl
import Fusillade.Lib.Relay
import Fusillade.Bridge.Subscriptions
import Fusillade.Bridge.ClientStream
import Fusillade.Lib.GetOrCreate
import Fusillade.Lib.PercentEncoding
import Fusillade.Bridge.SharedArray
import Fusillade.Bridge.QueryString
import Fusillade.Bridge.Encoding
import Fusillade.Bridge.OpenFile
import Fusillade.Cli.Precedence
import Fusillade.Engine.CommandLine
import Fusillade.Tui.Input
import Fusillade.Stats.Otlp
import Fusillade.Lib.Hmac
import Fusillade.Bridge.Crypto
import Fusillade.Bridge.HttpDispatch
import Fusillade.Cli.DotEnv
import Fusillade.Bridge.Check
import Fusillade.Cluster.Delivery
