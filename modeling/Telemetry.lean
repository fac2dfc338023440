import Telemetry.Backpressure.Tickets
import Telemetry.Backpressure.TypeScriptTraces
import Telemetry.Breaker.PythonCooldown
import Telemetry.Breaker.PythonCalls
import Telemetry.Breaker.Go
import Telemetry.Breaker.Agreement
import Telemetry.Breaker.RustFutures
import Telemetry.Breaker.TypeScriptCalls
import Telemetry.Breaker.CSharpCalls
import Telemetry.Pii.Receipts
import Telemetry.Pii.GoRust
import Telemetry.Pii.PythonRust
import Telemetry.Pii.PythonSecrets
import Telemetry.Pii.ArraySecrets
import Telemetry.Hardening.PythonBounds
import Telemetry.Hardening.GenuineKeys
import Telemetry.Logging.RustTrace
import Telemetry.Logging.GoReserved
import Telemetry.Logging.GoOrder
import Telemetry.Logging.PythonLedger
import Telemetry.Propagation.Ports
import Telemetry.Propagation.Isolation
import Telemetry.Propagation.Fallback
import Telemetry.Propagation.RustContext
import Telemetry.Propagation.CSharp
import Telemetry.Asgi.Middleware
import Telemetry.Receipts.Integers
import Telemetry.Runtime.PythonUpdate
import Telemetry.Runtime.RustInForce
import Telemetry.Cardinality.Go
import Telemetry.Cardinality.Ports
import Telemetry.Cardinality.Python
import Telemetry.Metrics.PythonLedger
import Telemetry.Runtime.GoBound
import Telemetry.Config.OtlpHeadersAlike
import Telemetry.Config.PythonRange
import Telemetry.Logging.PythonOutput
import Telemetry.Backpressure.CSharp
import Telemetry.Drains.Rust
import Telemetry.Drains.Python
import Telemetry.Metrics.PythonCredentials
import Telemetry.Logging.PythonForeign
import Telemetry.Metrics.PythonScrape
import Telemetry.Runtime.GoSetup
import Telemetry.Schema.PythonEvents
import Telemetry.Pii.SecretsAlike
import Telemetry.Classification.Alike
import Telemetry.Logging.CSharpPipeline
import Telemetry.Propagation.RustTracestate
import Telemetry.Receipts.NumberLayout
import Telemetry.Receipts.TypeScriptHash
import Telemetry.Receipts.OneText
import Telemetry.Metrics.PythonNameWords
import Telemetry.Metrics.NamesAlike
import Telemetry.Config.Redaction
import Telemetry.Logging.RustTimestamp
import Telemetry.Metrics.RustListener
import Telemetry.Metrics.RustFamilies
import Telemetry.Hardening.TypeScriptUnits
