import HelixRpc.Codegen.FlatBuffers.Hostile
import HelixRpc.Codegen.FlatBuffers.Languages
import HelixRpc.Codegen.Go.BinderValues
import HelixRpc.Codegen.Go.Endpoints
import HelixRpc.Codegen.Go.HostileInput
import HelixRpc.Codegen.Go.OtherKinds
import HelixRpc.Codegen.Go.Processor
import HelixRpc.Codegen.Go.RestVerbs
import HelixRpc.Codegen.Go.SchemaEvolution
import HelixRpc.Codegen.Go.SourceText
import HelixRpc.Codegen.Java.Transpile
import HelixRpc.Codegen.Node.Client
import HelixRpc.Codegen.Rust.View
import HelixRpc.Compiler.MigrationSchema
import HelixRpc.Compiler.Upgrades
import HelixRpc.Operator.HelixService
import HelixRpc.Runtime.AgenticStreams
import HelixRpc.Runtime.BreakerAccounts
import HelixRpc.Runtime.ClientBuckets
import HelixRpc.Runtime.Compression
import HelixRpc.Runtime.ContentTypes
import HelixRpc.Runtime.Go.BreakerInterleaving
import HelixRpc.Runtime.Go.BucketRecovery
import HelixRpc.Runtime.Go.ClientKeys
import HelixRpc.Runtime.Go.ClientPool
import HelixRpc.Runtime.Go.Codecs
import HelixRpc.Runtime.Go.ConcurrencyLimiter
import HelixRpc.Runtime.Go.ErrorDelivery
import HelixRpc.Runtime.Go.InterceptorChain
import HelixRpc.Runtime.Go.JwtMiddleware
import HelixRpc.Runtime.Go.QuicTransport
import HelixRpc.Runtime.Go.ShmTransport
import HelixRpc.Runtime.Go.Shutdown
import HelixRpc.Runtime.Go.StreamFraming
import HelixRpc.Runtime.Go.TenantGateway
import HelixRpc.Runtime.LeastConnectionPorts
import HelixRpc.Runtime.Node.BufferPools
import HelixRpc.Runtime.Node.CircuitBreaker
import HelixRpc.Runtime.PathParameters
import HelixRpc.Runtime.Python.DeadlineMiddleware
import HelixRpc.Runtime.RedisBucket
import HelixRpc.Runtime.ResponseCache
import HelixRpc.Runtime.RingIntegrity
import HelixRpc.Runtime.Rust.BatchEncodings
import HelixRpc.Runtime.Rust.MergeParams
import HelixRpc.Runtime.Rust.SseEscape
import HelixRpc.Runtime.Rust.StreamReceive
import HelixRpc.Runtime.Rust.StreamingDispatch
import HelixRpc.Runtime.Sniffers
import HelixRpc.Runtime.Timeouts
import HelixRpc.Runtime.TokenExpiry
import HelixRpc.Runtime.TruncatedFrames
