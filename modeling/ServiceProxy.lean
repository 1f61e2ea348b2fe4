import ServiceProxy.Lib.Transition
import ServiceProxy.Lib.Threads
import ServiceProxy.Lib.Custody
import ServiceProxy.Lib.Lending
import ServiceProxy.Lib.ByteStream
import ServiceProxy.Lib.Text
import ServiceProxy.Lib.Utf8
import ServiceProxy.Lib.Rfc9112
import ServiceProxy.Lib.Rfc9112Read
import ServiceProxy.Lib.Rfc9112Delimit
import ServiceProxy.Lib.Rfc9112Reply
import ServiceProxy.Lib.Exchange
import ServiceProxy.Lib.ExchangeRun
import ServiceProxy.Lib.PrefixCode
import ServiceProxy.Lib.Sampling
import ServiceProxy.Lib.Tickets
import ServiceProxy.Lib.OrderStatistics
import ServiceProxy.Lib.GoChannel
import ServiceProxy.Upstream.Pool
import ServiceProxy.Upstream.PoolLedger
import ServiceProxy.Upstream.PoolWakeup
import ServiceProxy.Upstream.PoolLend
import ServiceProxy.Upstream.Balancer
import ServiceProxy.Upstream.Selector
import ServiceProxy.Upstream.SelectorLedger
import ServiceProxy.Upstream.LeastConn
import ServiceProxy.Upstream.Wrapping
import ServiceProxy.Upstream.LeastConnChoice
import ServiceProxy.Upstream.TwoChoices
import ServiceProxy.Upstream.RoundRobin
import ServiceProxy.Upstream.CountingRoundRobin
import ServiceProxy.Upstream.NewSelector
import ServiceProxy.Upstream.Dial
import ServiceProxy.Upstream.Decode
import ServiceProxy.Upstream.WriteResponse
import ServiceProxy.Upstream.ClientReply
import ServiceProxy.Upstream.Truncated
import ServiceProxy.Upstream.Overlong
import ServiceProxy.Upstream.Sent
import ServiceProxy.Upstream.Forward
import ServiceProxy.Upstream.Answered
import ServiceProxy.Go.Pool
import ServiceProxy.Go.PoolWait
import ServiceProxy.Go.PoolLedger
import ServiceProxy.Go.PoolLend
import ServiceProxy.Go.Dial
import ServiceProxy.Go.Forward
import ServiceProxy.Go.Sent
import ServiceProxy.Handlers
import ServiceProxy.ProxyHttp
import ServiceProxy.ProxyForward
import ServiceProxy.ProxyFraming
import ServiceProxy.ProxySegments
import ServiceProxy.Httparse
import ServiceProxy.ProxyRoundTrip
import ServiceProxy.ProxyHeaderEnd
import ServiceProxy.ProxyFields
import ServiceProxy.HandleConn
import ServiceProxy.HyperResponse
import ServiceProxy.ServePooled
import ServiceProxy.ServeHttp
import ServiceProxy.QuicFraming
import ServiceProxy.Config
import ServiceProxy.QuicStream
import ServiceProxy.Http3
import ServiceProxy.Bench.Stats
import ServiceProxy.Bench.Scheduler
import ServiceProxy.Bench.Samples
import ServiceProxy.Bench.Drift
import ServiceProxy.Bench.Clock
import ServiceProxy.EchoUpstream
import ServiceProxy.Echo
import ServiceProxy.Transparent
import ServiceProxy.TransparentHyper
import ServiceProxy.Go.HandleConn
import ServiceProxy.Go.Transparent
import ServiceProxy.Go.Echo
import ServiceProxy.Go.HttpHandler
import ServiceProxy.Go.Mirror
import ServiceProxy.Go.ServePooled
import ServiceProxy.Go.Config
import ServiceProxy.Go.Handlers
