import WolfCert.CLib.Bytes
import WolfCert.CLib.Prog
import WolfCert.CLib.Trace
import WolfCert.CLib.Files
import WolfCert.CLib.Slots
import WolfCert.CLib.Preference
import WolfCert.CLib.Looking
import WolfCert.CLib.Pairing
import WolfCert.CLib.Base64
import WolfCert.CLib.Calendar
import WolfCert.Errors
import WolfCert.Address
import WolfCert.AddressText
import WolfCert.Http.Env
import WolfCert.Http.Fields
import WolfCert.Http.RetryAfter
import WolfCert.Http.DateGrammar
import WolfCert.Http.HttpDate
import WolfCert.Http.RetryDelay
import WolfCert.Http.Chunked
import WolfCert.Http.Url
import WolfCert.Http.ChunkedScan
import WolfCert.Http.ChunkedDecode
import WolfCert.Http.ChunkedGrammar
import WolfCert.Http.ChunkedMessages
import WolfCert.Http.Session
import WolfCert.Http.UrlParts
import WolfCert.Http.Reply
import WolfCert.Http.Stream
import WolfCert.Http.Steps
import WolfCert.Http.Framing
import WolfCert.Http.UrlGrammar
import WolfCert.Http.WireSteps
import WolfCert.Http.Runs
import WolfCert.Http.ReplyTurns
import WolfCert.Http.Schedule
import WolfCert.Http.SizeCap
import WolfCert.Http.Transmission
import WolfCert.Http.KeepAlive
import WolfCert.Http.StaleBytes
import WolfCert.Crypto
import WolfCert.Http.Layer
import WolfCert.Est.Client
import WolfCert.Est.InFlight
import WolfCert.Scep.Der
import WolfCert.Asn
import WolfCert.Scep.Element
import WolfCert.Scep.Message
import WolfCert.Scep.RepSigner
import WolfCert.Scep.Attributes
import WolfCert.Scep.IssuerAnd
import WolfCert.Scep.Client
import WolfCert.Transport
import WolfCert.TransportPairs
import WolfCert.Scep.InFlight
import WolfCert.Scep.Soundness
import WolfCert.Scep.Histories
import WolfCert.Tandem
import WolfCert.Store.Memory
import WolfCert.Store.Posix
import WolfCert.Server.Ca
import WolfCert.Server.Start
import WolfCert.Csr
import WolfCert.Server.Issue
import WolfCert.Subject
import WolfCert.Server.SanWalk
import WolfCert.Est.CsrAttrs
import WolfCert.Est.CsrAttrsCodec
import WolfCert.Est.CsrAttrsPolicy
import WolfCert.DerHeaders
import WolfCert.Est.OidText
import WolfCert.Est.Server
import WolfCert.Est.Renewal
import WolfCert.Est.Approval
import WolfCert.Est.Consumed
import WolfCert.Est.Authentication
import WolfCert.Scep.Server
import WolfCert.Scep.Approval
import WolfCert.Scep.Registry
import WolfCert.Server.Request
import WolfCert.Server.Headers
import WolfCert.Server.ChunkedReader
import WolfCert.Server.Segments
import WolfCert.Server.ContentLength
import WolfCert.Server.Persistence
import WolfCert.Server.Head
import WolfCert.Server.HeadLines
import WolfCert.Scep.Get
import WolfCert.Est.RequestHead
import WolfCert.Scep.SelectRa
import WolfCert.Scep.Recipient
import WolfCert.Cli.CaSet
import WolfCert.Server.Wire
import WolfCert.Est.Replies
import WolfCert.Scep.Answers
import WolfCert.Scep.Replies
import WolfCert.Scep.Agreement
