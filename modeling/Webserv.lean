/-
Webserv.lean

The development: every module.
-/
import Webserv.HttpRequest.Body
import Webserv.Theory.Incremental
import Webserv.HttpRequest.ChunkedFormat
import Webserv.HttpRequest.HeadPhase
import Webserv.HttpRequest.Segmentation
import Webserv.FileValidator
import Webserv.HttpRequest.HeadFormat
import Webserv.HttpRequest.BodyLimit
import Webserv.CgiExecutor
import Webserv.CgiResponseParser
import Webserv.ConfigParser
import Webserv.RequestHandler
import Webserv.HttpRequest.RoundTrip
import Webserv.HttpRequest.Framing
import Webserv.HttpRequest.LimitInvariant
import Webserv.HttpRequest.Trailing
import Webserv.HttpRequest.ServerFault
import Webserv.HttpRequest.Buffering
import Webserv.CgiSplit
import Webserv.CgiFraming
import Webserv.ConfigSound
import Webserv.Respelling
import Webserv.HttpRequest.Target
import Webserv.Termination
import Webserv.HttpRequest.Malformed
import Webserv.HttpRequest.NumericField
import Webserv.Serving
import Webserv.SocketTable
import Webserv.Timeouts
import Webserv.CgiInput
import Webserv.CgiFaults
import Webserv.HostGrammar
import Webserv.StaticPost
import Webserv.ContentLength
import Webserv.ScriptSplit
import Webserv.ScriptName
import Webserv.ResponseReader
import Webserv.LocationBlock
import Webserv.ConfigNumbers
import Webserv.CgiOrder
import Webserv.Fd
import Webserv.HeaderLength
import Webserv.HttpRequest.ChunkInvariant
import Webserv.HttpRequest.ChunkSize
import Webserv.HttpRequest.Copy
import Webserv.ConfigTermination
import Webserv.Confinement
import Webserv.Dangling
import Webserv.Responses
import Webserv.Owners
import Webserv.Sweeps
import Webserv.Watching
import Webserv.Startup
import Webserv.Listening
import Webserv.SideEffects
import Webserv.Answering
import Webserv.FinalResponse
import Webserv.HttpRequest.Format
import Webserv.Progress
import Webserv.FileStore
import Webserv.Replies
import Webserv.ConfigMeaning
import Webserv.Environment
