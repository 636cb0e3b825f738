import BlogServer.Core.Bytes
import BlogServer.Core.Scan
import BlogServer.Core.Decimal
import BlogServer.Core.DecimalOrder
import BlogServer.Core.SortedMap
import BlogServer.Core.LexicalPath
import BlogServer.Core.Follow
import BlogServer.Core.Replace
import BlogServer.Core.BlockGrammar
import BlogServer.Core.DigitLoop
import BlogServer.Core.BlockTree
import BlogServer.Core.Lock
import BlogServer.Core.Frames
import BlogServer.Core.Reorder
import BlogServer.Http.Message
import BlogServer.Http.RequestParser
import BlogServer.Http.RequestGrammar
import BlogServer.Http.RequestCodec
import BlogServer.Http.RequestFraming
import BlogServer.Http.ResponseHelper
import BlogServer.Http.ResponseParser
import BlogServer.Http.HeaderAgreement
import BlogServer.Http.ResponseCodec
import BlogServer.Http.ResponseLoop
import BlogServer.Http.ResponseRoundTrip
import BlogServer.Http.Chunked
import BlogServer.Http.ChunkBounds
import BlogServer.Http.IntRange
import BlogServer.Http.HeaderFlags
import BlogServer.Server.Session
import BlogServer.Server.SessionRuns
import BlogServer.Server.Lifecycle
import BlogServer.Proxy.ProxyHandler
import BlogServer.Proxy.Forwarding
import BlogServer.Proxy.Relay
import BlogServer.Proxy.ReadLoop
import BlogServer.Proxy.Links
import BlogServer.Proxy.Redirects
import BlogServer.Proxy.RedirectTargets
import BlogServer.Proxy.LocationParts
import BlogServer.Proxy.HeaderCase
import BlogServer.Proxy.Uninitialised
import BlogServer.Proxy.Hosts
import BlogServer.Config.NginxConfig
import BlogServer.Config.ConfigParser
import BlogServer.Config.Lexemes
import BlogServer.Config.Blocks
import BlogServer.Config.RoundTrip
import BlogServer.Config.Tables
import BlogServer.Config.TokenStream
import BlogServer.Config.Grammar
import BlogServer.Config.Expects
import BlogServer.Config.Port
import BlogServer.Config.Comments
import BlogServer.Config.ProxyPort
import BlogServer.Config.Entries
import BlogServer.Config.LineEnds
import BlogServer.Config.FinalLineFeed
import BlogServer.Config.BlockPieces
import BlogServer.Config.FieldOrder
import BlogServer.Config.StatementTree
import BlogServer.Posts.Form
import BlogServer.Posts.UploadHandler
import BlogServer.Posts.Submission
import BlogServer.Posts.PostRedirectGet
import BlogServer.Posts.Bigtable
import BlogServer.Posts.FormDecoding
import BlogServer.Posts.FormSplitting
import BlogServer.Posts.RequestRouting
import BlogServer.Posts.DatabaseContract
import BlogServer.Posts.MockDatabase
import BlogServer.Posts.BlogDatabase
import BlogServer.Posts.Threads
import BlogServer.Dispatch.UriPaths
import BlogServer.Dispatch.StaticHandler
import BlogServer.Dispatch.Dispatcher
import BlogServer.Dispatch.SpaceDecoding
import BlogServer.Dispatch.Registration
import BlogServer.Dispatch.Confinement
import BlogServer.Dispatch.StaticMapping
import BlogServer.Dispatch.Completeness
import BlogServer.Dispatch.Startup
import BlogServer.Dispatch.PrefixRouting
import BlogServer.Dispatch.Handlers
import BlogServer.Dispatch.Serving
import BlogServer.Dispatch.StatusAccounting
import BlogServer.Dispatch.Delimiting
import BlogServer.Dispatch.ProxyLinks
import BlogServer.Dispatch.Declared
import BlogServer.Dispatch.PrefixStripping
import BlogServer.Dispatch.ServerMain
import BlogServer.Dispatch.BuiltRequests
import BlogServer.System.Server
import BlogServer.System.Isolation
import BlogServer.System.Serial
import BlogServer.System.Messages
import BlogServer.System.Posts
import BlogServer.System.ProxiedPosts
import BlogServer.System.Clients
import BlogServer.System.Availability
