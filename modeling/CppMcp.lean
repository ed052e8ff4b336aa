import CppMcp.Lib.Rose
import CppMcp.Lib.Outline
import CppMcp.Lib.Follow
import CppMcp.Lib.Expand
import CppMcp.Lib.OrderedDict
import CppMcp.Lib.Collect
import CppMcp.Lib.Blocks
import CppMcp.Lib.Runs
import CppMcp.Lib.Loading
import CppMcp.Lib.Logged
import CppMcp.Lib.Trace
import CppMcp.Lib.Lru
import CppMcp.Lib.PrefixCode
import CppMcp.Lib.PropertyGraph
import CppMcp.Lib.Upsert
import CppMcp.Lib.Worker
import CppMcp.Lib.GraphRequests
import CppMcp.Lib.Overwrites
import CppMcp.Lib.Renaming
import CppMcp.Lib.Reloading
import CppMcp.Lib.Visitor
import CppMcp.Lib.Sections
import CppMcp.Lib.Groups
import CppMcp.Lib.Interning
import CppMcp.Py.Str
import CppMcp.Py.Path
import CppMcp.Py.Repr
import CppMcp.Py.Json
import CppMcp.Py.Uuid
import CppMcp.Py.Parse
import CppMcp.Neo4j.Executor
import CppMcp.Neo4j.ReadOnly
import CppMcp.Neo4j.Protocol
import CppMcp.Neo4j.Failures
import CppMcp.Neo4j.Coercion
import CppMcp.IndraDB.Executor
import CppMcp.IndraDB.Limited
import CppMcp.IndraDB.Answers
import CppMcp.IndraDB.Validate
import CppMcp.IndraDB.PropertyEqual
import CppMcp.IndraDB.Pipe
import CppMcp.IndraDB.Introspector
import CppMcp.Neo4j.Introspector
import CppMcp.IndraDB.Describe
import CppMcp.IndraDB.VersionNotes
import CppMcp.IndraDB.Described
import CppMcp.IndraDB.Stored
import CppMcp.Files.FileSystem
import CppMcp.Files.Realpath
import CppMcp.Files.Guard
import CppMcp.Files.Lookup
import CppMcp.Export.Record
import CppMcp.Export.Cursor
import CppMcp.Export.Props
import CppMcp.Export.TypeChain
import CppMcp.Export.Walk
import CppMcp.Export.Visit
import CppMcp.Export.Links
import CppMcp.Export.Uses
import CppMcp.Export.Growth
import CppMcp.Export.Closure
import CppMcp.Export.Agree
import CppMcp.Export.Reachable
import CppMcp.Export.Locality
import CppMcp.Export.Symbols
import CppMcp.Export.Signature
import CppMcp.Export.Typed
import CppMcp.Export.TypeTable
import CppMcp.Export.Emitted
import CppMcp.Export.Membership
import CppMcp.Export.Specifiers
import CppMcp.Export.VolatileScan
import CppMcp.Export.Conforms
import CppMcp.Server.Config
import CppMcp.Server.ErrorEnvelope
import CppMcp.Server.Sanitized
import CppMcp.Cache.TUCache
import CppMcp.Cache.Concurrent
import CppMcp.Cache.Eviction
import CppMcp.Cache.Freshness
import CppMcp.Cache.Lru
import CppMcp.Cache.ClangSession
import CppMcp.Cache.Transparent
import CppMcp.Cache.Views
import CppMcp.Cache.Dated
import CppMcp.Ast.Walker
import CppMcp.Ast.Prefix
import CppMcp.Ast.Tree
import CppMcp.Ast.Truncation
import CppMcp.Ast.Range
import CppMcp.Ast.Depth
import CppMcp.Graph.Client
import CppMcp.Graph.Neo4jDriver
import CppMcp.Graph.IndraDBDriver
import CppMcp.Graph.Backend
import CppMcp.Graph.Calls
import CppMcp.Graph.IndraDBRequests
import CppMcp.Graph.Neo4jRequests
import CppMcp.Graph.Converge
import CppMcp.Graph.Failure
import CppMcp.Graph.Relabel
import CppMcp.Graph.Twin
import CppMcp.Neo4j.Described
import CppMcp.Graph.Loaders
import CppMcp.Graph.CogneeDriver
import CppMcp.Graph.CogneeSession
import CppMcp.Graph.Envelope
import CppMcp.Ingest.Collect
import CppMcp.Ingest.CompileDb
import CppMcp.Ingest.IngestCode
import CppMcp.Ingest.Roots
import CppMcp.Ingest.Edges
import CppMcp.Ingest.Atomic
import CppMcp.Ingest.Accounting
import CppMcp.Ingest.InStep
import CppMcp.Ingest.Again
import CppMcp.Ingest.AnySession
import CppMcp.Ingest.Described
import CppMcp.Ingest.Conforms
import CppMcp.Ingest.Navigable
import CppMcp.Ingest.Found
import CppMcp.Ingest.History
import CppMcp.Ingest.Includes
import CppMcp.Ingest.Stamps
import CppMcp.Ingest.Units
import CppMcp.Ingest.Symlinks
import CppMcp.Ingest.Preprocessor
import CppMcp.Ingest.Flags
import CppMcp.Tools.CursorAt
import CppMcp.Tools.GetReferences
import CppMcp.Tools.SharedSession
import CppMcp.Tools.UnitTools
import CppMcp.Tools.GraphTools
import CppMcp.Tools.Listed
import CppMcp.Tools.GetPreprocessorState
import CppMcp.Tools.Macros
import CppMcp.Tools.Conditionals
import CppMcp.Tools.Commented
import CppMcp.Tools.GetHeaderInfo
import CppMcp.Tools.Exported
import CppMcp.Tools.Orphaned
import CppMcp.Tools.Positions
import CppMcp.Server.Tasks
import CppMcp.Server.Interleaved
import CppMcp.Server.Limits
