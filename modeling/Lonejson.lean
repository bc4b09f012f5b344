import Lonejson.Grammar
import Lonejson.Machine
import Lonejson.Bytes
import Lonejson.Schema
import Lonejson.Value
import Lonejson.Core
import Lonejson.Reset
import Lonejson.Assign
import Lonejson.StringSinks
import Lonejson.JsonStream
import Lonejson.Parser
import Lonejson.Actions
import Lonejson.Engine
import Lonejson.TextRules
import Lonejson.Skim
import Lonejson.SkimRun
import Lonejson.SkimStrings
import Lonejson.Validator
import Lonejson.UnknownKeys
import Lonejson.Transcoder
import Lonejson.Emission
import Lonejson.Framing
import Lonejson.Multipart
import Lonejson.MultipartChunks
import Lonejson.MultipartParts
import Lonejson.Copying
import Lonejson.Trees
import Lonejson.Visitor
import Lonejson.VisitorTrees
import Lonejson.Writer
import Lonejson.WriterTrees
import Lonejson.WriterCalls
import Lonejson.WriterRefusals
import Lonejson.WriterSound
import Lonejson.WriterRejections
import Lonejson.ValueEdit
import Lonejson.ValueRewrite
import Lonejson.ValueRewriteTrees
import Lonejson.Layout
import Lonejson.Transcoding
import Lonejson.Pull
import Lonejson.JsonPull
import Lonejson.JsonPullTrees
import Lonejson.Spool
import Lonejson.Registers
import Lonejson.Position
import Lonejson.Tokens
import Lonejson.Decoding
import Lonejson.Feeding
import Lonejson.FixedString
import Lonejson.Recording
import Lonejson.Marking
import Lonejson.Streaming
import Lonejson.StreamingStrings
import Lonejson.StreamingScalars
import Lonejson.StreamingSteps
import Lonejson.StreamingRun
import Lonejson.Capturing
import Lonejson.CapturedText
import Lonejson.CompactText
import Lonejson.CanonicalCapture
import Lonejson.Base64
import Lonejson.Integers
import Lonejson.Base64Fields
import Lonejson.FieldDecoder
import Lonejson.Base64Stream
import Lonejson.Serializer
import Lonejson.SerializerBuffers
import Lonejson.SerializerOwned
import Lonejson.Related
import Lonejson.PathVisitor
import Lonejson.PathAgreement
import Lonejson.NumberBuffer
import Lonejson.Lines
import Lonejson.Sse
import Lonejson.SseEvents
import Lonejson.SseGathering
import Lonejson.SseReader
import Lonejson.ArrayStream
import Lonejson.ArrayPositions
import Lonejson.Polling
import Lonejson.ArraySessions
import Lonejson.ObjectStream
import Lonejson.WouldBlock
import Lonejson.SetBuffer
import Lonejson.ArrayGrowth
import Lonejson.CallbackQuery
import Lonejson.TokenRefresh
import Lonejson.JwksCache
import Lonejson.JwtDecode
import Lonejson.AuthHeader
import Lonejson.M2m
import Lonejson.PathEvents
import Lonejson.ValueRewriting
import Lonejson.Generated
import Lonejson.Upload
import Lonejson.MappedWriter
