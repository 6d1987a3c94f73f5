import TinyKvm.Machine
import TinyKvm.Crc32
import TinyKvm.Alignment
import TinyKvm.SharedMemory
import TinyKvm.BasicAuth
import TinyKvm.Json
import TinyKvm.Webp
import TinyKvm.Deflate
import TinyKvm.Chase
import TinyKvm.StaticSite
import TinyKvm.Storage
import TinyKvm.Collector
import TinyKvm.BatchCounter
import TinyKvm.MinimalCounter
import TinyKvm.GameBoyInput
import TinyKvm.GameBoyPage
import TinyKvm.GameBoyState
import TinyKvm.GameBoyFrame
import TinyKvm.DenoStruct
import TinyKvm.GoStorage
import TinyKvm.JsStorage
import TinyKvm.ChatLog
import TinyKvm.NimCurl
import TinyKvm.PathSeparation
import TinyKvm.StructSize
import TinyKvm.DeflateGrowth
import TinyKvm.SharedMemoryFailures
import TinyKvm.StorageRepresentation
import TinyKvm.Zlib
import TinyKvm.HitCounter
import TinyKvm.StorageReply
import TinyKvm.Llama
import TinyKvm.LlamaHistory
import TinyKvm.DenoRequest
import TinyKvm.Xoshiro
import TinyKvm.MathRandom
import TinyKvm.DenoHeaders
import TinyKvm.RequestHeader
import TinyKvm.DenoHttp
import TinyKvm.CurlFields
import TinyKvm.JsCurl
import TinyKvm.CppCurl
import TinyKvm.Wav
import TinyKvm.ChatBounds
import TinyKvm.LlamaText
import TinyKvm.Pipeline
import TinyKvm.WebpSteps
import TinyKvm.Avif
import TinyKvm.AvifPlanes
import TinyKvm.GameBoyPng
import TinyKvm.Payload
import TinyKvm.FormattedOutput
import TinyKvm.Cutils
import TinyKvm.StringBuffer
import TinyKvm.StringConversions
import TinyKvm.GameBoyPlay
import TinyKvm.Linearization
import TinyKvm.ChatService
import TinyKvm.GameBoyViewers
import TinyKvm.JsonText
import TinyKvm.JsonString
import TinyKvm.JsonReader
import TinyKvm.JsonWriter
import TinyKvm.JsonRoundTrip
