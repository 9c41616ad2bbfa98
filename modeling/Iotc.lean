import Iotc.Resume.Run
import Iotc.C.Buf
import Iotc.Web.Basic
import Iotc.Web.Https
import Iotc.Ota.Client
import Iotc.Web.Steps
import Iotc.Lib.Ranges
import Iotc.Ota.Flash
import Iotc.Ota.Install
import Iotc.Ota.Wedge
import Iotc.Web.Attempts
import Iotc.Web.Chunk
import Iotc.Web.Response
import Iotc.Di.Algorithms
import Iotc.Di.Basic
import Iotc.Di.Client
import Iotc.Di.Issued
import Iotc.Hub.Basic
import Iotc.Hub.Client
import Iotc.Hub.Flag
import Iotc.Hub.Notices
import Iotc.Hub.Pairing
import Iotc.Sdk.Client
import Iotc.Sdk.Truthful
import Iotc.Adu.Agent
import Iotc.Di.Der
import Iotc.Lib.Decimal
import Iotc.Web.FileSize
import Iotc.Di.Bound
import Iotc.Web.Protocol
import Iotc.Sdk.Responses
import Iotc.Web.Ownership
import Iotc.Ota.Contained
import Iotc.Resume.Zoom
import Iotc.Web.Nesting
import Iotc.Di.Codec
import Iotc.Di.Url
import Iotc.Sdk.LastSync
import Iotc.Sdk.Requests
import Iotc.Time.Client
import Iotc.Time.Clock
import Iotc.Time.Lookup
import Iotc.Time.Wrap
import Iotc.Ota.Stream
import Iotc.Web.RangeHeader
import Iotc.Sdk.Receive
import Iotc.Di.Dn
import Iotc.Di.Heap
import Iotc.Di.HexText
import Iotc.Lib.Blocks
import Iotc.Malloc.BytePool
import Iotc.Malloc.Contract
import Iotc.Time.Sync
import Iotc.Http.Basic
import Iotc.Http.Body
import Iotc.Http.Counted
import Iotc.Http.Request
import Iotc.Http.RequestBody
import Iotc.Http.Delivered
import Iotc.Lib.Flash
import Iotc.Stm32.Boot
import Iotc.Stm32.Client
