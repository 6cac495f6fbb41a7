import Exc.Base58.RoundTrip
import Exc.Base64.DecodeSafety
import Exc.Base64.Decoding
import Exc.Base64.TextDecoder
import Exc.Cfg.FileBuffer
import Exc.Cfg.Frame
import Exc.Cfg.LineBuffer
import Exc.Cfg.ReturnCode
import Exc.ComLib.DateTime
import Exc.Crc.CRC
import Exc.Des.EasyRoundTrip
import Exc.Des.HexCoding
import Exc.Epoll.Isolation
import Exc.Hash.Hash
import Exc.Hash.Md5
import Exc.Hash.Sha1
import Exc.Hash.Sha512
import Exc.Idcard.Idcard
import Exc.Ini.Existence
import Exc.Ini.Grammar
import Exc.Logger.Rotation
import Exc.Logger.Shutdown
import Exc.Logger.Transparency
import Exc.Json.RoundTrip
import Exc.Pipe.InOrder
import Exc.RWLock.Exclusion
import Exc.SafeList.SafeList
import Exc.SafeQueue.LockedWait
import Exc.Semaphore.Permits
import Exc.Serialize.LockedPages
import Exc.Serialize.Queue
import Exc.SingleEvent.SingleEvent
import Exc.SkipList.FiniteMap
import Exc.SkipList.Levels
import Exc.Socket.Framing
import Exc.Socket.PoolFailures
import Exc.Socket.ReceiveBounds
import Exc.Socket.SendResult
import Exc.Thread.StopRequest
import Exc.Thread.StopToken
import Exc.Timer.Cancellation
import Exc.Timer.Dispatch
import Exc.Timer.IdSearch
import Exc.Timer.NodePlaces
import Exc.Timer.Sizing
import Exc.Timer.StoppedTasks
import Exc.Timer.Timeout
import Exc.KernelList.ListHead
import Exc.KernelList.Lists
import Exc.RWLock.WinRWLock
