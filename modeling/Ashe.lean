import Ashe.Runs
import Ashe.PriorityQueue
import Ashe.Tasks
import Ashe.MessageLoop
import Ashe.LoopCalls
import Ashe.LoopSteps
import Ashe.LoopDrivers
import Ashe.DelayedOrder
import Ashe.MessagePumpDefault
import Ashe.PumpSteps
import Ashe.PumpWakeUp
import Ashe.PumpNesting
import Ashe.PumpSleep
import Ashe.LoopHeld
import Ashe.PumpQuit
import Ashe.BufferQueue
import Ashe.BufferChunks
import Ashe.BufferLoops
import Ashe.BufferInvariant
import Ashe.BufferStream
import Ashe.TimerIds
import Ashe.TimerRemoval
import Ashe.ThreadStart
import Ashe.Buffers
import Ashe.HexEncode
import Ashe.HexRoundTrip
import Ashe.ConfigorText
import Ashe.ConfigorSteps
import Ashe.ConfigorTermination
import Ashe.ConfigorRoundTrip
import Ashe.MemoryPool
import Ashe.MemoryPoolLists
import Ashe.MemoryPoolPartition
import Ashe.CbcChaining
import Ashe.AesCipher
import Ashe.AesCbc
import Ashe.AesInverse
import Ashe.AesBlocks
import Ashe.AesRoundTrip
import Ashe.BlockFraming
import Ashe.ByteWords
import Ashe.HashInput
import Ashe.Sha1
import Ashe.Md5
import Ashe.Sha256
import Ashe.Sha1Framing
import Ashe.Sha256Framing
import Ashe.Md5Framing
import Ashe.HashFraming
import Ashe.Sha512
import Ashe.Sha512Framing
import Ashe.Sha512Length
import Ashe.CmdLineParser
import Ashe.CmdLineRender
import Ashe.SignedWords
import Ashe.Base64
import Ashe.Base64RoundTrip
import Ashe.Decimal
import Ashe.StrSplit
import Ashe.Rsa
import Ashe.RsaPrimes
import Ashe.RsaArithmetic
import Ashe.ExtendedEuclid
import Ashe.RsaKeys
import Ashe.RsaTexts
import Ashe.RsaRoundTrip
import Ashe.UrlEncode
import Ashe.UrlRoundTrip
import Ashe.Base64Lines
import Ashe.EnvPathList
import Ashe.FileReading
import Ashe.ShellinkParser
import Ashe.ShellinkFraming
import Ashe.AtExit
import Ashe.AtExitOrder
import Ashe.AsyncWorker
import Ashe.AsyncWorkerOrder
import Ashe.AsyncWorkerRestart
import Ashe.SingletonLock
import Ashe.DelegateDriver
import Ashe.WakeUpContract
import Ashe.TimerNames
import Ashe.AesBounds
import Ashe.BufferCount
import Ashe.AesPadding
import Ashe.ConfigorAccess
import Ashe.ConfigorLens
import Ashe.ConfigorReload
import Ashe.ConfigorReads
import Ashe.TimerOrder
import Ashe.TimerSchedule
import Ashe.ByteMemory
import Ashe.MemoryPoolBytes
import Ashe.MemoryPoolStored
import Ashe.MemoryPoolBodies
import Ashe.MemoryPoolFrame
import Ashe.ConfigorArrays
import Ashe.ConfigorScan
import Ashe.ConfigorOrigins
import Ashe.ConfigorStrings
import Ashe.ConfigorPlaces
import Ashe.Occurrences
import Ashe.SplitJoin
import Ashe.StringReplace
import Ashe.RsaSearch
import Ashe.RsaContract
import Ashe.Crc32
import Ashe.Crc32Bitwise
import Ashe.CmdLineOrigins
import Ashe.HexBounds
import Ashe.HexDigits
import Ashe.Base64Padding
import Ashe.EnvLoops
import Ashe.VersionOrder
import Ashe.IPAddresses
import Ashe.IPWords
import Ashe.IPOrder
import Ashe.IPMapping
import Ashe.IPPrefix
import Ashe.IPMaskBits
import Ashe.Base64Ends
import Ashe.Iteration
import Ashe.PathClimbing
import Ashe.Http
import Ashe.HttpBody
import Ashe.HttpHeaders
import Ashe.Registry
import Ashe.RegistryMultiSz
import Ashe.ShellinkLoad
import Ashe.TwoRuns
import Ashe.ShellinkTwice
import Ashe.ShellinkBlocks
import Ashe.ShellinkCarry
import Ashe.ShellinkStrings
import Ashe.Crowd
import Ashe.ThreadPool
import Ashe.ThreadPoolTasks
import Ashe.ThreadPoolEnd
import Ashe.MessagePumpForWin
import Ashe.WinPumpSteps
import Ashe.WinPumpMoves
import Ashe.WinPumpWork
import Ashe.Handles
import Ashe.Process
import Ashe.WinPumpTasks
import Ashe.LoopNesting
import Ashe.ProcessDescriptors
import Ashe.ProcessOutput
import Ashe.ProcessStatus
import Ashe.Logging
import Ashe.LoggingFiles
import Ashe.ServiceBase
import Ashe.ServiceReports
import Ashe.FileWriting
import Ashe.IconFiles
import Ashe.IconRoundTrip
import Ashe.Event
import Ashe.EventWaits
import Ashe.LoopTeardown
import Ashe.LoopTeardownTasks
import Ashe.MakePath
import Ashe.MakePathDirs
