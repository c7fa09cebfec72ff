import PsplinkUsb.Library.LittleEndian
import PsplinkUsb.Library.Tokens
import PsplinkUsb.Library.RingQueue
import PsplinkUsb.Library.Run
import PsplinkUsb.Library.Patch
import PsplinkUsb.Library.UndoLog
import PsplinkUsb.Library.Settling
import PsplinkUsb.Library.Duplex
import PsplinkUsb.Library.Exclusion
import PsplinkUsb.Library.CursorTable
import PsplinkUsb.Library.CString
import PsplinkUsb.Psplink.ProgramMemory
import PsplinkUsb.Psplink.BreakpointTable
import PsplinkUsb.Psplink.BreakpointConsistency
import PsplinkUsb.Psplink.ApiHook
import PsplinkUsb.Psplink.ApiHookRestore
import PsplinkUsb.UsbHostfs.AsyncChannel
import PsplinkUsb.UsbHostfs.EndpointQueue
import PsplinkUsb.UsbHostfs.AsyncThreads
import PsplinkUsb.UsbHostfs.AsyncSteps
import PsplinkUsb.UsbHostfs.AsyncFifo
import PsplinkUsb.UsbHostfs.AsyncWakeup
import PsplinkUsb.UsbHostfs.AsyncRegistration
import PsplinkUsb.HostFs.Wire
import PsplinkUsb.UsbHostfs.CommandXchg
import PsplinkUsb.UsbHostfs.BulkRequests
import PsplinkUsb.UsbHostfs.BusExclusion
import PsplinkUsb.UsbHostfs.HostDriver
import PsplinkUsb.UsbHostfsPc.HostPath
import PsplinkUsb.UsbHostfsPc.PathConfinement
import PsplinkUsb.UsbHostfsPc.OsCalls
import PsplinkUsb.UsbHostfsPc.HostFiles
import PsplinkUsb.UsbHostfsPc.Handlers
import PsplinkUsb.UsbHostfsPc.PlainFile
import PsplinkUsb.UsbHostfsPc.DirHandles
import PsplinkUsb.UsbHostfsPc.BufferBounds
import PsplinkUsb.HostFs.Exchange
import PsplinkUsb.HostFs.Answers
import PsplinkUsb.HostFs.Requests
import PsplinkUsb.HostFs.Framing
import PsplinkUsb.HostFs.Pairing
import PsplinkUsb.HostFs.Accounting
import PsplinkUsb.HostFs.ChunkedTransfer
import PsplinkUsb.HostFs.FileTransfer
import PsplinkUsb.UsbGdb.Packets
import PsplinkUsb.UsbGdb.PacketLaws
import PsplinkUsb.UsbGdb.PacketExchange
import PsplinkUsb.Library.Ascii
import PsplinkUsb.Pspsh.ParseArgs
import PsplinkUsb.Psplink.UsbShell
import PsplinkUsb.Pspsh.ParseArgsLaws
import PsplinkUsb.Pspsh.ShellTransport
import PsplinkUsb.Library.BitFields
import PsplinkUsb.Pspsh.BranchTargets
import PsplinkUsb.Psplink.Stepping
import PsplinkUsb.Pspsh.BranchAgreement
import PsplinkUsb.Pspsh.InstructionTable
import PsplinkUsb.Psplink.StepArming
import PsplinkUsb.Library.Lines
import PsplinkUsb.Psplink.ConfigReading
import PsplinkUsb.Psplink.ConfigUpdate
import PsplinkUsb.Psplink.ConfigRereading
import PsplinkUsb.Library.Numerals
import PsplinkUsb.Library.ShownText
import PsplinkUsb.Pspsh.Operands
import PsplinkUsb.Pspsh.Disasm
import PsplinkUsb.Pspsh.Asm
import PsplinkUsb.Pspsh.OperandKinds
import PsplinkUsb.Pspsh.OperandReading
import PsplinkUsb.Pspsh.AssembledLine
import PsplinkUsb.Pspsh.AssemblyRoundTrip
import PsplinkUsb.Psplink.StepCleanup
import PsplinkUsb.Library.Frames
import PsplinkUsb.Pspsh.ReadSocket
import PsplinkUsb.Library.Chunks
import PsplinkUsb.Library.Interleaving
import PsplinkUsb.Psplink.ShellOutput
import PsplinkUsb.Psplink.ShellThreads
import PsplinkUsb.UsbHostfs.ChannelWrites
import PsplinkUsb.UsbHostfsPc.ClientSockets
import PsplinkUsb.HostFs.ChannelDelivery
import PsplinkUsb.Library.Routines
import PsplinkUsb.UsbHostfs.CallerPrivilege
import PsplinkUsb.Library.FileTree
import PsplinkUsb.Psplink.CopyTree
import PsplinkUsb.Psplink.CopyBlocks
import PsplinkUsb.Psplink.CopyOutcome
import PsplinkUsb.Psplink.CopyInside
import PsplinkUsb.Psplink.CopyLoss
import PsplinkUsb.Psplink.ConfigFaults
import PsplinkUsb.RemoteJoy.ScreenAgreement
import PsplinkUsb.Library.Records
import PsplinkUsb.RemoteJoy.JoyDelivery
import PsplinkUsb.Pspsh.ExecuteLine
import PsplinkUsb.Pspsh.PlainWords
import PsplinkUsb.Pspsh.LineSending
import PsplinkUsb.Pspsh.ScriptRunning
import PsplinkUsb.Psplink.ParseThread
import PsplinkUsb.Pspsh.Lockstep
import PsplinkUsb.RemoteJoy.FrameDelivery
import PsplinkUsb.Library.LexicalPath
import PsplinkUsb.UsbHostfsPc.PathResolution
import PsplinkUsb.UsbHostfsPc.PathLength
import PsplinkUsb.UsbHostfsPc.NocasePaths
import PsplinkUsb.HostFs.RenameNames
import PsplinkUsb.HostFs.ChstatTimes
import PsplinkUsb.HostFs.ResponseBounds
import PsplinkUsb.UsbHostfsPc.FileTable
import PsplinkUsb.HostFs.CurrentDirectory
import PsplinkUsb.UsbHostfsPc.DriveMap
import PsplinkUsb.UsbGdb.Retransmission
import PsplinkUsb.UsbGdb.StubMemory
import PsplinkUsb.UsbGdb.Stub
import PsplinkUsb.UsbGdb.PacketData
import PsplinkUsb.UsbGdb.RegisterPackets
import PsplinkUsb.UsbGdb.MalformedWrites
import PsplinkUsb.UsbGdb.ReplyBounds
import PsplinkUsb.Pspsh.CommandBlocks
import PsplinkUsb.Pspsh.Quoting
import PsplinkUsb.Pspsh.EscapedBytes
import PsplinkUsb.Pspsh.LinePieces
import PsplinkUsb.Pspsh.ParseBounds
import PsplinkUsb.Library.TableSearch
import PsplinkUsb.Pspsh.CheckedAsm
import PsplinkUsb.Pspsh.AsmFaults
import PsplinkUsb.Pspsh.FixedBits
import PsplinkUsb.Pspsh.BranchAssembly
import PsplinkUsb.Pspsh.SymbolLoad
import PsplinkUsb.Library.LinkedLists
import PsplinkUsb.Psplink.TabCompletion
import PsplinkUsb.Pspsh.CompletionList
import PsplinkUsb.Psplink.AddressExpressions
import PsplinkUsb.Pspsh.AsmCommand
import PsplinkUsb.Pspsh.AsmSession
import PsplinkUsb.Pspsh.VariableNames
import PsplinkUsb.Psplink.DecodeAddr
import PsplinkUsb.Psplink.PokeWords
import PsplinkUsb.Pspsh.PlacedLines
import PsplinkUsb.Library.FloatText
import PsplinkUsb.Library.Printing
import PsplinkUsb.Pspsh.FormatCodes
import PsplinkUsb.Pspsh.ArgsBuffer
import PsplinkUsb.Pspsh.ShownOperands
import PsplinkUsb.Pspsh.ArgsText
import PsplinkUsb.Psplink.AddressNames
import PsplinkUsb.Psplink.AddressTokens
import PsplinkUsb.Psplink.RefusedExpressions
import PsplinkUsb.Psplink.MemoryRegions
import PsplinkUsb.Psplink.DereferencedWords
import PsplinkUsb.Psplink.MemoryDump
import PsplinkUsb.Library.Occurrences
import PsplinkUsb.Psplink.MemorySearch
import PsplinkUsb.RemoteJoy.HalfFrame
import PsplinkUsb.Psplink.Screenshot
import PsplinkUsb.Psplink.ReadPieces
import PsplinkUsb.Psplink.LineBuffer
import PsplinkUsb.Psplink.NormalizePath
import PsplinkUsb.UsbGdb.ThreadNames
import PsplinkUsb.Psplink.HexPatterns
import PsplinkUsb.Psplink.PathResolving
import PsplinkUsb.Psplink.CommandBuffers
import PsplinkUsb.Psplink.CopyDestination
import PsplinkUsb.Psplink.ModuleTables
import PsplinkUsb.Psplink.ModuleListings
import PsplinkUsb.Psplink.RemoveFiles
import PsplinkUsb.Psplink.MemoryCommands
import PsplinkUsb.Psplink.ExceptionThreads
import PsplinkUsb.Psplink.ExceptionContexts
import PsplinkUsb.Library.Chains
import PsplinkUsb.Psplink.DebugEvents
import PsplinkUsb.Psplink.UidObjects
import PsplinkUsb.Psplink.StackTrace
import PsplinkUsb.Psplink.StackFrames
import PsplinkUsb.UsbHostfsPc.SessionConfinement
import PsplinkUsb.HostFs.DirectoryListing
import PsplinkUsb.Psplink.ConfigStore
import PsplinkUsb.UsbGdb.TargetRequests
import PsplinkUsb.UsbGdb.DebugSession
import PsplinkUsb.Psplink.Restarts
