import YieldStm32.Lib.Counter
import YieldStm32.Lib.Fifo
import YieldStm32.Lib.Circular
import YieldStm32.Lib.Ring
import YieldStm32.Lib.RoundRobin
import YieldStm32.Lib.Run
import YieldStm32.Lib.WordMem
import YieldStm32.Sys.Heap.Model
import YieldStm32.Sys.Heap.Chain
import YieldStm32.Sys.Heap.Alloc
import YieldStm32.Sys.Heap.Run
import YieldStm32.Sys.Heap.BestFit
import YieldStm32.Sys.Heap.Exhausted
import YieldStm32.Sys.Heap.Coalesce
import YieldStm32.Sys.Heap.Integrity
import YieldStm32.Sys.Yield.Model
import YieldStm32.Sys.Yield.Ring
import YieldStm32.Sys.Yield.Run
import YieldStm32.Sys.Yield.Fair
import YieldStm32.Sys.Yield.Tasks
import YieldStm32.Sys.Yield.Allocate
import YieldStm32.Sys.Yield.Cancel
import YieldStm32.Sys.Yield.Wait
import YieldStm32.Sys.Yield.WaitAll
import YieldStm32.Sys.Yield.Parallel
import YieldStm32.Sys.Queue
import YieldStm32.Sys.Sem
import YieldStm32.Sys.Ev
import YieldStm32.Sys.Queue.Fifo
import YieldStm32.Sys.Queue.Wait
import YieldStm32.Net.RxTx
import YieldStm32.Net.WebSocket.Frame
import YieldStm32.Net.WebSocket.Mask
import YieldStm32.Net.WebSocket.Transparency
import YieldStm32.Net.WebSocket.Header
import YieldStm32.Net.WebSocket.Listen
import YieldStm32.Net.WebSocket.Upgrade
import YieldStm32.Net.WebSocket.Sync
import YieldStm32.Util.Stdio
import YieldStm32.Net.Http.Request
import YieldStm32.Net.Http.Calls
import YieldStm32.Net.Http.Absorbing
import YieldStm32.Net.Http.Message
import YieldStm32.Net.Http.Response
import YieldStm32.Net.Http.Line
import YieldStm32.Net.Http.KeepAlive
import YieldStm32.Net.Dhcp.Server
import YieldStm32.Net.Dhcp.Lease
import YieldStm32.Net.Dhcp.Frame
import YieldStm32.Net.Dhcp.RoundTrip
import YieldStm32.Net.Tcp.Sock
import YieldStm32.Net.Tcp.Incoming
import YieldStm32.Net.Tcp.Node
import YieldStm32.Net.Tcp.State
import YieldStm32.Net.Tcp.Receive
import YieldStm32.Net.Tcp.Transmit
import YieldStm32.Net.Tcp.Close
import YieldStm32.Lib.Little
import YieldStm32.Lib.Mask
import YieldStm32.Lib.Traced
import YieldStm32.Lib.Slots
import YieldStm32.Dev.Eem.Frame
import YieldStm32.Dev.Eem.Transmit
import YieldStm32.Net.Udp.Sock
import YieldStm32.Net.Udp.Boundaries
import YieldStm32.Net.Frame
import YieldStm32.Net.Input
import YieldStm32.Net.Bounds
import YieldStm32.Net.Corrupted
import YieldStm32.Net.Descriptor
import YieldStm32.Net.Udp.Records
import YieldStm32.Lib.Loop
import YieldStm32.Lib.Numeral
import YieldStm32.Util.Format
import YieldStm32.Util.Print
import YieldStm32.Util.PrintBounds
import YieldStm32.Util.Directive
import YieldStm32.Util.Prescribed
import YieldStm32.Util.Scan
import YieldStm32.Util.ScanPrint
import YieldStm32.Net.Mdns.Frame
import YieldStm32.Net.Mdns.Bounds
import YieldStm32.Net.Mdns.Termination
import YieldStm32.Net.Mdns.Encode
import YieldStm32.Net.Mdns.RoundTrip
import YieldStm32.Net.Mdns.Server
import YieldStm32.Net.Mdns.Message
import YieldStm32.Lib.EndAround
import YieldStm32.Net.Checksum
import YieldStm32.Net.Fragments
import YieldStm32.Lib.Blockwise
import YieldStm32.Lib.Fips180
import YieldStm32.Util.Digest
import YieldStm32.Util.DigestRun
import YieldStm32.Util.Sha1
import YieldStm32.Util.Sha2
import YieldStm32.Util.HashVal
import YieldStm32.Lib.Rfc4648
import YieldStm32.Util.Base64
import YieldStm32.Util.Base64Accept
import YieldStm32.Util.IntText
import YieldStm32.Util.ScanInt
import YieldStm32.Util.ScanExact
import YieldStm32.Util.ScanBounds
import YieldStm32.Net.LinkAddress
import YieldStm32.Net.Outgoing
import YieldStm32.Net.ArpTable
import YieldStm32.Net.Dhcp.ParseBounds
import YieldStm32.Net.Dhcp.RenderBounds
import YieldStm32.Dev.Eem.Receive
import YieldStm32.Dev.Eem.Detect
import YieldStm32.Net.WebSocket.Locks
import YieldStm32.Net.WebSocket.Pings
import YieldStm32.Lib.Pool
import YieldStm32.Lib.PrefixTable
import YieldStm32.Lib.Tiling
import YieldStm32.Dev.Flash
import YieldStm32.Util.CString
import YieldStm32.Util.Strcistr
import YieldStm32.Util.ScanText
import YieldStm32.Www.MimeType
import YieldStm32.Net.WebSocket.TimeOut
import YieldStm32.Lib.SerialEeprom
import YieldStm32.Dev.Eeprom.Driver
import YieldStm32.Dev.Eeprom.Ranges
import YieldStm32.Dev.Eeprom.ByteArray
import YieldStm32.Net.Http.FieldNames
import YieldStm32.Net.Http.StartLine
import YieldStm32.Www.Ffs
import YieldStm32.Www.Files
import YieldStm32.Net.WebSocket.Interop
import YieldStm32.Ffs.Shared
import YieldStm32.Sys.Queue.Linear
import YieldStm32.Sys.Queue.Wrap
import YieldStm32.Util.Memcpy
import YieldStm32.Lib.Packets
import YieldStm32.Dev.Usb.Receive
import YieldStm32.Dev.Usb.Core
import YieldStm32.Dev.Usb.DataIn
import YieldStm32.Dev.Usb.DataOut
import YieldStm32.Dev.Usb.Requests
import YieldStm32.Net.Send
import YieldStm32.Net.Delivery
import YieldStm32.Net.Exchange
import YieldStm32.Net.Ping
import YieldStm32.Net.TxBuffer
import YieldStm32.Lib.Words
import YieldStm32.Dev.Usb.Transmit
import YieldStm32.Lib.BitPolynomial
import YieldStm32.Util.Lfsr32
import YieldStm32.Dev.Seed
import YieldStm32.Sys.Yield.Context
import YieldStm32.Sys.Yield.Private
import YieldStm32.Net.Tcp.Ends
import YieldStm32.Net.Tcp.Pair
import YieldStm32.Dev.Usart
import YieldStm32.Lib.TwoWire
import YieldStm32.Dev.SwI2c
import YieldStm32.Dev.Eeprom.Lines
import YieldStm32.Net.Dhcp.Wire
