import FreedosMicroPython.Lib.Memory
import FreedosMicroPython.Lib.Traffic
import FreedosMicroPython.Lib.Splice
import FreedosMicroPython.Lib.Runs
import FreedosMicroPython.Lib.Files
import FreedosMicroPython.Lib.Scan
import FreedosMicroPython.Lib.Words
import FreedosMicroPython.Lib.Sha1
import FreedosMicroPython.Lib.Counter
import FreedosMicroPython.Lib.Disclosure
import FreedosMicroPython.Lib.Ports
import FreedosMicroPython.Lib.I8086
import FreedosMicroPython.Runtime
import FreedosMicroPython.Shutil
import FreedosMicroPython.Copyfile
import FreedosMicroPython.Mphal
import FreedosMicroPython.Lib.Calendar
import FreedosMicroPython.Lib.BigEndian
import FreedosMicroPython.Lib.Sextets
import FreedosMicroPython.TimeReal
import FreedosMicroPython.OsPath
import FreedosMicroPython.OsPath.Normal
import FreedosMicroPython.Tempfile
import FreedosMicroPython.Host
import FreedosMicroPython.Dos.Int21
import FreedosMicroPython.Dos.Calls
import FreedosMicroPython.Dos.Gate
import FreedosMicroPython.Dos.Preinit
import FreedosMicroPython.Dos.Armed
import FreedosMicroPython.Dos.Staging
import FreedosMicroPython.Dos.Disk
import FreedosMicroPython.Dos.Syscall
import FreedosMicroPython.Dos.File
import FreedosMicroPython.Dos.Stream
import FreedosMicroPython.Dos.Progress
import FreedosMicroPython.Dos.Seek
import FreedosMicroPython.Dos.Import
import FreedosMicroPython.Dos.Append
import FreedosMicroPython.Dos.Mode
import FreedosMicroPython.Net.Pktdrv
import FreedosMicroPython.Net.Transmit
import FreedosMicroPython.Net.Frames
import FreedosMicroPython.Net.Drain
import FreedosMicroPython.Net.Ne2k
import FreedosMicroPython.Net.Ne2kPorts
import FreedosMicroPython.Net.Ne2kCard
import FreedosMicroPython.Net.Linkoutput
import FreedosMicroPython.Net.Stub
import FreedosMicroPython.Net.RxRing
import FreedosMicroPython.Net.Requests
import FreedosMicroPython.Net.Detected
import FreedosMicroPython.Net.Receiver
import FreedosMicroPython.Net.Registered
import FreedosMicroPython.Net.Eth
import FreedosMicroPython.Ssh.Channel
import FreedosMicroPython.Ssh.Objects
import FreedosMicroPython.Ssh.SftpFile
import FreedosMicroPython.Ssh.PeerGone
import FreedosMicroPython.Ssh.Scp
import FreedosMicroPython.Ssh.Exec
import FreedosMicroPython.Ssh.MakeNew
import FreedosMicroPython.Ssh.Upload
import FreedosMicroPython.Ssh.Lifetimes
import FreedosMicroPython.Ssh.Hash
import FreedosMicroPython.Ssh.Hmac
import FreedosMicroPython.Ssh.Cipher
import FreedosMicroPython.Ssh.Kex
import FreedosMicroPython.Ssh.Bignum
import FreedosMicroPython.Tls.Socket
import FreedosMicroPython.Tls.Context
import FreedosMicroPython.Urllib.Quote
import FreedosMicroPython.Urllib.Form
import FreedosMicroPython.Urllib.Split
import FreedosMicroPython.Base64
import FreedosMicroPython.Ssh.Console
import FreedosMicroPython.Lib.Ring
import FreedosMicroPython.Lib.CLiteral
import FreedosMicroPython.Qstr.Escape
import FreedosMicroPython.Qstr.Literal
import FreedosMicroPython.Qstr.Pool
import FreedosMicroPython.Qstr.Hash
import FreedosMicroPython.Lib.Find
import FreedosMicroPython.Wget.Url
import FreedosMicroPython.Wget.Response
import FreedosMicroPython.Wget.Fetch
import FreedosMicroPython.Wget.Outcome
import FreedosMicroPython.Lib.Lines
import FreedosMicroPython.Release.Text
import FreedosMicroPython.Lib.Regex
import FreedosMicroPython.Release.Names
import FreedosMicroPython.Lib.Pieces
import FreedosMicroPython.Release.Sources
import FreedosMicroPython.Net.Ip4
import FreedosMicroPython.Lib.Simulation
import FreedosMicroPython.Dos.Program
import FreedosMicroPython.Dos.Refine
import FreedosMicroPython.Dos.Owned
import FreedosMicroPython.Lib.Action
import FreedosMicroPython.Lib.Ledger
import FreedosMicroPython.Ssh.Client
import FreedosMicroPython.Ssh.Nesting
import FreedosMicroPython.Ssh.Asking
import FreedosMicroPython.Ssh.Transfer
import FreedosMicroPython.Sftp.Shell
import FreedosMicroPython.Sftp.Sessions
import FreedosMicroPython.Sftp.Rules
import FreedosMicroPython.Sftp.Paths
import FreedosMicroPython.Sftp.Batch
import FreedosMicroPython.Sftp.Transfer
import FreedosMicroPython.Sftp.OneShot
import FreedosMicroPython.Scp.Program
import FreedosMicroPython.Scp.Transfer
import FreedosMicroPython.Net.Pump
import FreedosMicroPython.Ssh.Ed25519
import FreedosMicroPython.Ssh.Identity
import FreedosMicroPython.Tls.Sessions
import FreedosMicroPython.Lib.Items
import FreedosMicroPython.Wget.Program
