import Oomwoo.Lib.Bytes
import Oomwoo.Lib.FixedCodec
import Oomwoo.Lib.StructFormat
import Oomwoo.Lib.Scanner
import Oomwoo.Lib.Reads
import Oomwoo.Lib.ShiftRegister
import Oomwoo.Lib.GapTimer
import Oomwoo.Lib.Amortized
import Oomwoo.Lib.Checks
import Oomwoo.Messages.RoundTrip
import Oomwoo.Messages.Effects
import Oomwoo.Ingress.Canonical
import Oomwoo.Ingress.Counters
import Oomwoo.Ingress.Decision
import Oomwoo.Identity.Handshake
import Oomwoo.Identity.Sequence
import Oomwoo.Identity.ReceiveGap
import Oomwoo.Protocol.Reference
import Oomwoo.Protocol.Recovery
import Oomwoo.Protocol.GapReset
import Oomwoo.Protocol.Retained
import Oomwoo.Protocol.BufferSafety
import Oomwoo.Protocol.StaleBytes
import Oomwoo.Protocol.ErrorDetection
import Oomwoo.Protocol.Remainder
import Oomwoo.Protocol.Flush
import Oomwoo.Protocol.Synchronization
import Oomwoo.Identity.Pacing
import Oomwoo.Identity.Transmission
import Oomwoo.Protocol.Work
import Oomwoo.Tools.GateCorpus
import Oomwoo.Tools.GoldenVectors
