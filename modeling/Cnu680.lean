import Cnu680.Sercd.Fifo
import Cnu680.Sercd.Transparency
import Cnu680.Sercd.ComPort
import Cnu680.Sercd.TelnetStream
import Cnu680.Sercd.Outbound
import Cnu680.Sercd.Passthrough
import Cnu680.Sercd.Isolation
import Cnu680.Sercd.Negotiation
import Cnu680.Sercd.Suspension
import Cnu680.Mm.Lifetime
import Cnu680.Net.TxWakeup
import Cnu680.Serial.LineSettings
import Cnu680.Serial.Transmit
import Cnu680.Netfilter.TableLimit
import Cnu680.Sercd.PortLock
import Cnu680.Sercd.Descriptors
import Cnu680.Sercd.ModemReport
import Cnu680.Sercd.PollTiming
import Cnu680.Sercd.PortSettings
import Cnu680.Mm.Failure
import Cnu680.Sercd.Signature
import Cnu680.Mm.Exhaustion
import Cnu680.Net.Multicast
import Cnu680.Net.PollContract
import Cnu680.Serial.FlipBuffer
import Cnu680.Serial.BaudRate
import Cnu680.Serial.Close
import Cnu680.Net.Buffers
import Cnu680.Netfilter.Rehash
import Cnu680.Netfilter.Starcraft
import Cnu680.Flash.Protection
import Cnu680.Flash.Report
import Cnu680.Env.Corrupt
import Cnu680.Sercd.Budgets
import Cnu680.Env.Driver
