import Ns3.Pdcp.Bearer
import Ns3.Pdcp.Interference
import Ns3.Rlc.AmReceiverValid
import Ns3.Rlc.UmTransparency
import Ns3.Rlc.UmCorruption
import Ns3.Rlc.AmInSequence
import Ns3.Nr.SrsOffsets
import Ns3.Network.TagStacks
import Ns3.Core.SchedulerChoice
import Ns3.Internet.RipTable
import Ns3.Internet.Ipv4Reassembly
import Ns3.Internet.Ipv6Reassembly
import Ns3.TrafficControl.QueueDiscConservation
import Ns3.Core.CalendarOperations
import Ns3.Wifi.ReorderBuffer
import Ns3.Wifi.BlockAckSoundness
import Ns3.Lte.Asn1RoundTrip
import Ns3.Internet.TcpHeaderParse
import Ns3.Network.PbbRoundTrip
import Ns3.Olsr.HnaRoutes
import Ns3.Rlc.Repetitions
import Ns3.Rlc.StatusReports
import Ns3.Rlc.AmStatusSize
import Ns3.Internet.ArpResolution
import Ns3.SixLowPan.Reassembly
import Ns3.SixLowPan.IphcRoundTrip
import Ns3.Nr.LcQos
import Ns3.Nr.HarqRuns
import Ns3.Internet.TcpTxHighest
import Ns3.Internet.TcpRxSack
import Ns3.Internet.TcpTxNextSeg
import Ns3.Nr.NotchedRbgs
import Ns3.Nr.SfnSfArithmetic
import Ns3.Nr.ShortBsr
import Ns3.Network.BitSerializer
import Ns3.Network.DynamicQueueLimits
import Ns3.Nr.SchedulerEdf
import Ns3.Network.NixVector
import Ns3.Network.BufferSerialize
import Ns3.Network.BufferConcat
import Ns3.Internet.Ipv4AddressGenerator
import Ns3.Internet.Ipv4StaticRouting
import Ns3.TrafficControl.TbfWatchdog
import Ns3.TrafficControl.FqOrder
import Ns3.Internet.Ipv4EndPointDemux
import Ns3.Internet.Ipv4FragmentTimeout
import Ns3.Nr.UeUplinkGrant
import Ns3.Nr.FddPattern
import Ns3.Olsr.MprComputation
import Ns3.Aodv.RequestQueue
import Ns3.Wifi.MacRxMiddle
import Ns3.Wifi.InFlightExpiry
import Ns3.TrafficControl.CoDelShift
import Ns3.Wifi.WifiMacQueueInsert
import Ns3.Wifi.BlockAckCodec
import Ns3.Wifi.TriggerCodec
import Ns3.Network.LollipopCounter
import Ns3.Network.SequenceNumber
import Ns3.SixLowPan.LowPanHc1
import Ns3.Wifi.MsduAggregator
import Ns3.Network.BufferPrograms
import Ns3.Internet.TcpTransfer
