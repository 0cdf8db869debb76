import BleBroadcast.Lib.GuardedRun
import BleBroadcast.Lib.ChainedXor
import BleBroadcast.Lib.DeferralLedger
import BleBroadcast.Lib.Custody
import BleBroadcast.Sender.NonceFreshness
import BleBroadcast.Sender.PacketBudget
import BleBroadcast.Sender.OnAir
import BleBroadcast.Sender.RadioState
import BleBroadcast.Sender.SharedRadio
import BleBroadcast.Sender.RotationCount
import BleBroadcast.Receiver.CacheRefinement
import BleBroadcast.Receiver.FragmentFeeding
import BleBroadcast.Receiver.DataDelivery
import BleBroadcast.Receiver.SessionKeys
import BleBroadcast.Receiver.MalformedFrames
import BleBroadcast.Receiver.DeferredTermination
import BleBroadcast.Receiver.BatchIndependence
import BleBroadcast.Receiver.CollectionRoom
import BleBroadcast.Receiver.StaleEntries
import BleBroadcast.Receiver.AddressProvenance
import BleBroadcast.Receiver.SenderTables
import BleBroadcast.Receiver.PayloadProvenance
import BleBroadcast.EndToEnd.HeardSession
import BleBroadcast.EndToEnd.TestStart
import BleBroadcast.Receiver.NewPduSignal
import BleBroadcast.Receiver.KeyFragmentSignal
import BleBroadcast.Receiver.KeyInstallation
import BleBroadcast.Receiver.CacheEviction
import BleBroadcast.Receiver.IntervalTest
import BleBroadcast.Receiver.IndependentCollectors
import BleBroadcast.Receiver.ConsumerCollection
import BleBroadcast.Receiver.StartUp
import BleBroadcast.EndToEnd.FrameRoundTrip
import BleBroadcast.EndToEnd.KeyTransport
import BleBroadcast.EndToEnd.PayloadIntegrity
import BleBroadcast.EndToEnd.HonestAuthorization
import BleBroadcast.EndToEnd.FragmentForgery
import BleBroadcast.EndToEnd.TagOverrun
