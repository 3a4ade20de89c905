import Conference.Main
import Conference.Proofs.ExchangeMoves
import Conference.Proofs.MixSemantics
import Conference.Proofs.PcmRoundTrip
import Conference.Proofs.ExchangeInvariants
import Conference.Proofs.CycleCourse
import Conference.Proofs.ListenerReads
import Conference.Proofs.PersonalisedMix
import Conference.Proofs.Noninterference
import Conference.Proofs.CycleNesting
import Conference.Proofs.SnapshotIsolation
import Conference.Proofs.LatestCycle
import Conference.Proofs.DeskMoves
import Conference.Proofs.SecurityReports
import Conference.Proofs.SessionLifeCycle
import Conference.Proofs.MasterTeardown
import Conference.Proofs.LateReports
import Conference.Proofs.SingleRounding
import Conference.Proofs.MixRange
import Conference.Proofs.RegistryInvariant
import Conference.Proofs.UnstartedListeners
import Conference.Proofs.Handoff
import Conference.Proofs.SessionIndependence
import Conference.Proofs.SecureOnHistory
import Conference.Proofs.ExchangeDealings
import Conference.Proofs.QueueAccounts
import Conference.Proofs.DeliveryAccounts
import Conference.Proofs.NumeralRoundTrip
import Conference.Proofs.JsonRoundTrip
import Conference.Proofs.RecordFields
import Conference.Proofs.SettingsFields
import Conference.Proofs.SettingsRoundTrip
import Conference.Proofs.PartialSettings
import Conference.Proofs.StoppedMixers
import Conference.Proofs.SilentFolds
import Conference.Proofs.FedOnce
import Conference.Proofs.LoneSpeaker
import Conference.Proofs.SessionLineage
import Conference.Proofs.FamilyTeardown
import Conference.Proofs.PcmExactness
import Conference.Proofs.NeutralSilence
import Conference.Proofs.RoundingError
import Conference.Proofs.OverlapAccuracy
import Conference.Proofs.SoftSumBounds
import Conference.Proofs.FilledTexts
import Conference.Proofs.ShownMessages
import Conference.Proofs.DoubleRounding
import Conference.Proofs.StatisticsLog
import Conference.Proofs.CommandGrammar
import Conference.Proofs.NegotiationScript
import Conference.Proofs.Assembly
import Conference.Proofs.Rounds
import Conference.Proofs.ConferenceAccounts
