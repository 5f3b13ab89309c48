import Lobby.Json.Lemmas
import Lobby.Json.Record.Lemmas
import Lobby.Main
import Lobby.Proofs.FrameSchedules
import Lobby.Proofs.RoomMembers
import Lobby.Proofs.RoomHistory
import Lobby.Proofs.RoomViews
import Lobby.Proofs.ServiceSteps
import Lobby.Proofs.DispatcherTurns
import Lobby.Proofs.Bystanders
import Lobby.Proofs.DispatchAnswers
import Lobby.Proofs.DutySteps
import Lobby.Proofs.RoomHandling
import Lobby.Proofs.Memberships
import Lobby.Proofs.MembershipMoves
import Lobby.Proofs.MembershipSteps
import Lobby.Proofs.GoneRequesters
import Lobby.Proofs.MembershipAgreement
import Lobby.Proofs.WorldRuns
import Lobby.Proofs.RoomNotices
import Lobby.Proofs.RoomConvergence
import Lobby.Proofs.RoomAnswers
import Lobby.Proofs.WriterStream
import Lobby.Proofs.DepartureSteps
import Lobby.Proofs.Departures
import Lobby.Proofs.GhostMembers
import Lobby.Proofs.SnapshotDecoding
import Lobby.Proofs.SingleMembership
import Lobby.Proofs.HonestHandles
import Lobby.Proofs.SlowClients
import Lobby.Proofs.MailboxLaws
import Lobby.Proofs.MailboxRefusals
import Lobby.Proofs.ReaderTurns
import Lobby.Proofs.ReaderDeliveries
import Lobby.Proofs.ReaderStream
import Lobby.Proofs.ProfileCopies
import Lobby.Proofs.ProfileTraces
import Lobby.Proofs.ProfileTurns
import Lobby.Proofs.ProfileAgreement
import Lobby.Proofs.RoomNumbers
import Lobby.Proofs.Namesakes
import Lobby.Proofs.Disguises
import Lobby.Proofs.EventMovements
import Lobby.Proofs.RequestTurns
import Lobby.Proofs.RequestTrails
import Lobby.Proofs.ServiceRequests
import Lobby.Proofs.GrantedServices
import Lobby.Proofs.CandidTurns
import Lobby.Proofs.RoomTold
import Lobby.Proofs.ClosedMailboxes
import Lobby.Proofs.EndedDispatchers
import Lobby.Proofs.LeaveAnswers
import Lobby.Proofs.Farewells
import Lobby.Proofs.OrderlyTeardown
import Lobby.Proofs.RoomBroadcasts
import Lobby.Proofs.QueueGains
import Lobby.Proofs.CarefulServices
import Lobby.Proofs.UnsettledRooms
import Lobby.Proofs.JsonLayouts
import Lobby.Proofs.RecordFields
import Lobby.Proofs.Presentations
import Lobby.Proofs.ConnectionIdentities
