import ArmyRs.Foundation.Quicksort
import ArmyRs.FrameSync.BatchSending
import ArmyRs.FrameSync.SyncFrame
import ArmyRs.Landlord.CardsWeight
import ArmyRs.Landlord.ComputerAILead
import ArmyRs.Landlord.ComputerAIReplies
import ArmyRs.Landlord.PassCycles
import ArmyRs.Landlord.RulerCanPop
import ArmyRs.Match.PairConfirmation
import ArmyRs.Match.PoolExclusion
import ArmyRs.Match.FourVersusFour
import ArmyRs.Match.TeamMembership
import ArmyRs.Match.MemberCounts
import ArmyRs.Match.OfflineCleanup
import ArmyRs.Server.DispatcherBatches
import ArmyRs.Storage.CachedGameDataWriter
import ArmyRs.Storage.CachedGameDataPutBack
import ArmyRs.Storage.GameDataVersions
import ArmyRs.Storage.RedisLockDoubles
import ArmyRs.Storage.RedisLockExclusion
import ArmyRs.Storage.RedisLockStamps
import ArmyRs.Storage.HashStorable
import ArmyRs.Storage.RedisHashVersions
import ArmyRs.Storage.TransferDataRestores
import ArmyRs.Storage.RedisIndexSearch
import ArmyRs.Storage.StaticArchiveCriteria
import ArmyRs.Combat.CombatStatVotes
import ArmyRs.Combat.RoomSessions
import ArmyRs.Combat.PayloadCounts
import ArmyRs.Mail.RedeemedOnce
import ArmyRs.Mail.MailStoreCounts
import ArmyRs.Mail.GroupMailsOnce
import ArmyRs.Lobby.CombatRoomTables
import ArmyRs.Lobby.Seats
import ArmyRs.Messaging.RedisQueueAccounting
import ArmyRs.Messaging.RedisRpcDelivery
import ArmyRs.Server.PacketStream
import ArmyRs.Server.ServerEncoding
import ArmyRs.Server.HashExt
import ArmyRs.Server.CSRouter
import ArmyRs.Social.SocialDbMirror
import ArmyRs.Social.ChannelChatDb
import ArmyRs.Social.FriendChatDb
import ArmyRs.Sessions.SessionTables
import ArmyRs.Sessions.QueuingDb
import ArmyRs.Match.PoolMaximality
import ArmyRs.Match.PoolRollback
import ArmyRs.Match.TeamScores
import ArmyRs.Combat.GetServer
import ArmyRs.Winnie.SchedulerRuns
import ArmyRs.Combat.ReportComparison
import ArmyRs.Combat.CombatStatUploads
import ArmyRs.Lobby.StartCombat
import ArmyRs.Client.MsgEndpointRuns
import ArmyRs.Client.TreeSimulation
import ArmyRs.Client.LRUCacheRuns
import ArmyRs.Client.StateMachine
import ArmyRs.Client.TableQuicksort
import ArmyRs.Aoi.AoiReports
import ArmyRs.Landlord.LeadingHands
import ArmyRs.Player.AvatarExpiry
import ArmyRs.Player.Instances
import ArmyRs.Player.Levels
import ArmyRs.Player.MonthCard
import ArmyRs.Player.PlayerIndex
import ArmyRs.Events.Credit
import ArmyRs.Libfractor.MirrorSymmetry
import ArmyRs.Libfractor.Assignments
import ArmyRs.Libfractor.Comparisons
import ArmyRs.Libfractor.RoundedDivision
import ArmyRs.Libfractor.SquareRoots
import ArmyRs.Libfractor.Atan2
import ArmyRs.Kcp.Transport
import ArmyRs.Skynet.HandleRuns
import ArmyRs.Skynet.ServerRuns
import ArmyRs.Skynet.TimerRuns
