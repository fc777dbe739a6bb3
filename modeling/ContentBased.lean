import ContentBased.Library.RecordDisk
import ContentBased.Library.FileLogic
import ContentBased.Library.Run
import ContentBased.Library.Decimal
import ContentBased.Library.Wire
import ContentBased.Library.Segments
import ContentBased.Library.Tally
import ContentBased.Library.Timers
import ContentBased.Library.Ring
import ContentBased.Library.Roulette
import ContentBased.Library.ReadFaults
import ContentBased.Library.Lines
import ContentBased.Library.Trapping
import ContentBased.Storage
import ContentBased.PeriodicLog
import ContentBased.LogCalls
import ContentBased.LogJournal
import ContentBased.LogNumbering
import ContentBased.LogContents
import ContentBased.CrashRecovery
import ContentBased.Supplement
import ContentBased.DistTable
import ContentBased.TableLog
import ContentBased.TrainingWindow
import ContentBased.UserInterests
import ContentBased.InterestsRun
import ContentBased.Restart
import ContentBased.Elimination
import ContentBased.ContentModel
import ContentBased.FailedAction
import ContentBased.ActionInterleaving
import ContentBased.FlushRun
import ContentBased.ServiceTimers
import ContentBased.Marshaler
import ContentBased.Selecting
import ContentBased.Shuffling
import ContentBased.MarshalSafety
import ContentBased.MarshalResults
import ContentBased.MarshalProgress
import ContentBased.NewsTrends
import ContentBased.CurrentInterests
import ContentBased.Isolation
import ContentBased.Ranking
import ContentBased.Answering
import ContentBased.CandidatePowers
import ContentBased.Reload
import ContentBased.ReloadAtomic
import ContentBased.TrendsTraining
import ContentBased.TrendsReload
import ContentBased.RolloverFaults
import ContentBased.RecoveryFaults
import ContentBased.DamagedRecords
import ContentBased.LogGathering
import ContentBased.TrainAtomic
import ContentBased.EliminationFaults
import ContentBased.HookRuns
import ContentBased.Divisors
import ContentBased.ItemUpdates
import ContentBased.PassedEvents
import ContentBased.SentinelKeys
import ContentBased.Network
import ContentBased.Replies
import ContentBased.Configuration
import ContentBased.LogDecoding
import ContentBased.PointQueries
import ContentBased.CategoryTable
import ContentBased.CategoryRoundTrip
import ContentBased.ItemMessages
import ContentBased.ItemWords
import ContentBased.JsonMessages
import ContentBased.Library.Demands
import ContentBased.MessageSafety
import ContentBased.ParserTotality
import ContentBased.Library.Wrapping
import ContentBased.Receivers
import ContentBased.FinalPowers
import ContentBased.Library.JsonGrammar
import ContentBased.QueryCache
import ContentBased.Library.Writers
import ContentBased.Library.Readers
import ContentBased.QueryReply
import ContentBased.Requests
import ContentBased.RequestEncoding
import ContentBased.FeedbackReports
import ContentBased.Library.Cells
import ContentBased.SyncFile
import ContentBased.CombineTask
import ContentBased.Library.Strips
import ContentBased.SlotLayout
import ContentBased.FairSelection
import ContentBased.Library.Pointers
import ContentBased.PinnedPartition
import ContentBased.DocumentLog
import ContentBased.Library.Areas
import ContentBased.Library.Entries
import ContentBased.MessageBuffers
import ContentBased.ConvertedInterests
import ContentBased.CenterRuns
import ContentBased.Library.Conversations
import ContentBased.TaskNodes
import ContentBased.UpdateTask
import ContentBased.ConcurrentAdds
import ContentBased.RefreshList
import ContentBased.FlagThreads
import ContentBased.Library.Footprint
import ContentBased.OpenModel
import ContentBased.OpenModelRun
import ContentBased.Library.DoubleBuffer
import ContentBased.ServedMaps
import ContentBased.PredictionThreads
