import ChunkExchange.Config.Document
import ChunkExchange.Node.Service
import ChunkExchange.Storage.PartStore
import ChunkExchange.Proofs.SingleOwner
import ChunkExchange.Proofs.WriteOnce
import ChunkExchange.Proofs.Swarm
import ChunkExchange.Proofs.CompleteFile
import ChunkExchange.Proofs.LossFree
import ChunkExchange.Proofs.Accounting
import ChunkExchange.Proofs.PlainStates
import ChunkExchange.Proofs.RetrySchedule
import ChunkExchange.Proofs.BackoffWindow
import ChunkExchange.Proofs.WordRuns
import ChunkExchange.Proofs.Withdrawal
import ChunkExchange.Proofs.PrivateReputation
import ChunkExchange.Proofs.SerialService
import ChunkExchange.Proofs.FirstBest
import ChunkExchange.Proofs.Reception
import ChunkExchange.Proofs.Timeouts
import ChunkExchange.Proofs.Repetition
import ChunkExchange.Proofs.Tiling
import ChunkExchange.Proofs.ServedBytes
import ChunkExchange.Proofs.CrossedCoverage
import ChunkExchange.Proofs.CrossedReplies
import ChunkExchange.Proofs.ReplyOrder
import ChunkExchange.Proofs.Publication
import ChunkExchange.Proofs.PeerPreference
import ChunkExchange.Proofs.ProgressReports
import ChunkExchange.Proofs.Sending
import ChunkExchange.Proofs.InnerSteps
import ChunkExchange.Proofs.ReportedEnds
import ChunkExchange.Proofs.Lending
