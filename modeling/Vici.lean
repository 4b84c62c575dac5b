import Vici.LeastCostSubset
import Vici.Money
import Vici.Datetimes
import Vici.Models
import Vici.MatchSelection
import Vici.SelectionTies
import Vici.SessionPrograms
import Vici.CoupledRuns
import Vici.AppPrograms
import Vici.JobRepository
import Vici.MatchService
import Vici.PersistedMatches
import Vici.SmsRepositories
import Vici.ActionRuns
import Vici.Webhook
import Vici.Redelivery
import Vici.DeliveryFootprints
import Vici.DeliveryRaces
import Vici.RateLimiter
import Vici.RateLimitPurge
import Vici.RateLimitRaces
import Vici.RowCreation
import Vici.MoneyMigration
import Vici.MatchFormatter
import Vici.ReplyLines
import Vici.KeyedRows
import Vici.MonitoredSources
import Vici.SyncQueueRepository
import Vici.DepthGauges
import Vici.Handlers
import Vici.Orchestrator
import Vici.Attempts
import Vici.SyncSweeps
import Vici.SweepActivity
import Vici.DeferredUpserts
import Vici.Replies
import Vici.CandidateRetrieval
import Vici.DeadlineRule
import Vici.OfferedJobs
import Vici.MatchReplies
import Vici.PosterPhones
import Vici.EmbeddingDocuments
import Vici.StorableExtractions
import Vici.WorkflowFailures
import Vici.RecordedOffers
import Vici.ServiceRuns
import Vici.TableIntegrity
import Vici.AuditJournal
import Vici.AnswersOnRecord
import Vici.IntegerLiterals
import Vici.ClosedIndex
import Vici.QueueDraining
import Vici.SettledMessages
import Vici.OfferTotals
import Vici.HandedOver
import Vici.MigratedTables
import Vici.Rollbacks
