import Phyllonix.RelyGuarantee
import Phyllonix.RelationalEvolution
import Phyllonix.PaymentWebhook
import Phyllonix.CommitIntentWorker
import Phyllonix.CartRoutes
import Phyllonix.RelationalChange
import Phyllonix.CommitIntentStock
import Phyllonix.OrderTotals
import Phyllonix.CommitIntentRuns
import Phyllonix.CheckoutReservations
import Phyllonix.PaymentSettlement
import Phyllonix.WebhookRuns
import Phyllonix.RelationalSolo
import Phyllonix.ShopPlays
import Phyllonix.WebhookFrame
import Phyllonix.ConfirmProtocol
import Phyllonix.ConfirmRequests
import Phyllonix.ConfirmAnswers
import Phyllonix.ConfirmRuns
import Phyllonix.ConfirmReplay
import Phyllonix.WebhookAnswers
import Phyllonix.WebhookRedelivery
import Phyllonix.CartSnapshots
import Phyllonix.RelationalLog
import Phyllonix.RelationalStatements
import Phyllonix.RelationalUpheld
import Phyllonix.AuthSchema
import Phyllonix.AuthRoutes
import Phyllonix.AuthActions
import Phyllonix.AuthLedger
import Phyllonix.AuthRequests
import Phyllonix.AuthHandlers
import Phyllonix.TokenRotation
import Phyllonix.PasswordChange
import Phyllonix.AdminRoutes
import Phyllonix.TokenVersions
import Phyllonix.StaleRoles
import Phyllonix.TransitionRuns
import Phyllonix.CircuitBreaker
import Phyllonix.CircuitRuns
import Phyllonix.DbRetries
import Phyllonix.RetrySteps
import Phyllonix.ProbePermits
import Phyllonix.CircuitProbes
import Phyllonix.ProbeOutcomes
import Phyllonix.RetryFailures
import Phyllonix.RedisScripts
import Phyllonix.RateLimiting
import Phyllonix.SlidingWindow
import Phyllonix.AccountRoutes
import Phyllonix.SessionLogout
import Phyllonix.AuthPlays
import Phyllonix.RelationalAlone
import Phyllonix.AccountActions
import Phyllonix.SignupLogin
import Phyllonix.RefreshLinks
import Phyllonix.FallbackInsertions
import Phyllonix.RoleChanges
import Phyllonix.ScriptDigests
import Phyllonix.NumeralTexts
import Phyllonix.Base64Texts
import Phyllonix.IsoDateTimes
import Phyllonix.JsonTexts
import Phyllonix.ProductCursor
import Phyllonix.KeysetPages
import Phyllonix.ProductListing
import Phyllonix.AsyncPrograms
import Phyllonix.CacheStore
import Phyllonix.ListingCache
import Phyllonix.DetailCache
import Phyllonix.CashOnDelivery
import Phyllonix.RelationalAllowance
import Phyllonix.CheckoutInitiation
import Phyllonix.UserRows
import Phyllonix.UserWrites
import Phyllonix.UserIsolation
import Phyllonix.WebhookRecovery
import Phyllonix.RelationalScripted
import Phyllonix.PaymentAttempts
import Phyllonix.AttemptAudit
import Phyllonix.SummaryRepeats
import Phyllonix.OrderEntries
import Phyllonix.OrderReconciliation
import Phyllonix.OrderBooks
import Phyllonix.RetriedOutcomes
import Phyllonix.RetryLoops
import Phyllonix.RetryLaw
import Phyllonix.RelationalTraces
import Phyllonix.PaymentRetries
import Phyllonix.IntentBudget
import Phyllonix.InitiationAnswers
import Phyllonix.AsyncLoops
import Phyllonix.SentinelPools
import Phyllonix.PubSubWorker
import Phyllonix.WorkerPool
import Phyllonix.OutboxPublisher
import Phyllonix.PublisherLeases
import Phyllonix.UploadEvents
import Phyllonix.UploadNotifications
import Phyllonix.RelationalPool
import Phyllonix.OutboxTasks
import Phyllonix.OutboxDispatch
import Phyllonix.SummaryReplies
import Phyllonix.CursorTokens
import Phyllonix.ListingKeys
import Phyllonix.LockOwners
import Phyllonix.DetailVersions
import Phyllonix.RetryAfter
import Phyllonix.RelationalWatch
import Phyllonix.CartLines
import Phyllonix.RelationalOutcomes
import Phyllonix.CartActions
import Phyllonix.CartOwners
import Phyllonix.OutOfStockAdds
import Phyllonix.ProcessNumbers
import Phyllonix.HandlerIsolation
import Phyllonix.ImageDeliveries
import Phyllonix.SharedChecksums
import Phyllonix.DownloadedFiles
import Phyllonix.ImageIntents
import Phyllonix.LockKeys
import Phyllonix.TextPatterns
import Phyllonix.LogRedaction
import Phyllonix.AbstractMachines
import Phyllonix.RelationalHistory
import Phyllonix.CatalogueListing
import Phyllonix.OrderAccounts
import Phyllonix.RoleConfinement
import Phyllonix.ListingStaleness
import Phyllonix.AccountTakeovers
