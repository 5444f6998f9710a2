import BcForge.Soroban.Run
import BcForge.Soroban.Sep41
import BcForge.Soroban.Tokens
import BcForge.Soroban.Respects
import BcForge.Soroban.Publish
import BcForge.Soroban.Frame
import BcForge.Soroban.Ignores
import BcForge.Soroban.Delay
import BcForge.Soroban.Window
import BcForge.Soroban.Tumbling
import BcForge.Soroban.Requests
import BcForge.Admin.Rbac
import BcForge.Admin.Flow
import BcForge.Admin.Frame
import BcForge.Admin.Spec
import BcForge.Admin.Upgrades
import BcForge.Admin.UpgradeTimelock
import BcForge.Admin.Privilege
import BcForge.Admin.Invariant
import BcForge.Admin.Quorum
import BcForge.Admin.Lifecycle
import BcForge.Admin.Timelock
import BcForge.Admin.Roster
import BcForge.Admin.RoleViews
import BcForge.Admin.Listing
import BcForge.Admin.Ballots
import BcForge.Admin.MigrateAdmin
import BcForge.Migrations.RbacMigration
import BcForge.Lifecycle
import BcForge.RateLimit
import BcForge.RateLimit.Bound
import BcForge.RateLimit.Denied
import BcForge.Wrapper.Math
import BcForge.Wrapper.Contract
import BcForge.Wrapper.Book
import BcForge.Wrapper.Spec
import BcForge.Wrapper.Solvency
import BcForge.Wrapper.RoundTrip
import BcForge.Wrapper.Shares
import BcForge.Wrapper.SharePrice
import BcForge.Wrapper.ProRata
import BcForge.Wrapper.Preview
import BcForge.Wrapper.Queue
import BcForge.Wrapper.EmergencyCap
import BcForge.Wrapper.Custody
import BcForge.YieldVault.Contract
import BcForge.YieldVault.Spec
import BcForge.YieldVault.Solvency
import BcForge.YieldVault.Dilution
import BcForge.YieldVault.Mocked
import BcForge.Token.Contract
import BcForge.Token.Frame
import BcForge.Token.Books
import BcForge.Token.Standard
import BcForge.Token.Custody
import BcForge.Token.Outsiders
import BcForge.Token.Emitting
import BcForge.Token.Spec
import BcForge.Token.Ledger
import BcForge.Token.Conservation
import BcForge.Token.Cap
import BcForge.Token.Privilege
import BcForge.Token.Ownership
import BcForge.Token.Allowance
import BcForge.Token.Delegated
import BcForge.Token.BatchTransfer
import BcForge.Token.Lockup
import BcForge.Token.Appointments
import BcForge.Pause
import BcForge.Authorization
import BcForge.Vesting.Contract
import BcForge.Vesting.Spec
import BcForge.Vesting.Solvency
import BcForge.Vesting.Curve
import BcForge.Vesting.Regular
import BcForge.Vesting.Overflow
import BcForge.Vesting.Payout
import BcForge.Vesting.Releases
import BcForge.Vesting.Payday
import BcForge.Split.Contract
import BcForge.Split.Spec
import BcForge.Split.Payouts
import BcForge.Split.Bookkeeping
import BcForge.Split.Records
import BcForge.Split.Isolation
import BcForge.Split.Retries
import BcForge.Split.Outcome
import BcForge.Relational.Unique
import BcForge.Relational.Paging
import BcForge.Relational.Positions
import BcForge.Messaging.Bus
import BcForge.Messaging.Retry
import BcForge.Indexer.Ledger
import BcForge.Indexer.Events
import BcForge.Indexer.Store
import BcForge.Indexer.Aggregates
import BcForge.Indexer.Api
import BcForge.Indexer.Faithful
import BcForge.Indexer.Chain
import BcForge.Indexer.EndToEnd
import BcForge.Indexer.Cursor
import BcForge.Indexer.ForkPoint
import BcForge.Indexer.Rollback
import BcForge.Indexer.Runner
import BcForge.Indexer.Reorg
import BcForge.Indexer.Announcements
import BcForge.Remote.Talk
import BcForge.Remote.Trace
import BcForge.Sdk.Emitted
import BcForge.Sdk.Events
import BcForge.Sdk.Codec
import BcForge.Sdk.Listeners
import BcForge.Sdk.ExactlyOnce
import BcForge.Sdk.Network
import BcForge.Sdk.Submit
import BcForge.Sdk.Sends
import BcForge.Sdk.Fees
import BcForge.Sdk.LostReply
import BcForge.Sdk.AtMostOnce
import BcForge.Text.Slice
import BcForge.Text.Decimal
import BcForge.Amounts
import BcForge.Js.Object
import BcForge.Js.Method
import BcForge.Sdk.MockClient
import BcForge.Sdk.Mocked
import BcForge.Sdk.MockVault
import BcForge.Cli.Files
import BcForge.Cli.Registry
import BcForge.Cli.Lookup
import BcForge.Cli.AddressBook
import BcForge.FlashLoanGuard
import BcForge.Concurrent.Isolation
import BcForge.React.Disconnect
