import VynkorPlugins.Base.Serde
import VynkorPlugins.Base.Transition
import VynkorPlugins.Base.Transaction
import VynkorPlugins.Base.Table
import VynkorPlugins.Base.VersionedLog
import VynkorPlugins.Sync.Proofs.HandlerProofs
import VynkorPlugins.Sync.Proofs.MirrorProofs
import VynkorPlugins.Base.Async
import VynkorPlugins.Chats.Store
import VynkorPlugins.Chats.Calls
import VynkorPlugins.Chats.Proofs.StoreProofs
import VynkorPlugins.Chats.Sync
import VynkorPlugins.Chats.Proofs.SyncProofs
import VynkorPlugins.Chats.Worker
import VynkorPlugins.Chats.Proofs.CascadeProofs
import VynkorPlugins.Chats.Proofs.EmbedProofs
import VynkorPlugins.Base.Net
import VynkorPlugins.Audio.VoiceActivity
import VynkorPlugins.Audio.Proofs.VoiceProofs
import VynkorPlugins.Audio.Proofs.AudioProofs
import VynkorPlugins.Audio.Proofs.EndpointProofs
import VynkorPlugins.Audio.Proofs.TurnProofs
import VynkorPlugins.Audio.Speech
import VynkorPlugins.Audio.Proofs.SpeechProofs
import VynkorPlugins.Audio.Microphone
import VynkorPlugins.Audio.Proofs.MicrophoneProofs
import VynkorPlugins.Secrets.Proofs.VaultProofs
import VynkorPlugins.Network.Request
import VynkorPlugins.Network.Proofs.InflightProofs
import VynkorPlugins.Base.Shell
import VynkorPlugins.Phone.Params
import VynkorPlugins.Phone.Proofs.RemoteProofs
import VynkorPlugins.Base.Mutex
import VynkorPlugins.Phone.World
import VynkorPlugins.Phone.Proofs.CameraProofs
import VynkorPlugins.Network.Proofs.SsrfProofs
import VynkorPlugins.Automations.Rpc
import VynkorPlugins.Automations.Proofs.RpcProofs
import VynkorPlugins.Base.Pointer
import VynkorPlugins.Automations.Rules
import VynkorPlugins.Automations.Proofs.TemplateProofs
import VynkorPlugins.Automations.World
import VynkorPlugins.Automations.Proofs.TaskProofs
import VynkorPlugins.Automations.Proofs.CooldownProofs
import VynkorPlugins.Automations.Proofs.SettingsProofs
import VynkorPlugins.Base.Selection
import VynkorPlugins.VectorDb.Loaded
import VynkorPlugins.VectorDb.Proofs.LoadedProofs
import VynkorPlugins.Base.Keyed
import VynkorPlugins.VectorDb.Scan
import VynkorPlugins.VectorDb.Proofs.RowProofs
import VynkorPlugins.VectorDb.Proofs.ScanProofs
import VynkorPlugins.VectorDb.Handler
import VynkorPlugins.VectorDb.Requests
import VynkorPlugins.VectorDb.Proofs.MixProofs
import VynkorPlugins.VectorDb.Reembed
import VynkorPlugins.VectorDb.Proofs.ReembedProofs
import VynkorPlugins.VectorDb.Cache
import VynkorPlugins.VectorDb.CacheWorld
import VynkorPlugins.Base.Balance
import VynkorPlugins.VectorDb.Proofs.CacheProofs
import VynkorPlugins.VectorDb.Proofs.LockProofs
import VynkorPlugins.VectorDb.Proofs.CoherenceProofs
import VynkorPlugins.VectorDb.Proofs.BudgetProofs
import VynkorPlugins.VectorDb.Embedding
import VynkorPlugins.VectorDb.Migrate
import VynkorPlugins.VectorDb.Proofs.MigrateProofs
import VynkorPlugins.VectorDb.Proofs.BatchProofs
import VynkorPlugins.Base.Hoare
import VynkorPlugins.Base.FileTree
import VynkorPlugins.Base.FileCalls
import VynkorPlugins.Base.Proofs.FileTreeProofs
import VynkorPlugins.Filesystem.Request
import VynkorPlugins.Filesystem.Sandbox
import VynkorPlugins.Filesystem.Handler
import VynkorPlugins.Filesystem.Proofs.RelocateProofs
import VynkorPlugins.Scheduler.Model
import VynkorPlugins.Scheduler.Tasks
import VynkorPlugins.Scheduler.World
import VynkorPlugins.Scheduler.Proofs.OnceProofs
import VynkorPlugins.Scheduler.Proofs.CatchupProofs
import VynkorPlugins.Base.Breaker
import VynkorPlugins.Telegram.Antiban
import VynkorPlugins.Telegram.Calls
import VynkorPlugins.Telegram.Proofs.BreakerProofs
import VynkorPlugins.Telegram.Messages
import VynkorPlugins.Telegram.Proofs.MessageProofs
import VynkorPlugins.Base.Topics
import VynkorPlugins.Mqtt.Client
import VynkorPlugins.Mqtt.Proofs.StreamProofs
import VynkorPlugins.Mqtt.Actions
import VynkorPlugins.Mqtt.World
import VynkorPlugins.Mqtt.Proofs.ActionProofs
import VynkorPlugins.Mqtt.Proofs.RequestProofs
import VynkorPlugins.Mqtt.Proofs.SessionProofs
import VynkorPlugins.Uptime.Model
import VynkorPlugins.Uptime.Tasks
import VynkorPlugins.Uptime.World
import VynkorPlugins.Uptime.Proofs.AlertProofs
import VynkorPlugins.Audio.PushToTalk
import VynkorPlugins.Audio.Proofs.PushToTalkProofs
import VynkorPlugins.Base.Ledger
import VynkorPlugins.Rss.Tasks
import VynkorPlugins.Rss.World
import VynkorPlugins.Rss.Proofs.TaskProofs
import VynkorPlugins.Rss.Proofs.ConsistencyProofs
import VynkorPlugins.Base.Streaming
import VynkorPlugins.Ai.Provider
import VynkorPlugins.Ai.Anthropic
import VynkorPlugins.Ai.OpenAiCompat
import VynkorPlugins.Ai.Transcript
import VynkorPlugins.Base.Pieces
import VynkorPlugins.Ai.Sse
import VynkorPlugins.Ai.Db
import VynkorPlugins.Ai.Proofs.AnthropicProofs
import VynkorPlugins.Ai.Proofs.OpenAiProofs
import VynkorPlugins.Ai.Proofs.StreamProofs
import VynkorPlugins.Ai.Proofs.SlotProofs
import VynkorPlugins.Ai.Proofs.SseProofs
import VynkorPlugins.Ai.Proofs.DbProofs
import VynkorPlugins.Base.Snapshot
import VynkorPlugins.Base.Stateful
import VynkorPlugins.Scheduler.Calls
import VynkorPlugins.Scheduler.Proofs.ChangeProofs
import VynkorPlugins.Scheduler.Proofs.IdProofs
import VynkorPlugins.Scheduler.Proofs.ReplaceProofs
import VynkorPlugins.Base.Text
import VynkorPlugins.Base.Pages
import VynkorPlugins.Base.Rust
import VynkorPlugins.Base.Series
import VynkorPlugins.Base.Proofs.LikeProofs
import VynkorPlugins.Base.SqlTokens
import VynkorPlugins.Base.Proofs.SqlTokensProofs
import VynkorPlugins.Chats.Listing
import VynkorPlugins.Chats.Proofs.ListingProofs
import VynkorPlugins.Chats.Proofs.PartitionProofs
import VynkorPlugins.Calendar.Listing
import VynkorPlugins.Calendar.Proofs.ListingProofs
import VynkorPlugins.Chats.Summarize
import VynkorPlugins.Chats.Proofs.SummarizeProofs
import VynkorPlugins.Scheduler.Proofs.FailureProofs
import VynkorPlugins.Calendar.Proofs.CivilProofs
import VynkorPlugins.Calendar.Proofs.RecurrenceProofs
import VynkorPlugins.Calendar.Proofs.OverflowProofs
import VynkorPlugins.Calendar.Proofs.OccurrenceProofs
import VynkorPlugins.Calendar.Proofs.FoldProofs
import VynkorPlugins.Calendar.Proofs.RescheduleProofs
import VynkorPlugins.Calendar.Proofs.RejectProofs
import VynkorPlugins.Calendar.Model
import VynkorPlugins.Calendar.Dates
import VynkorPlugins.Calendar.Ics
import VynkorPlugins.Calendar.Tasks
import VynkorPlugins.Calendar.World
import VynkorPlugins.Calendar.Imports
import VynkorPlugins.Calendar.Reminders
import VynkorPlugins.Calendar.Proofs.ValidProofs
import VynkorPlugins.Calendar.Proofs.ImportProofs
import VynkorPlugins.Calendar.Proofs.IdProofs
import VynkorPlugins.Calendar.Proofs.ReminderProofs
import VynkorPlugins.Database.Handler
import VynkorPlugins.Database.Proofs.CapProofs
import VynkorPlugins.Database.Proofs.KeysProofs
import VynkorPlugins.Database.Proofs.CounterProofs
import VynkorPlugins.Database.Proofs.AttachProofs
import VynkorPlugins.Agent.Model
import VynkorPlugins.Agent.Engine
import VynkorPlugins.Agent.Quota
import VynkorPlugins.Agent.Proofs.EngineProofs
import VynkorPlugins.Agent.Proofs.QuotaProofs
import VynkorPlugins.Launcher.Desktop
import VynkorPlugins.Launcher.Steam
import VynkorPlugins.Launcher.Catalogue
import VynkorPlugins.Launcher.Proofs.DesktopProofs
import VynkorPlugins.Launcher.Proofs.SteamProofs
import VynkorPlugins.Launcher.Proofs.CatalogueProofs
import VynkorPlugins.Base.Proofs.DirectoryProofs
import VynkorPlugins.Base.Proofs.ReplayProofs
import VynkorPlugins.GatedWrite.Handler
import VynkorPlugins.GatedWrite.Proofs.HandlerProofs
import VynkorPlugins.Hotkey.Bindings
import VynkorPlugins.Hotkey.Portal
import VynkorPlugins.Hotkey.Proofs.TriggerProofs
import VynkorPlugins.Hotkey.Proofs.PortalProofs
import VynkorPlugins.Calendar.Proofs.DateProofs
import VynkorPlugins.Network.Cache
import VynkorPlugins.Network.Proofs.CacheProofs
import VynkorPlugins.Agent.Proofs.TraceProofs
