import ATape.Capture.Versions
import ATape.Canonical.Convergence
import ATape.Canonical.Integrity
import ATape.Canonical.Versions
import ATape.Redaction.Guarantee
import ATape.Raw.Reading
import ATape.Raw.Transport
import ATape.Ingestion.Panics
import ATape.Ingestion.Threads
import ATape.Ingestion.Keys
import ATape.Publication.Store
import ATape.Team.GuessBound
import ATape.Update.Recovery
import ATape.Release.Rollback
import ATape.Release.Merging
import ATape.Release.Bodies
import ATape.CodeBuddy.History
import ATape.Codex.SourceOrder
import ATape.OpenCode.Guarantee
import ATape.Authentication.Histories
import ATape.Analytics.Agreement
import ATape.Overview.Independence
import ATape.Overview.Wrappers
import ATape.Search.Memory
import ATape.Preparation.Unchanged
import ATape.Authentication.Accounts
import ATape.Canonical.Projectors
import ATape.Publication.Histories
