import AdWiki.Lib.Keyset
import AdWiki.Lib.Runs
import AdWiki.Lib.Rows
import AdWiki.Lib.Chronicle
import AdWiki.Lib.Interleave
import AdWiki.Lib.IpAddress
import AdWiki.Lib.Fallible
import AdWiki.Common.JsString
import AdWiki.Common.SecretEncryption
import AdWiki.Mcp.OAuth
import AdWiki.Mcp.Statements
import AdWiki.Mcp.Origin
import AdWiki.Mcp.CodeFlow
import AdWiki.Mcp.Reuse
import AdWiki.Auth.Session
import AdWiki.Auth.AuthService
import AdWiki.Auth.Families
import AdWiki.Auth.Revocation
import AdWiki.Auth.ProviderCheck
import AdWiki.Auth.ReadCommitted
import AdWiki.Auth.LastSignIn
import AdWiki.Auth.OidcLogin
import AdWiki.Auth.OidcStatements
import AdWiki.Auth.OidcOrigin
import AdWiki.Auth.OidcTraced
import AdWiki.Auth.LogoutRace
import AdWiki.Wiki.Page
import AdWiki.Wiki.PageEdits
import AdWiki.Wiki.OptimisticLock
import AdWiki.Access.Catalog
import AdWiki.Access.Directory
import AdWiki.Lib.OrderedMap
import AdWiki.Access.Authority
import AdWiki.Access.OneAuthority
import AdWiki.Access.Delegation
import AdWiki.Access.Ways
import AdWiki.Access.Ceiling
import AdWiki.Access.NoEscalation
import AdWiki.Lib.Ancestors
import AdWiki.Wiki.Tables
import AdWiki.Access.Target
import AdWiki.Access.Hierarchy
import AdWiki.Access.ResourceAccess
import AdWiki.Access.Resolution
import AdWiki.Access.Batch
import AdWiki.Access.Readable
import AdWiki.Lib.Fresh
import AdWiki.Wiki.PagesService
import AdWiki.Wiki.PageTree
import AdWiki.Wiki.PageHistory
import AdWiki.Wiki.PageCalls
import AdWiki.Wiki.Navigation
import AdWiki.Lib.Arborescence
import AdWiki.Wiki.KnowledgeGraph
import AdWiki.Standards.Standard
import AdWiki.Standards.Service
import AdWiki.Standards.Approval
import AdWiki.Standards.History
import AdWiki.Sso.Tables
import AdWiki.Sso.Claims
import AdWiki.Sso.Synchronization
import AdWiki.Sso.SyncEffects
import AdWiki.Sso.ExactSync
import AdWiki.Sso.Memberships
import AdWiki.Backups.WriteBarrier
import AdWiki.Backups.Schedule
import AdWiki.Backups.Tables
import AdWiki.Backups.JobQueue
import AdWiki.Backups.ActiveBackups
import AdWiki.Backups.Scheduler
import AdWiki.Integrations.Texts
import AdWiki.Integrations.Tables
import AdWiki.Integrations.TodoSync
import AdWiki.Integrations.Cells
import AdWiki.Integrations.SyncLoops
import AdWiki.Integrations.Quiescence
import AdWiki.Lib.Buckets
import AdWiki.Backups.Retention
import AdWiki.Sso.RoleMappings
import AdWiki.Sso.RoleGrants
import AdWiki.Sso.AdminMapping
import AdWiki.Sso.OidcUrlSecurity
import AdWiki.Knowledge.StandardsEvaluation
import AdWiki.Knowledge.TagRanking
import AdWiki.Knowledge.TagSuggestions
import AdWiki.Common.Cursor
import AdWiki.Knowledge.KnowledgeAccess
import AdWiki.Knowledge.KnowledgeSearch
import AdWiki.Audit.AuditLog
import AdWiki.Knowledge.RuleConflicts
import AdWiki.Knowledge.KnowledgeWrite
import AdWiki.Wiki.SpacesService
import AdWiki.Wiki.SpaceKinds
import AdWiki.Wiki.StandardLinks
import AdWiki.ApiClient.Http
import AdWiki.ApiClient.SingleFlight
import AdWiki.ApiClient.Logout
import AdWiki.Common.Path
import AdWiki.Lib.Json
import AdWiki.Common.IsoDate
import AdWiki.Lib.Utf8
import AdWiki.Lib.Base64Url
import AdWiki.Backups.Artifact
import AdWiki.Backups.ArtifactIntegrity
import AdWiki.Backups.MountPaths
import AdWiki.Backups.RestoreRunbook
import AdWiki.Backups.RestorePaths
import AdWiki.Wiki.PageLinks
import AdWiki.Lib.Calendar
import AdWiki.Lib.Clocks
import AdWiki.Backups.ScheduledRuns
import AdWiki.Wiki.PagePatches
import AdWiki.Lib.Containers
import AdWiki.Web.SidebarTree
import AdWiki.Web.SidebarMirror
import AdWiki.Web.SidebarDrop
import AdWiki.Backups.ArchiveCheck
import AdWiki.Lib.Lines
import AdWiki.Web.VersionDiff
import AdWiki.Lib.Paging
import AdWiki.Search.MediaSearch
import AdWiki.Lib.Checklist
import AdWiki.Content.ToggleCheckbox
import AdWiki.Content.ChecklistLens
import AdWiki.Wiki.Slugs
import AdWiki.Content.ShownTasks
import AdWiki.Web.TableOfContents
import AdWiki.Lib.Separators
import AdWiki.Mcp.RateLimit
import AdWiki.Backups.WeekBuckets
import AdWiki.Media.FileInspection
import AdWiki.Wiki.Tags
import AdWiki.Lib.ObjectTree
import AdWiki.Lib.ObjectHeap
import AdWiki.Sso.ClaimPaths
import AdWiki.Access.NoteSharing
import AdWiki.Export.FileNames
import AdWiki.Export.WikiArchive
import AdWiki.Lib.Deletion
import AdWiki.Export.Sanitising
import AdWiki.Knowledge.CursorPagination
