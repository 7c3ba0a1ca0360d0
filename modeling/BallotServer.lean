import BallotServer.Main
import BallotServer.Proofs.CacheHistory
import BallotServer.Proofs.StoreHistory
import BallotServer.Server.Respond
import BallotServer.Store.Invite
import BallotServer.Proofs.Serving
import BallotServer.Proofs.Derivation
import BallotServer.Proofs.Freshness
import BallotServer.Proofs.Records
import BallotServer.Proofs.Effects
import BallotServer.Proofs.Faithful
import BallotServer.Proofs.Rendered
import BallotServer.Proofs.Transparency
import BallotServer.Proofs.CacheBudget
import BallotServer.Proofs.RenderOnce
import BallotServer.Proofs.CacheCalls
import BallotServer.Proofs.Failures
import BallotServer.Proofs.Paths
import BallotServer.Proofs.Storing
import BallotServer.Proofs.Journal
import BallotServer.Proofs.Containment
import BallotServer.Proofs.Connections
import BallotServer.Proofs.CacheAccounting
import BallotServer.Proofs.CacheEviction
import BallotServer.Proofs.DrawReply
import BallotServer.Proofs.WholeOutputs
import BallotServer.Proofs.Base64Text
import BallotServer.Proofs.PathLanguage
import BallotServer.Proofs.Decimals
import BallotServer.Proofs.Sessions
import BallotServer.Proofs.CookieNoise
import BallotServer.Proofs.JsonReading
import BallotServer.Proofs.JsonStrings
import BallotServer.Proofs.Documents
import BallotServer.Proofs.ScanArchive
import BallotServer.Proofs.Uploads
import BallotServer.Proofs.Abandoned
import BallotServer.Proofs.LinkPaths
import BallotServer.Proofs.StoreContract
import BallotServer.Proofs.InviteHistory
import BallotServer.Proofs.SweepInterval
import BallotServer.Proofs.OptionsAndVariables
import BallotServer.Proofs.CookieKeys
