import AssemblyBrowser.Engine.Callers
import AssemblyBrowser.Main
import AssemblyBrowser.Proofs.Browser.Removal
import AssemblyBrowser.Proofs.Browser.Shown
import AssemblyBrowser.Proofs.Engine.Arguments
import AssemblyBrowser.Proofs.Engine.Attribution
import AssemblyBrowser.Proofs.Engine.Bookkeeping
import AssemblyBrowser.Proofs.Engine.Delivery
import AssemblyBrowser.Proofs.Engine.Endurance
import AssemblyBrowser.Proofs.Engine.Lifecycle
import AssemblyBrowser.Proofs.Engine.Locator
import AssemblyBrowser.Proofs.Engine.Overtaking
import AssemblyBrowser.Proofs.Engine.Patience
import AssemblyBrowser.Proofs.Engine.Rehydration
import AssemblyBrowser.Proofs.Engine.Shutdown
import AssemblyBrowser.Proofs.Engine.Snapshot
import AssemblyBrowser.Proofs.Engine.Supersession
import AssemblyBrowser.Proofs.Engine.Tracing
import AssemblyBrowser.Proofs.Engine.Upshot
import AssemblyBrowser.Proofs.EnvFile.RoundTrip
import AssemblyBrowser.Proofs.FileSystem.Confinement
import AssemblyBrowser.Proofs.FileSystem.Misleading
import AssemblyBrowser.Proofs.Format
import AssemblyBrowser.Proofs.Protocol.Absence
import AssemblyBrowser.Proofs.Protocol.Reply
import AssemblyBrowser.Proofs.Report
import AssemblyBrowser.Proofs.Settings.Precedence
import AssemblyBrowser.Proofs.Tree.Cancellation
import AssemblyBrowser.Proofs.Tree.Detached
import AssemblyBrowser.Proofs.Tree.Disturbance
import AssemblyBrowser.Proofs.Tree.Harmless
import AssemblyBrowser.Proofs.Tree.Holding
import AssemblyBrowser.Proofs.Tree.KeyLookup
import AssemblyBrowser.Proofs.Tree.Listing
import AssemblyBrowser.Proofs.Tree.Memo
import AssemblyBrowser.Proofs.Tree.Parents
import AssemblyBrowser.Proofs.Tree.Remembrance
import AssemblyBrowser.Tree.Script
