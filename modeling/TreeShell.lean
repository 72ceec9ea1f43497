import TreeShell.Main
import TreeShell.Web.Endpoint
import TreeShell.Proofs.Tree.Subtree
import TreeShell.Proofs.Tree.Planting
import TreeShell.Proofs.Tree.Values
import TreeShell.Proofs.Tree.Edits
import TreeShell.Proofs.Tree.Outcomes
import TreeShell.Proofs.Volume.Requests
import TreeShell.Proofs.Volume.Refinement
import TreeShell.Proofs.Volume.Saving
import TreeShell.Proofs.Session.Effects
import TreeShell.Proofs.Session.Actions
import TreeShell.Proofs.Boot
import TreeShell.Proofs.Pool
import TreeShell.Proofs.Session.Frames
import TreeShell.Proofs.Session.Lines
import TreeShell.Proofs.Path
import TreeShell.Proofs.Tree.Records
import TreeShell.Proofs.Volume.Installing
import TreeShell.Proofs.Reboot
import TreeShell.Proofs.Session.Bindings
import TreeShell.Proofs.Session.Descriptors
import TreeShell.Proofs.Session.Home
import TreeShell.Proofs.Session.Pipes
import TreeShell.Proofs.Volume.Refusals
import TreeShell.Proofs.Storage
import TreeShell.Proofs.Stopping
import TreeShell.Proofs.Session.Printing
import TreeShell.Proofs.Session.Ownership
import TreeShell.Proofs.Session.Halting
import TreeShell.Proofs.Volume.Moving
import TreeShell.Proofs.Volume.Addressing
import TreeShell.Proofs.CompletedLines
import TreeShell.Proofs.Climbing
import TreeShell.Proofs.Session.Confinement
import TreeShell.Proofs.Session.Openings
import TreeShell.Proofs.Session.Reports
import TreeShell.Proofs.Session.Aliases
import TreeShell.Proofs.Volume.Units
import TreeShell.Proofs.Session.Copying
import TreeShell.Proofs.Session.Removing
import TreeShell.Proofs.Session.Returning
import TreeShell.Proofs.Session.Portions
import TreeShell.Proofs.Session.Routes
import TreeShell.Proofs.Deliveries
import TreeShell.Proofs.Line.Options
import TreeShell.Proofs.Session.Ways
import TreeShell.Proofs.Candidates
import TreeShell.Proofs.Host.Import
import TreeShell.Proofs.Web
