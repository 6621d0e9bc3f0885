import TraceViewer.Chart
import TraceViewer.CommandLine
import TraceViewer.Element.Basic
import TraceViewer.Element.Identifier
import TraceViewer.Element.Label
import TraceViewer.Error
import TraceViewer.Export
import TraceViewer.Files.Error
import TraceViewer.Files.Path
import TraceViewer.Files.Store
import TraceViewer.Graph.Entry
import TraceViewer.Graph.Load
import TraceViewer.Graph.Quoted
import TraceViewer.Interaction.Hover
import TraceViewer.Interaction.Session
import TraceViewer.Interaction.View
import TraceViewer.Main
import TraceViewer.Proofs.CommandLine.Lines
import TraceViewer.Proofs.CommandLine.Paths
import TraceViewer.Proofs.CommandLine.Words
import TraceViewer.Proofs.Element.FirstValues
import TraceViewer.Proofs.Element.Identifier
import TraceViewer.Proofs.Element.Label
import TraceViewer.Proofs.Element.Roles
import TraceViewer.Proofs.Files.Copy
import TraceViewer.Proofs.Files.Directories
import TraceViewer.Proofs.Files.Names
import TraceViewer.Proofs.Files.Targets
import TraceViewer.Proofs.Graph.Delimiters
import TraceViewer.Proofs.Graph.Document
import TraceViewer.Proofs.Graph.Elements
import TraceViewer.Proofs.Graph.Entries
import TraceViewer.Proofs.Graph.Joined
import TraceViewer.Proofs.Graph.LineEnds
import TraceViewer.Proofs.Graph.Spelling
import TraceViewer.Proofs.Interaction.Calls
import TraceViewer.Proofs.Interaction.Exports
import TraceViewer.Proofs.Interaction.Looks
import TraceViewer.Proofs.Interaction.Renders
import TraceViewer.Proofs.Lookup
import TraceViewer.Proofs.Screen.Attention
import TraceViewer.Proofs.Screen.BinsGestures
import TraceViewer.Proofs.Screen.Calls
import TraceViewer.Proofs.Screen.Commits
import TraceViewer.Proofs.Screen.Current
import TraceViewer.Proofs.Screen.Layout
import TraceViewer.Proofs.Screen.Loads
import TraceViewer.Proofs.Screen.Runs
import TraceViewer.Proofs.Screen.Sittings
import TraceViewer.Proofs.Screen.Tooltips
import TraceViewer.Proofs.Search.Cells
import TraceViewer.Proofs.Search.Found
import TraceViewer.Proofs.Search.Matches
import TraceViewer.Proofs.Search.Restriction
import TraceViewer.Proofs.Search.Stale
import TraceViewer.Proofs.Session.Calls
import TraceViewer.Proofs.Session.Exports
import TraceViewer.Proofs.Session.History
import TraceViewer.Proofs.Session.Images
import TraceViewer.Proofs.Session.Launches
import TraceViewer.Proofs.Text.Blank
import TraceViewer.Proofs.Text.Forms
import TraceViewer.Proofs.Text.Pieces
import TraceViewer.Proofs.Text.PlainForms
import TraceViewer.Proofs.Tracer.Arguments
import TraceViewer.Proofs.Tracer.Printed
import TraceViewer.Screen.App
import TraceViewer.Screen.BinsField
import TraceViewer.Screen.ChartWindow
import TraceViewer.Screen.Layout
import TraceViewer.Screen.Model
import TraceViewer.Screen.Painted
import TraceViewer.Screen.Sitting
import TraceViewer.Search.Filter
import TraceViewer.Search.Score
import TraceViewer.Text.Blank
import TraceViewer.Text.Decimal
import TraceViewer.Text.FormPairs
import TraceViewer.Text.Utf8
import TraceViewer.Tracer.Arguments
import TraceViewer.Tracer.Basic
import TraceViewer.Tracer.Process
import TraceViewer.Tracer.Script
