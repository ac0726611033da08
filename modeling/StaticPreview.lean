import StaticPreview.Command.Invocation
import StaticPreview.Command.Run
import StaticPreview.Command.Scaffold
import StaticPreview.Command.Switch
import StaticPreview.Component.Closing
import StaticPreview.Component.Operand
import StaticPreview.Conversion
import StaticPreview.Disk.Basic
import StaticPreview.Disk.Entry
import StaticPreview.Html.Escape
import StaticPreview.Html.Reference
import StaticPreview.Http.Basic
import StaticPreview.Http.Files
import StaticPreview.Http.MediaType
import StaticPreview.Http.MediaType.Extensions
import StaticPreview.Http.Percent
import StaticPreview.Json.Reader
import StaticPreview.Json.Record
import StaticPreview.Json.Value
import StaticPreview.Main
import StaticPreview.Markup.Attribute
import StaticPreview.Markup.AttributeHtml
import StaticPreview.Markup.Balance
import StaticPreview.Markup.Braces
import StaticPreview.Markup.Node
import StaticPreview.Markup.Render
import StaticPreview.Markup.Style
import StaticPreview.Markup.Tag
import StaticPreview.Markup.TextRun
import StaticPreview.Page.Document
import StaticPreview.Page.Stylesheet
import StaticPreview.Path
import StaticPreview.Project.Settings
import StaticPreview.Proofs.Component.Callback
import StaticPreview.Proofs.Component.Closing
import StaticPreview.Proofs.Component.ClosingReturn
import StaticPreview.Proofs.Component.EarlyReturn
import StaticPreview.Proofs.Component.Fragment
import StaticPreview.Proofs.Component.Operand
import StaticPreview.Proofs.Component.Returns
import StaticPreview.Proofs.Disk.Action
import StaticPreview.Proofs.Disk.Below
import StaticPreview.Proofs.Disk.Entry
import StaticPreview.Proofs.Disk.Kept
import StaticPreview.Proofs.Disk.Layout
import StaticPreview.Proofs.Disk.Names
import StaticPreview.Proofs.Disk.Puts
import StaticPreview.Proofs.Disk.Reading
import StaticPreview.Proofs.Disk.Resolve
import StaticPreview.Proofs.Disk.Visits
import StaticPreview.Proofs.Disk.Walk
import StaticPreview.Proofs.Disk.Written
import StaticPreview.Proofs.Html.Canonical
import StaticPreview.Proofs.Html.Decoder
import StaticPreview.Proofs.Html.Elements
import StaticPreview.Proofs.Html.Joined
import StaticPreview.Proofs.Html.Reader
import StaticPreview.Proofs.Html.Replaced
import StaticPreview.Proofs.Html.Safe
import StaticPreview.Proofs.Html.Texts
import StaticPreview.Proofs.Json.Roundtrip
import StaticPreview.Proofs.Json.Strings
import StaticPreview.Proofs.Markup.Balanced
import StaticPreview.Proofs.Markup.Behind
import StaticPreview.Proofs.Markup.Collapse
import StaticPreview.Proofs.Markup.Comment
import StaticPreview.Proofs.Markup.Declaration
import StaticPreview.Proofs.Markup.Emitted
import StaticPreview.Proofs.Markup.Forest
import StaticPreview.Proofs.Markup.Group
import StaticPreview.Proofs.Markup.GroupReading
import StaticPreview.Proofs.Markup.Handlers
import StaticPreview.Proofs.Markup.Margins
import StaticPreview.Proofs.Markup.Name
import StaticPreview.Proofs.Markup.Opener
import StaticPreview.Proofs.Markup.OpeningTag
import StaticPreview.Proofs.Markup.Reading
import StaticPreview.Proofs.Markup.Recovery
import StaticPreview.Proofs.Markup.Rerendered
import StaticPreview.Proofs.Markup.Settled
import StaticPreview.Proofs.Markup.Sought
import StaticPreview.Proofs.Markup.StyleAttribute
import StaticPreview.Proofs.Markup.StyleObject
import StaticPreview.Proofs.Markup.Token
import StaticPreview.Proofs.Markup.Written
import StaticPreview.Proofs.Markup.WrittenTag
import StaticPreview.Proofs.Page.Handlers
import StaticPreview.Proofs.Page.Names
import StaticPreview.Proofs.Page.Root
import StaticPreview.Proofs.Page.StyleElement
import StaticPreview.Proofs.Page.Stylesheet
import StaticPreview.Proofs.Path.Under
import StaticPreview.Proofs.Place.Attribute
import StaticPreview.Proofs.Place.Balance
import StaticPreview.Proofs.Place.Checked
import StaticPreview.Proofs.Place.Component
import StaticPreview.Proofs.Place.Conversion
import StaticPreview.Proofs.Place.Document
import StaticPreview.Proofs.Place.Escape
import StaticPreview.Proofs.Place.Group
import StaticPreview.Proofs.Place.GroupStop
import StaticPreview.Proofs.Place.Loop
import StaticPreview.Proofs.Place.Progress
import StaticPreview.Proofs.Place.Render
import StaticPreview.Proofs.Place.Tag
import StaticPreview.Proofs.Place.TextRun
import StaticPreview.Proofs.Place.Token
import StaticPreview.Proofs.Server.Broadcast
import StaticPreview.Proofs.Server.Burst
import StaticPreview.Proofs.Server.Hub
import StaticPreview.Proofs.Server.Listener
import StaticPreview.Proofs.Server.Logical
import StaticPreview.Proofs.Server.Memo
import StaticPreview.Proofs.Server.Order
import StaticPreview.Proofs.Server.OtherSources
import StaticPreview.Proofs.Server.Public
import StaticPreview.Proofs.Server.Rescan
import StaticPreview.Proofs.Server.Run
import StaticPreview.Proofs.Server.Shell
import StaticPreview.Proofs.Server.Status
import StaticPreview.Proofs.Server.Views
import StaticPreview.Proofs.Server.Visit
import StaticPreview.Proofs.Site.Built
import StaticPreview.Proofs.Site.Complete
import StaticPreview.Proofs.Site.Frame
import StaticPreview.Proofs.Site.Index
import StaticPreview.Proofs.Site.Listing
import StaticPreview.Proofs.Site.Overwrite
import StaticPreview.Proofs.Site.Page
import StaticPreview.Proofs.Site.Schedule
import StaticPreview.Proofs.Sources.Frame
import StaticPreview.Proofs.Sources.Loads
import StaticPreview.Proofs.Sources.Scan
import StaticPreview.Proofs.Sources.Texts
import StaticPreview.Proofs.Sources.Walk
import StaticPreview.Proofs.Text.ByteOrder
import StaticPreview.Proofs.Text.Characters
import StaticPreview.Proofs.Text.Lines
import StaticPreview.Proofs.Text.Pieces
import StaticPreview.Proofs.Text.Prepend
import StaticPreview.Proofs.Text.Raw
import StaticPreview.Proofs.Text.Readers
import StaticPreview.Proofs.Text.Runs
import StaticPreview.Proofs.Text.Trim
import StaticPreview.Proofs.Text.Words
import StaticPreview.Proofs.Watch.Burst
import StaticPreview.Server.Address
import StaticPreview.Server.ClientScript
import StaticPreview.Server.Hub
import StaticPreview.Server.Message
import StaticPreview.Server.MessageReader
import StaticPreview.Server.Routes
import StaticPreview.Server.Session
import StaticPreview.Server.Settings
import StaticPreview.Server.Shell
import StaticPreview.Server.State
import StaticPreview.Site.Build
import StaticPreview.Site.Manifest
import StaticPreview.Sources
import StaticPreview.Text.Blank
import StaticPreview.Text.Cut
import StaticPreview.Text.Digest
import StaticPreview.Text.Digits
import StaticPreview.Text.Line
import StaticPreview.Text.Magnitude
import StaticPreview.Text.Raw
import StaticPreview.Text.Reader
import StaticPreview.Text.Shown
import StaticPreview.Text.Width
import StaticPreview.Text.Word
import StaticPreview.Toml.Document
import StaticPreview.Toml.Moment
import StaticPreview.Toml.Number
import StaticPreview.Toml.Quoted
import StaticPreview.Toml.Space
import StaticPreview.Toml.Value
import StaticPreview.Watch.Change
import StaticPreview.Watch.Event
import StaticPreview.Watch.Watcher
