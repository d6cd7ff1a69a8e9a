import Kbox.Framework.Runs
import Kbox.Framework.Exceptions
import Kbox.Framework.Arrays
import Kbox.Framework.ScrollBuffer
import Kbox.Framework.Handoff
import Kbox.Framework.Monitor
import Kbox.Util.ByteQueue
import Kbox.Util.BlockWriter
import Kbox.Util.QueueThreads
import Kbox.Util.QueueWakeups
import Kbox.Emulatorview.TermSession
import Kbox.Session.TermSession
import Kbox.Session.TranscriptScreen
import Kbox.Session.TranscriptScreenSpec
import Kbox.Session.ScreenRefinement
import Kbox.Session.ScreenRuns
import Kbox.Framework.Keeps
import Kbox.Emulatorview.Platform
import Kbox.Emulatorview.TextStyle
import Kbox.Emulatorview.FullUnicodeLine
import Kbox.Emulatorview.UnicodeTranscript
import Kbox.Emulatorview.TranscriptScreen
import Kbox.Emulatorview.DrawText
import Kbox.Emulatorview.RowReading
import Kbox.Emulatorview.TerminalEmulator
import Kbox.Emulatorview.EscapeSequences
import Kbox.Emulatorview.ProcessBytes
import Kbox.Emulatorview.StyleRows
import Kbox.Emulatorview.TranscriptShape
import Kbox.Emulatorview.Palette
import Kbox.Emulatorview.SamplePlatform
import Kbox.Emulatorview.ByteFrames
import Kbox.Emulatorview.Canvas
import Kbox.Emulatorview.CanvasEdits
import Kbox.Emulatorview.Strokes
import Kbox.Emulatorview.CanvasReading
import Kbox.Emulatorview.InkedRuns
import Kbox.Emulatorview.Colours
import Kbox.Emulatorview.DrawnRows
import Kbox.Emulatorview.Extraction
import Kbox.Emulatorview.ExtractedRows
import Kbox.Framework.Gregorian
import Kbox.Framework.CivilDays
import Kbox.Solunar.DateTime
import Kbox.Solunar.Zones
import Kbox.Solunar.TimeUtil
import Kbox.Solunar.CalendarRoundTrip
import Kbox.Solunar.Weekdays
import Kbox.Solunar.NamedDays
import Kbox.Emulatorview.CursorAddressing
import Kbox.Emulatorview.ResizedRows
import Kbox.Framework.ListEdits
import Kbox.Session.TerminalEmulator
import Kbox.Session.LineEdits
import Kbox.Framework.ArrayEdits
import Kbox.Session.CellWrites
import Kbox.Session.CellRecords
import Kbox.Framework.ScrollRegion
import Kbox.Session.ScrollRegions
import Kbox.Emulatorview.RowFrames
import Kbox.Emulatorview.TranscriptBuffer
import Kbox.Emulatorview.TranscriptRuns
import Kbox.Emulatorview.ScrollRegions
import Kbox.ScrollRegions
import Kbox.Solunar.DaysOfYear
import Kbox.Solunar.UnixTime
import Kbox.Solunar.YearListing
import Kbox.CommandLine
import Kbox.Emulatorview.CodePointWriter
import Kbox.Session.TabStops
import Kbox.Session.SelectedText
import Kbox.InputConnection
import Kbox.Emulatorview.AutoWrap
import Kbox.Emulatorview.PrivateModes
import Kbox.Emulatorview.Utf8
import Kbox.Emulatorview.OscStrings
import Kbox.Emulatorview.OscPayloads
import Kbox.Emulatorview.Resynchronisation
import Kbox.Session.PrivateModes
import Kbox.PrivateModes
import Kbox.Session.CursorBounds
import Kbox.Emulatorview.StyleArrays
import Kbox.Solunar.MathUtil
import Kbox.Solunar.MoonTimes
import Kbox.Solunar.DayBounds
import Kbox.Solunar.EventsToday
import Kbox.Solunar.LatLong
import Kbox.Solunar.DateParsing
import Kbox.Framework.Histories
import Kbox.Windows.SessionList
import Kbox.Windows.Term
import Kbox.Telnet.TelnetSession
import Kbox.Telnet.WritePath
import Kbox.Telnet.Decoder
import Kbox.Telnet.Negotiation
import Kbox.Emulatorview.TypedText
import Kbox.Emulatorview.ViewWindow
