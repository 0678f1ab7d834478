import MessageCatalog.Catalog.Basic
import MessageCatalog.Catalog.MessageTree
import MessageCatalog.Catalog.Reference
import MessageCatalog.Catalog.Rendering
import MessageCatalog.Catalog.Session
import MessageCatalog.CommandLine.Arguments
import MessageCatalog.CommandLine.Run
import MessageCatalog.CommandLine.Variables
import MessageCatalog.Entries
import MessageCatalog.Main
import MessageCatalog.Number.Binary64
import MessageCatalog.Number.Decimal
import MessageCatalog.Number.DigitLimit
import MessageCatalog.Number.Numeral
import MessageCatalog.Number.Shortest
import MessageCatalog.Number.Text
import MessageCatalog.ParseMemo
import MessageCatalog.Phrase.Assembly
import MessageCatalog.Phrase.Basic
import MessageCatalog.Phrase.Descent
import MessageCatalog.Phrase.Json
import MessageCatalog.PhraseFile.Basic
import MessageCatalog.PhraseFile.Read
import MessageCatalog.PluralCategory
import MessageCatalog.Proofs.AcceptedFiles
import MessageCatalog.Proofs.AlikePhrases
import MessageCatalog.Proofs.Assembling
import MessageCatalog.Proofs.BoundedReading
import MessageCatalog.Proofs.CallTrace
import MessageCatalog.Proofs.CharacterClasses
import MessageCatalog.Proofs.Concatenation
import MessageCatalog.Proofs.CorrectPrefix
import MessageCatalog.Proofs.CurrentEntries
import MessageCatalog.Proofs.DistinctKeys
import MessageCatalog.Proofs.EnglishFloats
import MessageCatalog.Proofs.EnglishIntegers
import MessageCatalog.Proofs.ExactRounding
import MessageCatalog.Proofs.ExtendedMessages
import MessageCatalog.Proofs.Extension
import MessageCatalog.Proofs.FaithfulJson
import MessageCatalog.Proofs.FollowingText
import MessageCatalog.Proofs.Grammar
import MessageCatalog.Proofs.InsertedBlanks
import MessageCatalog.Proofs.ItemSlots
import MessageCatalog.Proofs.JsonReading
import MessageCatalog.Proofs.KnownNodes
import MessageCatalog.Proofs.Lexemes
import MessageCatalog.Proofs.LocatedErrors
import MessageCatalog.Proofs.MemoEvents
import MessageCatalog.Proofs.MemoRuns
import MessageCatalog.Proofs.MemoSoundness
import MessageCatalog.Proofs.MemoWindows
import MessageCatalog.Proofs.MentionedNames
import MessageCatalog.Proofs.MessagePaths
import MessageCatalog.Proofs.NestedRendering
import MessageCatalog.Proofs.Nesting
import MessageCatalog.Proofs.NumberTokens
import MessageCatalog.Proofs.Numerals
import MessageCatalog.Proofs.ObjectLiterals
import MessageCatalog.Proofs.OpenConstructs
import MessageCatalog.Proofs.OverlaidEntries
import MessageCatalog.Proofs.ParsedPhrases
import MessageCatalog.Proofs.PhrasesToldApart
import MessageCatalog.Proofs.PlainRendering
import MessageCatalog.Proofs.PositionalFloats
import MessageCatalog.Proofs.QuotedText
import MessageCatalog.Proofs.ReadExpressions
import MessageCatalog.Proofs.ReadingAgreement
import MessageCatalog.Proofs.ReadingBudgets
import MessageCatalog.Proofs.ReadingProgress
import MessageCatalog.Proofs.ReferenceCatalog
import MessageCatalog.Proofs.RegisteredRules
import MessageCatalog.Proofs.Relocation
import MessageCatalog.Proofs.RenderedText
import MessageCatalog.Proofs.RenderingDepth
import MessageCatalog.Proofs.RoundTrip
import MessageCatalog.Proofs.Scanning
import MessageCatalog.Proofs.ShortestDecimals
import MessageCatalog.Proofs.ShownLiterals
import MessageCatalog.Proofs.Simulation
import MessageCatalog.Proofs.Spans
import MessageCatalog.Proofs.Spelling
import MessageCatalog.Proofs.Stacking
import MessageCatalog.Proofs.TemplateText
import MessageCatalog.Proofs.TokenSpelling
import MessageCatalog.Rendering.Evaluation
import MessageCatalog.Rendering.Failure
import MessageCatalog.Rendering.Host
import MessageCatalog.Text.Blank
import MessageCatalog.Text.CodePoints
import MessageCatalog.Text.DecimalDigit
import MessageCatalog.Text.LetterCase
import MessageCatalog.Text.Printable
import MessageCatalog.Text.Quoted
import MessageCatalog.Text.WordChar
import MessageCatalog.Token.Basic
import MessageCatalog.Token.Cursor
import MessageCatalog.Token.Scan
import MessageCatalog.Token.SyntaxError
import MessageCatalog.Value.Basic
import MessageCatalog.Value.Equality
import MessageCatalog.Value.Json
import MessageCatalog.Value.Text
import MessageCatalog.Yaml.Block
import MessageCatalog.Yaml.Document
import MessageCatalog.Yaml.Fault
import MessageCatalog.Yaml.Lexeme
import MessageCatalog.Yaml.Node
import MessageCatalog.Yaml.Place
import MessageCatalog.Yaml.Plain
import MessageCatalog.Yaml.Quoted
import MessageCatalog.Yaml.Schema
