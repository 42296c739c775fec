import TnslReader.CommandLine.Arguments
import TnslReader.CommandLine.Run
import TnslReader.CommandLine.Storage
import TnslReader.Diagnostic
import TnslReader.Grammar.Bracketing
import TnslReader.Grammar.Extent
import TnslReader.Grammar.Header
import TnslReader.Grammar.Reading
import TnslReader.Grammar.Section
import TnslReader.Grammar.Split
import TnslReader.Grammar.Statement
import TnslReader.Grammar.Value
import TnslReader.Grammar.Violation
import TnslReader.Listing.Json
import TnslReader.Listing.Outline
import TnslReader.Listing.Text
import TnslReader.Main
import TnslReader.Proofs.Answers
import TnslReader.Proofs.Balance
import TnslReader.Proofs.BalancedCuts
import TnslReader.Proofs.BinaryPaths
import TnslReader.Proofs.BlockHeaders
import TnslReader.Proofs.BracketErrors
import TnslReader.Proofs.BracketPairs
import TnslReader.Proofs.CharacterKinds
import TnslReader.Proofs.CommentStripping
import TnslReader.Proofs.CommentedText
import TnslReader.Proofs.DefinitionsApart
import TnslReader.Proofs.Ensures
import TnslReader.Proofs.ErrorPlaces
import TnslReader.Proofs.EscapedNewlines
import TnslReader.Proofs.FileConcatenation
import TnslReader.Proofs.FileInheritance
import TnslReader.Proofs.FileLimits
import TnslReader.Proofs.FileOrder
import TnslReader.Proofs.FilePlaces
import TnslReader.Proofs.FileSections
import TnslReader.Proofs.FileShape
import TnslReader.Proofs.FileWraps
import TnslReader.Proofs.GroupCuts
import TnslReader.Proofs.HeaderLists
import TnslReader.Proofs.HeaderOrigins
import TnslReader.Proofs.IncludedFiles
import TnslReader.Proofs.Joints
import TnslReader.Proofs.LexicalClasses
import TnslReader.Proofs.LexicalPlaces
import TnslReader.Proofs.Likeness
import TnslReader.Proofs.LineByLine
import TnslReader.Proofs.LineComments
import TnslReader.Proofs.ListingLines
import TnslReader.Proofs.ListingRecovery
import TnslReader.Proofs.LiteralEnds
import TnslReader.Proofs.LiteralExtents
import TnslReader.Proofs.LongestGroups
import TnslReader.Proofs.LoosestSplit
import TnslReader.Proofs.Nesting
import TnslReader.Proofs.PrecedingRuns
import TnslReader.Proofs.PrintedTokens
import TnslReader.Proofs.RangeConfinement
import TnslReader.Proofs.RangeLikeness
import TnslReader.Proofs.ReaderErrors
import TnslReader.Proofs.Rereading
import TnslReader.Proofs.Restoration
import TnslReader.Proofs.RunCalls
import TnslReader.Proofs.ScanRuns
import TnslReader.Proofs.ScanSteps
import TnslReader.Proofs.SectionGrammar
import TnslReader.Proofs.SectionLikeness
import TnslReader.Proofs.SectionMachine
import TnslReader.Proofs.SectionSoundness
import TnslReader.Proofs.SettledReadings
import TnslReader.Proofs.Slice
import TnslReader.Proofs.SourceOrder
import TnslReader.Proofs.StatementGrammar
import TnslReader.Proofs.StatementLikeness
import TnslReader.Proofs.StatementNesting
import TnslReader.Proofs.StatementSoundness
import TnslReader.Proofs.StrayCommentMarkers
import TnslReader.Proofs.StrippedTokens
import TnslReader.Proofs.TextLayout
import TnslReader.Proofs.TokenFacts
import TnslReader.Proofs.TreePaths
import TnslReader.Proofs.TreeShape
import TnslReader.Proofs.TreeWalk
import TnslReader.Proofs.TypeEnds
import TnslReader.Proofs.TypeReading
import TnslReader.Proofs.UnmarkedTexts
import TnslReader.Proofs.UnquotedText
import TnslReader.Proofs.ValueCompleteness
import TnslReader.Proofs.ValueExtents
import TnslReader.Proofs.ValueGrammar
import TnslReader.Proofs.ValueJoints
import TnslReader.Proofs.ValueLikeness
import TnslReader.Proofs.ValueNesting
import TnslReader.Proofs.ValueOrder
import TnslReader.Proofs.ValuePlaces
import TnslReader.Proofs.ValueReading
import TnslReader.Proofs.ValueRoom
import TnslReader.Proofs.ValueSoundness
import TnslReader.Proofs.ValueWraps
import TnslReader.Proofs.WrapsReached
import TnslReader.Reader
import TnslReader.Text.Blank
import TnslReader.Text.Json
import TnslReader.Text.Utf8
import TnslReader.Token
import TnslReader.Token.Comment
import TnslReader.Token.Literal
import TnslReader.Token.Position
import TnslReader.Token.Run
import TnslReader.Token.Scan
import TnslReader.Tree.Include
import TnslReader.Tree.Kind
import TnslReader.Tree.Node
import TnslReader.Vocabulary.Bracket
import TnslReader.Vocabulary.Class
import TnslReader.Vocabulary.Classify
import TnslReader.Vocabulary.DirectiveWord
import TnslReader.Vocabulary.Keyword
import TnslReader.Vocabulary.Marker
import TnslReader.Vocabulary.Operator
import TnslReader.Vocabulary.Rune
