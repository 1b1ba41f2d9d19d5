import RootSignature.Binary.Binary32
import RootSignature.Binary.Format
import RootSignature.Binary.Shortest
import RootSignature.Compilation
import RootSignature.Decimal
import RootSignature.FlagSet
import RootSignature.Grammar.Declaration
import RootSignature.Grammar.Error
import RootSignature.Grammar.FlagList
import RootSignature.Grammar.Items
import RootSignature.Grammar.Reader
import RootSignature.Grammar.RootParameter
import RootSignature.Grammar.StaticSampler
import RootSignature.Grammar.Value
import RootSignature.Location
import RootSignature.Log
import RootSignature.Parse
import RootSignature.Proofs.Binary.Decimals
import RootSignature.Proofs.Binary.Nearest
import RootSignature.Proofs.Binary.Rounding
import RootSignature.Proofs.Binary.WholeNumbers
import RootSignature.Proofs.Compilation.Diagnostics
import RootSignature.Proofs.Compilation.Loaded
import RootSignature.Proofs.Compilation.Underline
import RootSignature.Proofs.Dialect.Departure
import RootSignature.Proofs.Dialect.Modes
import RootSignature.Proofs.Dialect.Unflagged
import RootSignature.Proofs.Dialect.Versions
import RootSignature.Proofs.Error.Anchor
import RootSignature.Proofs.Error.Blame
import RootSignature.Proofs.Error.Locality
import RootSignature.Proofs.Error.Priority
import RootSignature.Proofs.Error.Reasons
import RootSignature.Proofs.Error.RefusedRegisters
import RootSignature.Proofs.Error.Resumption
import RootSignature.Proofs.Error.Truthful
import RootSignature.Proofs.Grammar.Accepted
import RootSignature.Proofs.Grammar.AcceptedTokens
import RootSignature.Proofs.Grammar.Accepts
import RootSignature.Proofs.Grammar.BrokenOff
import RootSignature.Proofs.Grammar.Composition
import RootSignature.Proofs.Grammar.Constructs
import RootSignature.Proofs.Grammar.Order
import RootSignature.Proofs.Grammar.Pieces
import RootSignature.Proofs.Grammar.Rearranged
import RootSignature.Proofs.Grammar.Respelled
import RootSignature.Proofs.Grammar.Separated
import RootSignature.Proofs.Grammar.WellFormed
import RootSignature.Proofs.Grammar.Writable
import RootSignature.Proofs.Grammar.Written
import RootSignature.Proofs.Log.Entries
import RootSignature.Proofs.Reader.Compositional
import RootSignature.Proofs.Reader.Halting
import RootSignature.Proofs.Reader.Lockstep
import RootSignature.Proofs.Reader.Moved
import RootSignature.Proofs.Reader.Recased
import RootSignature.Proofs.Reader.Respaced
import RootSignature.Proofs.Reader.Run
import RootSignature.Proofs.Signature.Conversion
import RootSignature.Proofs.Signature.Downgrade
import RootSignature.Proofs.Signature.FlagSet
import RootSignature.Proofs.Source.Blocks
import RootSignature.Proofs.Source.Line
import RootSignature.Proofs.Source.Places
import RootSignature.Proofs.Token.Characters
import RootSignature.Proofs.Token.Delimiters
import RootSignature.Proofs.Token.Edited
import RootSignature.Proofs.Token.FloatLiterals
import RootSignature.Proofs.Token.FloatSpellings
import RootSignature.Proofs.Token.Lengths
import RootSignature.Proofs.Token.Letters
import RootSignature.Proofs.Token.Lookahead
import RootSignature.Proofs.Token.NumberShape
import RootSignature.Proofs.Token.Peeking
import RootSignature.Proofs.Token.Spacing
import RootSignature.Proofs.Token.Spelled
import RootSignature.Proofs.Token.Tiling
import RootSignature.Proofs.Token.WrittenNumerals
import RootSignature.Signature.Basic
import RootSignature.Signature.Conversion
import RootSignature.Signature.Edit
import RootSignature.Signature.Flags
import RootSignature.Signature.Sampling
import RootSignature.Signature.Version
import RootSignature.Source.Files
import RootSignature.Source.Line
import RootSignature.Source.Message
import RootSignature.Source.Snippet
import RootSignature.Text
import RootSignature.Token.Basic
import RootSignature.Token.Cursor
import RootSignature.Token.Describe
import RootSignature.Token.Keyword
import RootSignature.Token.Lexeme
import RootSignature.Token.Numeral
import RootSignature.Token.Stream
import RootSignature.Token.Word
