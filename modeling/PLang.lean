import PLang.Main
import PLang.Proofs.Caret
import PLang.Proofs.Checking.ErrorCount
import PLang.Proofs.Checking.Program
import PLang.Proofs.Lexing.CursorWalk
import PLang.Proofs.Lexing.Spelling
import PLang.Proofs.Logged.Innermost
import PLang.Proofs.Narrowing.Checking
import PLang.Proofs.NestingLimit.Source
import PLang.Proofs.Parsing.Progress
import PLang.Proofs.Renaming.Invariance
import PLang.Proofs.Reordering.Blocks
import PLang.Proofs.RoundTrip.Writable
import PLang.Proofs.Scoping.Stack
import PLang.Proofs.Signatures
import PLang.Proofs.ValidPrefix.FirstNumber
