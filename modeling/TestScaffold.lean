import TestScaffold.Generation.Schedule
import TestScaffold.Main
import TestScaffold.Proofs.Reading.Places
import TestScaffold.Proofs.Declaration.Preorder
import TestScaffold.Proofs.Reading.Balanced
import TestScaffold.Proofs.Reading.Written
import TestScaffold.Proofs.Reading.RoundTrip
import TestScaffold.Proofs.Generation.Moves
import TestScaffold.Proofs.Generation.Ledger
import TestScaffold.Proofs.Generation.Completion
import TestScaffold.Proofs.Generation.Accounts
import TestScaffold.Proofs.Files.Walk
import TestScaffold.Proofs.Generation.NumberedFiles
import TestScaffold.Proofs.Generation.Serial
import TestScaffold.Proofs.Generation.Parallelism
import TestScaffold.Proofs.Generation.Sequential
import TestScaffold.Proofs.Declaration.Growth
import TestScaffold.Proofs.Declaration.Listing
import TestScaffold.Proofs.Text.Characters
import TestScaffold.Proofs.Reading.Admission
import TestScaffold.Proofs.Reading.Shape
import TestScaffold.Proofs.Reading.Directives
import TestScaffold.Proofs.Token.Spelling
import TestScaffold.Proofs.Token.Words
import TestScaffold.Proofs.TestUnit.Names
import TestScaffold.Proofs.TestUnit.Spelling
import TestScaffold.Proofs.TestUnit.Reading
import TestScaffold.Proofs.TestUnit.ReadBack
import TestScaffold.Proofs.TestUnit.Verbatim
import TestScaffold.Proofs.Generation.Numbering
import TestScaffold.Proofs.Token.Cutting
import TestScaffold.Proofs.Declaration.Nested
import TestScaffold.Proofs.Reading.Bodies
import TestScaffold.Proofs.Reading.Laying
import TestScaffold.Proofs.Reading.Spans
import TestScaffold.Proofs.Reading.Subtrees
import TestScaffold.Proofs.Reading.Braces
import TestScaffold.Proofs.Reading.Faults
import TestScaffold.Proofs.TestUnit.Described
import TestScaffold.Proofs.TestUnit.Namespaces
import TestScaffold.Proofs.Reading.NamespaceForms
import TestScaffold.Proofs.Reading.Resuming
import TestScaffold.Proofs.Token.Joining
import TestScaffold.Proofs.Declaration.Joining
import TestScaffold.Proofs.Reading.Joining
import TestScaffold.Proofs.Token.PlainLiterals
import TestScaffold.Proofs.Token.HoleLiterals
import TestScaffold.Proofs.Token.LineEndings
import TestScaffold.Proofs.Reading.LineEndings
import TestScaffold.Proofs.Files.Listing
import TestScaffold.Proofs.Generation.FreshDirectory
import TestScaffold.Proofs.CommandLine.Messages
import TestScaffold.Proofs.CommandLine.Agreement
import TestScaffold.Proofs.Reading.Groups
import TestScaffold.Proofs.Reading.EndOfText
import TestScaffold.Proofs.Reading.Chains
import TestScaffold.Proofs.Reading.Recovery
import TestScaffold.Proofs.TestUnit.Occurrences
import TestScaffold.Proofs.Declaration.Calls
import TestScaffold.Proofs.Declaration.Walks
import TestScaffold.Proofs.Declaration.Ancestry
import TestScaffold.Proofs.TestUnit.Search
import TestScaffold.Proofs.TestUnit.Discovery
import TestScaffold.Proofs.Reading.Truncation
import TestScaffold.Proofs.Declaration.Outline
import TestScaffold.Proofs.TestUnit.Outline
import TestScaffold.Proofs.Diagnostic.Position
import TestScaffold.Proofs.Diagnostic.Underline
import TestScaffold.Proofs.Declaration.Anonymous
import TestScaffold.Proofs.Reading.Forms
import TestScaffold.Proofs.Reading.Sites
import TestScaffold.Proofs.Reading.Respelling
import TestScaffold.Proofs.Reading.Renaming
import TestScaffold.Proofs.Reading.ContextualNames
import TestScaffold.Proofs.TestUnit.Alignment
import TestScaffold.Proofs.Generation.Dispatcher
import TestScaffold.Proofs.Declaration.Kinds
import TestScaffold.Proofs.Reading.Surroundings
import TestScaffold.Proofs.Reading.RefStructs
