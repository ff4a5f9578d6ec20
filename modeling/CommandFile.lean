import CommandFile.Session
import CommandFile.Main
import CommandFile.Proofs.Quoting.RoundTrip
import CommandFile.Proofs.Expansion.Leftmost
import CommandFile.Proofs.Expansion.Meaning
import CommandFile.Proofs.Reading.Inlining
import CommandFile.Proofs.Expansion.LineSteps
import CommandFile.Proofs.Reading.Nesting
import CommandFile.Proofs.Schedule.Noting
import CommandFile.Proofs.Session.CleanLines
import CommandFile.Proofs.Session.LateDefinitions
import CommandFile.Proofs.Expansion.Tokens
import CommandFile.Proofs.Quoting.Characters
import CommandFile.Proofs.Text.LineEnds
import CommandFile.Proofs.CommandLine.Transcript
import CommandFile.Proofs.Reading.Effects
import CommandFile.Proofs.Reading.Layout
import CommandFile.Proofs.Reading.Stopping
import CommandFile.Proofs.Expansion.Agreement
import CommandFile.Proofs.Reading.Hoisting
import CommandFile.Proofs.CommandLine.Messages
import CommandFile.Proofs.CommandLine.Outcome
import CommandFile.Proofs.Quoting.Positions
import CommandFile.Proofs.Expansion.Shadowing
import CommandFile.Proofs.Schedule.HandingOver
import CommandFile.Proofs.CommandLine.Rerun
import CommandFile.Proofs.Expansion.Resuming
import CommandFile.Proofs.Expansion.Independence
import CommandFile.Proofs.Expansion.Descent
import CommandFile.Proofs.Expansion.PassBounds
import CommandFile.Proofs.Reading.FirstFault
import CommandFile.Proofs.Reading.Overlay
import CommandFile.Proofs.Expansion.Reach
import CommandFile.Proofs.Reading.QuotedLines
import CommandFile.Proofs.Schedule.EmptyCommands
import CommandFile.Proofs.CommandLine.Caps
import CommandFile.Proofs.Quoting.Separation
import CommandFile.Proofs.Expansion.CallsInPlace
