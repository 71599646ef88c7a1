import RegexSearch.Main
import RegexSearch.Proofs.Composition
import RegexSearch.Proofs.Counting
import RegexSearch.Proofs.ExprLanguage
import RegexSearch.Proofs.Matches
import RegexSearch.Proofs.PatternGrammar
import RegexSearch.Proofs.SpellingRoundTrip
import RegexSearch.Proofs.AcceptedTokens
import RegexSearch.Matcher.History
import RegexSearch.Proofs.MatcherHistory
import RegexSearch.Proofs.Grouping
import RegexSearch.Proofs.Juxtaposition
import RegexSearch.Proofs.IdleQuantifiers
import RegexSearch.Proofs.CountBodies
import RegexSearch.Proofs.Intersections
import RegexSearch.Pattern.Shown
import RegexSearch.Proofs.SetConjunctions
import RegexSearch.Proofs.FaultOffsets
import RegexSearch.Proofs.StableFaults
import RegexSearch.Pattern.Buffer
import RegexSearch.Proofs.FlatDrafts
import RegexSearch.Proofs.BufferReading
import RegexSearch.Proofs.BufferDiscipline
import RegexSearch.Text.Printable
import RegexSearch.Automaton.Drawing
import RegexSearch.Proofs.DotText
import RegexSearch.Proofs.Drawings
import RegexSearch.CommandLine.Highlighting
import RegexSearch.CommandLine.Outcome
import RegexSearch.Proofs.Highlighting
import RegexSearch.Proofs.Outcomes
import RegexSearch.Proofs.InputLines
import RegexSearch.Proofs.EpsilonEdges
import RegexSearch.Automaton.Builder
import RegexSearch.Proofs.BuilderRuns
import RegexSearch.Proofs.BufferSegments
import RegexSearch.Proofs.LatestUnits
