import Earley.Chart.Listing
import Earley.Forest.Outline
import Earley.Main
import Earley.Registry
import Earley.Proofs.Chart.Exactness
import Earley.Proofs.Forest.Count
import Earley.Proofs.Forest.Unfolding
import Earley.Proofs.Forest.Pruning
import Earley.Proofs.Prefix
import Earley.Proofs.Sources
import Earley.Proofs.Narrowing
import Earley.Proofs.Noninterference
import Earley.Proofs.Grammar.Extension
import Earley.Proofs.IdleRules
import Earley.Proofs.Forest.Choice
import Earley.Proofs.Forest.Evaluation
import Earley.Proofs.Forest.Acceptance
import Earley.Proofs.Forest.Failure
import Earley.Proofs.Forest.WellFormed
import Earley.Proofs.Forest.Outline
import Earley.Proofs.Forest.Order
import Earley.Proofs.Lexer
import Earley.Proofs.Lexer.Choice
import Earley.Proofs.TextParse
import Earley.Proofs.Regex
import Earley.Proofs.Regex.Paths
import Earley.Proofs.Regex.Cut
import Earley.Proofs.Regex.Reading
import Earley.Proofs.Regex.Framing
import Earley.Proofs.Lexer.Acceptance
import Earley.Proofs.RuleText.Patterns
import Earley.Proofs.RuleText.Phrases
import Earley.Proofs.RuleText.Reading
import Earley.Proofs.RuleText.Agreement
import Earley.Proofs.Lexer.Calls
import Earley.Proofs.Lexer.Shift
import Earley.Proofs.RuleText.RoundTrip
import Earley.Proofs.RuleText.Alternatives
import Earley.Proofs.Calculator.Layers
import Earley.Proofs.Calculator.Numeral
import Earley.Proofs.Calculator.Answers
import Earley.Proofs.Calculator.Rules
import Earley.Proofs.Words
import Earley.Proofs.Registry
import Earley.Proofs.Calculator.Printing
import Earley.Proofs.Chart.Fixpoint
import Earley.Proofs.Bracketing.Catalan
import Earley.Proofs.Bracketing.Associativity
import Earley.Proofs.Bracketing.Sums
import Earley.Proofs.RuleText.Slashes
import Earley.Proofs.Chart.Points
import Earley.Proofs.Forest.Worklist
import Earley.Proofs.Forest.Reentry
