import LoxLang.Main
import LoxLang.Proofs.Binding.Sites
import LoxLang.Proofs.Binding.Unused
import LoxLang.Proofs.Grammar.Printed
import LoxLang.Proofs.Grammar.Prompt
import LoxLang.Proofs.Grammar.Recovery
import LoxLang.Proofs.Grammar.RoundTrip
import LoxLang.Proofs.Grammar.Totality
import LoxLang.Proofs.Machine.Comparison
import LoxLang.Proofs.Machine.IntegerText
import LoxLang.Proofs.Session.Alignment
import LoxLang.Proofs.Session.Arguments
import LoxLang.Proofs.Session.Attributes
import LoxLang.Proofs.Session.Bases
import LoxLang.Proofs.Session.Bodies
import LoxLang.Proofs.Session.Concurring
import LoxLang.Proofs.Session.Excerpts
import LoxLang.Proofs.Session.ExitCode
import LoxLang.Proofs.Session.Initialization
import LoxLang.Proofs.Session.Isolation
import LoxLang.Proofs.Session.Mirroring
import LoxLang.Proofs.Session.Pieces
import LoxLang.Proofs.Session.Rejected
import LoxLang.Proofs.Session.Scan
import LoxLang.Proofs.Session.Signals
import LoxLang.Proofs.Session.Unbound
import LoxLang.Proofs.Session.Verdict
import LoxLang.Proofs.Token.Literals
import LoxLang.Proofs.Token.RoundTrip
import LoxLang.Proofs.Token.Runs
import LoxLang.Syntax.References
