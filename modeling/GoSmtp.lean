import GoSmtp.Wire.RoundTrip
import GoSmtp.Wire.XtextRoundTrip
import GoSmtp.Unicode.Saslprep
import GoSmtp.Server.Limiter
import GoSmtp.Server.OutcomeRule
import GoSmtp.Client.EnhancedGrammar
import GoSmtp.Client.Probe
import GoSmtp.Client.FreshStart
import GoSmtp.Client.TraceSecrecy
import GoSmtp.Client.Burl
import GoSmtp.Client.Settled
import GoSmtp.Client.Retained
import GoSmtp.Client.Retry
import GoSmtp.Client.Mutual
import GoSmtp.Server.RegistryCalls
import GoSmtp.Server.FreshTLS
import GoSmtp.Server.Downgrade
import GoSmtp.Server.Cardinality
import GoSmtp.Server.Refusals
import GoSmtp.Server.TraceHeader
import GoSmtp.Server.Trace
import GoSmtp.Server.TransactionLimit
import GoSmtp.Server.SizeLimit
import GoSmtp.Client.Transfer
