import HttpJet.H2.Fragments
import HttpJet.H2.HeaderBlocks
import HttpJet.H2.Concurrency
import HttpJet.H2.Wire
import HttpJet.H2.Bodies
import HttpJet.H2.Accounting
import HttpJet.H2.ReceiveWindow
import HttpJet.Cache.Ledger
import HttpJet.PageCache.VaryBounds
import HttpJet.PageCache.ContainerRoundTrip
import HttpJet.H1.ChunkedSound
import HttpJet.Lsapi.BodyGuard
import HttpJet.Lsapi.DialBreaker
import HttpJet.Lsapi.BeginRoundTrip
import HttpJet.Acl.Access
import HttpJet.H3.FrameDigest
import HttpJet.H3.Charges
import HttpJet.Rewrite.PageKey
import HttpJet.Bridge.ResponseBudgets
import HttpJet.Bridge.BodyDecode
import HttpJet.Lscache.SingleFlight
import HttpJet.Lscache.Spelling
import HttpJet.Rates.Budgets
