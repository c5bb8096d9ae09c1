import TraceTally.Main
import TraceTally.Proofs.Abandonment
import TraceTally.Proofs.HashOrder
import TraceTally.Proofs.JsonRoundTrip
import TraceTally.Proofs.OneRow
import TraceTally.Proofs.Shutdown
import TraceTally.Server.Admin
import TraceTally.Server.Service
import TraceTally.Store.ClickHouse.Basic
import TraceTally.Store.Faulty
import TraceTally.Key.Codec
import TraceTally.Proofs.Accounting
import TraceTally.Proofs.Overlap
import TraceTally.Proofs.KeyGrammar
import TraceTally.Proofs.Generations
import TraceTally.Proofs.FilterMeaning
import TraceTally.Proofs.Addressing
import TraceTally.Proofs.Tokens
import TraceTally.Proofs.Messages
import TraceTally.Proofs.Printing
import TraceTally.Proofs.GivenValues
import TraceTally.Proofs.Backoff
import TraceTally.Proofs.Restoring
import TraceTally.Proofs.Triggers
import TraceTally.Proofs.Ceiling
import TraceTally.Proofs.Attempts
import TraceTally.Proofs.Gathering
import TraceTally.Proofs.Ticking
import TraceTally.Proofs.DurationGrammar
import TraceTally.Proofs.Lifetime
import TraceTally.Proofs.Cancelling
import TraceTally.Proofs.EventGrammar
import TraceTally.Proofs.Alignment
import TraceTally.Proofs.Overriding
import TraceTally.Proofs.Decimals
