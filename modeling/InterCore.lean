import InterCore.Bench.ArenaScript
import InterCore.Bench.RingScript
import InterCore.Bench.Session
import InterCore.Main
import InterCore.Memory.Lemmas
import InterCore.Board.Lemmas
import InterCore.Proofs.Chain.Agreement
import InterCore.Proofs.Conservation
import InterCore.Proofs.Delivery
import InterCore.Proofs.Releases
import InterCore.Proofs.Settling
import InterCore.Proofs.Progress
import InterCore.Proofs.Commands
import InterCore.Proofs.FlowControl
import InterCore.Proofs.Counting
import InterCore.Proofs.Interleaving
import InterCore.Proofs.StaleStorage
import InterCore.Proofs.Handling
import InterCore.Proofs.Independence
import InterCore.Proofs.Draining
import InterCore.Proofs.Coalescing
import InterCore.Proofs.PendingMark
import InterCore.Proofs.RoundTrip
import InterCore.Proofs.Registration
import InterCore.Proofs.Refusals
import InterCore.Proofs.Masks
import InterCore.Proofs.Quiescence
import InterCore.Proofs.Settings
import InterCore.Proofs.StaleMasks
