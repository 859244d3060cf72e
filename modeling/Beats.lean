import Beats.Thump.Delivery
import Beats.Clank.Dedupe
import Beats.Recommendation
import Beats.Attribution
import Beats.Thump.Acceptance
import Beats.Publish.SealOrder
import Beats.Replay.Fidelity
import Beats.Clank.Lifecycle
import Beats.Broker.Doors
import Beats.Broker.Drain
import Beats.Resolution
import Beats.Hiss.Display
import Beats.Hiss.Rebuild
import Beats.Incident.Snapshot
import Beats.Incident.Settled
import Beats.Thump.Audit
import Beats.Rattle.Reconcile
import Beats.Transcript
import Beats.Blast
import Beats.Thump.Results
import Beats.Publish.Handles
import Beats.Clank.Ranking
import Beats.Clank.Citations
import Beats.Corpus.Populations
import Beats.Corpus.Legacy
import Beats.Converge.Prober
import Beats.Evidence.Argo
import Beats.Actuate.Confinement
import Beats.Forge.Branches
import Beats.Forge.Retry
import Beats.Poll
import Beats.Rattle.Query
import Beats.Whir.Graph
import Beats.Whir.Catalog
import Beats.Otelx
import Beats.Tune
import Beats.Scorecard
import Beats.Publish.ReadBack
