import Chamge.Lifecycle
import Chamge.DelistFailure
import Chamge.Detachment
import Chamge.LazyEnroll
import Chamge.Reentrancy
import Chamge.Registry
import Chamge.UserCommandContract
import Chamge.SourceWakeup
import Chamge.MutualWait
import Chamge.ChannelLife
import Chamge.CommandDelivery
import Chamge.Correlation
import Chamge.Agreement
import Chamge.EnrollRetry
import Chamge.TwinBackends
import Chamge.MockBackend
import Chamge.CommandRouting
import Chamge.RequestEncoding
import Chamge.AnswerSoundness
import Chamge.WaitLoops
import Chamge.OwnConnections
import Chamge.PumpContract
import Chamge.LazySlots
import Chamge.AgentCalls
import Chamge.ComposedAnswers
import Chamge.NodeLifetime
import Chamge.ActivationSource
import Chamge.Handling
import Chamge.AnswerOrigin
import Chamge.Registration
import Chamge.DeviceRefinement
import Chamge.HubCommands
import Chamge.BoundedWaits
import Chamge.HubRegistry
import Chamge.ArbiterRefinement
import Chamge.CallEffects
import Chamge.HubRefinement
import Chamge.ReplyQueues
import Chamge.WaitingCircles
import Chamge.ServiceOrder
