import Reverb.Tensor
import Reverb.Proto
import Reverb.Sample
import Reverb.AsSample
import Reverb.Worker
import Reverb.Sampler
import Reverb.System
import Reverb.Options
import Reverb.Extension
import Reverb.Server
import Reverb.Properties.Sample
import Reverb.Properties.Worker
import Reverb.Properties.AsSample
import Reverb.Properties.Sampler
import Reverb.Properties.System
import Reverb.Properties.Shutdown
import Reverb.Properties.Progress
import Reverb.Properties.Deadlock
import Reverb.Properties.Consumer
import Reverb.Properties.Options
import Reverb.Properties.Stream
import Reverb.Properties.Extension
import Reverb.Properties.Server
