import Groupcast.Catalogue.Payload
import Groupcast.Message.Copy
import Groupcast.Message.Unpack
import Groupcast.Proofs.Announced
import Groupcast.Proofs.Chain.Queue
import Groupcast.Proofs.Clip.Calls
import Groupcast.Proofs.Fragment.Arrival
import Groupcast.Proofs.Fragment.Frame
import Groupcast.Proofs.Fragment.Shape
import Groupcast.Proofs.Fragment.Tiling
import Groupcast.Proofs.HeaderMap.History
import Groupcast.Proofs.Message.BareCopy
import Groupcast.Proofs.Message.Copies
import Groupcast.Proofs.Message.DeclaredSize
import Groupcast.Proofs.Message.Excerpt
import Groupcast.Proofs.Message.Filling
import Groupcast.Proofs.Message.KnownSender
import Groupcast.Proofs.Message.NormalForm
import Groupcast.Proofs.Message.Overwriting
import Groupcast.Proofs.Message.Prefix
import Groupcast.Proofs.Message.Sizing
import Groupcast.Proofs.Message.Transfer
import Groupcast.Proofs.Nesting
import Groupcast.Proofs.Payload.Canonical
import Groupcast.Proofs.Payload.DataView
import Groupcast.Proofs.Payload.Refusing
import Groupcast.Proofs.Registry.FirstWins
import Groupcast.Proofs.Registry.Standing
