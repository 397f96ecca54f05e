import Elbus.Wire
import Elbus.Keyed
import Elbus.Index
import Elbus.Db
import Elbus.Dispatch
import Elbus.Peer
import Elbus.Writer
import Elbus.Fifo
import Elbus.System.State
import Elbus.System.Step
import Elbus.System.Effects
import Elbus.System.Registry
import Elbus.System.Patterns
import Elbus.System.Shapes
import Elbus.System.Acks
import Elbus.System.Stream
import Elbus.System.Order
import Elbus.System.Names
import Elbus.System.Progress
