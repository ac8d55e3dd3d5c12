import Screego.Access
import Screego.Aggregate
import Screego.Browser
import Screego.Counters
import Screego.Deployment
import Screego.Failure
import Screego.Ghosts
import Screego.GuestNames
import Screego.HookPeers
import Screego.HookState
import Screego.IceServers
import Screego.Isolation
import Screego.Leaving
import Screego.Login
import Screego.Manners
import Screego.Orders
import Screego.Origins
import Screego.Ownership
import Screego.PortRange
import Screego.Reading
import Screego.RelaySockets
import Screego.RoomErrors
import Screego.RoomIds
import Screego.RoomLink
import Screego.RoomService
import Screego.Serving
import Screego.Shutdown
import Screego.Stage
import Screego.StartPage
import Screego.Uniqueness
import Screego.UsersFile
import Screego.Views
