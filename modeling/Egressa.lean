import Egressa.Controller.Access
import Egressa.Controller.Atomic
import Egressa.DataPlane
import Egressa.Opening
import Egressa.Controller.Addresses
import Egressa.Gateway.Leak
import Egressa.Gateway.Reconcile
import Egressa.Reorder.Fence
import Egressa.Client.Spacing
import Egressa.Client.DefaultRoute
import Egressa.Client.Safety
import Egressa.Client.DeadAccess
import Egressa.Controller.Restart
import Egressa.Reorder.Window
import Egressa.Control.Coherence
import Egressa.Control.Reconcile
import Egressa.Control.Forwarding
import Egressa.Handoff.Cutover
import Egressa.Control.Following
import Egressa.Controller.Acknowledged
import Egressa.IPsec.Events
import Egressa.IPsec.Advance
import Egressa.Tunnel.WorkerPool
import Egressa.Tunnel.Framing
import Egressa.IPsec.ChildName
import Egressa.IPsec.Routes
import Egressa.IPsec.Bypass
import Egressa.IPsec.Swanctl
import Egressa.Controller.Path
import Egressa.Measurement.Approval
import Egressa.Measurement.Evidence
import Egressa.Measurement.DestGroup
import Egressa.Measurement.P2Quantile
import Egressa.Measurement.Passive
import Egressa.Tunnel.Standby
import Egressa.Tunnel.EgressRoutes
import Egressa.Pathmon.Probing
