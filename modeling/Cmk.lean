import Cmk.ClusterInit.Again
import Cmk.ClusterInit.DaemonSets
import Cmk.ClusterInit.Names
import Cmk.ClusterInit.Pods
import Cmk.ClusterInit.Templates
import Cmk.ClusterInit.Wait
import Cmk.ClusterInit.Webhook
import Cmk.ClusterInit.WebhookRuns
import Cmk.Commands
import Cmk.Config.Abandoned
import Cmk.Config.Conf
import Cmk.Config.Entries
import Cmk.Config.Lock
import Cmk.Config.LockProtocol
import Cmk.Config.Names
import Cmk.Config.New
import Cmk.Config.Rewrite
import Cmk.Config.RoundTrip
import Cmk.Config.Store
import Cmk.Config.Yaml
import Cmk.Discover
import Cmk.Init.Assign
import Cmk.Init.AssignExact
import Cmk.Init.Balance
import Cmk.Init.Configure
import Cmk.Init.Epp
import Cmk.Init.Excl
import Cmk.Init.Isolated
import Cmk.Init.Partition
import Cmk.Init.Shares
import Cmk.Init.SstBf
import Cmk.Init.SstCp
import Cmk.Isolate
import Cmk.Isolate.Advertise
import Cmk.Isolate.Exact
import Cmk.Isolate.Socket
import Cmk.K8s
import Cmk.Machinery.BootLine
import Cmk.Machinery.CpuList
import Cmk.Machinery.Deal
import Cmk.Machinery.Fair
import Cmk.Machinery.Gated
import Cmk.Machinery.Json
import Cmk.Machinery.JsonText
import Cmk.Machinery.Lease
import Cmk.Machinery.Merge
import Cmk.Machinery.Patch
import Cmk.Machinery.Polling
import Cmk.Machinery.Rolling
import Cmk.Machinery.Seating
import Cmk.Machinery.Share
import Cmk.Machinery.Steps
import Cmk.Machinery.Table
import Cmk.Machinery.Tagged
import Cmk.Machinery.Text
import Cmk.Machinery.VersionLock
import Cmk.Machinery.Walk
import Cmk.Node.Admission
import Cmk.Node.Advertised
import Cmk.Node.Capacity
import Cmk.Node.Child
import Cmk.Node.Cluster
import Cmk.Node.Exclusion
import Cmk.Node.Reinit
import Cmk.Node.Release
import Cmk.Node.System
import Cmk.NodeReport
import Cmk.Proc
import Cmk.Python
import Cmk.Python.Json
import Cmk.Reaffinitize
import Cmk.Reconcile
import Cmk.Reconcile.Exact
import Cmk.Reconfigure.Exec
import Cmk.Reconfigure.Fits
import Cmk.Reconfigure.Keeps
import Cmk.Reconfigure.Lookup
import Cmk.Reconfigure.Matching
import Cmk.Reconfigure.MoveTable
import Cmk.Reconfigure.Procs
import Cmk.Reconfigure.Readvertise
import Cmk.Reconfigure.Release
import Cmk.Reconfigure.Seats
import Cmk.Reconfigure.Session
import Cmk.Reconfigure.Setup
import Cmk.Reports
import Cmk.Topology.Isolcpus
import Cmk.Topology.Lossless
import Cmk.Topology.Parse
import Cmk.Topology.Platform
import Cmk.Topology.Spread
import Cmk.Uninstall.ConfDir
import Cmk.Uninstall.Pods
import Cmk.Uninstall.Resources
import Cmk.Uninstall.Taint
import Cmk.Uninstall.Whole
import Cmk.Webhook
import Cmk.Webhook.Cores
import Cmk.Webhook.Created
import Cmk.Webhook.Idempotent
import Cmk.Webhook.Outcome
import Cmk.Webhook.Patch
import Cmk.Webhook.Required
import Cmk.Webhook.Response
import Cmk.Webhook.Server
import Cmk.Webhook.Shape
