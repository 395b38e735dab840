import EventScripts.Main
import EventScripts.Pool.Basic
import EventScripts.Probe.Grammar
import EventScripts.Proofs.CommandLine.InitConfig
import EventScripts.Proofs.Demo.Placeholder
import EventScripts.Proofs.Demo.Program
import EventScripts.Proofs.Event.HandlerTable
import EventScripts.Proofs.Host.Queue
import EventScripts.Proofs.Loader.Accounts
import EventScripts.Proofs.Loader.Brackets
import EventScripts.Proofs.Loader.Deletion
import EventScripts.Proofs.Loader.Listing
import EventScripts.Proofs.Loader.Orphans
import EventScripts.Proofs.Loader.Protocol
import EventScripts.Proofs.Loader.Unloading
import EventScripts.Proofs.Loader.Workers
import EventScripts.Proofs.Ordered
import EventScripts.Proofs.Path.Hierarchy
import EventScripts.Proofs.Path.Marker
import EventScripts.Proofs.Pool.Conservation
import EventScripts.Proofs.Registry.Exclusive
import EventScripts.Proofs.Router.Delivery
import EventScripts.Proofs.Router.Kinds
import EventScripts.Proofs.Router.Undoing
import EventScripts.Proofs.Settings.Omission
import EventScripts.Proofs.Source.Skipping
