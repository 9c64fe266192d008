import MythLab.Lib.Effect
import MythLab.Lib.Machine
import MythLab.Lib.Table
import MythLab.Lib.Gate
import MythLab.Lib.Indexed
import MythLab.Lib.Refill
import MythLab.Lib.Register
import MythLab.Lib.Channel
import MythLab.Lib.StopAndWait
import MythLab.Dotnet.Text
import MythLab.Dotnet.Base64
import MythLab.Dotnet.Framework
import MythLab.Devices.Device
import MythLab.Devices.MacAddress
import MythLab.Devices.DeviceRules
import MythLab.Connections.ConnectionProfile
import MythLab.Connections.ExternalConnections
import MythLab.Storage.Database
import MythLab.Storage.Repository
import MythLab.Storage.Identity
import MythLab.Storage.Observations
import MythLab.Storage.Availability
import MythLab.Storage.References
import MythLab.Credentials.CredentialSaveService
import MythLab.Ssh.KnownHosts
import MythLab.Ssh.KnownHostsStore
import MythLab.Ssh.SshSessionService
import MythLab.Ssh.BoundedTerminalOutput
import MythLab.App.MainWindow
import MythLab.App.Operations
import MythLab.App.TerminalWindow
import MythLab.App.Drain
import MythLab.App.ConnectionsViewModel
import MythLab.Ssh.SshTerminalSession
import MythLab.Discovery.DiscoveryModels
import MythLab.Discovery.NetworkDiscoveryService
import MythLab.Discovery.PublishedRecords
import MythLab.Discovery.SequentialScan
import MythLab.Discovery.ScanFindings
import MythLab.Discovery.ConcurrentScan
import MythLab.Ssh.KnownHostsLedger
import MythLab.Connections.Templates
import MythLab.Connections.LaunchRequest
import MythLab.Connections.ExternalConnectionService
import MythLab.App.DeviceActivityViewModel
import MythLab.App.Synchronize
import MythLab.App.StaleCompletions
import MythLab.Lib.Dictionary
import MythLab.App.WakingCards
import MythLab.App.WakeRegistry
import MythLab.App.TerminalSessions
import MythLab.App.RunTurns
import MythLab.App.SessionOwners
import MythLab.App.RunEnds
import MythLab.App.SessionLifecycle
import MythLab.App.WindowRefinement
import MythLab.App.RendererAcknowledgement
import MythLab.Connections.SavedProfiles
import MythLab.Devices.NetworkNames
import MythLab.Connections.SavedIdentities
import MythLab.WakeOnLan.MagicPacket
import MythLab.WakeOnLan.WakeDeviceService
import MythLab.Monitoring.WindowsDeviceStatusService
import MythLab.Discovery.Drafts
import MythLab.Lib.Where
import MythLab.WakeOnLan.WakeRouting
import MythLab.WakeOnLan.WakeContracts
import MythLab.App.CredentialDeletion
import MythLab.Storage.Migration
import MythLab.Lib.Distinct
import MythLab.Devices.NormalDevices
import MythLab.Dotnet.Numbers
import MythLab.Dotnet.Splitting
import MythLab.Storage.NormalRecords
import MythLab.App.DeviceEditorViewModel
import MythLab.Lib.FileTree
import MythLab.Storage.PortableDataSetup
import MythLab.Lib.Placing
import MythLab.App.Reconciliation
import MythLab.Lib.Masks
import MythLab.Settings.AppSettings
import MythLab.Discovery.ScanRange
import MythLab.App.DiscoveryViewModel
import MythLab.Discovery.Vendors
import MythLab.Connections.TemplateGrammar
import MythLab.Lib.Increasing
import MythLab.App.DiscoveryRows
import MythLab.App.DiscoveryScans
import MythLab.Connections.ArgumentLines
import MythLab.Lib.Replacement
import MythLab.Ssh.KnownHostsReplacement
import MythLab.Storage.SettingsStore
import MythLab.Storage.ReplacedFiles
import MythLab.Devices.HardwareAddresses
import MythLab.Discovery.AddressTexts
import MythLab.Lib.FairShares
import MythLab.Monitoring.FairBudget
import MythLab.Lib.LittleEndian
import MythLab.Discovery.WindowsArp
import MythLab.Discovery.WindowsLanProbe
import MythLab.Discovery.ProbedScan
import MythLab.WakeOnLan.WakeOnLanService
import MythLab.WakeOnLan.Waking
import MythLab.Dotnet.Unicode
import MythLab.Credentials.WindowsCredentialStore
import MythLab.Lib.Realizing
import MythLab.Credentials.SavingToWindows
import MythLab.Connections.WindowsExecutableLocator
import MythLab.App.TerminalPage
import MythLab.App.TerminalLink
import MythLab.App.TerminalDelivery
import MythLab.App.TerminalPipeline
import MythLab.App.TerminalProgress
