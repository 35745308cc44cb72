import AqjOs.Transition.Run
import AqjOs.Shell.Script
import AqjOs.Shell.Triple
import AqjOs.Shell.Throughout
import AqjOs.Files.Effects
import AqjOs.Runit.Core
import AqjOs.Runit.Shutdown
import AqjOs.Runit.CtrlAltDel
import AqjOs.Installer.Devices
import AqjOs.Installer.Arguments
import AqjOs.Installer.Script
import AqjOs.Installer.Confinement
import AqjOs.Installer.Mounts
import AqjOs.Installer.Completion
import AqjOs.Installer.Gates
import AqjOs.Installer.Credentials
import AqjOs.Wizard.Launch
import AqjOs.Wizard.Enumeration
import AqjOs.Build.Kernel
import AqjOs.Build.Skips
import AqjOs.Build.Extraction
import AqjOs.Build.Patches
import AqjOs.Rootfs.InitChain
import AqjOs.Rootfs.Confined
import AqjOs.Rootfs.HostSafety
import AqjOs.Rootfs.LinkerScripts
import AqjOs.Rootfs.Slots
import AqjOs.Rootfs.Effects
import AqjOs.Rootfs.Steps
import AqjOs.Rootfs.Deposits
import AqjOs.Rootfs.ServiceTree
import AqjOs.Rootfs.Sections
import AqjOs.Rootfs.Installation
import AqjOs.Rootfs.Idempotence
