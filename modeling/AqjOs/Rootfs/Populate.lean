import AqjOs.Files.Archive
import AqjOs.Shell.Triple

/-!
# Populating the root filesystem

`scripts/build/populate_rootfs.sh` as a script over the tree of the machine it
runs on.  It runs without chroot, so a link inside `rootfs` is followed like any
other.  The configuration files and the package builders are inputs.  A builder
is a command on the tree, except for two of them: `build_bash.sh` makes a link
after its install, and `build_glibc.sh` skips its build if glibc is there, edits
the linker scripts and builds in a directory below `/tmp`.  What the others do
besides installing, they do in the directories of the project that they unpack
their sources to.
-/

namespace AqjOs.Rootfs

open AqjOs.Files AqjOs.Shell

/-- The state of the script. -/
abbrev Host := LinkTree String

/-- The builders that the script runs, in its order. -/
inductive Package
  | glibc
  | busybox
  | utilLinux
  | eudev
  | iwd
  | dhcpcd
  | xbps
  | xbpsSrc
  | bash
  | xorgServer
  | xfdesktop
  deriving DecidableEq, Repr

/-- A file of the project and the mode that a new copy of it gets. -/
structure Source where
  content : String
  mode : Nat
  deriving DecidableEq, Repr

/-- `configs/runit`.  The services are listed in the order in which `cp -r`
visits them, by their paths below `sv`; `followed` tells whether a listed link
leads to a directory. -/
structure RunitConfig where
  file : String → Option Source
  services : Option (List (Path × Node String))
  followed : String → Bool
  proper : ∀ entry ∈ services.getD [], entry.1 ≠ [] ∧ ∀ name ∈ entry.1, LinkTree.Plain name

/-- `[ -d configs/runit/sv/name ]`. -/
def RunitConfig.hasService (config : RunitConfig) (name : String) : Bool :=
  match (config.services.getD []).lookup [name] with
  | some (.directory _) => true
  | some (.link _) => config.followed name
  | _ => false

/-- The entries of one service directory. -/
def RunitConfig.service (config : RunitConfig) (name : String) : List (Path × Node String) :=
  (config.services.getD []).filter fun entry => entry.1.head? == some name

/-- What one run of the script finds: its argument, the project's own files, its
builders, how removals end, and the modes that the umask leaves for new
directories, new files and `chmod +x`. -/
structure Environment where
  runit : Option RunitConfig
  network : String → Option Source
  installer : Option Source
  guiInstaller : Option Source
  desktopEntry : Option Source
  executable : Package → Bool
  linux : Bool
  clean : Bool
  removes : Bool
  kept : Path → Bool
  unpackGlibc : Command Host
  compileGlibc : Command Host
  install : Package → Command Host
  directoryMode : Nat
  fileMode : Nat
  executeBits : Nat

/-- The services of `configs/runit`, if there are any. -/
def Environment.services (env : Environment) : List (Path × Node String) :=
  (env.runit.bind RunitConfig.services).getD []

/-- `PROJECT_ROOT`, an absolute path without dots. -/
structure Project where
  path : Path
  plain : ∀ name ∈ path, LinkTree.Plain name

/-- `${ROOTFS_DIR}/…`. -/
def Project.rootfs (project : Project) (path : Path) : Path :=
  project.path ++ "rootfs" :: path

/-- The tarball of `build_glibc.sh`. -/
def Project.glibcTarball (project : Project) : Path :=
  project.path ++ ["packages", "tarballs", "glibc-2.44.tar.gz"]

/-- `PACKAGES_BUILD_DIR`. -/
def Project.packagesBuildDir (project : Project) : Path :=
  project.path ++ ["packages", "build"]

/-- `SRC_DIR` of `build_glibc.sh`. -/
def Project.glibcSource (project : Project) : Path :=
  project.packagesBuildDir ++ ["glibc-2.44"]

/-- `BUILD_DIR` of `build_glibc.sh`, outside the project. -/
def glibcBuildDir : Path :=
  ["tmp", "aqj-os-build", "glibc-2.44"]

/-- The files by which `build_glibc.sh` recognises an installed glibc. -/
def glibcFiles : List Path :=
  [["lib64", "libc.so.6"], ["usr", "lib", "libc_nonshared.a"]]

/-! ## Texts -/

/-- Remove every occurrence of a pattern, from left to right; the number counts
the characters of an occurrence that are still to be dropped. -/
def deleteFrom (pattern : List Char) : Nat → List Char → List Char
  | _, [] => []
  | 0, char :: rest =>
      if pattern.isPrefixOf (char :: rest) then deleteFrom pattern (pattern.length - 1) rest
      else char :: deleteFrom pattern 0 rest
  | skip + 1, _ :: rest => deleteFrom pattern skip rest

/-- `s|pattern||g`. -/
def deleteAll (pattern text : String) : String :=
  String.ofList (deleteFrom pattern.toList 0 text.toList)

/-- `s|/lib64/||g; s|/usr/lib/||g`. -/
def sanitize (text : String) : String :=
  deleteAll "/usr/lib/" (deleteAll "/lib64/" text)

/-- The minimal `/etc/fstab`. -/
def fstabText : String :=
  "# /etc/fstab: AQJ OS static file system information\n" ++
  "# <file system> <mount point>   <type>  <options>       <dump>  <pass>\n" ++
  "proc            /proc           proc    defaults        0       0\n" ++
  "sysfs           /sys            sysfs   defaults        0       0\n" ++
  "devtmpfs        /dev            devtmpfs defaults       0       0\n" ++
  "devpts          /dev/pts        devpts  gid=5,mode=620  0       0\n" ++
  "tmpfs           /dev/shm        tmpfs   defaults        0       0\n" ++
  "tmpfs           /run            tmpfs   mode=0755       0       0\n" ++
  "tmpfs           /tmp            tmpfs   defaults        0       0\n"

/-! ## Commands -/

section Commands

variable (project : Project) (env : Environment)

/-- `mkdir -p` below the rootfs. -/
def mkdir (paths : List Path) : Command Host :=
  LinkTree.mkdirs env.directoryMode (paths.map project.rootfs)

/-- `chmod +x` below the rootfs. -/
def chmodExecutable (paths : List Path) : Command Host :=
  LinkTree.chmods (· ||| env.executeBits) (paths.map project.rootfs)

/-- `cp -f` of a project file to a path below the rootfs. -/
def copyFile (source : Source) (name : String) (path : Path) : Command Host :=
  .ofOption (LinkTree.copyTo source.content source.mode name (project.rootfs path))

/-- `ln -sf` to a path below the rootfs. -/
def link (target : Target) (path : Path) : Command Host :=
  .ofOption (LinkTree.symlink target (project.rootfs path))

/-- A command for a project file, skipped unless the file is there. -/
def whenPresent (source : Option Source) (body : Source → Script Host) : Script Host :=
  match source with
  | some source => body source
  | none => .skip

theorem preserves_whenPresent {invariant : Host → Prop} {source : Option Source}
    {body : Source → Script Host}
    (preserved : ∀ source, Script.Preserves invariant (body source)) :
    Script.Preserves invariant (whenPresent source body) := by
  cases source with
  | none => trivial
  | some source => exact preserved source

/-- The links of the script. -/
def serviceTarget (name : String) : Target :=
  ⟨true, ["etc", "sv", name]⟩

def defaultTarget : Target :=
  ⟨false, ["default"]⟩

def initTarget : Target :=
  ⟨true, ["sbin", "runit-init"]⟩

def stage1Target : Target :=
  ⟨true, ["etc", "runit", "1"]⟩

def bashTarget : Target :=
  ⟨true, ["bin", "bash"]⟩

/-- The link that BusyBox installs for its init applet. -/
def busyboxTarget : Target :=
  ⟨false, ["..", "bin", "busybox"]⟩

/-! ## Sections 1 to 4: directories, runit and links -/

/-- The directories of section 1 and of the head of section 2. -/
def fhsDirectories : List Path :=
  [["bin"], ["sbin"], ["etc"], ["proc"], ["sys"], ["dev"], ["tmp"], ["run"], ["var"], ["lib"],
    ["lib64"], ["usr", "bin"], ["usr", "sbin"], ["usr", "lib"], ["usr", "lib64"], ["mnt"],
    ["root"], ["home"]]

def makeTree : Script Host :=
  .block [
    .run (mkdir project env fhsDirectories),
    .run (mkdir project env [["var", "log"], ["var", "run"], ["var", "tmp"], ["var", "spool"]]),
    .run (mkdir project env [["etc", "ld.so.conf.d"]]),
    .tolerate (LinkTree.chmods (fun _ => 0o1777) ([["tmp"], ["var", "tmp"]].map project.rootfs)),
    .run (mkdir project env [["etc", "runit"]]),
    .run (mkdir project env [["etc", "runit", "runsvdir", "default"]]),
    .run (mkdir project env [["etc", "sv"]])]

def stageFiles : List String :=
  ["1", "2", "3", "ctrlaltdel", "hostname"]

/-- Copy one file of `configs/runit` into `/etc/runit/`. -/
def copyStage (config : RunitConfig) (name : String) : Script Host :=
  whenPresent (config.file name) fun source =>
    .run (.ofOption (LinkTree.copyInto source.content source.mode name
      (project.rootfs ["etc", "runit"])))

/-- Enable a default service. -/
def enableGetty (name : String) : Script Host :=
  .when (fun tree => tree.isDirectory (project.rootfs ["etc", "sv", name]))
    (.run (link project (serviceTarget name) ["etc", "runit", "runsvdir", "default", name]))

/-- Copy the services and enable the default ones. -/
def copyServices (services : List (Path × Node String)) : Script Host :=
  .block [
    .tolerate (LinkTree.copyTree services (project.rootfs ["etc", "sv"])),
    .tolerate (.ofOption (LinkTree.chmodFound "run" (· ||| env.executeBits)
      (project.rootfs ["etc", "sv"]))),
    enableGetty project "getty-tty1",
    enableGetty project "getty-tty2"]

/-- Section 2 for a `configs/runit` that is a directory. -/
def configureRunit (config : RunitConfig) : Script Host :=
  .block [
    .block (stageFiles.map (copyStage project config)),
    .tolerate (chmodExecutable project env [["etc", "runit", "1"], ["etc", "runit", "2"],
      ["etc", "runit", "3"], ["etc", "runit", "ctrlaltdel"]]),
    whenPresent (config.file "hostname") fun source =>
      .run (copyFile project source "hostname" ["etc", "hostname"]),
    match config.services with
    | some services => copyServices project env services
    | none => .skip,
    .run (link project defaultTarget ["etc", "runit", "runsvdir", "current"])]

def setupRunit : Script Host :=
  match env.runit with
  | some config => configureRunit project env config
  | none => .skip

/-- Sections 3 and 4. -/
def linkInit : Script Host :=
  .block [
    .tolerate (link project initTarget ["sbin", "init"]),
    .tolerate (link project stage1Target ["sbin", "runit-stage1"])]

def writeFstab : Script Host :=
  .when (fun tree => !tree.isFile (project.rootfs ["etc", "fstab"]))
    (.run (.ofOption (LinkTree.writeFile fstabText env.fileMode
      (project.rootfs ["etc", "fstab"]))))

/-! ## Sections 5 to 20: the builders and their configuration -/

/-- Remove the absolute prefixes from one of glibc's linker scripts. -/
def sanitizeLibrary (path : Path) : Script Host :=
  .when (fun tree => tree.isFile (project.rootfs path))
    (.tolerate (.ofOption (LinkTree.editInPlace sanitize (project.rootfs path))))

def sanitizeLibraries : Script Host :=
  .block [
    sanitizeLibrary project ["usr", "lib", "libc.so"],
    sanitizeLibrary project ["usr", "lib", "libm.so"]]

/-- `build_glibc.sh`.  It skips the build if both files are there, and ends after
its preparations on another system than Linux. -/
def buildGlibc : Script Host :=
  .block [
    .when (fun tree => !tree.isFile project.glibcTarball) (.exit 1),
    .run (LinkTree.mkdirs env.directoryMode [project.packagesBuildDir, project.rootfs []]),
    .ite (fun tree => glibcFiles.all (fun path => tree.isFile (project.rootfs path)) && !env.clean)
      (sanitizeLibraries project)
      (.block [
        .when (fun _ => env.clean)
          (.run (LinkTree.removeAll env.removes env.kept project.glibcSource)),
        .when (fun tree => !tree.isDirectory project.glibcSource) (.run env.unpackGlibc),
        .run (LinkTree.removeAll env.removes env.kept glibcBuildDir),
        .run (LinkTree.mkdirs env.directoryMode [glibcBuildDir]),
        .when (fun _ => env.linux)
          (.block [
            .run env.compileGlibc,
            .run (env.install .glibc),
            sanitizeLibraries project])])]

/-- `build_bash.sh`.  On another system than Linux it ends before its own link. -/
def buildBash : Script Host :=
  .block [
    .run (env.install .bash),
    .when (fun _ => env.linux) (.tolerate (link project bashTarget ["bin", "sh"]))]

/-- One builder script. -/
def builder (package : Package) : Script Host :=
  match package with
  | .glibc => buildGlibc project env
  | .bash => buildBash project env
  | other => .run (env.install other)

/-- A builder that ends early has failed, and ends the whole script. -/
def runBuilder (package : Package) : Script Host :=
  .when (fun _ => env.executable package) (builder project env package)

/-- Copy and enable the service of a network daemon. -/
def enableService (name : String) : Script Host :=
  match env.runit with
  | some config =>
      .when (fun _ => config.hasService name)
        (.block [
          .run (LinkTree.copyTree (config.service name) (project.rootfs ["etc", "sv"])),
          .tolerate (chmodExecutable project env [["etc", "sv", name, "run"]]),
          .tolerate (link project (serviceTarget name)
            ["etc", "runit", "runsvdir", "default", name])])
  | none => .skip

def configureIwd : Script Host :=
  whenPresent (env.network "iwd-main.conf") fun source =>
    .block [
      .run (mkdir project env [["etc", "iwd"]]),
      .run (copyFile project source "iwd-main.conf" ["etc", "iwd", "main.conf"])]

def configureDhcpcd : Script Host :=
  whenPresent (env.network "dhcpcd.conf") fun source =>
    .run (copyFile project source "dhcpcd.conf" ["etc", "dhcpcd.conf"])

def configureXbps : Script Host :=
  whenPresent (env.network "xbps-repos.conf") fun source =>
    .block [
      .run (mkdir project env [["etc", "xbps.d"]]),
      .run (copyFile project source "xbps-repos.conf"
        ["etc", "xbps.d", "00-repository-main.conf"])]

/-! ## Section 21: the installer -/

/-- An installer program is copied to `/sbin` and made executable. -/
def installProgram (source : Option Source) (name : String) (path : Path) : Script Host :=
  whenPresent source fun source =>
    .block [
      .run (copyFile project source name path),
      .run (chmodExecutable project env [path])]

def desktopName : String :=
  "aqj-installer.desktop"

def installDesktopEntry : Script Host :=
  whenPresent env.desktopEntry fun source =>
    .block [
      .run (copyFile project source desktopName ["usr", "share", "applications", desktopName]),
      .run (copyFile project source desktopName ["root", "Desktop", desktopName]),
      .run (copyFile project source desktopName ["home", "aqj", "Desktop", desktopName]),
      .tolerate (chmodExecutable project env
        [["root", "Desktop", desktopName], ["home", "aqj", "Desktop", desktopName]])]

def installInstaller : Script Host :=
  .block [
    .run (mkdir project env [["sbin"], ["usr", "share", "applications"], ["root", "Desktop"],
      ["home", "aqj", "Desktop"]]),
    installProgram project env env.installer "installer.sh" ["sbin", "aqj-install"],
    installProgram project env env.guiInstaller "gui_installer.py" ["sbin", "aqj-install-gui"],
    installDesktopEntry project env]

/-! ## The whole script -/

/-- Sections 1 to 4, before the builders. -/
def prepare : Script Host :=
  .block [
    makeTree project env,
    setupRunit project env,
    linkInit project,
    writeFstab project env]

/-- Sections 1 to 5, before BusyBox. -/
def populateBase : Script Host :=
  .block [
    prepare project env,
    runBuilder project env .glibc,
    sanitizeLibraries project]

/-- Sections 7 to 20, after BusyBox. -/
def populateRest : Script Host :=
  .block [
    runBuilder project env .utilLinux,
    runBuilder project env .eudev,
    runBuilder project env .iwd,
    configureIwd project env,
    enableService project env "iwd",
    runBuilder project env .dhcpcd,
    configureDhcpcd project env,
    enableService project env "dhcpcd",
    runBuilder project env .xbps,
    configureXbps project env,
    runBuilder project env .xbpsSrc,
    runBuilder project env .bash,
    runBuilder project env .xorgServer,
    runBuilder project env .xfdesktop]

/-- Everything up to the last builder. -/
def runBuilders : Script Host :=
  .block [
    populateBase project env,
    runBuilder project env .busybox,
    populateRest project env]

/-- `populate_rootfs.sh`. -/
def populate : Script Host :=
  .seq (runBuilders project env) (installInstaller project env)

end Commands

/-! ## A small build -/

/-- A project below the root directory. -/
def smallProject : Project :=
  ⟨["aqj"], by decide⟩

/-- The stages and one service of `configs/runit`. -/
def smallRunit : RunitConfig where
  file name := if name ∈ ["1", "2", "3"] then some ⟨"#!/bin/sh\n", 0o644⟩ else none
  services := some [(["getty-tty1"], .directory 0o755),
    (["getty-tty1", "run"], .file "#!/bin/sh\n" 0o644)]
  followed _ := false
  proper := by decide

/-- A build on Linux whose packages install nothing but the link of BusyBox's
init applet; the builder of glibc is not executable. -/
def smallBuild : Environment where
  runit := some smallRunit
  network _ := none
  installer := none
  guiInstaller := none
  desktopEntry := none
  executable package := package != .glibc
  linux := true
  clean := false
  removes := true
  kept _ := false
  unpackGlibc tree := (.success, tree)
  compileGlibc tree := (.success, tree)
  install package :=
    match package with
    | .busybox =>
        .ofOption fun tree =>
          tree.set (smallProject.rootfs ["sbin", "init"]) (.link busyboxTarget)
    | _ => fun tree => (.success, tree)
  directoryMode := 0o755
  fileMode := 0o644
  executeBits := 0o111

end AqjOs.Rootfs
