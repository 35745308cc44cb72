import AqjOs.Files.Archive
import AqjOs.Shell.Script

/-!
# The build pipeline from the kernel to the ISO image

`build_all_in_container.sh` runs `build_kernel.sh`, `populate_rootfs.sh`,
`build_initramfs.sh` and `build_iso.sh` one after the other on the file system of
a container, where the project is mounted at `/workspace`.  Programs such as
`tar`, `make` and `patch` leave whatever they like wherever they like; everything
that the scripts themselves copy, create, remove or test is embedded as it
stands, with the links it follows.
-/

namespace AqjOs.Build

open AqjOs.Files AqjOs.Shell

/-- The file system of the container, with file contents as text. -/
abbrev Machine := LinkTree String

/-- The calls of `make` in the kernel source. -/
inductive KernelTarget
  | defconfig
  | olddefconfig
  | bzImage
  | modules
  deriving DecidableEq, Repr

/-- A program that writes to its standard output: its status and the text. -/
structure Output where
  ok : Bool
  content : String
  deriving DecidableEq, Repr

/-- Everything that the scripts meet and do not decide themselves: the programs
they call, how removals end, and the modes that the umask leaves for new
directories, new files and copies. -/
structure Environment where
  linux : Bool
  clean : Bool
  patches : List String
  unpack : Command Machine
  patch : String → Command Machine
  make : KernelTarget → Command Machine
  modulesInstall : Command Machine
  populateRootfs : Command Machine
  configureLimine : Command Machine
  makeLimine : Command Machine
  initramfsExecutable : Bool
  cpio : Output
  listInitramfs : Bool
  xorriso : Option (Bool → Command Machine)
  biosInstall : Command Machine
  removes : Bool
  kept : Path → Bool
  directoryMode : Nat
  fileMode : Nat
  copyMode : Nat → Nat

/-! ## Commands on the tree -/

/-- `PROJECT_ROOT`. -/
def projectRoot : Path :=
  ["workspace"]

section Commands

variable (env : Environment)

def mkdir (paths : List Path) : Command Machine :=
  LinkTree.mkdirs env.directoryMode paths

/-- `rm -rf`. -/
def remove (path : Path) : Command Machine :=
  LinkTree.removeAll env.removes env.kept path

/-- The path under which `cp` writes. -/
def copyTarget (source destination : Path) (tree : Machine) : Path :=
  if tree.isDirectory destination then destination ++ [source.getLastD ""] else destination

/-- `cp` of one regular file, which refuses to copy a file onto itself. -/
def copy (source destination : Path) : Command Machine :=
  .ofOption fun tree =>
    (tree.fileAt source).bind fun file =>
      if tree.resolve source = tree.resolve (copyTarget source destination tree) then none
      else tree.overwrite file.1 (env.copyMode file.2) (copyTarget source destination tree)

/-- Redirection of a text to a file. -/
def redirect (path : Path) (text : String) : Command Machine :=
  .ofOption (LinkTree.writeFile text env.fileMode path)

/-- `program > path`: the file is written also when the program fails. -/
def redirectOutput (path : Path) (output : Output) : Command Machine :=
  fun tree =>
    match tree.writeFile output.content env.fileMode path with
    | some next => (.ofBool output.ok, next)
    | none => (.failure, tree)

/-- Something stands where the path leads. -/
def leadsSomewhere (path : Path) (tree : Machine) : Bool :=
  (tree.resolve path).any fun place => (tree.node place).isSome

/-- `touch path` leaves what is there as it is. -/
def touch (path : Path) : Command Machine :=
  .ofOption fun tree =>
    if leadsSomewhere path tree then some tree else tree.writeFile "" env.fileMode path

/-! ## `build_kernel.sh` -/

def kernelTarball : Path :=
  projectRoot ++ ["kernel", "tarballs", "linux-7.1.8.tar.gz"]

def kernelBuildDir : Path :=
  projectRoot ++ ["kernel", "build"]

def kernelSrcDir : Path :=
  kernelBuildDir ++ ["linux-7.1.8"]

def kernelConfig : Path :=
  projectRoot ++ ["configs", "boot", "kernel-7.1.8.config"]

def patchesDir : Path :=
  projectRoot ++ ["kernel", "patches"]

/-- `OUTPUT_BOOT_DIR`. -/
def outputBootDir : Path :=
  projectRoot ++ ["iso", "boot"]

/-- `STAGING_ROOTFS` and `ROOTFS_DIR`. -/
def rootfsDir : Path :=
  projectRoot ++ ["rootfs"]

def bzImage : Path :=
  kernelSrcDir ++ ["arch", "x86", "boot", "bzImage"]

def systemMap : Path :=
  kernelSrcDir ++ ["System.map"]

/-- The loop over the patch files, each under `|| true`. -/
def applyPatches : Script Machine :=
  .block (env.patches.map fun file => .tolerate (env.patch file))

def buildKernel : Script Machine :=
  .block [
    .when (fun tree => !tree.isFile kernelTarball) (.exit 1),
    .run (mkdir env [kernelBuildDir, outputBootDir, rootfsDir]),
    .when (fun _ => env.clean) (.run (remove env kernelSrcDir)),
    .when (fun tree => !tree.isDirectory kernelSrcDir) (.run env.unpack),
    .when (fun tree => tree.isDirectory patchesDir && !env.patches.isEmpty) (applyPatches env),
    .ite (fun tree => tree.isFile kernelConfig)
      (.run (copy env kernelConfig (kernelSrcDir ++ [".config"])))
      (.run (env.make .defconfig)),
    .when (fun _ => !env.linux) (.exit 0),
    .run (env.make .olddefconfig), .run (env.make .bzImage), .run (env.make .modules),
    .when (fun tree => tree.isFile bzImage)
      (.block [.run (copy env bzImage (outputBootDir ++ ["vmlinuz-7.1.8"])),
        .run (copy env systemMap (outputBootDir ++ ["System.map-7.1.8"]))]),
    .run env.modulesInstall]

/-! ## `build_initramfs.sh` -/

/-- `ISO_DIR`. -/
def isoDir : Path :=
  projectRoot ++ ["iso"]

/-- `INITRAMFS_OUT`. -/
def initramfsOut : Path :=
  isoDir ++ ["initramfs.img"]

def buildInitramfs : Script Machine :=
  .block [
    .when (fun tree => !tree.isDirectory rootfsDir) (.exit 1),
    .run (mkdir env [isoDir, isoDir ++ ["boot"]]),
    .run (redirectOutput env initramfsOut env.cpio),
    .run (copy env initramfsOut (isoDir ++ ["boot", "initramfs.img"])),
    .run (.of (fun _ => env.listInitramfs) id)]

/-! ## `build_iso.sh` -/

def limineDir : Path :=
  projectRoot ++ ["limine"]

def limineBinDir : Path :=
  limineDir ++ ["bin"]

def limineConf : Path :=
  projectRoot ++ ["configs", "boot", "limine.conf"]

def stagingDir : Path :=
  isoDir ++ ["staging"]

/-- `KERNEL_IMAGE`. -/
def kernelImage : Path :=
  isoDir ++ ["vmlinuz-7.1.8"]

/-- The kernel in the tree that is handed to `xorriso`. -/
def stagedKernel : Path :=
  stagingDir ++ ["boot", "vmlinuz-7.1.8"]

/-- `HAS_LIMINE_STAGE`. -/
def hasLimineStage (tree : Machine) : Bool :=
  ["limine-bios-cd.bin", "limine-uefi-cd.bin"].all fun file =>
    tree.isFile (limineBinDir ++ [file]) || tree.isFile (limineDir ++ [file])

/-- Compilation of Limine, tried when its stage files are missing. -/
def buildLimine : Script Machine :=
  .when (fun tree => !hasLimineStage tree && tree.isFile (limineDir ++ ["configure"]))
    (.block [.tolerate env.configureLimine, .tolerate env.makeLimine])

/-- The first of the two places where Limine's files may lie. -/
def copyLimine (file : String) (destination : Path) : Script Machine :=
  .ite (fun tree => tree.isFile (limineBinDir ++ [file]))
    (.run (copy env (limineBinDir ++ [file]) destination))
    (.when (fun tree => tree.isFile (limineDir ++ [file]))
      (.run (copy env (limineDir ++ [file]) destination)))

/-- The configuration written when `configs/boot/limine.conf` is missing. -/
def defaultLimineConf : String :=
  "timeout: 5\n" ++
  "default_entry: 1\n" ++
  "graphics: yes\n" ++
  "\n" ++
  "/AQJ OS (Linux 7.1.8)\n" ++
  "    protocol: linux\n" ++
  "    kernel_path: boot():/boot/vmlinuz-7.1.8\n" ++
  "    initrd_path: boot():/boot/initramfs.img\n" ++
  "    cmdline: quiet loglevel=3 rw root=/dev/ram0 console=tty1\n"

/-- Steps 2 to 3.5: Limine and the initramfs. -/
def prepareIso : Script Machine :=
  .block [
    .when (fun tree => !tree.isDirectory limineDir) (.exit 1),
    buildLimine env,
    .when (fun _ => env.initramfsExecutable) (.run (buildInitramfs env).call)]

/-- Steps 4 and 5: a fresh staging tree with initramfs and configuration. -/
def prepareStaging : Script Machine :=
  .block [
    .run (remove env stagingDir),
    .run (mkdir env [stagingDir ++ ["boot", "limine"]]),
    .run (mkdir env [stagingDir ++ ["EFI", "BOOT"]]),
    .when (fun tree => tree.isFile initramfsOut)
      (.run (copy env initramfsOut (stagingDir ++ ["boot", "initramfs.img"]))),
    .ite (fun tree => tree.isFile limineConf)
      (.run (copy env limineConf (stagingDir ++ ["boot", "limine", "limine.conf"])))
      (.run (redirect env (stagingDir ++ ["boot", "limine", "limine.conf"]) defaultLimineConf))]

/-- Step 6: the kernel image if there is one, else a placeholder. -/
def stageKernel : Script Machine :=
  .ite (fun tree => tree.isFile kernelImage)
    (.run (copy env kernelImage stagedKernel))
    (.block [.run (touch env stagedKernel),
      .run (touch env (stagingDir ++ ["boot", "initramfs.img"]))])

/-- Step 7: the boot stage files of Limine. -/
def stageLimine : Script Machine :=
  .block [
    copyLimine env "limine-bios.sys" (stagingDir ++ ["boot", "limine"]),
    copyLimine env "limine-bios-cd.bin" (stagingDir ++ ["boot", "limine"]),
    copyLimine env "limine-uefi-cd.bin" (stagingDir ++ ["boot", "limine"]),
    copyLimine env "BOOTX64.EFI" (stagingDir ++ ["EFI", "BOOT", "BOOTX64.EFI"]),
    copyLimine env "BOOTIA32.EFI" (stagingDir ++ ["EFI", "BOOT", "BOOTIA32.EFI"])]

/-- Step 8: `xorriso` if it is installed, told whether the image is to be bootable,
and the boot record. -/
def writeIso : Script Machine :=
  match env.xorriso with
  | none => .skip
  | some xorriso =>
      .ite (fun tree => tree.isFile (stagingDir ++ ["boot", "limine", "limine-bios-cd.bin"]))
        (.seq (.run (xorriso true))
          (.when (fun tree =>
              tree.isFile (limineBinDir ++ ["limine"]) || tree.isFile (limineDir ++ ["limine"]))
            (.run env.biosInstall)))
        (.run (xorriso false))

def buildIso : Script Machine :=
  .block [prepareIso env, prepareStaging env, stageKernel env, stageLimine env, writeIso env]

/-! ## The whole pipeline -/

/-- The scripts before `build_iso.sh`. -/
def buildInputs : Script Machine :=
  .block [
    .run (buildKernel env).call, .run env.populateRootfs, .run (buildInitramfs env).call]

/-- The script that `build_all_in_container.sh` runs in the container. -/
def buildAll : Script Machine :=
  .block [buildInputs env, .run (buildIso env).call]

end Commands

end AqjOs.Build
