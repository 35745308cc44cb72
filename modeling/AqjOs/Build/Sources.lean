import AqjOs.Files.LinkTree
import AqjOs.Shell.Script
import Mathlib.Logic.Function.Basic

/-!
# Unpacking and installing with skip tests

Nine scripts unpack a tarball and skip that step when a directory exists; the
one for glibc also skips everything when two files exist.  The state keeps, for
each source directory, the layer that `tar` has written: which member files are
there, with the contents that `tar` gave them.  A run can fail or be interrupted
at every command, and `rm`, `tar` and `make install` can stop half-way.  A skip
is recorded together with whether the skipped step had really been done.
-/

namespace AqjOs.Build.Sources

open AqjOs.Files AqjOs.Shell

/-- The scripts that unpack a tarball. -/
inductive Builder
  | kernel
  | glibc
  | busybox
  | bash
  | utilLinux
  | dhcpcd
  | xorgServer
  | xfdesktop
  | voidPackages
  deriving DecidableEq, Repr

/-- A tarball whose members all lie under one directory; the paths of its files
are relative to that directory.  `listing` holds the lines that `tar -tf` prints,
in which a member may stand as `./D/…` and with quoted characters. -/
structure Tarball where
  directory : String
  named : directory ≠ "." ∧ directory ≠ ".."
  paths : List Path
  content : Path → String
  listing : List String

/-- The files that a program has written below a directory. -/
abbrev Layer := Path → Option String

/-- A directory in which nothing has been written. -/
def Layer.empty : Layer :=
  fun _ => none

/-- Write those members of a tarball that `written` selects. -/
def Tarball.unpack (tarball : Tarball) (written : Path → Bool) (layer : Layer) : Layer :=
  fun path =>
    if path ∈ tarball.paths ∧ written path = true then some (tarball.content path)
    else layer path

/-- A layer holds every file of a tarball. -/
def Tarball.HeldBy (tarball : Tarball) (layer : Layer) : Prop :=
  ∀ path ∈ tarball.paths, layer path = some (tarball.content path)

instance (tarball : Tarball) (layer : Layer) : Decidable (tarball.HeldBy layer) :=
  inferInstanceAs (Decidable (∀ path ∈ tarball.paths, _))

/-- The directories that hold sources. -/
inductive Place
  | kernelBuild (name : String)
  | packagesBuild (name : String)
  | voidPackages
  deriving DecidableEq, Repr

/-- `GLIBC_VERSION`. -/
def glibcVersion : String :=
  "2.44"

/-- The value of `EXTRACTED_DIR` when the listing gives none. -/
def Builder.fallback : Builder → String
  | .busybox => "busybox"
  | .bash => "bash-5.3"
  | .utilLinux => "util-linux-2.41"
  | .dhcpcd => "dhcpcd-10.3.0"
  | .xorgServer => "xorg-server-21.1.24"
  | .xfdesktop => "xfdesktop-4.20.2"
  | .kernel | .glibc | .voidPackages => ""

/-- The builders that are written after one pattern. -/
def tarballBuilders : List Builder :=
  [.busybox, .bash, .utilLinux, .dhcpcd, .xorgServer, .xfdesktop]

/-- `cut -f1 -d"/"` of one line. -/
def firstField (line : String) : String :=
  String.ofList (line.toList.takeWhile (· ≠ '/'))

/-- `EXTRACTED_DIR`, from the lines that `tar -tf` prints. -/
def extractedDir (builder : Builder) (listing : List String) : String :=
  let field := (listing.head?.map firstField).getD ""
  if field = "" then builder.fallback else field

/-- `SRC_DIR`, or the void-packages directory. -/
def Builder.srcDir (builder : Builder) (extracted : String) : Place :=
  match builder with
  | .kernel => .kernelBuild "linux-7.1.8"
  | .glibc => .packagesBuild "glibc-2.44"
  | .voidPackages => .voidPackages
  | .busybox | .bash | .utilLinux | .dhcpcd | .xorgServer | .xfdesktop => .packagesBuild extracted

/-- `packages/build/.` and `packages/build/..` are always there, and `rm` refuses
to remove them. -/
def Place.dotted : Place → Bool
  | .packagesBuild name => name = "." || name = ".."
  | _ => false

/-- The directory into which `tar -C` unpacks the members of a tarball. -/
def Builder.unpackDir (builder : Builder) (tarball : Tarball) : Place :=
  match builder with
  | .kernel => .kernelBuild tarball.directory
  | _ => .packagesBuild tarball.directory

/-- The commands of the scripts, by what they do. -/
inductive Call
  | mkdir
  | list
  | remove
  | tar
  | removeTemp
  | mkdirTemp
  | move
  | buildDir
  | patch
  | config
  | configure
  | make
  | install
  deriving DecidableEq, Repr

/-- What one run meets: its argument, the host, the status of every command,
whether the listing gives the first member, and how far a removal, an extraction
and an installation get that do not succeed. -/
structure Environment where
  clean : Bool
  linux : Bool
  status : Call → Status
  listed : Bool
  kept : Path → Bool
  created : Bool
  written : Path → Bool
  installed : Path → Bool

/-- A step that was skipped, with whether it had been done. -/
structure Skip where
  builder : Builder
  done : Bool
  deriving DecidableEq, Repr

/-- The tarballs, the source directories, the files of glibc in the root file
system with their version, the temporary directory of void-packages with the
directory unpacked in it, the variable `EXTRACTED_DIR` and the skips of the
current run. -/
structure State where
  tarball : Builder → Option Tarball
  sources : Place → Option Layer
  rootfs : Layer
  temp : Option (Option (String × Layer))
  extracted : String
  skips : List Skip

/-- A checkout without tarballs in which nothing has been built. -/
def State.start : State where
  tarball _ := none
  sources _ := none
  rootfs := .empty
  temp := none
  extracted := ""
  skips := []

/-! ## Commands -/

/-- A command without an effect on what is tracked. -/
def plain (env : Environment) (call : Call) : Command State :=
  fun state => (env.status call, state)

/-- `tar -tf TARBALL | head -n 1 | cut -f1 -d"/"`, with the fallback. -/
def listTarball (builder : Builder) (env : Environment) : Command State :=
  fun state => (env.status .list, { state with
    extracted := extractedDir builder <|
      match state.tarball builder with
      | some tarball => if env.listed then tarball.listing else []
      | none => [] })

/-- The source directory after `rm -rf`. -/
def removed (env : Environment) (source : Option Layer) : Option Layer :=
  if env.status .remove = .success then none
  else source.map fun layer path => if env.kept path then layer path else none

/-- `rm -rf "${SRC_DIR}"`. -/
def removeSource (builder : Builder) (env : Environment) : Command State :=
  fun state =>
    let place := builder.srcDir state.extracted
    if place.dotted then (.failure, state)
    else
      (env.status .remove, { state with
        sources := Function.update state.sources place (removed env (state.sources place)) })

/-- What `tar` has written when it ends: everything, a part, or nothing yet. -/
def unpacked (env : Environment) (tarball : Tarball) (source : Option Layer) : Option Layer :=
  if env.status .tar = .success then some (tarball.unpack (fun _ => true) (source.getD .empty))
  else if env.created then some (tarball.unpack env.written (source.getD .empty))
  else source

/-- `tar -xzf TARBALL -C BUILD_DIR`. -/
def untar (builder : Builder) (env : Environment) : Command State :=
  fun state =>
    match state.tarball builder with
    | none => (.failure, state)
    | some tarball =>
        let place := builder.unpackDir tarball
        (env.status .tar, { state with
          sources :=
            Function.update state.sources place (unpacked env tarball (state.sources place)) })

/-- `[[ -d "${SRC_DIR}" ]]`. -/
def hasSource (builder : Builder) (state : State) : Bool :=
  (builder.srcDir state.extracted).dotted ||
    (state.sources (builder.srcDir state.extracted)).isSome

/-- Whether the source directory holds every file of the current tarball. -/
def extractionDone (builder : Builder) (state : State) : Bool :=
  match state.tarball builder, state.sources (builder.srcDir state.extracted) with
  | some tarball, some layer => decide (tarball.HeldBy layer)
  | _, _ => false

/-- Pass a skip test. -/
def skip (builder : Builder) (done : State → Bool) : Command State :=
  fun state => (.success, { state with skips := ⟨builder, done state⟩ :: state.skips })

/-- Removal with `--clean`, then extraction unless the directory exists. -/
def extract (builder : Builder) (env : Environment) : Script State :=
  .block [
    .when (fun _ => env.clean) (.run (removeSource builder env)),
    .ite (hasSource builder)
      (.run (skip builder (extractionDone builder)))
      (.run (untar builder env))]

/-! ## The scripts -/

/-- The six tarball builders of one pattern. -/
def tarballBuilder (builder : Builder) (env : Environment) : Script State :=
  .block [
    .when (fun state => (state.tarball builder).isNone) (.exit 1),
    .run (plain env .mkdir),
    .run (listTarball builder env),
    extract builder env,
    .when (fun _ => !env.linux) (.exit 0),
    .run (plain env .configure), .run (plain env .make), .run (plain env .install)]

def buildKernel (env : Environment) : Script State :=
  .block [
    .when (fun state => (state.tarball .kernel).isNone) (.exit 1),
    .run (plain env .mkdir),
    extract .kernel env,
    .tolerate (plain env .patch),
    .run (plain env .config),
    .when (fun _ => !env.linux) (.exit 0),
    .run (plain env .make), .run (plain env .install)]

/-- The two files that stand for an installed glibc. -/
def libcSo6 : Path :=
  ["lib64", "libc.so.6"]

def libcNonshared : Path :=
  ["usr", "lib", "libc_nonshared.a"]

/-- `[[ -f lib64/libc.so.6 && -f usr/lib/libc_nonshared.a ]]`. -/
def hasMarkers (rootfs : Layer) : Bool :=
  (rootfs libcSo6).isSome && (rootfs libcNonshared).isSome

/-- The root file system holds all files of an installation of `glibcVersion`. -/
def GlibcComplete (manifest : List Path) (rootfs : Layer) : Prop :=
  ∀ path ∈ manifest, rootfs path = some glibcVersion

instance (manifest : List Path) (rootfs : Layer) : Decidable (GlibcComplete manifest rootfs) :=
  inferInstanceAs (Decidable (∀ path ∈ manifest, _))

/-- The files after `make install`, which writes the files of the manifest. -/
def glibcInstalled (manifest : List Path) (env : Environment) (rootfs : Layer) : Layer :=
  fun path =>
    if path ∈ manifest ∧ (env.status .install = .success ∨ env.installed path = true) then
      some glibcVersion
    else rootfs path

/-- `make install DESTDIR="${STAGING_ROOTFS}"` of glibc. -/
def installGlibc (manifest : List Path) (env : Environment) : Command State :=
  fun state => (env.status .install, { state with
    rootfs := glibcInstalled manifest env state.rootfs })

def buildGlibc (manifest : List Path) (env : Environment) : Script State :=
  .block [
    .when (fun state => (state.tarball .glibc).isNone) (.exit 1),
    .run (plain env .mkdir),
    .when (fun state => hasMarkers state.rootfs && !env.clean)
      (.seq (.run (skip .glibc fun state => decide (GlibcComplete manifest state.rootfs)))
        (.exit 0)),
    extract .glibc env,
    .run (plain env .buildDir),
    .when (fun _ => !env.linux) (.exit 0),
    .run (plain env .configure), .run (plain env .make),
    .run (installGlibc manifest env)]

/-- `rm -rf "${TEMP_EXTRACT_DIR}"`. -/
def removeTemp (env : Environment) : Command State :=
  fun state => (env.status .removeTemp,
    if env.status .removeTemp = .success then { state with temp := none } else state)

/-- `mkdir -p "${TEMP_EXTRACT_DIR}"`. -/
def mkdirTemp (env : Environment) : Command State :=
  fun state => (env.status .mkdirTemp,
    if env.status .mkdirTemp = .success then
      { state with temp := some (state.temp.getD none) }
    else state)

/-- `tar -xzf TARBALL -C "${TEMP_EXTRACT_DIR}"`. -/
def untarTemp (env : Environment) : Command State :=
  fun state =>
    match state.tarball .voidPackages with
    | none => (.failure, state)
    | some tarball => (env.status .tar, { state with
        temp := state.temp.map fun inside =>
          (unpacked env tarball (inside.map (·.2))).map fun layer => (tarball.directory, layer) })

/-- Whether `ls` lists a name. -/
def isVisible (name : String) : Bool :=
  name.toList.head? ≠ some '.'

/-- The tree that ends up as void-packages: the directory that `ls` lists in the
temporary directory, or the temporary directory itself. -/
def movedLayer : Option (String × Layer) → Layer
  | none => .empty
  | some (name, layer) =>
      if isVisible name then layer
      else fun path =>
        match path with
        | [] => none
        | first :: rest => if first = name then layer rest else none

/-- `mv` to the void-packages directory, which renames in one step. -/
def moveTemp (env : Environment) : Command State :=
  fun state =>
    match state.temp with
    | none => (.failure, state)
    | some inside => (env.status .move,
        if env.status .move = .success then
          { state with
            sources := Function.update state.sources .voidPackages (some (movedLayer inside)) }
        else state)

def setupVoidPackages (env : Environment) : Script State :=
  .block [
    .when (fun state => (state.tarball .voidPackages).isNone) (.exit 1),
    .when (fun _ => env.clean) (.run (removeSource .voidPackages env)),
    .ite (fun state => (state.sources .voidPackages).isSome)
      (.run (skip .voidPackages (extractionDone .voidPackages)))
      (.block [.run (removeTemp env), .run (mkdirTemp env), .tolerate (untarTemp env),
        .run (moveTemp env), .run (removeTemp env)]),
    .tolerate (plain env .config)]

/-- The script of a builder. -/
def script (manifest : List Path) (env : Environment) : Builder → Script State
  | .kernel => buildKernel env
  | .glibc => buildGlibc manifest env
  | .voidPackages => setupVoidPackages env
  | .busybox => tarballBuilder .busybox env
  | .bash => tarballBuilder .bash env
  | .utilLinux => tarballBuilder .utilLinux env
  | .dhcpcd => tarballBuilder .dhcpcd env
  | .xorgServer => tarballBuilder .xorgServer env
  | .xfdesktop => tarballBuilder .xfdesktop env

/-! ## Histories -/

/-- A tarball is put in place, or a script is run. -/
inductive Event
  | replace (builder : Builder) (tarball : Tarball)
  | run (builder : Builder) (env : Environment)

/-- One event of a history. -/
def step (manifest : List Path) (state : State) : Event → State
  | .replace builder tarball =>
      { state with
        tarball := Function.update state.tarball builder (some tarball)
        skips := [] }
  | .run builder env => ((script manifest env builder).exec { state with skips := [] }).state

end AqjOs.Build.Sources
