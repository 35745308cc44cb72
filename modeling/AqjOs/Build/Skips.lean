import AqjOs.Build.Sources
import AqjOs.Shell.Triple
import AqjOs.Transition.Run

/-!
# Skipped work was done

The skip tests look for a directory or for two files, so that they cannot tell a
finished step from one that was cut short, nor the current tarball from an older
one.  In histories in which no step is cut short and tarballs are put in place
only where nothing older has been unpacked, every skipped step had been done.
-/

namespace AqjOs.Build.Sources

open AqjOs.Files AqjOs.Shell AqjOs.Transition

/-- Every step that the run has skipped had been done. -/
def SkipsDone (manifest : List Path) (state : State) (event : Event) : Prop :=
  ∀ skip ∈ (step manifest state event).skips, skip.done = true

instance (manifest : List Path) (state : State) (event : Event) :
    Decidable (SkipsDone manifest state event) :=
  inferInstanceAs (Decidable (∀ skip ∈ (step manifest state event).skips, _))

/-! ## The condition -/

/-- The builders that unpack below `packages/build`. -/
def Builder.sharesPackages : Builder → Bool
  | .kernel | .voidPackages => false
  | _ => true

/-- No other builder uses the directory of a tarball that is put in place. -/
structure OwnDirectory (tarballs : Builder → Option Tarball) (builder : Builder)
    (tarball : Tarball) : Prop where
  apart : ∀ other current, other ≠ builder → other.sharesPackages = true →
    builder.sharesPackages = true → tarballs other = some current →
      current.directory ≠ tarball.directory
  notGlibc : builder.sharesPackages = true → builder ≠ .glibc → tarball.directory ≠ "glibc-2.44"

/-- A tarball is put in place while its source directory does not exist, or
already holds every file of it.  The builders that guess the directory read it
off the listing as it is. -/
structure PlacedFresh (state : State) (builder : Builder) (tarball : Tarball) : Prop extends
    OwnDirectory state.tarball builder tarball where
  guessed : builder ∈ tarballBuilders → extractedDir builder tarball.listing = tarball.directory
  fresh : ∀ layer, state.sources (builder.srcDir tarball.directory) = some layer →
    tarball.HeldBy layer
  visible : builder = .voidPackages → isVisible tarball.directory = true

/-- No removal, extraction or installation of the run is cut short: the listing
gives the directory; `rm` succeeds; `tar` succeeds or has not created the
directory (for void-packages, where a failure is ignored, it does not fail);
`make install` of glibc succeeds, or leaves not both of the two files behind, or
meets a complete installation. -/
structure Uncut (manifest : List Path) (state : State) (builder : Builder) (env : Environment) :
    Prop where
  listed : env.listed = true
  removed : env.clean = true → env.status .remove = .success
  unpacked : builder ≠ .voidPackages → env.status .tar = .success ∨ env.created = false
  tempUnpacked : builder = .voidPackages → env.status .tar ≠ .failure
  installed : builder = .glibc → env.status .install = .success ∨
    GlibcComplete manifest state.rootfs ∨
      hasMarkers (glibcInstalled manifest env state.rootfs) = false

/-- The condition on one event. -/
def Careful (manifest : List Path) (state : State) : Event → Prop
  | .replace builder tarball => PlacedFresh state builder tarball
  | .run builder env => Uncut manifest state builder env

/-! ## The invariant -/

/-- What a skip test infers is true: an existing source directory holds every
file of the current tarball, and the two files mean a complete glibc. -/
structure Sound (manifest : List Path) (state : State) : Prop where
  held : ∀ builder tarball layer, state.tarball builder = some tarball →
    state.sources (builder.srcDir tarball.directory) = some layer → tarball.HeldBy layer
  own : ∀ builder tarball, state.tarball builder = some tarball →
    OwnDirectory state.tarball builder tarball
  guessed : ∀ builder tarball, state.tarball builder = some tarball →
    builder ∈ tarballBuilders → extractedDir builder tarball.listing = tarball.directory
  visible : ∀ tarball, state.tarball .voidPackages = some tarball →
    isVisible tarball.directory = true
  glibc : hasMarkers state.rootfs = true → GlibcComplete manifest state.rootfs

/-- Sound, with nothing skipped that was not done. -/
structure Good (manifest : List Path) (state : State) : Prop extends Sound manifest state where
  skips : ∀ skip ∈ state.skips, skip.done = true

/-- Good, with the tarball there and its directory known. -/
structure Ready (manifest : List Path) (builder : Builder) (state : State) : Prop extends
    Good manifest state where
  present : ∃ tarball, state.tarball builder = some tarball ∧
    builder.srcDir state.extracted = builder.srcDir tarball.directory

theorem sound_start (manifest : List Path) : Sound manifest .start where
  held := by
    intro builder tarball layer present
    contradiction
  own := by
    intro builder tarball present
    contradiction
  guessed := by
    intro builder tarball present
    contradiction
  visible := by
    intro tarball present
    contradiction
  glibc := by
    intro markers
    contradiction

/-- A complete extraction leaves every file of the tarball. -/
theorem Tarball.heldBy_unpack_all (tarball : Tarball) (layer : Layer) :
    tarball.HeldBy (tarball.unpack (fun _ => true) layer) := by
  intro path member
  rw [Tarball.unpack, if_pos ⟨member, rfl⟩]

/-- Soundness survives a change of one source directory after which that
directory, if it exists, holds what its builders expect. -/
theorem Sound.update_sources {manifest : List Path} {state : State} (sound : Sound manifest state)
    (place : Place) (source : Option Layer)
    (expected : ∀ builder tarball layer, state.tarball builder = some tarball →
      builder.srcDir tarball.directory = place → source = some layer → tarball.HeldBy layer) :
    Sound manifest { state with sources := Function.update state.sources place source } where
  held := by
    intro builder tarball layer present found
    change Function.update state.sources place source _ = some layer at found
    by_cases here : builder.srcDir tarball.directory = place
    · rw [here, Function.update_self] at found
      exact expected builder tarball layer present here found
    · rw [Function.update_of_ne here] at found
      exact sound.held builder tarball layer present found
  own := sound.own
  guessed := sound.guessed
  visible := sound.visible
  glibc := sound.glibc

/-- The directory of a tarball below `packages/build` is the source directory of
its own builder only. -/
theorem OwnDirectory.builder_eq {tarballs : Builder → Option Tarball} {builder other : Builder}
    {tarball current : Tarball} (own : OwnDirectory tarballs builder tarball)
    (present : tarballs other = some current)
    (same : other.srcDir current.directory = .packagesBuild tarball.directory)
    (shares : builder.sharesPackages = true) : other = builder := by
  by_contra different
  have distinct := own.apart other current different
  cases other with
  | kernel => contradiction
  | voidPackages => contradiction
  | glibc =>
      have directory_eq : "glibc-2.44" = tarball.directory := Place.packagesBuild.inj same
      exact own.notGlibc shares (Ne.symm different) directory_eq.symm
  | busybox => exact distinct rfl shares present (Place.packagesBuild.inj same)
  | bash => exact distinct rfl shares present (Place.packagesBuild.inj same)
  | utilLinux => exact distinct rfl shares present (Place.packagesBuild.inj same)
  | dhcpcd => exact distinct rfl shares present (Place.packagesBuild.inj same)
  | xorgServer => exact distinct rfl shares present (Place.packagesBuild.inj same)
  | xfdesktop => exact distinct rfl shares present (Place.packagesBuild.inj same)

/-- The directory that a builder unpacks is the source directory of no other
builder. -/
theorem Sound.builder_eq_of_unpackDir {manifest : List Path} {state : State}
    (sound : Sound manifest state) {builder other : Builder} {tarball current : Tarball}
    (present : state.tarball builder = some tarball)
    (presentOther : state.tarball other = some current) (notVoid : builder ≠ .voidPackages)
    (same : other.srcDir current.directory = builder.unpackDir tarball) : other = builder := by
  by_cases isKernel : builder = .kernel
  · subst isKernel
    cases other with
    | kernel => rfl
    | _ => contradiction
  · have shares : builder.sharesPackages = true := by
      cases builder with
      | kernel => contradiction
      | voidPackages => contradiction
      | _ => rfl
    have place_eq : builder.unpackDir tarball = .packagesBuild tarball.directory := by
      cases builder with
      | kernel => contradiction
      | _ => rfl
    rw [place_eq] at same
    exact (sound.own builder tarball present).builder_eq presentOther same shares

/-- The directory of a tarball is no dot, and so a name that can be missing. -/
theorem Builder.srcDir_dotted (builder : Builder) (tarball : Tarball) :
    (builder.srcDir tarball.directory).dotted = false := by
  obtain ⟨notHere, notUp⟩ := tarball.named
  cases builder <;> simp [Builder.srcDir, Place.dotted, notHere, notUp]

/-! ## One command -/

theorem removeSource_ready {manifest : List Path} {builder : Builder} {env : Environment}
    (succeeds : env.status .remove = .success) {state : State}
    (ready : Ready manifest builder state) :
    Ready manifest builder (removeSource builder env state).2 := by
  simp only [removeSource]
  split
  · exact ready
  refine ⟨⟨ready.toSound.update_sources _ _ ?_, ready.skips⟩, ready.present⟩
  intro other tarball layer _ _ found
  rw [removed, if_pos succeeds] at found
  contradiction

theorem untar_good {manifest : List Path} {builder : Builder} {env : Environment}
    (notVoid : builder ≠ .voidPackages)
    (uncut : env.status .tar = .success ∨ env.created = false) {state : State}
    (good : Good manifest state) : Good manifest (untar builder env state).2 := by
  unfold untar
  cases present : state.tarball builder with
  | none => exact good
  | some tarball =>
      refine ⟨good.toSound.update_sources _ _ ?_, good.skips⟩
      intro other current layer presentOther here found
      have same := good.toSound.builder_eq_of_unpackDir present presentOther notVoid here
      subst same
      rw [present] at presentOther
      cases presentOther
      by_cases succeeds : env.status .tar = .success
      · rw [unpacked, if_pos succeeds] at found
        cases found
        exact tarball.heldBy_unpack_all _
      · have notCreated : env.created = false := uncut.resolve_left succeeds
        rw [unpacked, if_neg succeeds, notCreated, if_neg Bool.false_ne_true, ← here] at found
        exact good.held _ tarball layer present found

/-- A skip test that finds the source directory is right. -/
theorem skip_good {manifest : List Path} {builder : Builder} {state : State}
    (ready : Ready manifest builder state) (found : hasSource builder state = true) :
    Good manifest (skip builder (extractionDone builder) state).2 := by
  obtain ⟨tarball, present, place_eq⟩ := ready.present
  have there : (state.sources (builder.srcDir state.extracted)).isSome = true := by
    rwa [hasSource, place_eq, builder.srcDir_dotted, Bool.false_or, ← place_eq] at found
  obtain ⟨layer, layer_eq⟩ := Option.isSome_iff_exists.mp there
  have held : tarball.HeldBy layer := by
    rw [place_eq] at layer_eq
    exact ready.held builder tarball layer present layer_eq
  have done : extractionDone builder state = true := by
    simp [extractionDone, present, layer_eq, held]
  refine ⟨⟨ready.held, ready.own, ready.guessed, ready.visible, ready.glibc⟩, ?_⟩
  intro passed member
  rcases List.mem_cons.mp member with rfl | earlier
  · exact done
  · exact ready.skips passed earlier

/-- The removal and the extraction of a run that is not cut short. -/
theorem extract_triple {manifest : List Path} {builder : Builder} {env : Environment}
    (notVoid : builder ≠ .voidPackages)
    (removes : env.clean = true → env.status .remove = .success)
    (unpacks : env.status .tar = .success ∨ env.created = false) :
    (extract builder env).Triple (Ready manifest builder) (Good manifest) (Good manifest) := by
  have removal : (Script.when (fun _ => env.clean) (.run (removeSource builder env))).Triple
      (Ready manifest builder) (Ready manifest builder) (Good manifest) := by
    apply Script.triple_when _ (fun _ ready _ => ready)
    apply (Script.triple_run_same ?_).mono (fun _ holds => holds) (fun _ ready => ready)
      (fun _ ready => ready.toGood)
    rintro state ⟨ready, clean⟩
    exact removeSource_ready (removes clean) ready
  have extraction : (Script.ite (hasSource builder)
      (.run (skip builder (extractionDone builder))) (.run (untar builder env))).Triple
      (Ready manifest builder) (Good manifest) (Good manifest) := by
    apply Script.triple_ite
    · apply Script.triple_run_same
      rintro state ⟨ready, found⟩
      exact skip_good ready found
    · apply Script.triple_run_same
      rintro state ⟨ready, _⟩
      exact untar_good notVoid unpacks ready.toGood
  exact Script.triple_seq removal (Script.triple_seq extraction Script.triple_skip)

/-! ## One run -/

section Run

variable {manifest : List Path} {env : Environment}

/-- A command without a tracked effect keeps every condition. -/
theorem plain_triple {condition : State → Prop} (call : Call) :
    (Script.run (plain env call)).Triple condition condition condition :=
  Script.triple_run_same fun _ holds => holds

/-- Behind the first gate the tarball is there. -/
theorem gate_triple (builder : Builder) :
    (Script.when (fun state : State => (state.tarball builder).isNone) (.exit 1)).Triple
      (Good manifest)
      (fun state => Good manifest state ∧ ∃ tarball, state.tarball builder = some tarball)
      (Good manifest) := by
  apply Script.triple_gate.mono (fun _ good => good) _ (fun _ good => good)
  rintro state ⟨good, present⟩
  refine ⟨good, Option.isSome_iff_exists.mp ?_⟩
  rw [← Option.isNone_eq_false_iff]
  exact present

theorem tarballBuilder_triple {builder : Builder} (isTarball : builder ∈ tarballBuilders)
    (listed : env.listed = true)
    (removes : env.clean = true → env.status .remove = .success)
    (unpacks : env.status .tar = .success ∨ env.created = false) :
    (tarballBuilder builder env).Triple (Good manifest) (Good manifest) (Good manifest) := by
  have notVoid : builder ≠ .voidPackages := by
    rintro rfl
    exact absurd isTarball (by decide)
  have listing : (Script.run (listTarball builder env)).Triple
      (fun state => Good manifest state ∧ ∃ tarball, state.tarball builder = some tarball)
      (Ready manifest builder) (Good manifest) := by
    apply (Script.triple_run_same ?_).mono (fun _ holds => holds) (fun _ ready => ready)
      (fun _ ready => ready.toGood)
    rintro state ⟨good, tarball, present⟩
    refine ⟨⟨⟨good.held, good.own, good.guessed, good.visible, good.glibc⟩, good.skips⟩,
      tarball, present, ?_⟩
    have guess := good.guessed builder tarball present isTarball
    simp [listTarball, present, listed, guess]
  have tail : (Script.block [.when (fun _ => !env.linux) (.exit 0), .run (plain env .configure),
      .run (plain env .make), .run (plain env .install)]).Preserves (Good manifest) :=
    ⟨⟨trivial, trivial⟩, fun _ good => good, fun _ good => good, fun _ good => good, trivial⟩
  exact Script.triple_seq (gate_triple builder) (Script.triple_seq
    ((plain_triple _).mono (fun _ holds => holds) (fun _ holds => holds) fun _ holds => holds.1)
    (Script.triple_seq listing (Script.triple_seq (extract_triple notVoid removes unpacks)
      tail.triple)))

/-- Where the source directory has a fixed name, the builder is ready as soon as
its tarball is there. -/
theorem extract_fixed_triple {builder : Builder}
    (fixed : ∀ name other, builder.srcDir name = builder.srcDir other)
    (notVoid : builder ≠ .voidPackages)
    (removes : env.clean = true → env.status .remove = .success)
    (unpacks : env.status .tar = .success ∨ env.created = false) :
    (extract builder env).Triple
      (fun state => Good manifest state ∧ ∃ tarball, state.tarball builder = some tarball)
      (Good manifest) (Good manifest) := by
  apply (extract_triple notVoid removes unpacks).mono _ (fun _ good => good) (fun _ good => good)
  rintro state ⟨good, tarball, present⟩
  exact ⟨good, tarball, present, fixed _ _⟩

theorem buildKernel_triple (removes : env.clean = true → env.status .remove = .success)
    (unpacks : env.status .tar = .success ∨ env.created = false) :
    (buildKernel env).Triple (Good manifest) (Good manifest) (Good manifest) := by
  have tail : (Script.block [.tolerate (plain env .patch), .run (plain env .config),
      .when (fun _ => !env.linux) (.exit 0), .run (plain env .make),
      .run (plain env .install)]).Preserves (Good manifest) :=
    ⟨fun _ good => good, fun _ good => good, ⟨trivial, trivial⟩, fun _ good => good,
      fun _ good => good, trivial⟩
  exact Script.triple_seq (gate_triple .kernel) (Script.triple_seq
    ((plain_triple _).mono (fun _ holds => holds) (fun _ holds => holds) fun _ holds => holds.1)
    (Script.triple_seq
      (extract_fixed_triple (fun _ _ => rfl) (by decide) removes unpacks) tail.triple))

/-! ### glibc -/

/-- An installation that succeeds, or meets a complete one, leaves a complete
one. -/
theorem glibcComplete_installed {rootfs : Layer}
    (whole : env.status .install = .success ∨ GlibcComplete manifest rootfs) :
    GlibcComplete manifest (glibcInstalled manifest env rootfs) := by
  intro path member
  unfold glibcInstalled
  split
  · rfl
  · rename_i skipped
    rcases whole with success | complete
    · exact absurd ⟨member, Or.inl success⟩ skipped
    · exact complete path member

theorem installGlibc_good {state : State} (good : Good manifest state)
    (uncut : env.status .install = .success ∨ GlibcComplete manifest state.rootfs ∨
      hasMarkers (glibcInstalled manifest env state.rootfs) = false) :
    Good manifest (installGlibc manifest env state).2 := by
  refine ⟨⟨good.held, good.own, good.guessed, good.visible, ?_⟩, good.skips⟩
  intro markers
  rcases uncut with success | complete | absent
  · exact glibcComplete_installed (Or.inl success)
  · exact glibcComplete_installed (Or.inr complete)
  · exact absurd (markers.symm.trans absent) (by decide)

/-- The fast skip is right when the two files mean a complete installation. -/
theorem fastSkip_good {state : State} (good : Good manifest state)
    (markers : hasMarkers state.rootfs = true) :
    Good manifest (skip .glibc (fun state => decide (GlibcComplete manifest state.rootfs))
      state).2 := by
  refine ⟨⟨good.held, good.own, good.guessed, good.visible, good.glibc⟩, ?_⟩
  intro passed member
  rcases List.mem_cons.mp member with rfl | earlier
  · exact decide_eq_true (good.glibc markers)
  · exact good.skips passed earlier

/-- Before the installation no command touches the root file system. -/
theorem extract_rootfs (builder : Builder) (rootfs : Layer) :
    (extract builder env).Preserves fun state => state.rootfs = rootfs := by
  refine ⟨⟨?_, trivial⟩, ⟨fun _ same => same, ?_⟩, trivial⟩
  · intro state same
    simp only [removeSource]
    split <;> exact same
  · intro state same
    unfold untar
    split <;> exact same

theorem buildGlibc_triple {rootfs : Layer}
    (removes : env.clean = true → env.status .remove = .success)
    (unpacks : env.status .tar = .success ∨ env.created = false)
    (installs : env.status .install = .success ∨ GlibcComplete manifest rootfs ∨
      hasMarkers (glibcInstalled manifest env rootfs) = false) :
    (buildGlibc manifest env).Triple
      (fun state => Good manifest state ∧ state.rootfs = rootfs) (Good manifest)
      (Good manifest) := by
  have gate : (Script.when (fun state : State => (state.tarball .glibc).isNone)
      (.exit 1)).Triple (fun state => Good manifest state ∧ state.rootfs = rootfs)
      (fun state => (Good manifest state ∧ ∃ tarball, state.tarball .glibc = some tarball) ∧
        state.rootfs = rootfs) (Good manifest) := by
    have kept : (Script.when (fun state : State => (state.tarball .glibc).isNone)
        (.exit 1)).Preserves fun state => state.rootfs = rootfs := ⟨trivial, trivial⟩
    exact ((gate_triple .glibc).and kept.triple).mono (fun _ holds => holds)
      (fun _ holds => holds) fun _ holds => holds.1
  have fast : (Script.when (fun state => hasMarkers state.rootfs && !env.clean)
      (.seq (.run (skip .glibc fun state => decide (GlibcComplete manifest state.rootfs)))
        (.exit 0))).Triple
      (fun state => (Good manifest state ∧ ∃ tarball, state.tarball .glibc = some tarball) ∧
        state.rootfs = rootfs)
      (fun state => (Good manifest state ∧ ∃ tarball, state.tarball .glibc = some tarball) ∧
        state.rootfs = rootfs) (Good manifest) := by
    apply Script.triple_when _ (fun _ holds _ => holds)
    have passed : (Script.run (skip .glibc
        fun state => decide (GlibcComplete manifest state.rootfs))).Triple
        (fun state => ((Good manifest state ∧ ∃ tarball, state.tarball .glibc = some tarball) ∧
          state.rootfs = rootfs) ∧ (hasMarkers state.rootfs && !env.clean) = true)
        (Good manifest) (Good manifest) := by
      apply Script.triple_run_same
      rintro state ⟨⟨⟨good, _⟩, _⟩, tested⟩
      exact fastSkip_good good (Bool.and_eq_true_iff.mp tested).1
    exact Script.triple_seq passed Script.triple_exit
  have extraction : (extract .glibc env).Triple
      (fun state => (Good manifest state ∧ ∃ tarball, state.tarball .glibc = some tarball) ∧
        state.rootfs = rootfs)
      (fun state => Good manifest state ∧ state.rootfs = rootfs) (Good manifest) :=
    ((extract_fixed_triple (fun _ _ => rfl) (by decide) removes unpacks).and
      (extract_rootfs .glibc rootfs).triple).mono (fun _ holds => holds) (fun _ holds => holds)
        fun _ holds => holds.1
  have build : (Script.block [.run (plain env .buildDir), .when (fun _ => !env.linux) (.exit 0),
      .run (plain env .configure), .run (plain env .make)]).Preserves
      fun state => Good manifest state ∧ state.rootfs = rootfs :=
    ⟨fun _ holds => holds, ⟨trivial, trivial⟩, fun _ holds => holds, fun _ holds => holds,
      trivial⟩
  have installation : (Script.run (installGlibc manifest env)).Triple
      (fun state => Good manifest state ∧ state.rootfs = rootfs) (Good manifest)
      (Good manifest) := by
    apply Script.triple_run_same
    rintro state ⟨good, rootfs_eq⟩
    apply installGlibc_good good
    rw [rootfs_eq]
    exact installs
  have kept : ∀ {script : Script State},
      script.Preserves (fun state => Good manifest state ∧ state.rootfs = rootfs) →
        script.Triple (fun state => Good manifest state ∧ state.rootfs = rootfs)
          (fun state => Good manifest state ∧ state.rootfs = rootfs) (Good manifest) :=
    fun preserved => preserved.triple.mono (fun _ holds => holds) (fun _ holds => holds)
      fun _ holds => holds.1
  obtain ⟨directory, host, configured, made, _⟩ := build
  exact Script.triple_seq gate (Script.triple_seq
    ((plain_triple _).mono (fun _ holds => holds) (fun _ holds => holds) fun _ holds => holds.1.1)
    (Script.triple_seq fast (Script.triple_seq extraction (Script.triple_seq (kept directory)
      (Script.triple_seq (kept host) (Script.triple_seq (kept configured) (Script.triple_seq
        (kept made) (Script.triple_seq installation Script.triple_skip))))))))

/-! ### void-packages -/

/-- The temporary directory holds the unpacked tarball, and nothing else. -/
structure Unpacked (manifest : List Path) (state : State) : Prop extends Good manifest state where
  whole : ∀ inside, state.temp = some inside → ∃ tarball layer,
    state.tarball .voidPackages = some tarball ∧ inside = some (tarball.directory, layer) ∧
      tarball.HeldBy layer

theorem removeTemp_good {state : State} (good : Good manifest state) :
    Good manifest (removeTemp env state).2 := by
  unfold removeTemp
  split
  · exact ⟨⟨good.held, good.own, good.guessed, good.visible, good.glibc⟩, good.skips⟩
  · exact good

theorem mkdirTemp_good {state : State} (good : Good manifest state) :
    Good manifest (mkdirTemp env state).2 := by
  unfold mkdirTemp
  split
  · exact ⟨⟨good.held, good.own, good.guessed, good.visible, good.glibc⟩, good.skips⟩
  · exact good

theorem untarTemp_good {state : State} (good : Good manifest state) :
    Good manifest (untarTemp env state).2 := by
  unfold untarTemp
  split
  · exact good
  · exact ⟨⟨good.held, good.own, good.guessed, good.visible, good.glibc⟩, good.skips⟩

theorem untarTemp_unpacked {state : State} (good : Good manifest state)
    (present : ∃ tarball, state.tarball .voidPackages = some tarball)
    (succeeds : env.status .tar = .success) : Unpacked manifest (untarTemp env state).2 := by
  refine ⟨untarTemp_good good, ?_⟩
  obtain ⟨tarball, tarball_eq⟩ := present
  intro inside found
  simp only [untarTemp, tarball_eq, unpacked, succeeds, if_true, Option.map_some] at found
  obtain ⟨before, _, inside_eq⟩ := Option.map_eq_some_iff.mp found
  refine ⟨tarball, _, ?_, inside_eq.symm, tarball.heldBy_unpack_all _⟩
  simp [untarTemp, tarball_eq]

/-- Moving a completely unpacked tree into place makes void-packages hold it. -/
theorem moveTemp_good {state : State} (unpackedTree : Unpacked manifest state) :
    Good manifest (moveTemp env state).2 := by
  unfold moveTemp
  split
  · exact unpackedTree.toGood
  · rename_i inside temp_eq
    split
    · refine ⟨unpackedTree.toSound.update_sources _ _ ?_, unpackedTree.skips⟩
      intro builder tarball layer present here found
      obtain ⟨current, moved, current_eq, inside_eq, held⟩ := unpackedTree.whole inside temp_eq
      have builder_eq : builder = .voidPackages := by
        cases builder with
        | voidPackages => rfl
        | _ => contradiction
      subst builder_eq
      rw [current_eq] at present
      cases present
      have visible := unpackedTree.visible tarball current_eq
      rw [inside_eq, movedLayer, if_pos visible] at found
      cases found
      exact held
    · exact unpackedTree.toGood

theorem setupVoidPackages_triple (removes : env.clean = true → env.status .remove = .success)
    (unpacks : env.status .tar ≠ .failure) :
    (setupVoidPackages env).Triple (Good manifest) (Good manifest) (Good manifest) := by
  have removal : (Script.when (fun _ => env.clean) (.run (removeSource .voidPackages env))).Triple
      (fun state => Good manifest state ∧ ∃ tarball, state.tarball .voidPackages = some tarball)
      (Ready manifest .voidPackages) (Good manifest) := by
    apply Script.triple_when
    · apply (Script.triple_run_same ?_).mono (fun _ holds => holds) (fun _ ready => ready)
        (fun _ ready => ready.toGood)
      rintro state ⟨⟨good, tarball, present⟩, clean⟩
      exact removeSource_ready (removes clean) ⟨good, tarball, present, rfl⟩
    · rintro state ⟨good, tarball, present⟩ _
      exact ⟨good, tarball, present, rfl⟩
  have cleared : (Script.run (removeTemp env)).Triple
      (fun state => Ready manifest .voidPackages state ∧
        (state.sources .voidPackages).isSome = false)
      (fun state => Good manifest state ∧ ∃ tarball, state.tarball .voidPackages = some tarball)
      (Good manifest) := by
    apply (Script.triple_run_same ?_).mono (fun _ holds => holds) (fun _ holds => holds)
      (fun _ holds => holds.1)
    rintro state ⟨ready, _⟩
    obtain ⟨tarball, present, _⟩ := ready.present
    refine ⟨removeTemp_good ready.toGood, tarball, ?_⟩
    unfold removeTemp
    split <;> exact present
  have made : (Script.run (mkdirTemp env)).Triple
      (fun state => Good manifest state ∧ ∃ tarball, state.tarball .voidPackages = some tarball)
      (fun state => Good manifest state ∧ ∃ tarball, state.tarball .voidPackages = some tarball)
      (Good manifest) := by
    apply (Script.triple_run_same ?_).mono (fun _ holds => holds) (fun _ holds => holds)
      (fun _ holds => holds.1)
    rintro state ⟨good, tarball, present⟩
    refine ⟨mkdirTemp_good good, tarball, ?_⟩
    unfold mkdirTemp
    split <;> exact present
  have extraction : (Script.tolerate (untarTemp env)).Triple
      (fun state => Good manifest state ∧ ∃ tarball, state.tarball .voidPackages = some tarball)
      (Unpacked manifest) (Good manifest) := by
    apply Script.triple_tolerate_interrupted
    · rintro state ⟨good, tarball, present⟩ notInterrupted
      apply untarTemp_unpacked good ⟨tarball, present⟩
      simp only [untarTemp, present] at notInterrupted
      cases status : env.status .tar with
      | success => rfl
      | failure => exact absurd status unpacks
      | interrupted => exact absurd status notInterrupted
    · rintro state ⟨good, _⟩ _
      exact untarTemp_good good
  have moved : (Script.run (moveTemp env)).Triple (Unpacked manifest) (Good manifest)
      (Good manifest) :=
    Script.triple_run_same fun _ => moveTemp_good
  have tidied : (Script.run (removeTemp env)).Triple (Good manifest) (Good manifest)
      (Good manifest) :=
    Script.triple_run_same fun _ => removeTemp_good
  have passed : (Script.run (skip .voidPackages (extractionDone .voidPackages))).Triple
      (fun state => Ready manifest .voidPackages state ∧
        (state.sources .voidPackages).isSome = true) (Good manifest) (Good manifest) := by
    apply Script.triple_run_same
    rintro state ⟨ready, found⟩
    exact skip_good ready (by simpa [hasSource, Builder.srcDir, Place.dotted] using found)
  have configured : (Script.tolerate (plain env .config)).Triple (Good manifest) (Good manifest)
      (Good manifest) :=
    Script.triple_tolerate fun _ good => good
  exact Script.triple_seq (gate_triple .voidPackages) (Script.triple_seq removal
    (Script.triple_seq (Script.triple_ite passed (Script.triple_seq cleared (Script.triple_seq made
      (Script.triple_seq extraction (Script.triple_seq moved (Script.triple_seq tidied
        Script.triple_skip))))))
      (Script.triple_seq configured Script.triple_skip)))

end Run

/-! ## Histories -/

theorem Sound.replace {manifest : List Path} {state : State} (sound : Sound manifest state)
    {builder : Builder} {tarball : Tarball} (placed : PlacedFresh state builder tarball) :
    Sound manifest (step manifest state (.replace builder tarball)) := by
  constructor
  · intro other current layer present found
    change Function.update state.tarball builder (some tarball) other = some current at present
    by_cases same : other = builder
    · subst same
      rw [Function.update_self] at present
      cases present
      exact placed.fresh layer found
    · rw [Function.update_of_ne same] at present
      exact sound.held other current layer present found
  · intro other current present
    change Function.update state.tarball builder (some tarball) other = some current at present
    constructor
    · intro third its different thirdShares otherShares itsPresent
      change Function.update state.tarball builder (some tarball) third = some its at itsPresent
      by_cases same : other = builder
      · subst same
        rw [Function.update_self] at present
        rw [Function.update_of_ne different] at itsPresent
        cases present
        exact placed.apart third its different thirdShares otherShares itsPresent
      · rw [Function.update_of_ne same] at present
        by_cases thirdSame : third = builder
        · subst thirdSame
          rw [Function.update_self] at itsPresent
          cases itsPresent
          exact (placed.apart other current same otherShares thirdShares present).symm
        · rw [Function.update_of_ne thirdSame] at itsPresent
          exact (sound.own other current present).apart third its different thirdShares
            otherShares itsPresent
    · intro shares notGlibc
      by_cases same : other = builder
      · subst same
        rw [Function.update_self] at present
        cases present
        exact placed.notGlibc shares notGlibc
      · rw [Function.update_of_ne same] at present
        exact (sound.own other current present).notGlibc shares notGlibc
  · intro other current present isTarball
    change Function.update state.tarball builder (some tarball) other = some current at present
    by_cases same : other = builder
    · subst same
      rw [Function.update_self] at present
      cases present
      exact placed.guessed isTarball
    · rw [Function.update_of_ne same] at present
      exact sound.guessed other current present isTarball
  · intro current present
    change Function.update state.tarball builder (some tarball) .voidPackages = _ at present
    by_cases same : .voidPackages = builder
    · subst same
      rw [Function.update_self] at present
      cases present
      exact placed.visible rfl
    · rw [Function.update_of_ne same] at present
      exact sound.visible current present
  · exact sound.glibc

theorem Sound.run {manifest : List Path} {state : State} (sound : Sound manifest state)
    {builder : Builder} {env : Environment} (uncut : Uncut manifest state builder env) :
    Good manifest (step manifest state (.run builder env)) := by
  have start : Good manifest { state with skips := [] } :=
    ⟨⟨sound.held, sound.own, sound.guessed, sound.visible, sound.glibc⟩, by simp⟩
  have ordinary : ∀ {builder : Builder}, builder ∈ tarballBuilders →
      (env.status .tar = .success ∨ env.created = false) →
        Good manifest ((tarballBuilder builder env).exec { state with skips := [] }).state :=
    fun isTarball unpacks =>
      (tarballBuilder_triple isTarball uncut.listed uncut.removed unpacks).state _ start
  cases builder with
  | kernel =>
      exact (buildKernel_triple uncut.removed (uncut.unpacked (by decide))).state _ start
  | glibc =>
      exact (buildGlibc_triple uncut.removed (uncut.unpacked (by decide))
        (uncut.installed rfl)).state _ ⟨start, rfl⟩
  | voidPackages =>
      exact (setupVoidPackages_triple uncut.removed (uncut.tempUnpacked rfl)).state _ start
  | busybox => exact ordinary (by decide) (uncut.unpacked (by decide))
  | bash => exact ordinary (by decide) (uncut.unpacked (by decide))
  | utilLinux => exact ordinary (by decide) (uncut.unpacked (by decide))
  | dhcpcd => exact ordinary (by decide) (uncut.unpacked (by decide))
  | xorgServer => exact ordinary (by decide) (uncut.unpacked (by decide))
  | xfdesktop => exact ordinary (by decide) (uncut.unpacked (by decide))

theorem Sound.step {manifest : List Path} {state : State} {event : Event}
    (sound : Sound manifest state) (careful : Careful manifest state event) :
    Sound manifest (Sources.step manifest state event) := by
  cases event with
  | replace builder tarball => exact sound.replace careful
  | run builder env => exact (sound.run careful).toSound

theorem Sound.skipsDone {manifest : List Path} {state : State} {event : Event}
    (sound : Sound manifest state) (careful : Careful manifest state event) :
    SkipsDone manifest state event := by
  cases event with
  | replace builder tarball =>
      intro skip member
      contradiction
  | run builder env => exact (sound.run careful).skips

/-- A tarball with two files. -/
def smallTarball : Tarball where
  directory := "busybox-1.37.0"
  named := by decide
  paths := [["Makefile"], ["applets", "applets.c"]]
  content path := path.getLastD ""
  listing := ["busybox-1.37.0/", "busybox-1.37.0/Makefile", "busybox-1.37.0/applets/",
    "busybox-1.37.0/applets/applets.c"]

/-- On Linux every command succeeds. -/
def smoothRun : Environment where
  clean := false
  linux := true
  status _ := .success
  listed := true
  kept _ := true
  created := true
  written _ := true
  installed _ := true

/-- The extraction is interrupted after the first file. -/
def cutRun : Environment :=
  { smoothRun with
    status := fun call => if call = .tar then .interrupted else .success
    written := fun path => path = ["Makefile"] }

theorem placedFresh_start : PlacedFresh .start .busybox smallTarball where
  apart := by
    intro other current _ _ _ present
    contradiction
  notGlibc := by
    intro _ _
    decide
  guessed := by
    intro _
    decide +kernel
  fresh := by
    intro layer found
    contradiction
  visible := by
    intro isVoid
    contradiction

theorem uncut_smoothRun (manifest : List Path) (state : State) (builder : Builder) :
    Uncut manifest state builder smoothRun where
  listed := rfl
  removed := fun _ => rfl
  unpacked := fun _ => Or.inl rfl
  tempUnpacked := by
    intro _
    decide
  installed := fun _ => Or.inl rfl

end AqjOs.Build.Sources
