import FeaturePress.Feature.Preparation
import FeaturePress.Proofs.Disk.Writing
import FeaturePress.Proofs.Path.Components

/-! Where the prepared form of a source goes. A source is looked for in the features directory by its
spelling alone, and what is spelled behind that directory goes on from the output directory: names
lead down from there, while two dots lead out again and the root leads back to the source.
-/

namespace FeaturePress.Preparation

variable {preparation : Preparation} {source target : Path} {rest : List Component}

-----------------------------------------------------------------------------------------
-- What is spelled behind the features directory
-----------------------------------------------------------------------------------------

/-- Components behind others in a path lead up or down, except for a first one of the path. -/
theorem isInner_behind {root : Path} (behind : root.components ++ rest = source.components)
    : ∀ component ∈ rest.tail, component.IsInner := by
  intro component member
  refine @Path.isInner_of_mem_tail source _ ?_
  rw [← behind]
  cases hroot : root.components with
  | nil => exact member
  | cons first others => exact List.mem_append_right _ (List.mem_of_mem_tail member)

/-- Only behind nothing a path begins at the root. -/
theorem eq_nil_of_root_behind {root : Path} (behind : root.components ++ rest = source.components)
    (absolute : .root ∈ rest)
    : root.components = [] := by
  cases hroot : root.components with
  | nil => rfl
  | cons first others =>
      have inner : Component.root.IsInner := by
        refine @Path.isInner_of_mem_tail source _ ?_
        rw [← behind, hroot]
        exact List.mem_append_right _ absolute
      exact absurd rfl inner.ne_root

theorem isName_behind {root : Path} (behind : root.components ++ rest = source.components)
    : ∀ name, .name name ∈ rest → IsName name := by
  intro name member
  refine @Path.isName_of_mem_components source _ ?_
  rw [← behind]
  exact List.mem_append_right _ member

theorem outputPath_of_behind
    (behind : preparation.config.featuresDirectory.components ++ rest = source.components)
    : preparation.outputPath source
      = .ok (preparation.config.outputDirectory.join
          ⟨List.intercalate ['/'] (rest.map Component.spelling)⟩) := by
  have found : Path.after? preparation.config.featuresDirectory source = some rest :=
    Sequence.after?_eq_some_iff.mpr behind
  simp [outputPath, relative, Path.relativeTo?, found, Except.map]

theorem outputPath_of_outside
    (outside : ¬ preparation.config.featuresDirectory.components <+: source.components)
    : preparation.outputPath source
      = .error (.outsideRoot source preparation.config.featuresDirectory) := by
  have missing : Path.after? preparation.config.featuresDirectory source = none := by
    cases found : Path.after? preparation.config.featuresDirectory source with
    | none => rfl
    | some rest => exact absurd ⟨rest, Sequence.after?_eq_some_iff.mp found⟩ outside
  simp [outputPath, relative, Path.relativeTo?, missing, Except.map]

-----------------------------------------------------------------------------------------
-- Behind the output directory
-----------------------------------------------------------------------------------------

/-- The components of a source's output. -/
theorem components_outputPath
    (behind : preparation.config.featuresDirectory.components ++ rest = source.components)
    (mirrored : preparation.outputPath source = .ok target)
    : target.components =
        if .root ∈ rest then source.components
        else if preparation.config.outputDirectory.spelling = [] then rest
        else preparation.config.outputDirectory.components ++ rest.filter (· ≠ .here) := by
  obtain rfl := Except.ok.inj ((outputPath_of_behind behind).symm.trans mirrored)
  have again := Path.components_intercalate (isInner_behind behind) (isName_behind behind)
  rw [Path.components_join, again]
  split
  · next absolute =>
      rw [← behind, eq_nil_of_root_behind behind absolute, List.nil_append]
  · rfl

/-- Staying where a path is leads nowhere. -/
theorem foldl_advance_filter (components : List Component) (place : Location)
    : (components.filter (· ≠ .here)).foldl Location.advance place
      = components.foldl Location.advance place := by
  induction components generalizing place with
  | nil => rfl
  | cons component components ih =>
      by_cases stays : component = .here
      · subst stays
        rw [List.filter_cons_of_neg (by simp), ih]
        rfl
      · rw [List.filter_cons_of_pos (by simpa using stays), List.foldl_cons, ih]
        rfl

/-- A source's output goes on from the place of the output directory as the source does from the
features directory.
-/
theorem place_outputPath
    (behind : preparation.config.featuresDirectory.components ++ rest = source.components)
    (mirrored : preparation.outputPath source = .ok target) (start : Location)
    : target.place start
      = rest.foldl Location.advance (preparation.config.outputDirectory.place start) := by
  rw [Path.place_eq_foldl, components_outputPath behind mirrored]
  split
  · next absolute =>
      have whole : rest = source.components := by
        simpa [eq_nil_of_root_behind behind absolute] using behind
      have isAbsolute : source.isAbsolute = true := Path.isAbsolute_iff_root.mpr (whole ▸ absolute)
      -- an absolute path names one place, wherever it is followed from
      rw [whole, ← Path.place_eq_foldl, ← Path.place_eq_foldl]
      simp [Path.place, Path.base, isAbsolute]
  · split
    · next empty =>
        have here : preparation.config.outputDirectory.place start = start := by
          have parts : preparation.config.outputDirectory.components = [] := by
            rw [Path.components, empty]
            rfl
          rw [Path.place_eq_foldl, parts, List.foldl_nil]
        rw [here]
    · rw [List.foldl_append, foldl_advance_filter, ← Path.place_eq_foldl]

/-- Names are the components that neither begin at the root nor stay nor lead up. -/
theorem exists_names_iff {components : List Component}
    : (∃ names : List Text, components = names.map .name)
      ↔ .root ∉ components ∧ .here ∉ components ∧ .up ∉ components := by
  constructor
  · rintro ⟨names, rfl⟩
    simp
  · intro ⟨relative, moves, down⟩
    induction components with
    | nil => exact ⟨[], rfl⟩
    | cons component components ih =>
        simp only [List.mem_cons, not_or] at relative moves down
        obtain ⟨names, rfl⟩ := ih relative.2 moves.2 down.2
        cases component with
        | root => exact absurd rfl relative.1
        | here => exact absurd rfl moves.1
        | up => exact absurd rfl down.1
        | name name => exact ⟨name :: names, rfl⟩

/-- A source's output descends from the output directory when no component behind the features
directory leads up and none stays in front of the output. An absolute source behind no features
directory is its own output.
-/
theorem descendsFrom_outputPath_iff
    (behind : preparation.config.featuresDirectory.components ++ rest = source.components)
    (mirrored : preparation.outputPath source = .ok target)
    : target.DescendsFrom preparation.config.outputDirectory
      ↔ if .root ∈ rest then source.DescendsFrom preparation.config.outputDirectory
        else .up ∉ rest
          ∧ (.here ∈ rest → preparation.config.outputDirectory.spelling ≠ []) := by
  have components := components_outputPath behind mirrored
  unfold Path.DescendsFrom
  by_cases absolute : .root ∈ rest
  · rw [if_pos absolute, components, if_pos absolute]
  · rw [if_neg absolute] at components ⊢
    by_cases empty : preparation.config.outputDirectory.spelling = []
    · have nothing : preparation.config.outputDirectory.components = [] := by
        rw [Path.components, empty]
        rfl
      rw [if_pos empty] at components
      simp only [components, nothing, List.nil_append, exists_names_iff]
      tauto
    · rw [if_neg empty] at components
      simp only [components, List.append_cancel_left_eq, exists_names_iff, List.mem_filter]
      simp [absolute, empty]

-----------------------------------------------------------------------------------------
-- Writing
-----------------------------------------------------------------------------------------

/-- Preparing a source writes its output or nothing. -/
theorem frame_run (mirrored : preparation.outputPath source = .ok target) (disk : Disk)
    : Disk.Frame (.written disk.current target) disk (preparation.run disk source).2 := by
  unfold run
  rw [mirrored]
  dsimp only
  split
  · exact Disk.Frame.refl _ disk
  · next content prepared =>
      have frame := Disk.frame_write disk target (.text content)
      split <;> simp_all

/-- Preparing a source into the output directory writes under it only. -/
theorem frame_run_under (mirrored : preparation.outputPath source = .ok target)
    (descends : target.DescendsFrom preparation.config.outputDirectory) (disk : Disk)
    : Disk.Frame (.under disk.current preparation.config.outputDirectory) disk
        (preparation.run disk source).2 := by
  obtain ⟨below, leads⟩ := descends.leads disk.current
  refine (frame_run mirrored disk).mono ⟨fun _ => id, fun place same => ?_, leads⟩
  have same : place = target.place disk.current := same
  exact same ▸ below

/-- A source that is prepared has its prepared form at its output. -/
theorem content?_of_run {disk written : Disk} {path : Path} {content : Text}
    (mirrored : preparation.outputPath source = .ok target)
    (ok : preparation.run disk source = (.ok (path, content), written))
    : path = target ∧ written.content? (target.place disk.current) = some (.text content) := by
  unfold run at ok
  rw [mirrored] at ok
  dsimp only at ok
  split at ok
  · simp at ok
  · next text prepared =>
      split at ok
      · next other wrote =>
          obtain ⟨⟨rfl, rfl⟩, rfl⟩ : (target = path ∧ text = content) ∧ other = written := by
            simpa using ok
          exact ⟨rfl, (Disk.wrote_of_write wrote).stands⟩
      · simp at ok

/-- A source is rejected exactly when the features directory does not stand first in its spelling, and
then nothing is written. For any other source the output goes on from the output directory as the
source does from the features directory: it is spelled as that directory and names after it exactly
when nothing behind the features directory leads up, nothing that stays is left in front, and no root
takes the place of the directory. Preparing the source writes its output or nothing, so under the
output directory only when the output descends from it.
-/
theorem output_descends_iff (preparation : Preparation) (source : Path)
    : (∀ rest, preparation.config.featuresDirectory.components ++ rest = source.components →
        ∃ target, preparation.outputPath source = .ok target
          ∧ (target.DescendsFrom preparation.config.outputDirectory
            ↔ if .root ∈ rest then source.DescendsFrom preparation.config.outputDirectory
              else .up ∉ rest
                ∧ (.here ∈ rest → preparation.config.outputDirectory.spelling ≠ []))
          ∧ ∀ disk outcome written, preparation.run disk source = (outcome, written) →
              Disk.Frame (.written disk.current target) disk written
              ∧ target.place disk.current
                = rest.foldl Location.advance
                    (preparation.config.outputDirectory.place disk.current)
              ∧ (target.DescendsFrom preparation.config.outputDirectory →
                Disk.Frame (.under disk.current preparation.config.outputDirectory) disk written)
              ∧ ∀ path content, outcome = .ok (path, content) →
                path = target
                ∧ written.content? (target.place disk.current) = some (.text content))
      ∧ (¬ preparation.config.featuresDirectory.components <+: source.components →
        preparation.outputPath source
          = .error (.outsideRoot source preparation.config.featuresDirectory)
        ∧ ∀ disk, preparation.run disk source
          = (.error (.outsideRoot source preparation.config.featuresDirectory), disk)) := by
  refine ⟨fun rest behind => ?_, fun outside => ?_⟩
  · have mirrored := outputPath_of_behind behind
    refine ⟨_, mirrored, descendsFrom_outputPath_iff behind mirrored, fun disk outcome written ran => ?_⟩
    obtain rfl : (preparation.run disk source).2 = written := congrArg Prod.snd ran
    refine ⟨frame_run mirrored disk, place_outputPath behind mirrored disk.current,
      fun descends => frame_run_under mirrored descends disk, ?_⟩
    rintro path content rfl
    exact content?_of_run mirrored ran
  · have rejected := outputPath_of_outside outside
    exact ⟨rejected, fun disk => by rw [run, rejected]⟩

end FeaturePress.Preparation

namespace FeaturePress

namespace Mirroring

/-- Features in one directory, and their outputs in another. -/
def preparation : Preparation where
  config := {
    featuresDirectory := .of "f"
    outputDirectory := .of "o"
    dataDirectory := .of "d"
    stepGroups := ⟨.of "g", .of "c", .of "p", .of "b"⟩
    featureCache := ⟨false, .of "k", .of "m"⟩ }
  catalog := .ofGroups []
  value := fun _ => []

/-- A directory of the example. -/
def directory : Entry := ⟨.directory, 0, ⟨true, true, true⟩⟩

/-- A file of the example. -/
def file (text : String) : Entry := ⟨.file (.text text.toList), 5, ⟨true, true, false⟩⟩

/-- A feature in the features directory, and a file beside that directory. -/
def disk : Disk where
  entries := ⟨[([], directory), ([['f']], directory),
    ([['f'], "c.feature".toList], file "Feature:C"),
    (["x.feature".toList], file "Scenario:X")], by decide⟩
  current := []
  clock := 100
  canOpen := true

/-- The feature in the features directory. -/
def inside : Path := .of "f/./c.feature"

/-- The file beside the features directory, reached through it. -/
def upward : Path := .of "f/../x.feature"

end Mirroring

set_option maxRecDepth 100000 in
/-- Witness: a feature in the features directory has its output in the output directory, and the same
name in another directory is rejected.
-/
theorem Preparation.output_descends_iff_inside
    : (∃ target, Mirroring.preparation.outputPath Mirroring.inside = .ok target
        ∧ target.DescendsFrom Mirroring.preparation.config.outputDirectory
        ∧ Disk.Frame (.under [] (.of "o")) Mirroring.disk
            (Mirroring.preparation.run Mirroring.disk Mirroring.inside).2)
      ∧ Mirroring.preparation.outputPath (.of "g/c.feature")
        = .error (.outsideRoot (.of "g/c.feature") (.of "f")) := by
  obtain ⟨mirrored, -⟩ := output_descends_iff Mirroring.preparation Mirroring.inside
  obtain ⟨-, rejected⟩ := output_descends_iff Mirroring.preparation (.of "g/c.feature")
  obtain ⟨target, isOutput, descends, writes⟩ := mirrored [.name "c.feature".toList] (by decide +kernel)
  have below : target.DescendsFrom Mirroring.preparation.config.outputDirectory := by
    rw [descends, if_neg (by decide)]
    exact ⟨by decide, by decide⟩
  exact ⟨⟨target, isOutput, below, (writes Mirroring.disk _ _ rfl).2.2.1 below⟩,
    (rejected (by decide +kernel)).1⟩

set_option maxRecDepth 100000 in
/-- Counterexample: two dots behind the features directory are accepted, and preparing the source writes
over a file beside the output directory.
-/
theorem Preparation.output_leaves_directory
    : Mirroring.preparation.outputPath Mirroring.upward = .ok (.of "o/../x.feature")
      ∧ ¬ Path.DescendsFrom (.of "o/../x.feature") Mirroring.preparation.config.outputDirectory
      ∧ Mirroring.disk.content? ["x.feature".toList] = some (.text "Scenario:X".toList)
      ∧ Disk.content? (Mirroring.preparation.run Mirroring.disk Mirroring.upward).2 ["x.feature".toList]
        = some (.text "@source:../x.feature\nScenario:X".toList) := by
  refine ⟨by decide +kernel, ?_, by decide +kernel, by decide +kernel⟩
  rintro ⟨names, components⟩
  have shape : Path.components (.of "o/../x.feature")
      = (Path.of "o").components ++ [.up, .name "x.feature".toList] := by
    decide +kernel
  rw [shape] at components
  have member : Component.up ∈ names.map Component.name :=
    List.append_cancel_left components ▸ List.mem_cons_self ..
  simp at member

end FeaturePress
