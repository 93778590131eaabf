import Mathlib.Data.List.Find
import FeaturePress.Feature.Preparation
import FeaturePress.Proofs.Disk.Agree

/-! What preparing a source reads: the source, and the data files that its examples may name. Disks
that agree on the ways to these give the same prepared text.
-/

namespace FeaturePress

-----------------------------------------------------------------------------------------
-- Data files
-----------------------------------------------------------------------------------------

namespace ExamplesContext

/-- Where the data file of a segment may be. -/
def segmentFiles (context : ExamplesContext) : Segment → List Path
  | .line _ => []
  | .block block =>
    match ExamplesSpec.ofLiteral? block.literal with
    | none => []
    | some spec => context.candidates ⟨spec.dataFile⟩

/-- Where the data files of a text may be. -/
def dataFiles (context : ExamplesContext) (text : Text) : List Path :=
  (Segment.ofText text).flatMap context.segmentFiles

/-- Two contexts that differ at most in data of other files than some. -/
structure AgreeOn (left right : ExamplesContext) (paths : List Path) : Prop where
  feature : left.feature = right.feature
  dataDirectory : left.dataDirectory = right.dataDirectory
  holds : ∀ path ∈ paths, left.source.holds path = right.source.holds path
  rows : ∀ path ∈ paths, left.source.rows path = right.source.rows path

variable {left right : ExamplesContext}

theorem AgreeOn.candidates {paths : List Path} (agree : AgreeOn left right paths) (dataFile : Path)
    : left.candidates dataFile = right.candidates dataFile := by
  unfold ExamplesContext.candidates
  rw [agree.feature, agree.dataDirectory]

theorem AgreeOn.locate? {dataFile : Text} (agree : AgreeOn left right (left.candidates ⟨dataFile⟩))
    : left.locate? dataFile = right.locate? dataFile := by
  unfold ExamplesContext.locate?
  rw [← agree.candidates]
  exact List.find?_congr agree.holds

theorem AgreeOn.rowsFor {spec : ExamplesSpec} {path : Path} {paths : List Path}
    (agree : AgreeOn left right paths) (member : path ∈ paths)
    : left.rowsFor spec path = right.rowsFor spec path := by
  unfold ExamplesContext.rowsFor
  rw [agree.feature, agree.rows path member]

theorem AgreeOn.expandSegment {segment : Segment}
    (agree : AgreeOn left right (left.segmentFiles segment))
    : left.expandSegment segment = right.expandSegment segment := by
  cases segment with
  | line text => rfl
  | block block =>
      simp only [ExamplesContext.expandSegment, request?, segmentFiles] at agree ⊢
      cases hspec : ExamplesSpec.ofLiteral? block.literal with
      | none => simp
      | some spec =>
          rw [hspec] at agree
          simp only [Option.bind_eq_bind, Option.bind_some, ← agree.locate?]
          cases hpath : left.locate? spec.dataFile with
          | none => simp
          | some path =>
              have member : path ∈ left.candidates ⟨spec.dataFile⟩ := List.mem_of_find?_eq_some hpath
              simp [agree.rowsFor member]

/-- Texts are expanded alike where the data files that they may name are, segment by segment. -/
theorem AgreeOn.expand {text : Text} (agree : AgreeOn left right (left.dataFiles text))
    : left.expand text = right.expand text := by
  have general (segments : List Segment)
      (agree : AgreeOn left right (segments.flatMap left.segmentFiles))
      : left.expandSegments segments = right.expandSegments segments := by
    induction segments with
    | nil => rfl
    | cons segment rest ih =>
        rw [List.flatMap_cons] at agree
        have first : AgreeOn left right (left.segmentFiles segment) :=
          ⟨agree.feature, agree.dataDirectory,
            fun path member => agree.holds path (List.mem_append_left _ member),
            fun path member => agree.rows path (List.mem_append_left _ member)⟩
        have others : AgreeOn left right (rest.flatMap left.segmentFiles) :=
          ⟨agree.feature, agree.dataDirectory,
            fun path member => agree.holds path (List.mem_append_right _ member),
            fun path member => agree.rows path (List.mem_append_right _ member)⟩
        unfold expandSegments
        rw [first.expandSegment, ih others]
  unfold ExamplesContext.expand
  rw [general _ agree]

end ExamplesContext

-----------------------------------------------------------------------------------------
-- Sources
-----------------------------------------------------------------------------------------

namespace Disk

/-- The rows of a file whose path leads through a region are the same on disks that agree there. -/
theorem Agree.readRows {region : Location → Prop} {left right : Disk} (agree : Agree region left right)
    {path : Path} (inside : Inside region left.current path)
    : DataSource.readRows left path = DataSource.readRows right path := by
  unfold DataSource.readRows
  rw [agree.read inside]

end Disk

namespace Preparation

/-- What preparing a source reads: the source, and the data files that its text may name. -/
def inputs (preparation : Preparation) (disk : Disk) (source : Path) : List Path :=
  source ::
    match disk.read source with
    | .error _ => []
    | .ok text =>
      (preparation.context disk source).dataFiles (Variables.substitute preparation.value text)

/-- The places on the ways to what preparing a source reads. -/
def Reads (preparation : Preparation) (disk : Disk) (source : Path) (place : Location) : Prop :=
  ∃ path ∈ preparation.inputs disk source, place ∈ path.visited disk.current

variable {preparation : Preparation} {source : Path} {left right : Disk}

/-- A source that is prepared has a text, which is transformed with success. -/
theorem prepared_eq_ok {disk : Disk} {content : Text} (ok : preparation.prepared disk source = .ok content)
    : ∃ rest text, disk.read source = .ok text
      ∧ preparation.transform (preparation.context disk source) rest text = .ok content := by
  unfold prepared at ok
  split at ok
  · simp at ok
  · next rest _ =>
      split at ok
      · simp at ok
      · next text reads =>
          refine ⟨rest, text, reads, ?_⟩
          split at ok
          · simp at ok
          · next transformed => exact Except.ok.inj ok ▸ transformed

/-- A disk that agrees on all that is read has the same inputs. -/
theorem inputs_of_agree (agree : Disk.Agree (preparation.Reads left source) left right)
    : preparation.inputs right source = preparation.inputs left source := by
  have inside : Disk.Inside (preparation.Reads left source) left.current source :=
    fun place member => ⟨source, List.mem_cons_self .., member⟩
  unfold inputs
  rw [agree.read inside]
  rfl

theorem reads_of_agree (agree : Disk.Agree (preparation.Reads left source) left right)
    : preparation.Reads right source = preparation.Reads left source := by
  unfold Reads
  rw [inputs_of_agree agree, agree.current]

/-- A source is prepared alike on disks that agree on all that is read. -/
theorem prepared_of_agree (agree : Disk.Agree (preparation.Reads left source) left right)
    : preparation.prepared right source = preparation.prepared left source := by
  have inside : Disk.Inside (preparation.Reads left source) left.current source :=
    fun place member => ⟨source, List.mem_cons_self .., member⟩
  unfold prepared
  rw [← agree.read inside]
  split
  · rfl
  · split
    · rfl
    · next text reads =>
        have sameContext : ExamplesContext.AgreeOn (preparation.context left source)
            (preparation.context right source)
            ((preparation.context left source).dataFiles
              (Variables.substitute preparation.value text)) := by
          have within : ∀ path ∈ (preparation.context left source).dataFiles
              (Variables.substitute preparation.value text),
              Disk.Inside (preparation.Reads left source) left.current path := by
            intro path member place visited
            refine ⟨path, List.mem_cons_of_mem _ ?_, visited⟩
            simpa [reads] using member
          exact ⟨rfl, rfl, fun path member => agree.holds (within path member),
            fun path member => funext fun _ => agree.readRows (within path member)⟩
        have sameTransform (rest : Text)
            : preparation.transform (preparation.context right source) rest text
              = preparation.transform (preparation.context left source) rest text := by
          unfold transform
          rw [← sameContext.expand]
        rw [sameTransform]

end Preparation

end FeaturePress
