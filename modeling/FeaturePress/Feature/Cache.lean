import FeaturePress.Config.Basic
import FeaturePress.Feature.Opening
import FeaturePress.State.Store

/-! The cache of prepared feature files: each prepared file is also written below the cache
directory, and a record tells when. A later build takes the cached file as long as its source has
not been changed since.
-/

namespace FeaturePress

/-- Why a prepared file is not cached. -/
inductive CacheError where
  | notAFeature (path : Path) (preview : Text)
  | file (cause : FileError)
  | document (cause : DocumentError)
deriving DecidableEq

/-- The text of a cache error. -/
def CacheError.message : CacheError → Text
  | .notAFeature path preview =>
    "refusing to cache ".toList ++ path.spelling
      ++ ": content does not start with 'Feature:' (found '".toList ++ preview ++ "')".toList
  | .file cause => cause.message
  | .document cause => cause.message

namespace FeatureCache

/-- Where the prepared form of a source is cached: below the cache directory as the source below
the features directory, and under its name alone when the source is outside.
-/
def cachedPath (config : Config) (source : Path) : Path :=
  let relative :=
    match Path.relativeTo? config.featuresDirectory source with
    | some rest => rest
    | none => source.fileName?.getD source.spelling
  config.featureCache.directory.join ⟨relative⟩

/-- Whether a record says that the source of an entry has not been changed since. -/
def isUnchangedSince (disk : Disk) (source : Path) (entry : CachedFile) : Bool :=
  match disk.modified source with
  | .ok (some time) => (Instant.ofMilliseconds time).le entry.updatedAt
  | _ => false

/-- Whether the cached form of a source may be taken. -/
def isReusable (config : Config) (disk : Disk) (store : Store Metadata) (source cached : Path)
    : Bool :=
  config.featureCache.enabled && disk.holds cached &&
    match (store.loadUsable disk).bind (·.find? source.spelling) with
    | some entry => isUnchangedSince disk source entry
    | none => false

/-- Records that a source is cached now. A record that cannot be read is begun anew. -/
def record (disk : Disk) (store : Store Metadata) (source cached : Path)
    : Except DocumentError Unit × Disk × Store Metadata :=
  let known := (store.loadUsable disk).getD SortedMap.empty
  let now := disk.tick
  store.save now (known.insert source.spelling ⟨cached, .ofMilliseconds now.clock⟩)

/-- Caches the prepared form of a source and records it: the cached path. -/
def persist (config : Config) (disk : Disk) (store : Store Metadata) (source : Path)
    (content : Text)
    : Except CacheError Path × Disk × Store Metadata :=
  let cached := cachedPath config source
  if !Opening.startsWithFeature content then
    (.error (.notAFeature cached (Opening.preview (Text.trimStart content))), disk, store)
  else
    match disk.write cached (.text content) with
    | (.error cause, written) => (.error (.file cause), written, store)
    | (.ok (), written) =>
      match record written store source cached with
      | (.ok (), recorded) => (.ok cached, recorded)
      | (.error cause, recorded) => (.error (.document cause), recorded)

end FeatureCache

end FeaturePress
