import Droidcli.Lib.Bytes

namespace Droidcli.Media

open Bytes

structure ColorRGBA where
  r : UInt8
  g : UInt8
  b : UInt8
  a : UInt8
  deriving DecidableEq

structure ImageMetadata where
  sourcePath : Bytes
  fileSize : Int
  fileModifiedUnix : Int
  width : Int
  height : Int
  channelCount : Int
  deriving DecidableEq

structure RgbaImage where
  width : Int
  height : Int
  pixels : List ColorRGBA
  metadata : ImageMetadata
  deriving DecidableEq

def RgbaImage.valid (image : RgbaImage) : Bool :=
  0 < image.width ∧ 0 < image.height ∧ !image.pixels.isEmpty

structure FileIdentity where
  fileSize : Int
  modifiedUnix : Int
  deriving DecidableEq

-- What the files are, and what they decode to, at each time.
structure Files where
  getFileIdentity : Nat → Bytes → Option FileIdentity
  decodeImageFromFile : Nat → Bytes → Option RgbaImage

structure CacheEntry where
  image : RgbaImage
  cachedFileSize : Int
  cachedModifiedUnix : Int
  deriving DecidableEq

structure MediaStore where
  cachePaths : List Bytes
  cacheEntries : List CacheEntry
  deriving DecidableEq

-- How `load_file` comes to its end: it fails and leaves `out_image` as it was, or this gets an image
-- of the cache or one that has been decoded.
inductive LoadResult
  | failed
  | hit (image : RgbaImage)
  | decoded (image : RgbaImage)
  deriving DecidableEq

def LoadResult.returned : LoadResult → Bool
  | failed    => false
  | hit image => image.valid
  | decoded _ => true

namespace MediaStore

variable (store : MediaStore)

def empty : MediaStore :=
  ⟨[], []⟩

-- The first loop of `load_file`. Here and below, an index past the entries is `none`.
def cachedImage (path : Bytes) (identity : FileIdentity) : Option (Option RgbaImage) :=
  match store.cachePaths.idxOf? path with
  | none       => some none
  | some index =>
    store.cacheEntries[index]?.map fun entry =>
      if entry.cachedFileSize = identity.fileSize ∧
          entry.cachedModifiedUnix = identity.modifiedUnix then some entry.image
      else none

-- The second loop of `load_file`, and what follows it.
def keep (path : Bytes) (entry : CacheEntry) : Option MediaStore :=
  match store.cachePaths.idxOf? path with
  | none       => some ⟨store.cachePaths ++ [path], store.cacheEntries ++ [entry]⟩
  | some index =>
    if index < store.cacheEntries.length then
      some { store with cacheEntries := store.cacheEntries.set index entry }
    else none

def loadFile (files : Files) (time : Nat) (path : Bytes) (forceReload : Bool) :
    Option (LoadResult × MediaStore) :=
  if path = [] then some (.failed, store)
  else
    match files.getFileIdentity time path with
    | none          => some (.failed, store)
    | some identity =>
      let found := if forceReload then some none else store.cachedImage path identity
      found.bind fun
        | some image => some (.hit image, store)
        | none       =>
          match files.decodeImageFromFile time path with
          | none         => some (.failed, store)
          | some decoded =>
            let entry := ⟨decoded, identity.fileSize, identity.modifiedUnix⟩
            (store.keep path entry).map (.decoded decoded, ·)

def findCached (path : Bytes) : Option (Option RgbaImage) :=
  match store.cachePaths.idxOf? path with
  | none       => some none
  | some index => store.cacheEntries[index]?.map fun entry => some entry.image

def invalidatePath (path : Bytes) : Option MediaStore :=
  match store.cachePaths.idxOf? path with
  | none       => some store
  | some index =>
    if index < store.cacheEntries.length then
      some ⟨store.cachePaths.eraseIdx index, store.cacheEntries.eraseIdx index⟩
    else none

def invalidateAll (_ : MediaStore) : MediaStore :=
  empty

end MediaStore

-- The calls that a store gets, with what the loads came to.
inductive StoreEvent
  | loadFile (time : Nat) (path : Bytes) (forceReload : Bool) (result : LoadResult)
  | invalidatePath (path : Bytes)
  | invalidateAll

def Step (files : Files) (store : MediaStore) : StoreEvent → MediaStore → Prop
  | .loadFile time path forceReload result, store' =>
    store.loadFile files time path forceReload = some (result, store')
  | .invalidatePath path, store'  => store.invalidatePath path = some store'
  | .invalidateAll, store'        => store.invalidateAll = store'

end Droidcli.Media
