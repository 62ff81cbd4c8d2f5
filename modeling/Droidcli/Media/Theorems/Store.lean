import Droidcli.Lib.Columns
import Droidcli.Lib.Trace
import Droidcli.Media.Store

namespace Droidcli.Media

open Bytes Trace Columns

variable {files : Files} {store store' : MediaStore} {path : Bytes} {time : Nat} {forceReload : Bool}
  {result : LoadResult} {image : RgbaImage} {entry : CacheEntry} {t : List StoreEvent}
  {event : StoreEvent}

-- The time of a load that has decoded a file, and the image.
abbrev Load := Nat × RgbaImage

-- The last such load of a path.
def decodedAfter (path : Bytes) (last : Option Load) : StoreEvent → Option Load
  | .loadFile time path' _ (.decoded image) => if path' = path then some (time, image) else last
  | _                                       => last

def lastDecoded (path : Bytes) (t : List StoreEvent) : Option Load :=
  t.foldl (decodedAfter path) none

-- A hit is an image that the last load which decoded the path has left, and the file has the same
-- size and modification time as then. A load that returns `false` leaves the cache alone, and no
-- index is past the entries.
structure Coherent (files : Files) (t : List StoreEvent) (store : MediaStore) : Prop where
  length_eq : store.cachePaths.length = store.cacheEntries.length
  nodup : store.cachePaths.Nodup
  hits : ∀ time path forceReload image store',
    store.loadFile files time path forceReload = some (.hit image, store') →
      forceReload = false ∧ ∃ before identity,
        lastDecoded path t = some (before, image) ∧
        files.decodeImageFromFile before path = some image ∧
        files.getFileIdentity before path = some identity ∧
        files.getFileIdentity time path = some identity
  failures : ∀ time path forceReload result store',
    store.loadFile files time path forceReload = some (result, store') →
      result.returned = false → store' = store
  defined : (∀ time path forceReload, (store.loadFile files time path forceReload).isSome) ∧
    (∀ path, (store.findCached path).isSome) ∧ ∀ path, (store.invalidatePath path).isSome

-- What a store is to hold of a path: what it was last decoded to, unless that has been invalidated.
def heldAfter (path : Bytes) (last : Option Load) : StoreEvent → Option Load
  | .loadFile time path' _ (.decoded image) => if path' = path then some (time, image) else last
  | .loadFile ..                            => last
  | .invalidatePath path'                   => if path' = path then none else last
  | .invalidateAll                          => none

def held (path : Bytes) (t : List StoreEvent) : Option Load :=
  t.foldl (heldAfter path) none

def Files.entryOf (files : Files) (path : Bytes) (load : Load) : Option CacheEntry :=
  (files.getFileIdentity load.fst path).map fun identity =>
    ⟨load.snd, identity.fileSize, identity.modifiedUnix⟩

structure Refines (files : Files) (t : List StoreEvent) (store : MediaStore) : Prop where
  paired : Paired store.cachePaths store.cacheEntries
  entries : ∀ path, lookup path store.cachePaths store.cacheEntries =
    (held path t).bind (files.entryOf path)
  decoded : ∀ path, ∀ load ∈ held path t, files.decodeImageFromFile load.fst path = some load.snd

section Held

variable {load : Load}

theorem held_append : held path (t ++ [event]) = heldAfter path (held path t) event := by
  rw [held, List.foldl_append]
  rfl

theorem lastDecoded_append :
    lastDecoded path (t ++ [event]) = decodedAfter path (lastDecoded path t) event := by
  rw [lastDecoded, List.foldl_append]
  rfl

theorem lastDecoded_of_held (h : held path t = some load) : lastDecoded path t = some load := by
  induction t using List.reverseRecOn
  case nil => simp [held] at h
  case append_singleton t event hi =>
    rw [held_append] at h
    rw [lastDecoded_append]
    cases event
    case loadFile time path' forceReload result =>
      cases result
      case decoded image =>
        rw [heldAfter] at h
        rw [decodedAfter]
        split at h
        case isTrue hp  => rw [if_pos hp, h]
        case isFalse hp => rw [if_neg hp, hi h]
      all_goals exact hi h
    case invalidatePath path' => exact hi (Option.ite_none_left_eq_some.mp h).right
    case invalidateAll => simp [heldAfter] at h

end Held

namespace MediaStore

variable (p : Paired store.cachePaths store.cacheEntries)
include p

theorem cachedImage_eq {identity : FileIdentity} : store.cachedImage path identity =
    some ((lookup path store.cachePaths store.cacheEntries).bind fun entry =>
      if entry.cachedFileSize = identity.fileSize ∧
          entry.cachedModifiedUnix = identity.modifiedUnix then some entry.image
      else none) := by
  rw [cachedImage]
  obtain ⟨h, hl⟩ | ⟨index, entry, h, hv, hl⟩ := p.found path
  case inl =>
    rw [h, hl]
    rfl
  case inr =>
    rw [h, hl]
    simp only [hv]
    rfl

theorem findCached_eq : store.findCached path =
    some ((lookup path store.cachePaths store.cacheEntries).map CacheEntry.image) := by
  rw [findCached]
  obtain ⟨h, hl⟩ | ⟨index, entry, h, hv, hl⟩ := p.found path
  case inl =>
    rw [h, hl]
    rfl
  case inr =>
    rw [h, hl]
    simp only [hv]
    rfl

theorem keep_eq (path : Bytes) (entry : CacheEntry) : ∃ store', store.keep path entry = some store' ∧
    Paired store'.cachePaths store'.cacheEntries ∧
    ∀ other, lookup other store'.cachePaths store'.cacheEntries =
      if path == other then some entry else lookup other store.cachePaths store.cacheEntries := by
  rw [keep]
  cases h : store.cachePaths.idxOf? path
  case none =>
    have hn := List.idxOf?_eq_none_iff.mp h
    exact ⟨_, rfl, p.append hn, fun _ => p.lookup_append hn⟩
  case some index =>
    exact ⟨_, if_pos (p.lt h), p.set, fun _ => p.lookup_set h⟩

theorem invalidatePath_eq (path : Bytes) : ∃ store', store.invalidatePath path = some store' ∧
    Paired store'.cachePaths store'.cacheEntries ∧
    ∀ other, lookup other store'.cachePaths store'.cacheEntries =
      if path == other then none else lookup other store.cachePaths store.cacheEntries := by
  rw [invalidatePath]
  cases h : store.cachePaths.idxOf? path
  case none =>
    refine ⟨_, rfl, p, fun other => ?_⟩
    have hn := lookup_of_not_mem store.cacheEntries (List.idxOf?_eq_none_iff.mp h)
    split
    case isTrue ho  => exact beq_iff_eq.mp ho ▸ hn
    case isFalse    => rfl
  case some index =>
    exact ⟨_, if_pos (p.lt h), p.eraseIdx, fun _ => p.lookup_eraseIdx h⟩

theorem entry_of_hit {identity : FileIdentity}
    (h : (if forceReload then some none else store.cachedImage path identity) =
      some (some image)) :
    forceReload = false ∧ lookup path store.cachePaths store.cacheEntries =
      some ⟨image, identity.fileSize, identity.modifiedUnix⟩ := by
  cases forceReload
  case true => simp at h
  case false =>
    rw [if_neg (by simp), cachedImage_eq p] at h
    have ⟨entry, hl, he⟩ := Option.bind_eq_some_iff.mp (Option.some.inj h)
    have ⟨⟨hs, hm⟩, hi⟩ := Option.ite_none_right_eq_some.mp he
    refine ⟨rfl, hl.trans ?_⟩
    rw [← hs, ← hm, ← Option.some.inj hi]

-- How a load comes to its end.
inductive Loaded (files : Files) (store : MediaStore) (time : Nat) (path : Bytes)
    (forceReload : Bool) (store' : MediaStore) : LoadResult → Prop
  | failed : store' = store → Loaded files store time path forceReload store' .failed
  | hit (identity : FileIdentity) (image : RgbaImage) : forceReload = false →
    files.getFileIdentity time path = some identity →
    lookup path store.cachePaths store.cacheEntries =
      some ⟨image, identity.fileSize, identity.modifiedUnix⟩ →
    store' = store → Loaded files store time path forceReload store' (.hit image)
  | decoded (identity : FileIdentity) (image : RgbaImage) :
    files.getFileIdentity time path = some identity →
    files.decodeImageFromFile time path = some image →
    store.keep path ⟨image, identity.fileSize, identity.modifiedUnix⟩ = some store' →
    Loaded files store time path forceReload store' (.decoded image)

theorem loaded_of_loadFile
    (h : store.loadFile files time path forceReload = some (result, store')) :
    Loaded files store time path forceReload store' result := by
  rw [loadFile] at h
  split at h
  case isTrue =>
    obtain ⟨rfl, rfl⟩ := Prod.mk.inj (Option.some.inj h)
    exact .failed rfl
  case isFalse =>
    cases hi : files.getFileIdentity time path
    case none =>
      rw [hi] at h
      obtain ⟨rfl, rfl⟩ := Prod.mk.inj (Option.some.inj h)
      exact .failed rfl
    case some identity =>
      rw [hi] at h
      have ⟨found, hf, h⟩ := Option.bind_eq_some_iff.mp h
      cases found
      case some image =>
        obtain ⟨rfl, rfl⟩ := Prod.mk.inj (Option.some.inj h)
        have ⟨hr, hl⟩ := entry_of_hit p hf
        exact .hit identity image hr hi hl rfl
      case none =>
        cases hd : files.decodeImageFromFile time path
        case none =>
          rw [hd] at h
          obtain ⟨rfl, rfl⟩ := Prod.mk.inj (Option.some.inj h)
          exact .failed rfl
        case some decoded =>
          rw [hd] at h
          have ⟨_, hk, h⟩ := Option.map_eq_some_iff.mp h
          obtain ⟨rfl, rfl⟩ := Prod.mk.inj h
          exact .decoded identity decoded hi hd hk

theorem isSome_loadFile : (store.loadFile files time path forceReload).isSome := by
  rw [loadFile]
  split
  case isTrue => rfl
  case isFalse =>
    cases files.getFileIdentity time path
    case none => rfl
    case some identity =>
      have ⟨found, hf⟩ : ∃ found,
          (if forceReload then some none else store.cachedImage path identity) = some found := by
        rw [cachedImage_eq p]
        split
        all_goals exact ⟨_, rfl⟩
      simp only [hf, Option.bind_some]
      cases found
      case some => rfl
      case none =>
        cases files.decodeImageFromFile time path
        case none => rfl
        case some decoded =>
          have ⟨_, hk, _⟩ := keep_eq p path ⟨decoded, identity.fileSize, identity.modifiedUnix⟩
          simp [hk]

end MediaStore

namespace Refines

theorem empty : Refines files [] .empty :=
  ⟨.nil, fun _ => rfl, fun _ _ h => by simp [held] at h⟩

-- A load that keeps the cache leaves what there is to hold as it was.
theorem of_kept (r : Refines files t store) (h : ∀ path, held path (t ++ [event]) = held path t) :
    Refines files (t ++ [event]) store where
  paired := r.paired
  entries := fun path => h path ▸ r.entries path
  decoded := fun path => h path ▸ r.decoded path

theorem decode (r : Refines files t store) {identity : FileIdentity}
    (hi : files.getFileIdentity time path = some identity)
    (hd : files.decodeImageFromFile time path = some image)
    (hk : store.keep path ⟨image, identity.fileSize, identity.modifiedUnix⟩ = some store') :
    Refines files (t ++ [.loadFile time path forceReload (.decoded image)]) store' := by
  have ⟨_, hk', p, hl⟩ :=
    MediaStore.keep_eq r.paired path ⟨image, identity.fileSize, identity.modifiedUnix⟩
  obtain rfl := Option.some.inj (hk'.symm.trans hk)
  refine ⟨p, fun other => ?_, fun other load h => ?_⟩
  case refine_1 =>
    rw [hl, r.entries, held_append, heldAfter]
    by_cases ho : path = other
    case pos =>
      subst ho
      simp [Files.entryOf, hi]
    case neg => simp [ho]
  case refine_2 =>
    rw [held_append, heldAfter] at h
    split at h
    case isTrue ho =>
      obtain rfl := Option.some.inj h
      exact ho ▸ hd
    case isFalse => exact r.decoded other load h

theorem invalidate (r : Refines files t store) (h : store.invalidatePath path = some store') :
    Refines files (t ++ [.invalidatePath path]) store' := by
  have ⟨_, hk, p, hl⟩ := MediaStore.invalidatePath_eq r.paired path
  obtain rfl := Option.some.inj (hk.symm.trans h)
  refine ⟨p, fun other => ?_, fun other load h => ?_⟩
  case refine_1 =>
    rw [hl, r.entries, held_append, heldAfter]
    by_cases ho : path = other
    case pos => simp [ho]
    case neg => simp [ho]
  case refine_2 =>
    rw [held_append] at h
    exact r.decoded other load (Option.ite_none_left_eq_some.mp h).right

theorem step (r : Refines files t store) (h : Step files store event store') :
    Refines files (t ++ [event]) store' := by
  cases event
  case loadFile time path forceReload result =>
    cases MediaStore.loaded_of_loadFile r.paired h
    case failed hs        => exact hs ▸ r.of_kept fun _ => held_append
    case hit hs           => exact hs ▸ r.of_kept fun _ => held_append
    case decoded hi hd hk => exact r.decode hi hd hk
  case invalidatePath path => exact r.invalidate h
  case invalidateAll =>
    obtain rfl := h
    refine ⟨.nil, fun other => ?_, fun other load h => ?_⟩
    case refine_1 =>
      rw [held_append]
      rfl
    case refine_2 => simp [held_append, heldAfter] at h

theorem of_run (r : Run (Step files) .empty t store) : Refines files t store := by
  induction r
  case nil        => exact empty
  case snoc hs hi => exact hi.step hs

theorem findCached_eq (r : Refines files t store) :
    store.findCached path = some (((held path t).bind (files.entryOf path)).map CacheEntry.image) := by
  rw [MediaStore.findCached_eq r.paired, r.entries]

theorem coherent (r : Refines files t store) : Coherent files t store where
  length_eq := r.paired.length_eq
  nodup := r.paired.nodup
  hits := by
    intro time path forceReload image store' h
    cases MediaStore.loaded_of_loadFile r.paired h
    case hit identity hf hi _ hl =>
      rw [r.entries] at hl
      have ⟨⟨before, image'⟩, hh, he⟩ := Option.bind_eq_some_iff.mp hl
      have ⟨identity', hb, he⟩ := Option.map_eq_some_iff.mp he
      obtain ⟨rfl, hs, hm⟩ := CacheEntry.mk.inj he
      have hid : identity' = identity := by
        cases identity'
        cases identity
        simp_all
      exact ⟨hf, before, identity, lastDecoded_of_held hh, r.decoded path _ hh, hid ▸ hb, hi⟩
  failures := by
    intro time path forceReload result store' h hr
    cases MediaStore.loaded_of_loadFile r.paired h
    case failed hs  => exact hs
    case hit hs     => exact hs
    case decoded    => simp [LoadResult.returned] at hr
  defined := by
    refine ⟨fun _ _ _ => MediaStore.isSome_loadFile r.paired, fun _ => ?_, fun path => ?_⟩
    case refine_1 =>
      rw [findCached_eq r]
      rfl
    case refine_2 =>
      have ⟨_, h, _⟩ := MediaStore.invalidatePath_eq r.paired path
      exact Option.isSome_of_mem h

end Refines

-- A store that has been through any calls is coherent.
theorem coherent_of_run (r : Run (Step files) .empty t store) : Coherent files t store :=
  (Refines.of_run r).coherent

-- A file of one pixel, which is touched at the third tick.
def pixel : Files where
  getFileIdentity time _ := some ⟨4, if time < 3 then 0 else 1⟩
  decodeImageFromFile time path :=
    some ⟨1, 1, [⟨time.toUInt8, 0, 0, 255⟩], ⟨path, 4, 0, 1, 1, 4⟩⟩

theorem coherent_of_run_pixel :
    let image (r : UInt8) : RgbaImage := ⟨1, 1, [⟨r, 0, 0, 255⟩], ⟨"a.png", 4, 0, 1, 1, 4⟩⟩
    let t : List StoreEvent := [.loadFile 1 "a.png" false (.decoded (image 1)),
      .loadFile 2 "a.png" false (.hit (image 1)), .loadFile 3 "a.png" false (.decoded (image 3))]
    ∃ store, store.cachePaths = [str "a.png"] ∧ Coherent pixel t store := by
  intro image t
  have h : ∃ s₁ s₂ s₃, Step pixel .empty (.loadFile 1 "a.png" false (.decoded (image 1))) s₁ ∧
      Step pixel s₁ (.loadFile 2 "a.png" false (.hit (image 1))) s₂ ∧
      Step pixel s₂ (.loadFile 3 "a.png" false (.decoded (image 3))) s₃ ∧
      s₃.cachePaths = [str "a.png"] := ⟨_, _, _, rfl, rfl, rfl, rfl⟩
  obtain ⟨s₁, s₂, s₃, h₁, h₂, h₃, hp⟩ := h
  exact ⟨s₃, hp, coherent_of_run (((Run.nil.snoc h₁).snoc h₂).snoc h₃)⟩

end Droidcli.Media
