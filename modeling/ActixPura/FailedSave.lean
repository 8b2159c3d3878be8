import ActixPura.Storage

/-!
# A save that fails

`FileSystemStorage::save` serializes the item, puts the bytes into the cache, opens and empties the
file, writes and flushes. An error leaves at any of these steps, and what was done before it stays:
only a failed serialization comes before all effects. Here a storage after a failed save is
compared with the same storage without it, by what loads and lists answer from then on, whatever is
saved, deleted, loaded and reopened in between.

A cached item outlives its file, which can be removed under another id with the same path. So a
storage whose cache knows the item and one that finds it in the file alone are told apart.
-/

namespace ActixPura

open Runs
open Std (ExtTreeMap)

/-- The step of a save that fails: a write may leave any part of the bytes in the file. -/
inductive SaveFailure
  | opening
  | writing (written : Bytes)
  | flushing

/-- What is done with the storage later on. A later save may fail as well, and the file of a deleted
item may resist; a load that cannot read its file does nothing. What an item is deserialized to
plays no part. -/
inductive LaterAction
  | save (key : StorageKey) (item : Option Bytes) (failure : Option SaveFailure)
  | load (key : StorageKey)
  | delete (key : StorageKey) (removed : Bool)
  | list (storageType : StorageType)
  | reopen

namespace FileSystemStorage

variable {V : Type}

/-- `save` with the step of the file operations that fails, if any. -/
def saveWith (s : FileSystemStorage) (k : StorageKey) (item : Option Bytes)
    (failure : Option SaveFailure) : FileSystemStorage × StorageResult V :=
  match item with
  | none => (s, .failed .serialization)
  | some serialized =>
    let s := { s with cache := s.cache.insert k serialized }
    match s.getFilePath k, failure with
    | none, _ => (s, .failed .io)
    | some _, some .opening => (s, .failed .io)
    | some place, some (.writing written) =>
      ({ s with files := s.files.insert place written }, .failed .io)
    | some place, some .flushing =>
      ({ s with files := s.files.insert place serialized }, .failed .io)
    | some place, none => ({ s with files := s.files.insert place serialized }, .done)

/-- `delete`, where `remove_file` may fail after the cache entry is gone. -/
def deleteWith (s : FileSystemStorage) (k : StorageKey) (removed : Bool) : FileSystemStorage :=
  if removed then s.delete k else { s with cache := s.cache.erase k }

def laterStep (s : FileSystemStorage) : LaterAction → FileSystemStorage
  | .save k item failure => (s.saveWith (V := Bytes) k item failure).1
  | .load k => (s.load k some).1
  | .delete k removed => s.deleteWith k removed
  | .list _ => s
  | .reopen => s.reopen

/-- Both answer every load and list alike, now and after any operations. -/
def AnswersLike (s s' : FileSystemStorage) : Prop :=
  ∀ later : List LaterAction,
    (∀ (V : Type) (k : StorageKey) (deserialize : Bytes → Option V),
      ((run laterStep s later).load k deserialize).2 =
        ((run laterStep s' later).load k deserialize).2) ∧
    ∀ (V : Type) (t : StorageType) (deserialize : Bytes → Option V),
      (run laterStep s later).list t deserialize = (run laterStep s' later).list t deserialize

/-- The bytes that a load of the key finds. -/
def visible (s : FileSystemStorage) (k : StorageKey) : Option Bytes :=
  (s.cache[k]?).or (s.content k)

/-- The file holds already what the failed save leaves in it. -/
def FileKept (s : FileSystemStorage) (k : StorageKey) (serialized : Bytes) : SaveFailure → Prop
  | .opening => True
  | .writing written => ∀ place, s.getFilePath k = some place → s.files[place]? = some written
  | .flushing => ∀ place, s.getFilePath k = some place → s.files[place]? = some serialized

/-- No other key leads to the file of `k`. -/
def Unshared (s : FileSystemStorage) (k : StorageKey) : Prop :=
  ∀ k', s.getFilePath k' = s.getFilePath k → k' = k

/-- The storage answers a load of `k` with these bytes and will do so until `k` itself is saved or
deleted, or the storage reopened: from its cache, or from a file that nothing else can change. -/
def Settled (s : FileSystemStorage) (k : StorageKey) (serialized : Bytes) : Prop :=
  s.cache[k]? = some serialized ∨
    s.cache[k]? = none ∧ s.content k = some serialized ∧ s.Unshared k

/-- The directories that `new` makes. -/
def Opened (s : FileSystemStorage) : Prop := ∀ t, s.isDir (s.typeDir t) = true

variable {s s' : FileSystemStorage}

/-- Without a failure it is the save of the storage. -/
theorem saveWith_none (s : FileSystemStorage) (k : StorageKey) (item : Option Bytes) :
    s.saveWith (V := V) k item none = s.save k item := by
  unfold saveWith save
  cases item with
  | none => rfl
  | some serialized =>
      have hpath : getFilePath { s with cache := s.cache.insert k serialized } k =
          s.getFilePath k := rfl
      simp only [hpath]
      cases s.getFilePath k <;> rfl

/-- Whatever a save failed at, it is one of the steps. -/
theorem saveWith_of_failed {k : StorageKey} {item : Option Bytes} {failure : Option SaveFailure}
    {error : StorageError} (h : (s.saveWith (V := V) k item failure).2 = .failed error) :
    ∃ failure', s.saveWith (V := V) k item failure = s.saveWith k item (some failure') := by
  cases failure with
  | some failure => exact ⟨failure, rfl⟩
  | none =>
      refine ⟨.opening, ?_⟩
      unfold saveWith at h ⊢
      cases item with
      | none => rfl
      | some serialized =>
          have hpath : getFilePath { s with cache := s.cache.insert k serialized } k =
              s.getFilePath k := rfl
          simp only [hpath] at h ⊢
          cases hplace : s.getFilePath k with
          | none => rfl
          | some place =>
              rw [hplace] at h
              cases h

theorem load_snd (s : FileSystemStorage) (k : StorageKey) (deserialize : Bytes → Option V) :
    (s.load k deserialize).2 =
      match s.visible k with
      | some bytes => deserialized deserialize bytes
      | none => .failed k.notFound := by
  unfold load visible
  cases s.cache[k]? with
  | some bytes => rfl
  | none => cases s.content k <;> rfl

/-! ## What an operation does -/

/-- The files after a save that got past the serialization. -/
def filesAfter (s : FileSystemStorage) (k : StorageKey) (serialized : Bytes)
    (failure : Option SaveFailure) : ExtTreeMap Location Bytes compare :=
  match s.getFilePath k, failure with
  | none, _ => s.files
  | some _, some .opening => s.files
  | some place, some (.writing written) => s.files.insert place written
  | some place, some .flushing => s.files.insert place serialized
  | some place, none => s.files.insert place serialized

theorem saveWith_fst (s : FileSystemStorage) (k : StorageKey) (serialized : Bytes)
    (failure : Option SaveFailure) :
    (s.saveWith (V := V) k (some serialized) failure).1 =
      { s with
        cache := s.cache.insert k serialized, files := s.filesAfter k serialized failure } := by
  have hpath : getFilePath { s with cache := s.cache.insert k serialized } k = s.getFilePath k :=
    rfl
  simp only [saveWith, filesAfter, hpath]
  cases s.getFilePath k with
  | none => rfl
  | some place =>
      cases failure with
      | none => rfl
      | some failure => cases failure <;> rfl

/-- A save writes to no other file. -/
theorem getElem?_filesAfter (serialized : Bytes) (failure : Option SaveFailure) {k : StorageKey}
    {place : Location} (h : s.getFilePath k ≠ some place) :
    (s.filesAfter k serialized failure)[place]? = s.files[place]? := by
  have hinsert {place' : Location} (bytes : Bytes) (hplace : s.getFilePath k = some place') :
      (s.files.insert place' bytes)[place]? = s.files[place]? := by
    rw [ExtTreeMap.getElem?_insert, if_neg]
    exact fun heq => h (Std.compare_eq_iff_eq.mp heq ▸ hplace)
  unfold filesAfter
  cases hplace : s.getFilePath k with
  | none => rfl
  | some place' =>
      cases failure with
      | none => exact hinsert serialized hplace
      | some failure =>
          cases failure with
          | opening => rfl
          | writing written => exact hinsert written hplace
          | flushing => exact hinsert serialized hplace

theorem deleteWith_cache (s : FileSystemStorage) (k : StorageKey) (removed : Bool) :
    (s.deleteWith k removed).cache = s.cache.erase k := by
  unfold deleteWith
  split_ifs <;> rfl

theorem getElem?_deleteWith {k : StorageKey} (removed : Bool) {place : Location}
    (h : s.getFilePath k ≠ some place) :
    (s.deleteWith k removed).files[place]? = s.files[place]? := by
  unfold deleteWith delete
  split_ifs
  · cases hplace : s.getFilePath k with
    | none => rfl
    | some place' =>
        change (s.files.erase place')[place]? = _
        rw [ExtTreeMap.getElem?_erase, if_neg]
        exact fun heq => h (Std.compare_eq_iff_eq.mp heq ▸ hplace)
  · rfl

/-- A load puts into the cache what it found, and that is all it does. -/
theorem load_fst (s : FileSystemStorage) (k : StorageKey) (deserialize : Bytes → Option V) :
    (s.load k deserialize).1 = s ∧ s.cache[k]? = s.visible k ∨ s.cache[k]? = none ∧
      ∃ bytes, s.content k = some bytes ∧
        (s.load k deserialize).1 = { s with cache := s.cache.insert k bytes } := by
  unfold load visible
  cases hcache : s.cache[k]? with
  | some bytes => exact Or.inl ⟨rfl, rfl⟩
  | none =>
      cases hcontent : s.content k with
      | none => exact Or.inl ⟨rfl, rfl⟩
      | some bytes => exact Or.inr ⟨rfl, bytes, rfl, rfl⟩

/-- After a load the cache has what is visible under the key, and the rest is as it was. -/
theorem load_cache (s : FileSystemStorage) (k k' : StorageKey) :
    (s.load k some).1.cache[k']? = if k = k' then s.visible k else s.cache[k']? := by
  rcases s.load_fst k some with ⟨hsame, hvisible⟩ | ⟨hcache, bytes, hcontent, hload⟩
  · rw [hsame]
    split_ifs with heq
    · rw [← heq, hvisible]
    · rfl
  · have hvisible : s.visible k = some bytes := by rw [visible, hcache, hcontent]; rfl
    rw [hload, ExtTreeMap.getElem?_insert, hvisible]
    simp only [StorageKey.cmp_eq_eq]

theorem getFilePath_congr (hbase : s.baseDir = s'.baseDir) (hdir : s.isDir = s'.isDir)
    (k : StorageKey) : s.getFilePath k = s'.getFilePath k := by
  unfold getFilePath typeDir
  rw [hbase, hdir]

/-- The directories stay. -/
theorem laterStep_dirs (s : FileSystemStorage) (a : LaterAction) :
    (s.laterStep a).baseDir = s.baseDir ∧ (s.laterStep a).isDir = s.isDir := by
  cases a with
  | save k item failure =>
      cases item with
      | none => exact ⟨rfl, rfl⟩
      | some serialized =>
          change (s.saveWith (V := Bytes) k (some serialized) failure).1.baseDir = _ ∧
            (s.saveWith (V := Bytes) k (some serialized) failure).1.isDir = _
          rw [saveWith_fst]
          exact ⟨rfl, rfl⟩
  | load k =>
      change (s.load k some).1.baseDir = _ ∧ (s.load k some).1.isDir = _
      rcases s.load_fst k some with ⟨hload, -⟩ | ⟨-, bytes, -, hload⟩
      · rw [hload]
        exact ⟨rfl, rfl⟩
      · rw [hload]
        exact ⟨rfl, rfl⟩
  | delete k removed => cases removed <;> exact ⟨rfl, rfl⟩
  | list t => exact ⟨rfl, rfl⟩
  | reopen => exact ⟨rfl, rfl⟩

theorem load_files (s : FileSystemStorage) (k : StorageKey) :
    (s.load k some).1.files = s.files := by
  rcases s.load_fst k some with ⟨hload, -⟩ | ⟨-, bytes, -, hload⟩
  · rw [hload]
  · rw [hload]

/-- An operation under another key leaves a file alone that has only one key. -/
theorem Unshared.content {k k₀ : StorageKey} (h : s.Unshared k) (hbase : s'.baseDir = s.baseDir)
    (hdir : s'.isDir = s.isDir)
    (hfiles : ∀ place, s.getFilePath k₀ ≠ some place → s'.files[place]? = s.files[place]?)
    (hne : k₀ ≠ k) : s'.content k = s.content k := by
  rw [FileSystemStorage.content, FileSystemStorage.content, getFilePath_congr hbase hdir]
  cases hplace : s.getFilePath k with
  | none => rfl
  | some place =>
      refine hfiles place fun heq => hne (h k₀ ?_)
      rw [heq, hplace]

/-! ## A cache entry ahead of its load -/

/-- The same files and the same cache, apart from the entry of `k`: `s` may have it already, where
`s'` would take it from the file. -/
structure Ahead (k : StorageKey) (s s' : FileSystemStorage) : Prop where
  baseDir : s.baseDir = s'.baseDir
  isDir : s.isDir = s'.isDir
  files : s.files = s'.files
  cache : ∀ k', s.cache[k']? = s'.cache[k']? ∨
    k' = k ∧ s'.cache[k']? = none ∧ s.cache[k']? = s'.content k'

namespace Ahead

variable {k : StorageKey}

theorem getFilePath (h : Ahead k s s') (k' : StorageKey) : s.getFilePath k' = s'.getFilePath k' :=
  getFilePath_congr h.baseDir h.isDir k'

theorem content (h : Ahead k s s') (k' : StorageKey) : s.content k' = s'.content k' := by
  rw [FileSystemStorage.content, FileSystemStorage.content, h.getFilePath, h.files]

theorem visible (h : Ahead k s s') (k' : StorageKey) : s.visible k' = s'.visible k' := by
  rw [FileSystemStorage.visible, FileSystemStorage.visible, h.content]
  rcases h.cache k' with hsame | ⟨-, hnone, hahead⟩
  · rw [hsame]
  · rw [hnone, hahead, Option.or_self, Option.none_or]

/-- An operation on `k₀` that leaves both with the same files and the same entry of `k₀`. -/
theorem update (h : Ahead k s s') (k₀ : StorageKey) (entry : Option Bytes)
    {t t' : FileSystemStorage} (hbase : t.baseDir = t'.baseDir) (hdir : t.isDir = t'.isDir)
    (hfiles : t.files = t'.files)
    (hcache : ∀ k', t.cache[k']? = if k₀ = k' then entry else s.cache[k']?)
    (hcache' : ∀ k', t'.cache[k']? = if k₀ = k' then entry else s'.cache[k']?)
    (hcontent : k₀ ≠ k → t'.content k = s'.content k) : Ahead k t t' := by
  refine ⟨hbase, hdir, hfiles, fun k' => ?_⟩
  rw [hcache, hcache']
  split_ifs with heq
  · exact Or.inl rfl
  · rcases h.cache k' with hsame | ⟨rfl, hnone, hahead⟩
    · exact Or.inl hsame
    · exact Or.inr ⟨rfl, hnone, hahead.trans (hcontent heq).symm⟩

theorem saveWith (h : Ahead k s s') (hunshared : s'.Unshared k) (k₀ : StorageKey)
    (serialized : Bytes) (failure : Option SaveFailure) :
    Ahead k (s.saveWith (V := V) k₀ (some serialized) failure).1
      (s'.saveWith (V := V) k₀ (some serialized) failure).1 := by
  rw [saveWith_fst, saveWith_fst]
  have hfiles : s.filesAfter k₀ serialized failure = s'.filesAfter k₀ serialized failure := by
    unfold filesAfter
    rw [h.getFilePath, h.files]
  refine h.update k₀ (some serialized) h.baseDir h.isDir hfiles ?_ ?_
    (hunshared.content rfl rfl fun place hplace => getElem?_filesAfter serialized failure hplace)
  · intro k'
    simp only [ExtTreeMap.getElem?_insert, StorageKey.cmp_eq_eq]
  · intro k'
    simp only [ExtTreeMap.getElem?_insert, StorageKey.cmp_eq_eq]

theorem load (h : Ahead k s s') (hunshared : s'.Unshared k) (k₀ : StorageKey) :
    Ahead k (s.load k₀ some).1 (s'.load k₀ some).1 := by
  obtain ⟨hbase, hdir⟩ := s.laterStep_dirs (.load k₀)
  obtain ⟨hbase', hdir'⟩ := s'.laterStep_dirs (.load k₀)
  refine h.update k₀ (s'.visible k₀) (hbase.trans (h.baseDir.trans hbase'.symm))
    (hdir.trans (h.isDir.trans hdir'.symm))
    ((s.load_files k₀).trans (h.files.trans (s'.load_files k₀).symm)) ?_ (s'.load_cache k₀)
    (hunshared.content hbase' hdir' fun place _ => by rw [load_files])
  rw [← h.visible]
  exact s.load_cache k₀

theorem deleteWith (h : Ahead k s s') (hunshared : s'.Unshared k) (k₀ : StorageKey)
    (removed : Bool) : Ahead k (s.deleteWith k₀ removed) (s'.deleteWith k₀ removed) := by
  obtain ⟨hbase, hdir⟩ := s.laterStep_dirs (.delete k₀ removed)
  obtain ⟨hbase', hdir'⟩ := s'.laterStep_dirs (.delete k₀ removed)
  have hfiles : (s.deleteWith k₀ removed).files = (s'.deleteWith k₀ removed).files := by
    cases removed with
    | true =>
        change (s.delete k₀).files = (s'.delete k₀).files
        simp only [FileSystemStorage.delete, h.getFilePath, h.files]
    | false => exact h.files
  refine h.update k₀ none (hbase.trans (h.baseDir.trans hbase'.symm))
    (hdir.trans (h.isDir.trans hdir'.symm)) hfiles ?_ ?_
    (hunshared.content hbase' hdir' fun place hplace => getElem?_deleteWith removed hplace)
  · intro k'
    simp only [deleteWith_cache, ExtTreeMap.getElem?_erase, StorageKey.cmp_eq_eq]
  · intro k'
    simp only [deleteWith_cache, ExtTreeMap.getElem?_erase, StorageKey.cmp_eq_eq]

theorem laterStep (h : Ahead k s s') (hunshared : s'.Unshared k) (a : LaterAction) :
    Ahead k (s.laterStep a) (s'.laterStep a) := by
  cases a with
  | save k₀ item failure =>
      cases item with
      | none => exact h
      | some serialized => exact h.saveWith hunshared k₀ serialized failure
  | load k₀ => exact h.load hunshared k₀
  | delete k₀ removed => exact h.deleteWith hunshared k₀ removed
  | list t => exact h
  | reopen => exact ⟨h.baseDir, h.isDir, h.files, fun _ => Or.inl rfl⟩

theorem answersLike (h : Ahead k s s') (hunshared : s'.Unshared k) : AnswersLike s s' := by
  intro later
  have hrun : Ahead k (run FileSystemStorage.laterStep s later)
      (run FileSystemStorage.laterStep s' later) := by
    induction later generalizing s s' with
    | nil => exact h
    | cons a later ih =>
        refine ih (h.laterStep hunshared a) fun k' heq => hunshared k' ?_
        obtain ⟨hbase, hdir⟩ := s'.laterStep_dirs a
        rwa [getFilePath_congr hbase hdir, getFilePath_congr hbase hdir] at heq
  constructor
  · intro V k' deserialize
    rw [load_snd, load_snd, hrun.visible]
  · intro V t deserialize
    rw [list, list, stored, stored, typeDir, typeDir, hrun.files, hrun.baseDir]

end Ahead

/-! ## When a failed save goes unnoticed -/

/-- What a load without deserialization answers. -/
theorem visible_of_answersLike (h : AnswersLike s s') (later : List LaterAction) (k : StorageKey) :
    (run laterStep s later).visible k = (run laterStep s' later).visible k := by
  have hload := (h later).1 Bytes k some
  rw [load_snd, load_snd] at hload
  cases hs : (run laterStep s later).visible k with
  | none =>
      cases hs' : (run laterStep s' later).visible k with
      | none => rfl
      | some bytes' =>
          rw [hs, hs'] at hload
          cases hload
  | some bytes =>
      cases hs' : (run laterStep s' later).visible k with
      | none =>
          rw [hs, hs'] at hload
          cases hload
      | some bytes' =>
          rw [hs, hs'] at hload
          rw [StorageResult.loaded.inj hload]

theorem visible_reopen (s : FileSystemStorage) (k : StorageKey) :
    s.reopen.visible k = s.content k := by
  have hcontent : s.reopen.content k = s.content k := rfl
  rw [visible, hcontent]
  simp [reopen]

theorem insert_eq_self_iff {files : ExtTreeMap Location Bytes compare} {place : Location}
    {bytes : Bytes} : files.insert place bytes = files ↔ files[place]? = some bytes := by
  constructor
  · intro h
    rw [← h, ExtTreeMap.getElem?_insert_self]
  · intro h
    refine ExtTreeMap.ext_getElem? fun other => ?_
    rw [ExtTreeMap.getElem?_insert]
    split_ifs with heq
    · rw [← Std.compare_eq_iff_eq.mp heq, h]
    · rfl

theorem filesAfter_eq_iff (s : FileSystemStorage) (k : StorageKey) (serialized : Bytes)
    (failure : SaveFailure) :
    s.filesAfter k serialized (some failure) = s.files ↔ s.FileKept k serialized failure := by
  unfold filesAfter FileKept
  cases hplace : s.getFilePath k with
  | none => cases failure <;> simp
  | some place =>
      cases failure with
      | opening => simp
      | writing written => simpa using insert_eq_self_iff
      | flushing => simpa using insert_eq_self_iff

/-- The files can only differ in the file of the key, and a load after reopening finds this. -/
theorem filesAfter_eq_of_content {s : FileSystemStorage} {k : StorageKey} {serialized : Bytes}
    {failure : SaveFailure}
    (h : ∀ place, s.getFilePath k = some place →
      (s.filesAfter k serialized (some failure))[place]? = s.files[place]?) :
    s.filesAfter k serialized (some failure) = s.files := by
  rw [filesAfter_eq_iff]
  unfold filesAfter at h
  cases failure with
  | opening => trivial
  | writing written =>
      intro place hplace
      simpa [hplace] using (h place hplace).symm
  | flushing =>
      intro place hplace
      simpa [hplace] using (h place hplace).symm

/-- A deletion of a key with the same path removes the file of `k`, and no cache entry of `k`. -/
theorem visible_delete_shared {k k' : StorageKey} (hpath : s.getFilePath k' = s.getFilePath k)
    (hne : k' ≠ k) : (s.laterStep (.delete k' true)).visible k = s.cache[k]? := by
  have hcache : (s.delete k').cache[k]? = s.cache[k]? := by
    change (s.cache.erase k')[k]? = _
    rw [ExtTreeMap.getElem?_erase, if_neg]
    exact fun heq => hne (StorageKey.cmp_eq_eq.mp heq)
  have hcontent : (s.delete k').content k = none := by
    have hsame : (s.delete k').getFilePath k = s.getFilePath k := rfl
    rw [content, hsame, delete, hpath]
    cases s.getFilePath k with
    | none => rfl
    | some place => simp
  change (s.delete k').visible k = _
  rw [visible, hcache, hcontent, Option.or_none]

section Shared

variable {k : StorageKey}

theorem components_dot (name : String) : components ("./" ++ name) = "." :: components name := by
  unfold components
  rw [String.toList_append]
  change (List.splitOn '/' ('.' :: '/' :: name.toList)).map _ = _
  rw [List.splitOn_cons_eq_if_modifyHead, List.splitOn_cons_eq_if_modifyHead]
  rfl

theorem components_slash (name : String) : components ("/" ++ name) = "" :: components name := by
  unfold components
  rw [String.toList_append]
  change (List.splitOn '/' ('/' :: name.toList)).map _ = _
  rw [List.splitOn_cons_eq_if_modifyHead]
  rfl

/-- A component that stays in the directory, before others. -/
theorem walk_stay (isDir : Location → Bool) (place : Location) {component : String}
    (h : component = "" ∨ component = ".") (name : String) :
    walk isDir place (component :: components name) =
      if isDir place = true then walk isDir place (components name) else none := by
  obtain ⟨first, rest, hname⟩ := List.exists_cons_of_ne_nil
    (show components name ≠ [] by simp [components])
  rw [hname, walk, enter, if_pos h]
  simp

/-- On an opened storage every file has another id: its own after `./` or after another slash. -/
theorem exists_shared (hopened : s.Opened) (hcontent : s.content k ≠ none) :
    ∃ k', k' ≠ k ∧ s.getFilePath k' = s.getFilePath k := by
  have hlonger {start : String} (hstart : start ≠ "") :
      (⟨k.storageType, start ++ k.id⟩ : StorageKey) ≠ k := by
    intro heq
    have hlength := congrArg (fun k => k.id.length) heq
    simp only [String.length_append] at hlength
    exact hstart (String.length_eq_zero_iff.mp (by omega))
  have hpath : s.getFilePath k ≠ none := fun hnone => hcontent (by rw [content, hnone]; rfl)
  by_cases hhead : (k.id ++ ".bin").toList.head? = some '/'
  · refine ⟨⟨k.storageType, "/" ++ k.id⟩, hlonger (by decide), ?_⟩
    have habsolute : ("/" ++ (k.id ++ ".bin")).toList.head? = some '/' := by
      rw [String.toList_append]
      rfl
    unfold getFilePath at hpath ⊢
    simp only [String.append_assoc] at hpath ⊢
    rw [if_pos hhead] at hpath ⊢
    obtain ⟨rest, hrest⟩ : ∃ rest, k.id ++ ".bin" = "/" ++ rest := by
      obtain ⟨l, hl⟩ := List.head?_eq_some_iff.mp hhead
      refine ⟨String.ofList l, String.toList_injective ?_⟩
      rw [hl, String.toList_append]
      simp
    rw [if_pos habsolute, components_slash, walk_stay s.isDir [] (Or.inl rfl), if_pos]
    rw [hrest, components_slash, walk_stay s.isDir [] (Or.inl rfl)] at hpath
    by_contra hroot
    exact hpath (if_neg hroot)
  · refine ⟨⟨k.storageType, "./" ++ k.id⟩, hlonger (by decide), ?_⟩
    have hrelative : ("./" ++ (k.id ++ ".bin")).toList.head? ≠ some '/' := by
      rw [String.toList_append]
      simp
    unfold getFilePath
    simp only [String.append_assoc]
    rw [if_neg hhead, if_neg hrelative, components_dot,
      walk_stay s.isDir _ (Or.inr rfl), if_pos (hopened k.storageType)]

theorem settled_iff_cached (hopened : s.Opened) (k : StorageKey) (serialized : Bytes) :
    s.Settled k serialized ↔ s.cache[k]? = some serialized := by
  refine or_iff_left ?_
  rintro ⟨-, hcontent, hunshared⟩
  obtain ⟨k', hne, hpath⟩ := exists_shared hopened (by rw [hcontent]; simp)
  exact hne (hunshared k' hpath)

end Shared

section Compare

variable {k : StorageKey} {serialized : Bytes} {failure : SaveFailure}

theorem saveWith_cached (s : FileSystemStorage) (k : StorageKey) (serialized : Bytes)
    (failure : Option SaveFailure) :
    (s.saveWith (V := V) k (some serialized) failure).1.cache[k]? = some serialized := by
  rw [saveWith_fst]
  exact ExtTreeMap.getElem?_insert_self

/-- A load finds the bytes now, and after the file is deleted under another key. -/
theorem settled_of_answersLike
    (h : AnswersLike (s.saveWith (V := V) k (some serialized) (some failure)).1 s) :
    s.Settled k serialized := by
  have hsaved := s.saveWith_cached (V := V) k serialized (some failure)
  have hpath (k' : StorageKey) :
      (s.saveWith (V := V) k (some serialized) (some failure)).1.getFilePath k' =
        s.getFilePath k' :=
    getFilePath_congr (by rw [saveWith_fst]) (by rw [saveWith_fst]) k'
  have hvisible : s.visible k = some serialized := by
    refine (visible_of_answersLike h [] k).symm.trans ?_
    rw [run_nil, visible, hsaved, Option.some_or]
  cases hcache : s.cache[k]? with
  | some bytes =>
      rw [visible, hcache, Option.some_or] at hvisible
      exact Or.inl (hcache.trans hvisible)
  | none =>
      rw [visible, hcache, Option.none_or] at hvisible
      refine Or.inr ⟨hcache, hvisible, fun k' hshared => ?_⟩
      by_contra hne
      have hdeleted := visible_of_answersLike h [.delete k' true] k
      rw [run_cons, run_cons, run_nil, run_nil,
        visible_delete_shared ((hpath k').trans (hshared.trans (hpath k).symm)) hne,
        visible_delete_shared hshared hne, hsaved, hcache] at hdeleted
      cases hdeleted

/-- Reopened, both storages find the same in the file of the key. -/
theorem fileKept_of_answersLike
    (h : AnswersLike (s.saveWith (V := V) k (some serialized) (some failure)).1 s) :
    s.FileKept k serialized failure := by
  rw [← filesAfter_eq_iff]
  have hreopened := visible_of_answersLike h [.reopen] k
  rw [saveWith_fst] at hreopened
  refine filesAfter_eq_of_content fun place hplace => ?_
  have hcontent := (visible_reopen _ k).symm.trans (hreopened.trans (visible_reopen s k))
  rw [content, content, hplace] at hcontent
  have hplace' : getFilePath { s with
      cache := s.cache.insert k serialized
      files := s.filesAfter k serialized (some failure) } k = some place := hplace
  rw [hplace'] at hcontent
  exact hcontent

theorem ahead_saveWith (hnone : s.cache[k]? = none) (hcontent : s.content k = some serialized)
    (hkept : s.FileKept k serialized failure) :
    Ahead k (s.saveWith (V := V) k (some serialized) (some failure)).1 s := by
  have hsaved := s.saveWith_cached (V := V) k serialized (some failure)
  rw [saveWith_fst] at hsaved ⊢
  refine ⟨rfl, rfl, (filesAfter_eq_iff s k serialized failure).mpr hkept, fun k' => ?_⟩
  by_cases hk : k' = k
  · subst hk
    exact Or.inr ⟨rfl, hnone, hsaved.trans hcontent.symm⟩
  · refine Or.inl ?_
    change (s.cache.insert k serialized)[k']? = _
    rw [ExtTreeMap.getElem?_insert, if_neg]
    exact fun heq => hk (StorageKey.cmp_eq_eq.mp heq).symm

/-- A save that brings nothing new leaves the storage as it was. -/
theorem saveWith_eq_self (hcached : s.cache[k]? = some serialized)
    (hkept : s.FileKept k serialized failure) :
    (s.saveWith (V := V) k (some serialized) (some failure)).1 = s := by
  have hcache : s.cache.insert k serialized = s.cache := by
    refine ExtTreeMap.ext_getElem? fun k' => ?_
    rw [ExtTreeMap.getElem?_insert]
    split_ifs with heq
    · rw [← StorageKey.cmp_eq_eq.mp heq, hcached]
    · rfl
  rw [saveWith_fst, hcache, (filesAfter_eq_iff s k serialized failure).mpr hkept]

end Compare

theorem AnswersLike.refl (s : FileSystemStorage) : AnswersLike s s :=
  fun _ => ⟨fun _ _ _ => rfl, fun _ _ _ => rfl⟩

theorem answersLike_saveWith_iff (s : FileSystemStorage) (k : StorageKey) (item : Option Bytes)
    (failure : SaveFailure) :
    AnswersLike (s.saveWith (V := V) k item (some failure)).1 s ↔
      ∀ serialized, item = some serialized →
        s.Settled k serialized ∧ s.FileKept k serialized failure := by
  cases item with
  | none =>
      refine iff_of_true (AnswersLike.refl s) ?_
      intro serialized h
      cases h
  | some serialized =>
      simp only [Option.some.injEq, forall_eq']
      constructor
      · exact fun h => ⟨settled_of_answersLike h, fileKept_of_answersLike h⟩
      · rintro ⟨hcached | ⟨hnone, hcontent, hunshared⟩, hkept⟩
        · rw [saveWith_eq_self hcached hkept]
          exact AnswersLike.refl s
        · exact (ahead_saveWith hnone hcontent hkept).answersLike hunshared

/-- A failed save goes unnoticed exactly when it failed to serialize the item, or when the storage
answers with the very bytes anyway, settled in its cache or in a file of its own, and the file is
left as it was. On an opened storage no file is of one key only, so the bytes have to be cached. -/
theorem failed_save_unnoticed_iff (s : FileSystemStorage) (k : StorageKey) (item : Option Bytes)
    (failure : SaveFailure) :
    (AnswersLike (s.saveWith (V := V) k item (some failure)).1 s ↔
      ∀ serialized, item = some serialized →
        s.Settled k serialized ∧ s.FileKept k serialized failure) ∧
    (s.Opened → ∀ serialized, s.Settled k serialized ↔ s.cache[k]? = some serialized) :=
  ⟨answersLike_saveWith_iff s k item failure, fun hopened => settled_iff_cached hopened k⟩

/-- An order is saved, and saved again as it is without success. -/
theorem failed_save_unnoticed_again :
    let k : StorageKey := ⟨.order, "x"⟩
    let s := (FileSystemStorage.save (V := Bytes) ⟨["data"], Storages.dataDirs, ∅, ∅⟩ k
      (some [1])).1
    AnswersLike (s.saveWith (V := Bytes) k (some [1]) (some .opening)).1 s ∧
      s.cache[k]? = some [1] := by
  intro k s
  have hboth := failed_save_unnoticed_iff (V := Bytes) s k (some [1]) .opening
  have hopened : s.Opened := by
    intro t
    cases t <;> decide +kernel
  have hcached : s.cache[k]? = some [1] := by decide +kernel
  refine ⟨hboth.1.mpr fun serialized heq => ?_, hcached⟩
  obtain rfl := Option.some.inj heq
  exact ⟨(hboth.2 hopened [1]).mpr hcached, trivial⟩

/-- The file of a new item cannot be opened: the save fails, and a load finds the item. -/
theorem failed_save_noticed : ¬ ∀ (s : FileSystemStorage) (k : StorageKey) (item : Option Bytes)
    (failure : SaveFailure) (error : StorageError),
    (s.saveWith (V := Bytes) k item (some failure)).2 = .failed error →
      AnswersLike (s.saveWith (V := Bytes) k item (some failure)).1 s := by
  intro h
  let s : FileSystemStorage := ⟨["data"], fun _ => true, ∅, ∅⟩
  have hlike := h s ⟨.order, "x"⟩ (some [1]) .opening .io (by decide +kernel)
  have hload := (hlike []).1 Bytes ⟨.order, "x"⟩ some
  have hfailed : ((s.saveWith (V := Bytes) ⟨.order, "x"⟩ (some [1]) (some .opening)).1.load
      ⟨.order, "x"⟩ some).2 = .loaded [1] := by decide +kernel
  have hbefore : (s.load ⟨.order, "x"⟩ some).2 = .failed (StorageKey.notFound ⟨.order, "x"⟩) := by
    decide +kernel
  rw [run_nil, run_nil, hfailed, hbefore] at hload
  cases hload

end FileSystemStorage

end ActixPura
