import ActixPura.ByteCodec
import ActixPura.Runs

/-!
# Storage providers

`persistence/storage.rs`. The file system storage writes each item to a file of its own, whose path
is made of the type and the id, and keeps the bytes in a cache; the storage in memory keeps them in
a map. Items are the bytes they are serialized to, or nothing when this fails, and an operation that
reads items has its own way to deserialize them.

A path is walked from one directory to the next: a component may be empty, the directory itself or
its parent, and a path with a leading slash starts at the root. The directories of the disk do not
change after the storage was opened.
-/

namespace ActixPura

open Runs
open Std (ExtTreeMap)

inductive StorageType
  | order
  | account
  | trade
  deriving DecidableEq

def StorageType.asStr : StorageType → String
  | .order => "orders"
  | .account => "accounts"
  | .trade => "trades"

theorem StorageType.asStr_injective : Function.Injective StorageType.asStr := by
  intro t t' h
  cases t <;> cases t' <;> first | rfl | exact absurd h (by decide)

inductive StorageError
  | io
  | serialization
  | notFound (message : String)
  deriving DecidableEq

structure StorageKey where
  storageType : StorageType
  id : String
  deriving DecidableEq

namespace StorageKey

def cmp : StorageKey → StorageKey → Ordering :=
  compareLex (compareOn fun k => k.storageType.asStr) (compareOn StorageKey.id)

instance transCmp : Std.TransCmp cmp := inferInstanceAs (Std.TransCmp (compareLex _ _))

theorem cmp_eq_eq {k k' : StorageKey} : cmp k k' = .eq ↔ k = k' := by
  obtain ⟨t, id⟩ := k
  obtain ⟨t', id'⟩ := k'
  simp [cmp, compareLex_eq_eq, compareOn, StorageType.asStr_injective.eq_iff]

instance lawfulEqCmp : Std.LawfulEqCmp cmp where
  eq_of_compare := cmp_eq_eq.mp

def notFound (k : StorageKey) : StorageError :=
  .notFound s!"{k.storageType.asStr} with id {k.id} not found"

end StorageKey

inductive StorageResult (V : Type*)
  | done
  | loaded (item : V)
  | listed (items : List V)
  | failed (error : StorageError)
  deriving DecidableEq

inductive StorageAction (V : Type*)
  | save (key : StorageKey) (item : Option Bytes)
  | load (key : StorageKey) (deserialize : Bytes → Option V)
  | delete (key : StorageKey)
  | list (storageType : StorageType) (deserialize : Bytes → Option V)
  | reopen

abbrev StorageMap := ExtTreeMap StorageKey Bytes StorageKey.cmp

variable {V : Type*}

def deserialized (deserialize : Bytes → Option V) (bytes : Bytes) : StorageResult V :=
  match deserialize bytes with
  | some item => .loaded item
  | none => .failed .serialization

/-- All items, or an error if one of them cannot be read. -/
def deserializedAll (deserialize : Bytes → Option V) (items : List Bytes) : StorageResult V :=
  if items.all fun bytes => (deserialize bytes).isSome then .listed (items.filterMap deserialize)
  else .failed .serialization

/-! ## In memory -/

structure InMemoryStorage where
  data : StorageMap

namespace InMemoryStorage

def new : InMemoryStorage := ⟨∅⟩

variable (s : InMemoryStorage)

def save (k : StorageKey) (item : Option Bytes) : InMemoryStorage × StorageResult V :=
  match item with
  | none => (s, .failed .serialization)
  | some serialized => (⟨s.data.insert k serialized⟩, .done)

def load (k : StorageKey) (deserialize : Bytes → Option V) : StorageResult V :=
  match s.data[k]? with
  | some bytes => deserialized deserialize bytes
  | none => .failed k.notFound

def delete (k : StorageKey) : InMemoryStorage := ⟨s.data.erase k⟩

def stored (t : StorageType) : List (StorageKey × Bytes) :=
  s.data.toList.filter fun e => e.1.storageType = t

def list (t : StorageType) (deserialize : Bytes → Option V) : StorageResult V :=
  deserializedAll deserialize ((s.stored t).map Prod.snd)

def exec : StorageAction V → InMemoryStorage × StorageResult V
  | .save k item => s.save k item
  | .load k deserialize => (s, s.load k deserialize)
  | .delete k => (s.delete k, .done)
  | .list t deserialize => (s, s.list t deserialize)
  | .reopen => (s, .done)

end InMemoryStorage

/-! ## In files -/

/-- A place on the disk, by the names from the root. -/
abbrev Location := List String

def enter (place : Location) (component : String) : Location :=
  if component = "" ∨ component = "." then place
  else if component = ".." then place.dropLast
  else place ++ [component]

/-- Every component but the last leads to a directory. -/
def walk (isDir : Location → Bool) : Location → List String → Option Location
  | place, [] => some place
  | place, [name] => some (enter place name)
  | place, component :: rest =>
    let next := enter place component
    if isDir next then walk isDir next rest else none

def components (path : String) : List String :=
  (path.toList.splitOn '/').map String.ofList

/-- The part of a name after its last dot is `bin`, and there is something before the dot. -/
def hasBinExtension (name : String) : Bool :=
  ".bin".toList.isSuffixOf name.toList && name != ".bin"

structure FileSystemStorage where
  baseDir : Location
  isDir : Location → Bool
  files : ExtTreeMap Location Bytes compare
  cache : StorageMap

namespace FileSystemStorage

variable (s : FileSystemStorage)

def typeDir (t : StorageType) : Location := s.baseDir ++ [t.asStr]

/-- The file that the path of an item leads to. -/
def getFilePath (k : StorageKey) : Option Location :=
  let name := k.id ++ ".bin"
  walk s.isDir (if name.toList.head? = some '/' then [] else s.typeDir k.storageType)
    (components name)

def content (k : StorageKey) : Option Bytes := (s.getFilePath k).bind fun place => s.files[place]?

def save (k : StorageKey) (item : Option Bytes) : FileSystemStorage × StorageResult V :=
  match item, s.getFilePath k with
  | some serialized, some place =>
    ({ s with cache := s.cache.insert k serialized, files := s.files.insert place serialized },
      .done)
  | some serialized, none => ({ s with cache := s.cache.insert k serialized }, .failed .io)
  | none, _ => (s, .failed .serialization)

def load (k : StorageKey) (deserialize : Bytes → Option V) : FileSystemStorage × StorageResult V :=
  match s.cache[k]? with
  | some bytes => (s, deserialized deserialize bytes)
  | none =>
    match s.content k with
    | none => (s, .failed k.notFound)
    | some bytes => ({ s with cache := s.cache.insert k bytes }, deserialized deserialize bytes)

def delete (k : StorageKey) : FileSystemStorage :=
  { s with
    cache := s.cache.erase k
    files := match s.getFilePath k with
      | some place => s.files.erase place
      | none => s.files }

/-- The files of a directory with the extension. -/
def stored (t : StorageType) : List (Location × Bytes) :=
  s.files.toList.filter fun e =>
    e.1.dropLast = s.typeDir t && e.1.getLast?.any hasBinExtension

def list (t : StorageType) (deserialize : Bytes → Option V) : StorageResult V :=
  deserializedAll deserialize ((s.stored t).map Prod.snd)

def reopen : FileSystemStorage := { s with cache := ∅ }

def exec : StorageAction V → FileSystemStorage × StorageResult V
  | .save k item => s.save k item
  | .load k deserialize => s.load k deserialize
  | .delete k => (s.delete k, .done)
  | .list t deserialize => (s, s.list t deserialize)
  | .reopen => (s.reopen, .done)

end FileSystemStorage

/-! ## Side by side -/

structure Storages where
  file : FileSystemStorage
  memory : InMemoryStorage

namespace Storages

/-- Both are empty, and the directories of the disk are given. -/
def start (baseDir : Location) (isDir : Location → Bool) : Storages :=
  ⟨⟨baseDir, isDir, ∅, ∅⟩, .new⟩

variable (s : Storages)

def step (s : Storages) (a : StorageAction V) : Storages := ⟨(s.file.exec a).1, (s.memory.exec a).1⟩

/-- The path of an item leads to a file, where the operation is going to open one. -/
def Opens (k : StorageKey) : Prop :=
  ∀ place, s.file.getFilePath k = some place → s.file.isDir place = false

/-- The operations on files succeed. -/
def Enabled (s : Storages) : StorageAction V → Prop
  | .save k item => item ≠ none → s.file.getFilePath k ≠ none ∧ s.Opens k
  | .load k _ | .delete k => s.Opens k
  | .list _ _ | .reopen => True

/-- Equal, up to the order of a list. -/
def Same : StorageResult V → StorageResult V → Prop
  | .listed items, .listed items' => items.Perm items'
  | r, r' => r = r'

def Agree (s : Storages) (a : StorageAction V) : Prop := Same (s.file.exec a).2 (s.memory.exec a).2

/-- The file of the item is not the file of another stored item. -/
def Separate (k : StorageKey) : Prop :=
  ∀ k' ∈ s.memory.data, s.file.getFilePath k ≠ none →
    s.file.getFilePath k' = s.file.getFilePath k → k' = k

/-- The file of the item is listed with its type. -/
def Listed (k : StorageKey) : Prop :=
  ∀ place, s.file.getFilePath k = some place →
    place.dropLast = s.file.typeDir k.storageType ∧ place.getLast?.any hasBinExtension = true

/-- Items have files of their own, and are saved where they are listed. -/
def Apart (s : Storages) : StorageAction V → Prop
  | .save k item => item ≠ none → s.Separate k ∧ s.Listed k
  | .load k _ | .delete k => s.Separate k
  | .list _ _ | .reopen => True

/-! ## Agreement -/

variable {s}

/-- What is stored in memory is what the files hold, each in a place of its own, and the cache knows
nothing else. -/
structure Coherent (s : Storages) : Prop where
  stored : ∀ k b, s.memory.data[k]? = some b →
    (∃ place, s.file.getFilePath k = some place ∧ s.file.files[place]? = some b) ∧ s.Listed k
  owned : ∀ (place : Location) b, s.file.files[place]? = some b →
    ∃ k, s.memory.data[k]? = some b ∧ s.file.getFilePath k = some place
  apart : ∀ k k', k ∈ s.memory.data → k' ∈ s.memory.data →
    s.file.getFilePath k = s.file.getFilePath k' → k = k'
  cached : ∀ (k : StorageKey) b, s.file.cache[k]? = some b → s.memory.data[k]? = some b

theorem coherent_start (baseDir : Location) (isDir : Location → Bool) :
    (start baseDir isDir).Coherent where
  stored := fun k b h => by simp [start, InMemoryStorage.new] at h
  owned := fun place b h => by simp [start] at h
  apart := fun k k' h => by simp [start, InMemoryStorage.new] at h
  cached := fun k b h => by simp [start] at h

theorem mem_of_getElem? {m : StorageMap} {k : StorageKey} {b : Bytes} (h : m[k]? = some b) :
    k ∈ m := by
  rw [ExtTreeMap.mem_iff_isSome_getElem?, h]
  rfl

/-- The file of an item holds what is stored under its key. -/
theorem Coherent.content (h : s.Coherent) {k : StorageKey} (hseparate : s.Separate k) :
    s.file.content k = s.memory.data[k]? := by
  unfold FileSystemStorage.content
  cases hplace : s.file.getFilePath k with
  | none =>
      cases hdata : s.memory.data[k]? with
      | none => rfl
      | some b =>
          obtain ⟨place, hsome, -⟩ := (h.stored k b hdata).1
          exact absurd (hplace.symm.trans hsome) (by simp)
  | some place =>
      rw [Option.bind_some]
      cases hdata : s.memory.data[k]? with
      | some b =>
          obtain ⟨place', hsome, hfile⟩ := (h.stored k b hdata).1
          obtain rfl := Option.some.inj (hplace.symm.trans hsome)
          exact hfile
      | none =>
          cases hfile : s.file.files[place]? with
          | none => rfl
          | some b =>
              obtain ⟨k', hstored, hplace'⟩ := h.owned place b hfile
              have hsame := hseparate k' (mem_of_getElem? hstored) (by rw [hplace]; simp)
                (hplace'.trans hplace.symm)
              rw [hsame, hdata] at hstored
              exact absurd hstored (by simp)

/-- Storing something under a key changes the file of this key only. -/
theorem Coherent.save (h : s.Coherent) {k : StorageKey} {place : Location} (b : Bytes)
    (hplace : s.file.getFilePath k = some place) (hseparate : s.Separate k) (hlisted : s.Listed k) :
    (⟨{ s.file with cache := s.file.cache.insert k b, files := s.file.files.insert place b },
      ⟨s.memory.data.insert k b⟩⟩ : Storages).Coherent := by
  have hother {k' : StorageKey} (hk : k' ≠ k) (hin : k' ∈ s.memory.data) :
      s.file.getFilePath k' ≠ some place := by
    intro heq
    exact hk (hseparate k' hin (by rw [hplace]; simp) (heq.trans hplace.symm))
  constructor
  · intro k' b' hk'
    rw [ExtTreeMap.getElem?_insert] at hk'
    split_ifs at hk' with heq
    · obtain rfl := StorageKey.cmp_eq_eq.mp heq
      obtain rfl := Option.some.inj hk'
      exact ⟨⟨place, hplace, ExtTreeMap.getElem?_insert_self⟩, hlisted⟩
    · have hne : k' ≠ k := fun hkk => heq (StorageKey.cmp_eq_eq.mpr hkk.symm)
      obtain ⟨⟨place', hplace', hfile⟩, hlisted'⟩ := h.stored k' b' hk'
      refine ⟨⟨place', hplace', ?_⟩, hlisted'⟩
      have hdiff : place ≠ place' := by
        rintro rfl
        exact hother hne (mem_of_getElem? hk') hplace'
      change (s.file.files.insert place b)[place']? = some b'
      rw [ExtTreeMap.getElem?_insert, if_neg (fun hcmp => hdiff (Std.compare_eq_iff_eq.mp hcmp))]
      exact hfile
  · intro place' b' hfile
    change (s.file.files.insert place b)[place']? = some b' at hfile
    rw [ExtTreeMap.getElem?_insert] at hfile
    split_ifs at hfile with heq
    · obtain rfl := Std.compare_eq_iff_eq.mp heq
      obtain rfl := Option.some.inj hfile
      exact ⟨k, ExtTreeMap.getElem?_insert_self, hplace⟩
    · obtain ⟨k', hstored, hplace'⟩ := h.owned place' b' hfile
      refine ⟨k', ?_, hplace'⟩
      have hne : k ≠ k' := by
        rintro rfl
        exact heq (Std.compare_eq_iff_eq.mpr (Option.some.inj (hplace.symm.trans hplace')))
      rw [ExtTreeMap.getElem?_insert, if_neg (fun hcmp => hne (StorageKey.cmp_eq_eq.mp hcmp))]
      exact hstored
  · intro k₁ k₂ h₁ h₂ heq
    rw [ExtTreeMap.mem_insert, StorageKey.cmp_eq_eq] at h₁ h₂
    change s.file.getFilePath k₁ = s.file.getFilePath k₂ at heq
    rcases h₁ with rfl | h₁ <;> rcases h₂ with rfl | h₂
    · rfl
    · exact (hseparate k₂ h₂ (by rw [hplace]; simp) heq.symm).symm
    · exact hseparate k₁ h₁ (by rw [hplace]; simp) heq
    · exact h.apart k₁ k₂ h₁ h₂ heq
  · intro k' b' hcache
    change (s.file.cache.insert k b)[k']? = some b' at hcache
    rw [ExtTreeMap.getElem?_insert] at hcache ⊢
    split_ifs at hcache ⊢
    · exact hcache
    · exact h.cached k' b' hcache

/-- Deleting a key removes the file of this key only. -/
theorem Coherent.delete (h : s.Coherent) {k : StorageKey} (hseparate : s.Separate k) :
    (⟨s.file.delete k, s.memory.delete k⟩ : Storages).Coherent := by
  have hdata {k' : StorageKey} {b : Bytes} (hk' : (s.memory.data.erase k)[k']? = some b) :
      k ≠ k' ∧ s.memory.data[k']? = some b := by
    rw [ExtTreeMap.getElem?_erase] at hk'
    split_ifs at hk' with heq
    exact ⟨fun hkk => heq (StorageKey.cmp_eq_eq.mpr hkk), hk'⟩
  have hfiles (place : Location) : (s.file.delete k).files[place]? =
      if s.file.getFilePath k = some place then none else s.file.files[place]? := by
    unfold FileSystemStorage.delete
    cases hplace : s.file.getFilePath k with
    | none => simp
    | some place' =>
        change (s.file.files.erase place')[place]? = _
        rw [ExtTreeMap.getElem?_erase]
        simp
  constructor
  · intro k' b hk'
    obtain ⟨hne, hstored⟩ := hdata hk'
    obtain ⟨⟨place, hplace, hfile⟩, hlisted⟩ := h.stored k' b hstored
    refine ⟨⟨place, hplace, ?_⟩, hlisted⟩
    rw [hfiles, if_neg]
    · exact hfile
    · intro heq
      exact hne (hseparate k' (mem_of_getElem? hstored) (by rw [heq]; simp)
        (hplace.trans heq.symm)).symm
  · intro place b hfile
    rw [hfiles] at hfile
    split_ifs at hfile with heq
    obtain ⟨k', hstored, hplace⟩ := h.owned place b hfile
    refine ⟨k', ?_, hplace⟩
    change (s.memory.data.erase k)[k']? = some b
    rw [ExtTreeMap.getElem?_erase, if_neg]
    · exact hstored
    · intro hcmp
      obtain rfl := StorageKey.cmp_eq_eq.mp hcmp
      exact heq hplace
  · intro k₁ k₂ h₁ h₂ heq
    exact h.apart k₁ k₂ (ExtTreeMap.mem_of_mem_erase h₁) (ExtTreeMap.mem_of_mem_erase h₂) heq
  · intro k' b hcache
    change (s.file.cache.erase k)[k']? = some b at hcache
    change (s.memory.data.erase k)[k']? = some b
    rw [ExtTreeMap.getElem?_erase] at hcache ⊢
    split_ifs at hcache ⊢
    exact h.cached k' b hcache

theorem nodup_toList {K E : Type*} {cmp : K → K → Ordering} [Std.TransCmp cmp]
    [Std.LawfulEqCmp cmp] (m : ExtTreeMap K E cmp) : m.toList.Nodup := by
  refine List.Nodup.of_map Prod.fst ?_
  rw [ExtTreeMap.map_fst_toList_eq_keys]
  exact m.nodup_keys

theorem typeDir_injective (s : FileSystemStorage) : Function.Injective s.typeDir := by
  intro t t' h
  refine StorageType.asStr_injective ?_
  simpa [FileSystemStorage.typeDir] using h

/-- The files of a type are those of the stored items of the type. -/
theorem Coherent.stored_perm (h : s.Coherent) (t : StorageType) :
    ((s.file.stored t).map Prod.snd).Perm ((s.memory.stored t).map Prod.snd) := by
  have hfiles : ((s.file.stored t).map fun e => (some e.1, e.2)).Nodup := by
    refine ((nodup_toList _).filter _).map fun e e' heq => ?_
    simpa [Prod.ext_iff] using heq
  have hmemory : ((s.memory.stored t).map fun e => (s.file.getFilePath e.1, e.2)).Nodup := by
    refine List.Nodup.map_on (fun e he e' he' heq => ?_) ((nodup_toList _).filter _)
    obtain ⟨hplace, hbytes⟩ := Prod.mk.inj heq
    have hin := mem_of_getElem? (ExtTreeMap.mem_toList_iff_getElem?_eq_some.mp
      (List.mem_of_mem_filter he))
    have hin' := mem_of_getElem? (ExtTreeMap.mem_toList_iff_getElem?_eq_some.mp
      (List.mem_of_mem_filter he'))
    exact Prod.ext (h.apart _ _ hin hin' hplace) hbytes
  have hperm : ((s.file.stored t).map fun e => (some e.1, e.2)).Perm
      ((s.memory.stored t).map fun e => (s.file.getFilePath e.1, e.2)) := by
    refine (List.perm_ext_iff_of_nodup hfiles hmemory).mpr fun e => ?_
    simp only [List.mem_map, FileSystemStorage.stored, InMemoryStorage.stored, List.mem_filter]
    constructor
    · rintro ⟨⟨place, b⟩, ⟨hmem, hdir⟩, rfl⟩
      obtain ⟨k, hstored, hplace⟩ :=
        h.owned place b (ExtTreeMap.mem_toList_iff_getElem?_eq_some.mp hmem)
      have hdirs : place.dropLast = s.file.typeDir t := by
        simp only [Bool.and_eq_true, decide_eq_true_eq] at hdir
        exact hdir.1
      have htype : k.storageType = t := typeDir_injective s.file
        (((h.stored k b hstored).2 place hplace).1.symm.trans hdirs)
      exact ⟨(k, b), ⟨ExtTreeMap.mem_toList_iff_getElem?_eq_some.mpr hstored, by simp [htype]⟩,
        by simp [hplace]⟩
    · rintro ⟨⟨k, b⟩, ⟨hmem, htype⟩, rfl⟩
      have hstored := ExtTreeMap.mem_toList_iff_getElem?_eq_some.mp hmem
      obtain ⟨⟨place, hplace, hfile⟩, hlisted⟩ := h.stored k b hstored
      obtain ⟨hdir, hextension⟩ := hlisted place hplace
      obtain rfl : k.storageType = t := by simpa using htype
      exact ⟨(place, b), ⟨ExtTreeMap.mem_toList_iff_getElem?_eq_some.mpr hfile,
        by simp [hdir, hextension]⟩, by simp [hplace]⟩
  simpa [List.map_map, Function.comp_def] using hperm.map Prod.snd

theorem same_deserializedAll (deserialize : Bytes → Option V) {items items' : List Bytes}
    (h : items.Perm items') :
    Same (deserializedAll deserialize items) (deserializedAll deserialize items') := by
  have hall : (items.all fun b => (deserialize b).isSome) =
      items'.all fun b => (deserialize b).isSome := by
    rw [Bool.eq_iff_iff, List.all_eq_true, List.all_eq_true]
    exact ⟨fun hitems b hb => hitems b (h.mem_iff.mpr hb),
      fun hitems b hb => hitems b (h.mem_iff.mp hb)⟩
  unfold deserializedAll
  rw [hall]
  split_ifs
  · exact h.filterMap deserialize
  · rfl

theorem same_refl (r : StorageResult V) : Same r r := by
  cases r with
  | listed items => exact List.Perm.refl items
  | _ => rfl

/-- One operation: the results agree, and the storages stay coherent. -/
theorem Coherent.exec (h : s.Coherent) {a : StorageAction V} (henabled : s.Enabled a)
    (hapart : s.Apart a) : s.Agree a ∧ (s.step a).Coherent := by
  cases a with
  | save k item =>
      cases item with
      | none => exact ⟨rfl, h⟩
      | some b =>
          obtain ⟨place, hplace⟩ := Option.ne_none_iff_exists'.mp (henabled (by simp)).1
          obtain ⟨hseparate, hlisted⟩ := hapart (by simp)
          simp only [Agree, step, FileSystemStorage.exec, InMemoryStorage.exec,
            FileSystemStorage.save, InMemoryStorage.save, hplace]
          exact ⟨rfl, h.save b hplace hseparate hlisted⟩
  | load k deserialize =>
      have hcontent := h.content hapart
      simp only [Agree, step, FileSystemStorage.exec, InMemoryStorage.exec,
        FileSystemStorage.load, InMemoryStorage.load]
      cases hcache : s.file.cache[k]? with
      | some b =>
          rw [h.cached k b hcache]
          exact ⟨same_refl _, h⟩
      | none =>
          rw [hcontent]
          cases hdata : s.memory.data[k]? with
          | none => exact ⟨rfl, h⟩
          | some b =>
              refine ⟨same_refl _, ⟨h.stored, h.owned, h.apart, fun k' b' hcache' => ?_⟩⟩
              change (s.file.cache.insert k b)[k']? = some b' at hcache'
              rw [ExtTreeMap.getElem?_insert] at hcache'
              split_ifs at hcache' with heq
              · obtain rfl := StorageKey.cmp_eq_eq.mp heq
                rw [← hcache']
                exact hdata
              · exact h.cached k' b' hcache'
  | delete k => exact ⟨rfl, h.delete hapart⟩
  | list t deserialize => exact ⟨same_deserializedAll deserialize (h.stored_perm t), h⟩
  | reopen =>
      refine ⟨rfl, h.stored, h.owned, h.apart, fun k b hcache => ?_⟩
      change (∅ : StorageMap)[k]? = some b at hcache
      simp at hcache

/-- As long as items have files of their own and are saved where they are listed, the file system
storage returns what the storage in memory returns. -/
theorem storages_agree (baseDir : Location) (isDir : Location → Bool) (as : List (StorageAction V))
    (has : Admissible step Enabled (start baseDir isDir) as)
    (hapart : Admissible step Apart (start baseDir isDir) as) :
    Admissible step Agree (start baseDir isDir) as := by
  refine admissible_iff_forall.mpr fun before a after heq => ?_
  subst heq
  obtain ⟨hbefore, henabled, -⟩ := admissible_append.mp has
  obtain ⟨hbefore', hnext, -⟩ := admissible_append.mp hapart
  have hcoherent : (run step (start baseDir isDir) before).Coherent :=
    invariant_run (I := Coherent) (fun _ _ h hok => (h.exec hok.1 hok.2).2)
      (coherent_start baseDir isDir) (admissible_and.mpr ⟨hbefore, hbefore'⟩)
  exact (hcoherent.exec henabled hnext).1

/-! ## Plain ids -/

/-- A name without a slash that is longer than the two dots is a place in the directory. -/
theorem walk_plain (isDir : Location → Bool) (place : Location) {name : String}
    (h : '/' ∉ name.toList) (hlong : 2 < name.toList.length) :
    walk isDir place (components name) = some (place ++ [name]) := by
  have hcomponents : components name = [name] := by
    unfold components
    rw [List.splitOn_eq_splitOnP, List.splitOnP_eq_singleton]
    · simp
    · intro c hc
      simp only [beq_eq_false_iff_ne]
      rintro rfl
      exact h hc
  have hname {short : String} (hshort : short.toList.length ≤ 2) : name ≠ short := by
    rintro rfl
    omega
  rw [hcomponents, walk, enter, if_neg, if_neg]
  · exact hname (by decide)
  · rintro (heq | heq)
    · exact hname (by decide) heq
    · exact hname (by decide) heq

/-- An id without a slash is a name in the directory of its type. -/
theorem getFilePath_plain (file : FileSystemStorage) {k : StorageKey} (h : '/' ∉ k.id.toList) :
    file.getFilePath k = some (file.typeDir k.storageType ++ [k.id ++ ".bin"]) := by
  have hchars : (k.id ++ ".bin").toList = k.id.toList ++ ['.', 'b', 'i', 'n'] :=
    String.toList_append
  have hplain : '/' ∉ (k.id ++ ".bin").toList := by
    rw [hchars]
    simp [h]
  have hhead : (k.id ++ ".bin").toList.head? ≠ some '/' :=
    fun heq => hplain (List.mem_of_head? heq)
  unfold FileSystemStorage.getFilePath
  simp only
  rw [if_neg hhead]
  exact walk_plain file.isDir (file.typeDir k.storageType) hplain (by rw [hchars]; simp)

/-- The ids have no slash, and something is saved under a nonempty id only. -/
def Plain : StorageAction V → Prop
  | .save k _ => '/' ∉ k.id.toList ∧ k.id ≠ ""
  | .load k _ | .delete k => '/' ∉ k.id.toList
  | .list _ _ | .reopen => True

theorem separate_of_plain (hkeys : ∀ k ∈ s.memory.data, '/' ∉ k.id.toList) {k : StorageKey}
    (hk : '/' ∉ k.id.toList) : s.Separate k := by
  intro k' hk' _ heq
  rw [getFilePath_plain s.file hk, getFilePath_plain s.file (hkeys k' hk')] at heq
  obtain ⟨hdir, hname⟩ := List.append_inj' (Option.some.inj heq) rfl
  have htype := typeDir_injective s.file hdir
  have hid : k'.id = k.id := by
    have hchars := congrArg String.toList (List.singleton_inj.mp hname)
    exact String.toList_injective (by simpa using hchars)
  obtain ⟨t, id⟩ := k
  obtain ⟨t', id'⟩ := k'
  simp only at htype hid
  rw [htype, hid]

theorem apart_of_plain (hkeys : ∀ k ∈ s.memory.data, '/' ∉ k.id.toList) {a : StorageAction V}
    (ha : Plain a) : s.Apart a ∧ ∀ k ∈ (s.step a).memory.data, '/' ∉ k.id.toList := by
  cases a with
  | save k item =>
      refine ⟨fun _ => ⟨separate_of_plain hkeys ha.1, fun place hplace => ?_⟩, ?_⟩
      · rw [getFilePath_plain s.file ha.1] at hplace
        obtain rfl := Option.some.inj hplace
        refine ⟨by simp, ?_⟩
        have hne : k.id ++ ".bin" ≠ ".bin" := by
          intro heq
          have hchars := congrArg String.toList heq
          exact ha.2 (by simpa using hchars)
        simp [hasBinExtension, hne]
      · cases item with
        | none => exact hkeys
        | some b =>
            intro k' hk'
            change k' ∈ s.memory.data.insert k b at hk'
            rw [ExtTreeMap.mem_insert, StorageKey.cmp_eq_eq] at hk'
            rcases hk' with rfl | hk'
            · exact ha.1
            · exact hkeys k' hk'
  | load k deserialize => exact ⟨separate_of_plain hkeys ha, hkeys⟩
  | delete k =>
      exact ⟨separate_of_plain hkeys ha, fun k' hk' => hkeys k' (ExtTreeMap.mem_of_mem_erase hk')⟩
  | list t deserialize => exact ⟨trivial, hkeys⟩
  | reopen => exact ⟨trivial, hkeys⟩

/-- Runs over plain ids keep items apart. -/
theorem admissible_apart_of_plain {as : List (StorageAction V)} (h : ∀ a ∈ as, Plain a)
    (hkeys : ∀ k ∈ s.memory.data, '/' ∉ k.id.toList) : Admissible step Apart s as := by
  induction as generalizing s with
  | nil => trivial
  | cons a as ih =>
      obtain ⟨hapart, hnext⟩ := apart_of_plain hkeys (h a List.mem_cons_self)
      exact ⟨hapart, ih (fun b hb => h b (List.mem_cons_of_mem _ hb)) hnext⟩

/-- The directories of a storage under `/data`. -/
def dataDirs (place : Location) : Bool :=
  place ∈ [[], ["data"], ["data", "orders"], ["data", "accounts"], ["data", "trades"]]

theorem opens_of_eq {k : StorageKey} (place : Location) (h : s.file.getFilePath k = some place)
    (hfile : s.file.isDir place = false) : s.Opens k := by
  intro place' hplace'
  rw [← Option.some.inj (h.symm.trans hplace')]
  exact hfile

theorem storages_agree_reopened :
    Admissible step Agree (start ["data"] dataDirs)
      [.save ⟨.account, "x"⟩ (some [1]), .reopen, .load ⟨.account, "x"⟩ some,
        .list .account some] := by
  refine storages_agree ["data"] dataDirs _ ?_ (admissible_apart_of_plain ?_ ?_)
  · exact ⟨fun _ => ⟨by decide +kernel, opens_of_eq ["data", "accounts", "x.bin"]
      (by decide +kernel) (by decide +kernel)⟩, trivial,
      opens_of_eq ["data", "accounts", "x.bin"] (by decide +kernel) (by decide +kernel),
      trivial, trivial⟩
  · simp [Plain]
  · simp [start, InMemoryStorage.new]

/-- An order whose id leads to the file of an account. -/
theorem not_storages_agree :
    ¬ ∀ (baseDir : Location) (isDir : Location → Bool) (as : List (StorageAction Bytes)),
      Admissible step Enabled (start baseDir isDir) as →
      Admissible step Agree (start baseDir isDir) as := by
  intro h
  obtain ⟨-, -, -, hload, -⟩ := h ["data"] dataDirs
    [.save ⟨.account, "x"⟩ (some [1]), .save ⟨.order, "../accounts/x"⟩ (some [2]), .reopen,
      .load ⟨.account, "x"⟩ some]
    ⟨fun _ => ⟨by decide +kernel, opens_of_eq ["data", "accounts", "x.bin"]
        (by decide +kernel) (by decide +kernel)⟩,
      fun _ => ⟨by decide +kernel, opens_of_eq ["data", "accounts", "x.bin"]
        (by decide +kernel) (by decide +kernel)⟩, trivial,
      opens_of_eq ["data", "accounts", "x.bin"] (by decide +kernel) (by decide +kernel),
      trivial⟩
  let s : Storages := run step (start ["data"] dataDirs)
    [.save ⟨.account, "x"⟩ (some [1]), .save ⟨.order, "../accounts/x"⟩ (some [2]),
      (.reopen : StorageAction Bytes)]
  have hfile : (s.file.exec (.load ⟨.account, "x"⟩ some)).2 = .loaded [2] := by decide +kernel
  have hmemory : (s.memory.exec (.load ⟨.account, "x"⟩ some)).2 = .loaded [1] := by decide +kernel
  change Same (s.file.exec _).2 (s.memory.exec _).2 at hload
  rw [hfile, hmemory] at hload
  exact absurd hload (by simp [Same])

end Storages

end ActixPura
