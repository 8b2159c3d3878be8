import ActixPura.OrderModel
import ActixPura.Storage

/-!
# Snapshot providers

`persistence/snapshot.rs`. A provider keeps snapshots by their ids and, separately, the list of
their metadata with the newest first. The one on the file system has a file for each snapshot, a
cache in front of the files and one file for the list; the one in memory has a map and a list. A
file is shown here as what it is read back as, and what is stored is what the map in memory holds:
the last snapshot saved under each id and not deleted since.

Saving adds an entry to the list whether or not the id has one, so the list is a catalogue of what
is stored exactly as long as no stored id is saved again.
-/

namespace ActixPura

open Runs
open Std (ExtTreeMap)

structure SnapshotMetadata where
  id : String
  createdAt : DateTime
  description : Option String
  version : String
  nodeId : String
  deriving DecidableEq

structure SystemSnapshot where
  metadata : SnapshotMetadata
  data : String
  deriving DecidableEq

inductive SnapshotError
  | io
  | notFound (message : String)
  | other (message : String)
  deriving DecidableEq

inductive SnapshotAction
  | save (snapshot : SystemSnapshot)
  | load (snapshotId : String)
  | latest
  | list
  | delete (snapshotId : String)

inductive SnapshotResult
  | done
  | loaded (snapshot : SystemSnapshot)
  | latest (snapshot : Option SystemSnapshot)
  | listed (metadata : List SnapshotMetadata)
  | failed (error : SnapshotError)
  deriving DecidableEq

def SnapshotResult.ofLoad : Except SnapshotError SystemSnapshot → SnapshotResult
  | .ok snapshot => .loaded snapshot
  | .error error => .failed error

def SnapshotResult.ofLatest : Except SnapshotError (Option SystemSnapshot) → SnapshotResult
  | .ok snapshot => .latest snapshot
  | .error error => .failed error

def snapshotNotFound (snapshotId : String) : SnapshotError :=
  .notFound s!"Snapshot {snapshotId} not found"

/-- `sort_by(|a, b| b.created_at.cmp(&a.created_at))`, which is stable. -/
def newestFirst (metadata : List SnapshotMetadata) : List SnapshotMetadata :=
  metadata.insertionSort fun a b => b.createdAt ≤ a.createdAt

/-! ## In memory -/

structure InMemorySnapshot where
  snapshots : ExtTreeMap String SystemSnapshot compare
  metadata : List SnapshotMetadata

namespace InMemorySnapshot

def new : InMemorySnapshot := ⟨∅, []⟩

variable (s : InMemorySnapshot)

def saveSnapshot (snapshot : SystemSnapshot) : InMemorySnapshot :=
  ⟨s.snapshots.insert snapshot.metadata.id snapshot,
    newestFirst (s.metadata ++ [snapshot.metadata])⟩

def loadSnapshot (snapshotId : String) : Except SnapshotError SystemSnapshot :=
  match s.snapshots[snapshotId]? with
  | some snapshot => .ok snapshot
  | none => .error (snapshotNotFound snapshotId)

def getLatestSnapshot : Except SnapshotError (Option SystemSnapshot) :=
  match s.metadata with
  | [] => .ok none
  | latest :: _ =>
    match s.snapshots[latest.id]? with
    | some snapshot => .ok (some snapshot)
    | none => .error (.other
        s!"Inconsistent state: metadata references snapshot {latest.id} which doesn't exist")

def deleteSnapshot (snapshotId : String) : InMemorySnapshot :=
  ⟨s.snapshots.erase snapshotId, s.metadata.filter fun m => m.id != snapshotId⟩

def exec : SnapshotAction → InMemorySnapshot × SnapshotResult
  | .save snapshot => (s.saveSnapshot snapshot, .done)
  | .load snapshotId => (s, .ofLoad (s.loadSnapshot snapshotId))
  | .latest => (s, .ofLatest s.getLatestSnapshot)
  | .list => (s, .listed s.metadata)
  | .delete snapshotId => (s.deleteSnapshot snapshotId, .done)

end InMemorySnapshot

/-! ## In files -/

/-- The name of the file with the list ends in `json`, so it is never that of a snapshot. -/
structure FileSystemSnapshot where
  snapshotDir : Location
  isDir : Location → Bool
  files : ExtTreeMap Location SystemSnapshot compare
  metadataFile : Option (List SnapshotMetadata)
  cache : ExtTreeMap String SystemSnapshot compare

namespace FileSystemSnapshot

def new (snapshotDir : Location) (isDir : Location → Bool) : FileSystemSnapshot :=
  ⟨snapshotDir, isDir, ∅, none, ∅⟩

variable (s : FileSystemSnapshot)

/-- The file that the path of a snapshot leads to. -/
def getSnapshotPath (snapshotId : String) : Option Location :=
  let name := snapshotId ++ ".snap"
  walk s.isDir (if name.toList.head? = some '/' then [] else s.snapshotDir) (components name)

def content (snapshotId : String) : Option SystemSnapshot :=
  (s.getSnapshotPath snapshotId).bind fun place => s.files[place]?

def loadMetadata : List SnapshotMetadata := s.metadataFile.getD []

def saveSnapshot (snapshot : SystemSnapshot) : FileSystemSnapshot × SnapshotResult :=
  match s.getSnapshotPath snapshot.metadata.id with
  | none => (s, .failed .io)
  | some place =>
    ({ s with
      files := s.files.insert place snapshot
      cache := s.cache.insert snapshot.metadata.id snapshot
      metadataFile := some (newestFirst (s.loadMetadata ++ [snapshot.metadata])) }, .done)

def loadSnapshot (snapshotId : String) : FileSystemSnapshot × Except SnapshotError SystemSnapshot :=
  match s.cache[snapshotId]? with
  | some snapshot => (s, .ok snapshot)
  | none =>
    match s.content snapshotId with
    | none => (s, .error (snapshotNotFound snapshotId))
    | some snapshot => ({ s with cache := s.cache.insert snapshotId snapshot }, .ok snapshot)

def getLatestSnapshot : FileSystemSnapshot × Except SnapshotError (Option SystemSnapshot) :=
  match s.loadMetadata with
  | [] => (s, .ok none)
  | latest :: _ => ((s.loadSnapshot latest.id).1, (s.loadSnapshot latest.id).2.map some)

def deleteSnapshot (snapshotId : String) : FileSystemSnapshot :=
  { s with
    cache := s.cache.erase snapshotId
    files := match s.getSnapshotPath snapshotId with
      | some place => s.files.erase place
      | none => s.files
    metadataFile := some (s.loadMetadata.filter fun m => m.id != snapshotId) }

def exec : SnapshotAction → FileSystemSnapshot × SnapshotResult
  | .save snapshot => s.saveSnapshot snapshot
  | .load snapshotId =>
    ((s.loadSnapshot snapshotId).1, .ofLoad (s.loadSnapshot snapshotId).2)
  | .latest => (s.getLatestSnapshot.1, .ofLatest s.getLatestSnapshot.2)
  | .list => (s, .listed s.loadMetadata)
  | .delete snapshotId => (s.deleteSnapshot snapshotId, .done)

end FileSystemSnapshot

/-! ## Side by side -/

structure Snapshots where
  file : FileSystemSnapshot
  memory : InMemorySnapshot

/-- What a listing and an answer for the latest snapshot have to be for the snapshots stored. -/
structure Catalogue (stored : ExtTreeMap String SystemSnapshot compare)
    (listing : List SnapshotMetadata) (latest : Except SnapshotError (Option SystemSnapshot)) :
    Prop where
  sorted : listing.Pairwise fun m m' => m'.createdAt ≤ m.createdAt
  nodup : (listing.map SnapshotMetadata.id).Nodup
  entries : ∀ m, m ∈ listing ↔
    ∃ snapshot : SystemSnapshot, stored[m.id]? = some snapshot ∧ snapshot.metadata = m
  latest : latest = .ok none ∧ stored = ∅ ∨
    ∃ (id : String) (snapshot : SystemSnapshot), latest = .ok (some snapshot) ∧
      stored[id]? = some snapshot ∧ ∀ (id' : String) (other : SystemSnapshot),
        stored[id']? = some other → other.metadata.createdAt ≤ snapshot.metadata.createdAt

namespace Snapshots

def start (snapshotDir : Location) (isDir : Location → Bool) : Snapshots :=
  ⟨.new snapshotDir isDir, .new⟩

def step (s : Snapshots) (a : SnapshotAction) : Snapshots :=
  ⟨(s.file.exec a).1, (s.memory.exec a).1⟩

/-- The file operations of the call succeed. -/
def Enabled (s : Snapshots) : SnapshotAction → Prop
  | .save snapshot => ∃ place, s.file.getSnapshotPath snapshot.metadata.id = some place ∧
    s.file.isDir place = false
  | .load snapshotId | .delete snapshotId =>
    ∀ place, s.file.getSnapshotPath snapshotId = some place → s.file.isDir place = false
  | .latest | .list => True

def Agree (s : Snapshots) (a : SnapshotAction) : Prop := (s.file.exec a).2 = (s.memory.exec a).2

/-- Both providers list what is stored and answer with the latest of it. -/
structure Catalogued (s : Snapshots) : Prop where
  file : Catalogue s.memory.snapshots s.file.loadMetadata s.file.getLatestSnapshot.2
  memory : Catalogue s.memory.snapshots s.memory.metadata s.memory.getLatestSnapshot

/-- A snapshot is saved under an id that is not stored, and a load of an id that is not stored finds
no file. -/
def Fresh (s : Snapshots) : SnapshotAction → Prop
  | .save snapshot => snapshot.metadata.id ∉ s.memory.snapshots
  | .load snapshotId => snapshotId ∈ s.memory.snapshots ∨ s.file.content snapshotId = none
  | .latest | .list | .delete _ => True

/-- The cache and the list of files follow the map and the list in memory, whose entries are those
of the map. -/
structure Coherent (s : Snapshots) : Prop where
  cache : ∀ id : String, s.file.cache[id]? = s.memory.snapshots[id]?
  listing : s.file.loadMetadata = s.memory.metadata
  sorted : s.memory.metadata.Pairwise fun m m' => m'.createdAt ≤ m.createdAt
  nodup : (s.memory.metadata.map SnapshotMetadata.id).Nodup
  entries : ∀ m, m ∈ s.memory.metadata ↔
    ∃ snapshot : SystemSnapshot, s.memory.snapshots[m.id]? = some snapshot ∧ snapshot.metadata = m
  own : ∀ (id : String) (snapshot : SystemSnapshot),
    s.memory.snapshots[id]? = some snapshot → snapshot.metadata.id = id

variable {s : Snapshots}

theorem coherent_start (snapshotDir : Location) (isDir : Location → Bool) :
    (start snapshotDir isDir).Coherent where
  cache id := by simp [start, FileSystemSnapshot.new, InMemorySnapshot.new]
  listing := rfl
  sorted := List.Pairwise.nil
  nodup := List.nodup_nil
  entries m := by simp [start, InMemorySnapshot.new]
  own id snapshot h := by simp [start, InMemorySnapshot.new] at h

theorem Coherent.loadSnapshot_of_mem (h : s.Coherent) {id : String} {snapshot : SystemSnapshot}
    (hstored : s.memory.snapshots[id]? = some snapshot) :
    s.file.loadSnapshot id = (s.file, .ok snapshot) := by
  simp only [FileSystemSnapshot.loadSnapshot, h.cache, hstored]

/-- The first entry of the list is that of a stored snapshot. -/
theorem Coherent.stored_head (h : s.Coherent) {latest : SnapshotMetadata}
    {rest : List SnapshotMetadata} (hlist : s.memory.metadata = latest :: rest) :
    ∃ snapshot : SystemSnapshot,
      s.memory.snapshots[latest.id]? = some snapshot ∧ snapshot.metadata = latest :=
  (h.entries latest).mp (hlist ▸ List.mem_cons_self)

theorem Coherent.latest_agrees (h : s.Coherent) :
    s.file.getLatestSnapshot = (s.file, s.memory.getLatestSnapshot) := by
  unfold FileSystemSnapshot.getLatestSnapshot InMemorySnapshot.getLatestSnapshot
  rw [h.listing]
  cases hlist : s.memory.metadata with
  | nil => rfl
  | cons latest rest =>
      obtain ⟨snapshot, hstored, -⟩ := h.stored_head hlist
      simp only [h.loadSnapshot_of_mem hstored, hstored]
      rfl

theorem Coherent.catalogue (h : s.Coherent) :
    Catalogue s.memory.snapshots s.memory.metadata s.memory.getLatestSnapshot where
  sorted := h.sorted
  nodup := h.nodup
  entries := h.entries
  latest := by
    have hentry : ∀ (id : String) (other : SystemSnapshot),
        s.memory.snapshots[id]? = some other → other.metadata ∈ s.memory.metadata := by
      intro id other hother
      exact (h.entries _).mpr ⟨other, by rwa [h.own id other hother], rfl⟩
    unfold InMemorySnapshot.getLatestSnapshot
    cases hlist : s.memory.metadata with
    | nil =>
        refine Or.inl ⟨rfl, ExtTreeMap.ext_getElem? fun id => ?_⟩
        cases hid : s.memory.snapshots[id]? with
        | none => simp
        | some other =>
            have hmem := hentry id other hid
            simp [hlist] at hmem
    | cons latest rest =>
        obtain ⟨snapshot, hstored, hmeta⟩ := h.stored_head hlist
        refine Or.inr ⟨latest.id, snapshot, by simp only [hstored], hstored, ?_⟩
        intro id other hother
        have hmem := hentry id other hother
        have hsorted := h.sorted
        rw [hlist] at hmem hsorted
        rw [hmeta]
        rcases List.mem_cons.mp hmem with hhead | hrest
        · rw [hhead]
        · exact (List.pairwise_cons.mp hsorted).1 _ hrest

theorem Coherent.catalogued (h : s.Coherent) : s.Catalogued := by
  refine ⟨?_, h.catalogue⟩
  rw [h.listing, h.latest_agrees]
  exact h.catalogue

theorem mem_newestFirst {metadata : List SnapshotMetadata} {m : SnapshotMetadata} :
    m ∈ newestFirst metadata ↔ m ∈ metadata := List.mem_insertionSort _

theorem newestFirst_sorted (metadata : List SnapshotMetadata) :
    (newestFirst metadata).Pairwise fun m m' => m'.createdAt ≤ m.createdAt :=
  haveI : Std.Total fun m m' : SnapshotMetadata => m'.createdAt ≤ m.createdAt :=
    ⟨fun m m' => le_total m'.createdAt m.createdAt⟩
  haveI : IsTrans SnapshotMetadata fun m m' => m'.createdAt ≤ m.createdAt :=
    ⟨fun _ _ _ h h' => h'.trans h⟩
  List.pairwise_insertionSort _ metadata

theorem Coherent.mem_iff (h : s.Coherent) (id : String) :
    id ∈ s.memory.snapshots ↔ id ∈ s.memory.metadata.map SnapshotMetadata.id := by
  rw [ExtTreeMap.mem_iff_isSome_getElem?, Option.isSome_iff_exists, List.mem_map]
  constructor
  · rintro ⟨snapshot, hstored⟩
    have hown := h.own id snapshot hstored
    exact ⟨snapshot.metadata, (h.entries _).mpr ⟨snapshot, by rwa [hown], rfl⟩, hown⟩
  · rintro ⟨m, hm, rfl⟩
    obtain ⟨snapshot, hstored, -⟩ := (h.entries m).mp hm
    exact ⟨snapshot, hstored⟩

/-- The list after a save has the ids it had and the new one. -/
theorem map_id_newestFirst (metadata : List SnapshotMetadata) (m : SnapshotMetadata) :
    ((newestFirst (metadata ++ [m])).map SnapshotMetadata.id).Perm
      (m.id :: metadata.map SnapshotMetadata.id) := by
  have hperm := (List.perm_insertionSort (fun a b : SnapshotMetadata => b.createdAt ≤ a.createdAt)
    (metadata ++ [m])).map SnapshotMetadata.id
  refine hperm.trans ?_
  rw [List.map_append]
  exact List.perm_append_singleton _ _

theorem getElem?_insert {map : ExtTreeMap String SystemSnapshot compare} {id id' : String}
    {snapshot : SystemSnapshot} :
    (map.insert id snapshot)[id']? = if id = id' then some snapshot else map[id']? := by
  simp only [ExtTreeMap.getElem?_insert, Std.compare_eq_iff_eq]

theorem Coherent.saveSnapshot (h : s.Coherent) {snapshot : SystemSnapshot} {place : Location}
    (hplace : s.file.getSnapshotPath snapshot.metadata.id = some place)
    (hfresh : snapshot.metadata.id ∉ s.memory.snapshots) :
    (s.step (.save snapshot)).Coherent := by
  have hfile : (s.file.exec (.save snapshot)).1 = { s.file with
      files := s.file.files.insert place snapshot
      cache := s.file.cache.insert snapshot.metadata.id snapshot
      metadataFile := some (newestFirst (s.file.loadMetadata ++ [snapshot.metadata])) } := by
    simp only [FileSystemSnapshot.exec, FileSystemSnapshot.saveSnapshot, hplace]
  have hnew : snapshot.metadata.id ∉ s.memory.metadata.map SnapshotMetadata.id := by
    rwa [← h.mem_iff]
  rw [step, hfile]
  refine ⟨fun id => ?_, ?_, newestFirst_sorted _, ?_, fun m => ?_, fun id other hother => ?_⟩
  · change (s.file.cache.insert _ _)[id]? = (s.memory.snapshots.insert _ _)[id]?
    rw [getElem?_insert, getElem?_insert, h.cache]
  · change newestFirst (s.file.loadMetadata ++ _) = newestFirst (s.memory.metadata ++ _)
    rw [h.listing]
  · exact (map_id_newestFirst _ _).nodup_iff.mpr (List.nodup_cons.mpr ⟨hnew, h.nodup⟩)
  · change m ∈ newestFirst (s.memory.metadata ++ [snapshot.metadata]) ↔
      ∃ other : SystemSnapshot, (s.memory.snapshots.insert _ _)[m.id]? = some other ∧ _
    rw [mem_newestFirst, List.mem_append, List.mem_singleton, getElem?_insert]
    split_ifs with hid
    · refine ⟨fun hm => ⟨snapshot, rfl, ?_⟩, ?_⟩
      · rcases hm with hold | rfl
        · exact absurd (hid ▸ List.mem_map_of_mem hold) hnew
        · rfl
      · rintro ⟨other, hother, rfl⟩
        rw [← Option.some.inj hother]
        exact Or.inr rfl
    · rw [or_iff_left fun hm => hid (by rw [hm]), h.entries]
  · change (s.memory.snapshots.insert _ _)[id]? = some other at hother
    rw [getElem?_insert] at hother
    split_ifs at hother with hid
    · rw [← Option.some.inj hother, hid]
    · exact h.own id other hother

theorem Coherent.deleteSnapshot (h : s.Coherent) (snapshotId : String) :
    (s.step (.delete snapshotId)).Coherent := by
  have herase : ∀ (map : ExtTreeMap String SystemSnapshot compare) (id : String),
      (map.erase snapshotId)[id]? = if snapshotId = id then none else map[id]? := by
    intro map id
    simp only [ExtTreeMap.getElem?_erase, Std.compare_eq_iff_eq]
  refine ⟨fun id => ?_, ?_, h.sorted.filter _, ?_, fun m => ?_, fun id other hother => ?_⟩
  · change (s.file.cache.erase snapshotId)[id]? = (s.memory.snapshots.erase snapshotId)[id]?
    rw [herase, herase, h.cache]
  · change s.file.loadMetadata.filter _ = s.memory.metadata.filter _
    rw [h.listing]
  · exact h.nodup.sublist (List.filter_sublist.map _)
  · change m ∈ s.memory.metadata.filter _ ↔
      ∃ other : SystemSnapshot, (s.memory.snapshots.erase snapshotId)[m.id]? = some other ∧ _
    rw [List.mem_filter, herase, bne_iff_ne, h.entries]
    split_ifs with hid
    · simp [hid]
    · rw [and_iff_left (Ne.symm hid)]
  · change (s.memory.snapshots.erase snapshotId)[id]? = some other at hother
    rw [herase] at hother
    split_ifs at hother
    exact h.own id other hother

/-- One call under the condition: the answers agree, and the providers stay coherent. -/
theorem Coherent.exec (h : s.Coherent) {a : SnapshotAction} (henabled : s.Enabled a)
    (hfresh : s.Fresh a) : s.Agree a ∧ (s.step a).Coherent := by
  cases a with
  | save snapshot =>
      obtain ⟨place, hplace, -⟩ := henabled
      refine ⟨?_, h.saveSnapshot hplace hfresh⟩
      simp only [Agree, FileSystemSnapshot.exec, FileSystemSnapshot.saveSnapshot, hplace,
        InMemorySnapshot.exec]
  | load snapshotId =>
      simp only [Agree, step, FileSystemSnapshot.exec, InMemorySnapshot.exec]
      cases hstored : s.memory.snapshots[snapshotId]? with
      | some snapshot =>
          rw [h.loadSnapshot_of_mem hstored, InMemorySnapshot.loadSnapshot, hstored]
          exact ⟨rfl, h⟩
      | none =>
          have hcontent : s.file.content snapshotId = none := by
            refine hfresh.resolve_left fun hmem => ?_
            rw [ExtTreeMap.mem_iff_isSome_getElem?, hstored] at hmem
            cases hmem
          simp only [FileSystemSnapshot.loadSnapshot, h.cache, hstored, hcontent,
            InMemorySnapshot.loadSnapshot]
          exact ⟨trivial, h⟩
  | latest =>
      simp only [Agree, step, FileSystemSnapshot.exec, InMemorySnapshot.exec, h.latest_agrees]
      exact ⟨trivial, h⟩
  | list =>
      simp only [Agree, step, FileSystemSnapshot.exec, InMemorySnapshot.exec, h.listing]
      exact ⟨trivial, h⟩
  | delete snapshotId => exact ⟨rfl, h.deleteSnapshot snapshotId⟩

/-- A call that violates the condition makes the answers differ or leaves two entries for an id. -/
theorem Coherent.fresh (h : s.Coherent) {a : SnapshotAction} (henabled : s.Enabled a)
    (hagree : s.Agree a) (hcatalogued : (s.step a).Catalogued) : s.Fresh a := by
  cases a with
  | save snapshot =>
      intro hmem
      have hnodup := hcatalogued.memory.nodup
      change ((newestFirst (s.memory.metadata ++ [snapshot.metadata])).map _).Nodup at hnodup
      rw [(map_id_newestFirst _ _).nodup_iff] at hnodup
      exact (List.nodup_cons.mp hnodup).1 ((h.mem_iff _).mp hmem)
  | load snapshotId =>
      by_contra hbad
      obtain ⟨hmem, hcontent⟩ := not_or.mp hbad
      have hstored : s.memory.snapshots[snapshotId]? = none := ExtTreeMap.getElem?_eq_none hmem
      obtain ⟨snapshot, hsnapshot⟩ := Option.ne_none_iff_exists'.mp hcontent
      simp only [Agree, FileSystemSnapshot.exec, FileSystemSnapshot.loadSnapshot, h.cache, hstored,
        hsnapshot, InMemorySnapshot.exec, InMemorySnapshot.loadSnapshot] at hagree
      cases hagree
  | latest => trivial
  | list => trivial
  | delete snapshotId => trivial

/-- With all file operations succeeding, both providers are catalogues of what is stored after every
call, and answer alike, exactly when no stored id is saved again and no load of an id that is not
stored finds a file. -/
theorem catalogued_iff_fresh (snapshotDir : Location) (isDir : Location → Bool)
    (as : List SnapshotAction) (has : Admissible step Enabled (start snapshotDir isDir) as) :
    (∀ before a after, as = before ++ a :: after →
      (run step (start snapshotDir isDir) before).Agree a ∧
        (run step (start snapshotDir isDir) (before ++ [a])).Catalogued) ↔
      Admissible step Fresh (start snapshotDir isDir) as := by
  have hgood : Admissible step (fun s a => s.Enabled a ∧ s.Fresh a) (start snapshotDir isDir) as ↔
      Admissible step (fun s a => s.Enabled a ∧ s.Agree a ∧ (s.step a).Catalogued)
        (start snapshotDir isDir) as := by
    refine admissible_congr (I := Coherent) (P := fun _ => True)
      (fun s a h _ hok => (h.exec hok.1 hok.2).2) (fun s a h _ => ?_)
      (coherent_start snapshotDir isDir) fun _ _ => trivial
    refine and_congr_right fun henabled => ⟨fun hfresh => ?_, fun hgood => ?_⟩
    · obtain ⟨hagree, hcoherent⟩ := h.exec henabled hfresh
      exact ⟨hagree, hcoherent.catalogued⟩
    · exact h.fresh henabled hgood.1 hgood.2
  rw [admissible_and, admissible_and, and_iff_right has, and_iff_right has] at hgood
  rw [hgood, admissible_iff_forall]
  simp only [run_append, run_cons, run_nil]

/-! ## Plain ids -/

theorem getSnapshotPath_plain (file : FileSystemSnapshot) {id : String} (h : '/' ∉ id.toList) :
    file.getSnapshotPath id = some (file.snapshotDir ++ [id ++ ".snap"]) := by
  have hchars : (id ++ ".snap").toList = id.toList ++ ['.', 's', 'n', 'a', 'p'] :=
    String.toList_append
  have hplain : '/' ∉ (id ++ ".snap").toList := by
    rw [hchars]
    simp [h]
  have hhead : (id ++ ".snap").toList.head? ≠ some '/' :=
    fun heq => hplain (List.mem_of_head? heq)
  unfold FileSystemSnapshot.getSnapshotPath
  simp only
  rw [if_neg hhead]
  exact Storages.walk_plain file.isDir file.snapshotDir hplain (by rw [hchars]; simp)

/-- The ids of the call have no slash. -/
def Plain : SnapshotAction → Prop
  | .save snapshot => '/' ∉ snapshot.metadata.id.toList
  | .load snapshotId | .delete snapshotId => '/' ∉ snapshotId.toList
  | .latest | .list => True

/-- No stored id is saved again. -/
def New (s : Snapshots) : SnapshotAction → Prop
  | .save snapshot => snapshot.metadata.id ∉ s.memory.snapshots
  | .load _ | .latest | .list | .delete _ => True

/-- A file of a plain id is that of a stored snapshot. -/
def Filed (s : Snapshots) : Prop :=
  ∀ id : String, '/' ∉ id.toList → s.file.content id ≠ none → id ∈ s.memory.snapshots

theorem content_plain (file : FileSystemSnapshot) {id : String} (h : '/' ∉ id.toList) :
    file.content id = file.files[file.snapshotDir ++ [id ++ ".snap"]]? := by
  rw [FileSystemSnapshot.content, getSnapshotPath_plain file h, Option.bind_some]

theorem plain_name_injective {dir : Location} {id id' : String}
    (h : dir ++ [id ++ ".snap"] = dir ++ [id' ++ ".snap"]) : id = id' := by
  have hname := List.singleton_inj.mp (List.append_cancel_left h)
  have hchars := congrArg String.toList hname
  exact String.toList_injective (by simpa using hchars)

theorem content_loadSnapshot (file : FileSystemSnapshot) (snapshotId id : String) :
    (file.loadSnapshot snapshotId).1.content id = file.content id := by
  unfold FileSystemSnapshot.loadSnapshot
  cases file.cache[snapshotId]? with
  | some snapshot => rfl
  | none => cases file.content snapshotId <;> rfl

theorem content_getLatestSnapshot (file : FileSystemSnapshot) (id : String) :
    file.getLatestSnapshot.1.content id = file.content id := by
  unfold FileSystemSnapshot.getLatestSnapshot
  cases file.loadMetadata with
  | nil => rfl
  | cons latest rest => exact content_loadSnapshot file latest.id id

theorem Filed.step (h : s.Filed) {a : SnapshotAction} (ha : Plain a) : (s.step a).Filed := by
  intro id hid hcontent
  cases a with
  | save snapshot =>
      have hplace := getSnapshotPath_plain s.file ha
      change id ∈ s.memory.snapshots.insert _ _
      rw [ExtTreeMap.mem_insert, Std.compare_eq_iff_eq]
      by_cases heq : snapshot.metadata.id = id
      · exact Or.inl heq
      · refine Or.inr (h id hid fun hnone => hcontent ?_)
        rw [content_plain s.file hid] at hnone
        rw [content_plain _ hid]
        simp only [Snapshots.step, FileSystemSnapshot.exec, FileSystemSnapshot.saveSnapshot, hplace,
          ExtTreeMap.getElem?_insert, Std.compare_eq_iff_eq]
        rw [if_neg fun hsame => heq (plain_name_injective hsame)]
        exact hnone
  | load snapshotId =>
      exact h id hid fun hnone => hcontent ((content_loadSnapshot s.file snapshotId id).trans hnone)
  | latest =>
      exact h id hid fun hnone => hcontent ((content_getLatestSnapshot s.file id).trans hnone)
  | list => exact h id hid hcontent
  | delete snapshotId =>
      have hplace := getSnapshotPath_plain s.file ha
      change id ∈ s.memory.snapshots.erase snapshotId
      rw [content_plain _ hid] at hcontent
      simp only [Snapshots.step, FileSystemSnapshot.exec, FileSystemSnapshot.deleteSnapshot, hplace,
        ExtTreeMap.getElem?_erase, Std.compare_eq_iff_eq] at hcontent
      rw [ExtTreeMap.mem_erase, ne_eq, Std.compare_eq_iff_eq]
      by_cases heq : snapshotId = id
      · rw [heq, if_pos rfl] at hcontent
        exact absurd rfl hcontent
      · rw [if_neg fun hsame => heq (plain_name_injective hsame)] at hcontent
        exact ⟨heq, h id hid (by rwa [content_plain s.file hid])⟩

/-- With plain ids the condition is that no stored id is saved again. -/
theorem fresh_iff_new (snapshotDir : Location) (isDir : Location → Bool)
    {as : List SnapshotAction} (h : ∀ a ∈ as, Plain a) :
    Admissible step Fresh (start snapshotDir isDir) as ↔
      Admissible step New (start snapshotDir isDir) as := by
  refine admissible_congr (I := Filed) (P := Plain) (fun s a hfiled ha _ => hfiled.step ha)
    (fun s a hfiled ha => ?_) (fun id hid hcontent => ?_) h
  · cases a with
    | save snapshot => exact Iff.rfl
    | load snapshotId =>
        refine iff_of_true ?_ trivial
        by_cases hcontent : s.file.content snapshotId = none
        · exact Or.inr hcontent
        · exact Or.inl (hfiled snapshotId ha hcontent)
    | latest => exact Iff.rfl
    | list => exact Iff.rfl
    | delete snapshotId => exact Iff.rfl
  · rw [content_plain _ hid] at hcontent
    exact absurd (by simp [start, FileSystemSnapshot.new]) hcontent

def nightly (id : String) (createdAt : DateTime) : SystemSnapshot :=
  ⟨⟨id, createdAt, none, "1", "node"⟩, "state"⟩

/-- The directories of snapshots under `/snapshots`. -/
def snapshotDirs (place : Location) : Bool := ([[], ["snapshots"]] : List Location).contains place

theorem enabled_nightly {s : Snapshots} (hdir : s.file.snapshotDir = ["snapshots"])
    (hisDir : s.file.isDir = snapshotDirs) {id : String} (h : '/' ∉ id.toList)
    (createdAt : DateTime) : s.Enabled (.save (nightly id createdAt)) := by
  refine ⟨_, getSnapshotPath_plain s.file h, ?_⟩
  rw [hdir, hisDir]
  simp [snapshotDirs]

/-- Two snapshots, the older one saved last. -/
theorem catalogued_nightly :
    (run step (start ["snapshots"] snapshotDirs)
      ([.save (nightly "b" 2)] ++ [.save (nightly "a" 1)])).Catalogued := by
  have hplain : ∀ a ∈ ([.save (nightly "b" 2), .save (nightly "a" 1)] : List SnapshotAction),
      Plain a := by
    simp [Plain, nightly]
  have hnew : Admissible step New (start ["snapshots"] snapshotDirs)
      [.save (nightly "b" 2), .save (nightly "a" 1)] := by
    refine ⟨?_, ?_, trivial⟩
    · change _ ∉ _
      decide +kernel
    · change _ ∉ _
      decide +kernel
  have henabled : Admissible step Enabled (start ["snapshots"] snapshotDirs)
      [.save (nightly "b" 2), .save (nightly "a" 1)] :=
    ⟨enabled_nightly rfl rfl (by decide) 2, enabled_nightly rfl rfl (by decide) 1, trivial⟩
  exact ((catalogued_iff_fresh ["snapshots"] snapshotDirs _ henabled).mpr
    ((fresh_iff_new _ _ hplain).mpr hnew) [.save (nightly "b" 2)] _ [] rfl).2

/-- An id that is saved twice is listed twice. -/
theorem not_catalogued : ¬ ∀ (snapshotDir : Location) (isDir : Location → Bool)
    (as : List SnapshotAction), Admissible step Enabled (start snapshotDir isDir) as →
      ∀ before a after, as = before ++ a :: after →
        (run step (start snapshotDir isDir) before).Agree a ∧
          (run step (start snapshotDir isDir) (before ++ [a])).Catalogued := by
  intro h
  obtain ⟨-, hcatalogued⟩ := h ["snapshots"] snapshotDirs
    [.save (nightly "a" 1), .save (nightly "a" 2)]
    ⟨enabled_nightly rfl rfl (by decide) 1, enabled_nightly rfl rfl (by decide) 2, trivial⟩
    [.save (nightly "a" 1)] _ [] rfl
  exact absurd hcatalogued.memory.nodup (by decide +kernel)

end Snapshots

end ActixPura
