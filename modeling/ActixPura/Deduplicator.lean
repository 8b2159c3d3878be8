import ActixPura.LruCache
import ActixPura.Runs

/-!
# Recognising repeated messages

The deduplicator of `message/delivery.rs`. It keeps the ids of messages with the times they were
seen in a cache that drops the ids used least recently. Each call reads the clock once; the times
are in nanoseconds.

A message is recorded when it is not taken for a repeated one, or added by hand. Until it expires it
should be recognised, unless as many other ids as there is room for came in between. Two things
stand against this. An id that is found expired counts as new, but the cache keeps its old time.
And an id that is recognised is used, so that it stays in the cache at the expense of one that was
recorded later.
-/

namespace ActixPura

open Runs Lru

structure MessageDeduplicator (C : Type*) where
  seenMessages : C
  expiryTime : ℕ

namespace MessageDeduplicator

variable {C : Type*} (lru : LruCache C String ℕ)

def new (capacity expiryTime : ℕ) : MessageDeduplicator C :=
  ⟨lru.new (if capacity = 0 then 100 else capacity), expiryTime⟩

variable (d : MessageDeduplicator C)

def isDuplicate (messageId : String) (now : ℕ) : Bool × MessageDeduplicator C :=
  match lru.get d.seenMessages messageId with
  | (some time, seen) => (decide (now - time < d.expiryTime), { d with seenMessages := seen })
  | (none, seen) => (false, { d with seenMessages := lru.put seen messageId now })

def cleanup (now : ℕ) : MessageDeduplicator C :=
  let expiredKeys := ((lru.iter d.seenMessages).filter fun e =>
    decide (d.expiryTime ≤ now - e.2)).map Prod.fst
  { d with seenMessages := expiredKeys.foldl lru.pop d.seenMessages }

def addMessage (messageId : String) (now : ℕ) : MessageDeduplicator C :=
  { d with seenMessages := lru.put d.seenMessages messageId now }

def clear : MessageDeduplicator C := { d with seenMessages := lru.clear d.seenMessages }

end MessageDeduplicator

inductive DedupCall
  | isDuplicate (messageId : String) (time : ℕ)
  | addMessage (messageId : String) (time : ℕ)
  | cleanup (time : ℕ)
  | clear

def DedupCall.time? : DedupCall → Option ℕ
  | .isDuplicate _ time | .addMessage _ time | .cleanup time => some time
  | .clear => none

/-- An id that came up, and whether it was recorded then. -/
structure Sighting where
  id : String
  time : ℕ
  recorded : Bool

/-- When an id was recorded last, and what was seen since. -/
def lastRecord (id : String) : List Sighting → Option (ℕ × List Sighting)
  | [] => none
  | e :: log =>
    if e.id = id ∧ e.recorded = true then some (e.time, [])
    else (lastRecord id log).map fun last => (last.1, e :: last.2)

/-- The other ids among those that count. -/
def others (counted : Sighting → Bool) (log : List Sighting) (id : String) : Finset String :=
  ((log.filter counted).map Sighting.id).toFinset.erase id

/-- A deduplicator with what it has seen since it was cleared, the newest first. -/
structure Deduplication (C : Type*) where
  dedup : MessageDeduplicator C
  log : List Sighting
  clock : ℕ

namespace Deduplication

variable {C : Type*} (lru : LruCache C String ℕ) (counted : Sighting → Bool)

def start (capacity expiryTime : ℕ) : Deduplication C := ⟨.new lru capacity expiryTime, [], 0⟩

def step (s : Deduplication C) : DedupCall → Deduplication C
  | .isDuplicate id time =>
    let (answer, dedup) := s.dedup.isDuplicate lru id time
    ⟨dedup, ⟨id, time, !answer⟩ :: s.log, time⟩
  | .addMessage id time => ⟨s.dedup.addMessage lru id time, ⟨id, time, true⟩ :: s.log, time⟩
  | .cleanup time => ⟨s.dedup.cleanup lru time, s.log, time⟩
  | .clear => ⟨s.dedup.clear lru, [], s.clock⟩

def InOrder (s : Deduplication C) (c : DedupCall) : Prop := ∀ time ∈ c.time?, s.clock ≤ time

def entries (s : Deduplication C) : List (String × ℕ) := lru.iter s.dedup.seenMessages

def capacity (s : Deduplication C) : ℕ := lru.cap s.dedup.seenMessages

/-- Every id that was recorded is recognised for its time, unless as many others as there is room
for came since. -/
def Remembers (s : Deduplication C) : Prop :=
  ∀ id newer recordedAt older time, s.log = newer ++ ⟨id, recordedAt, true⟩ :: older →
    s.clock ≤ time → time < recordedAt + s.dedup.expiryTime →
    (others counted newer id).card < s.capacity lru → (s.dedup.isDuplicate lru id time).1 = true

/-- An id is found in the cache with a time that is expired. -/
def FindsExpired (s : Deduplication C) : DedupCall → Prop
  | .isDuplicate id time => 0 < s.dedup.expiryTime ∧
      ∃ cached ∈ (s.entries lru).lookup id, cached + s.dedup.expiryTime ≤ time
  | _ => False

/-- The entries that there is no room for any longer. -/
def evicted (s : Deduplication C) : DedupCall → List (String × ℕ)
  | .isDuplicate id time =>
    if (s.entries lru).lookup id = none then (enter id time (s.entries lru)).drop (s.capacity lru)
    else []
  | .addMessage id time => (enter id time (s.entries lru)).drop (s.capacity lru)
  | .cleanup _ | .clear => []

/-- An entry is evicted that is not expired, with fewer other ids recorded since than there is room
for. -/
def EvictsEarly (s : Deduplication C) (c : DedupCall) : Prop :=
  ∃ e ∈ s.evicted lru c, ∃ since, lastRecord e.1 (s.step lru c).log = some (e.2, since) ∧
    (s.step lru c).clock < e.2 + s.dedup.expiryTime ∧
    (others counted since e.1).card < s.capacity lru

end Deduplication

/-! ## The log -/

section Log

variable {counted : Sighting → Bool} {log since : List Sighting} {e : Sighting} {id : String}
  {recordedAt : ℕ}

theorem lastRecord_cons_of_ne (h : ¬ (e.id = id ∧ e.recorded = true)) :
    lastRecord id (e :: log) =
      (lastRecord id log).map fun last => (last.1, e :: last.2) := if_neg h

theorem lastRecord_cons_self {time : ℕ} :
    lastRecord id (⟨id, time, true⟩ :: log) = some (time, []) :=
  if_pos ⟨rfl, rfl⟩

theorem lastRecord_split (h : lastRecord id log = some (recordedAt, since)) :
    ∃ older, log = since ++ ⟨id, recordedAt, true⟩ :: older := by
  induction log generalizing since with
  | nil => simp [lastRecord] at h
  | cons e log ih =>
      by_cases he : e.id = id ∧ e.recorded = true
      · rw [lastRecord, if_pos he, Option.some.injEq, Prod.mk.injEq] at h
        obtain ⟨rfl, rfl⟩ := h
        obtain ⟨id', time, recorded⟩ := e
        obtain ⟨rfl, rfl⟩ := he
        exact ⟨log, rfl⟩
      · rw [lastRecord_cons_of_ne he] at h
        obtain ⟨last, hlast, h⟩ := Option.map_eq_some_iff.mp h
        obtain ⟨rfl, rfl⟩ := Prod.mk.inj h
        obtain ⟨older, rfl⟩ := ih hlast
        exact ⟨older, rfl⟩

/-- The last record of an id is no older than any other. -/
theorem exists_lastRecord {newer older : List Sighting}
    (hordered : log.Pairwise fun newer older => older.time ≤ newer.time)
    (h : log = newer ++ ⟨id, recordedAt, true⟩ :: older) :
    ∃ last since, lastRecord id log = some (last, since) ∧ recordedAt ≤ last ∧ since <+: newer := by
  induction newer generalizing log with
  | nil => exact ⟨recordedAt, [], h ▸ lastRecord_cons_self, le_rfl, List.nil_prefix⟩
  | cons e newer ih =>
      subst h
      rw [List.cons_append] at hordered ⊢
      obtain ⟨hfirst, hrest⟩ := List.pairwise_cons.mp hordered
      by_cases he : e.id = id ∧ e.recorded = true
      · refine ⟨e.time, [], if_pos he, hfirst ⟨id, recordedAt, true⟩ ?_, List.nil_prefix⟩
        exact List.mem_append_right _ List.mem_cons_self
      · obtain ⟨last, since, hlast, hle, hprefix⟩ := ih hrest rfl
        refine ⟨last, e :: since, ?_, hle, (List.prefix_cons_inj e).mpr hprefix⟩
        rw [lastRecord_cons_of_ne he, hlast]
        rfl

theorem others_subset {log' : List Sighting} (h : log.Sublist log') (id : String) :
    others counted log id ⊆ others counted log' id := by
  refine Finset.erase_subset_erase id fun x hx => ?_
  rw [List.mem_toFinset] at hx ⊢
  exact ((h.filter _).map _).subset hx

end Log

/-! ## One call -/

namespace Deduplication

variable {C : Type*} {lru : LruCache C String ℕ} {counted : Sighting → Bool}
  {s s' : Deduplication C} {c : DedupCall} {id : String} {time : ℕ}

@[simp] theorem expiryTime_step : (s.step lru c).dedup.expiryTime = s.dedup.expiryTime := by
  cases c with
  | isDuplicate id time =>
      simp only [step, MessageDeduplicator.isDuplicate]
      split <;> rfl
  | addMessage | cleanup | clear => rfl

@[simp] theorem capacity_step (h : lru.Lawful) : (s.step lru c).capacity lru = s.capacity lru := by
  cases c with
  | isDuplicate id time =>
      have hget := h.cap_get s.dedup.seenMessages id
      simp only [step, capacity, MessageDeduplicator.isDuplicate]
      split
      · next heq => rw [← hget, heq]
      · next heq => rw [h.cap_put, ← hget, heq]
  | addMessage id time => exact h.cap_put _ _ _
  | cleanup time => exact h.cap_foldl_pop _ _
  | clear => exact h.cap_clear _

theorem get_of_lookup (h : lru.Lawful) {cached : Option ℕ}
    (hlookup : (s.entries lru).lookup id = cached) :
    lru.get s.dedup.seenMessages id = (cached, (lru.get s.dedup.seenMessages id).2) :=
  Prod.ext ((h.get_fst _ _).trans hlookup) rfl

theorem isDuplicate_of_some (h : lru.Lawful) {cached : ℕ}
    (hlookup : (s.entries lru).lookup id = some cached) :
    (s.dedup.isDuplicate lru id time).1 = decide (time - cached < s.dedup.expiryTime) := by
  rw [MessageDeduplicator.isDuplicate, get_of_lookup h hlookup]

theorem isDuplicate_of_none (h : lru.Lawful) (hlookup : (s.entries lru).lookup id = none) :
    (s.dedup.isDuplicate lru id time).1 = false := by
  rw [MessageDeduplicator.isDuplicate, get_of_lookup h hlookup]

theorem entries_isDuplicate_of_some (h : lru.Lawful) {cached : ℕ}
    (hlookup : (s.entries lru).lookup id = some cached) :
    (s.step lru (.isDuplicate id time)).entries lru = enter id cached (s.entries lru) := by
  simp only [step, entries, MessageDeduplicator.isDuplicate]
  rw [get_of_lookup h hlookup]
  exact (h.iter_get _ _).trans (promote_of_lookup hlookup)

theorem entries_isDuplicate_of_none (h : lru.Lawful) (hlookup : (s.entries lru).lookup id = none) :
    (s.step lru (.isDuplicate id time)).entries lru =
      (enter id time (s.entries lru)).take (s.capacity lru) := by
  simp only [step, entries, MessageDeduplicator.isDuplicate]
  rw [get_of_lookup h hlookup]
  have hsame : promote id (lru.iter s.dedup.seenMessages) = s.entries lru :=
    promote_of_none hlookup
  simp only [h.iter_put, h.cap_get, h.iter_get, hsame]
  rfl

theorem entries_addMessage (h : lru.Lawful) :
    (s.step lru (.addMessage id time)).entries lru =
      (enter id time (s.entries lru)).take (s.capacity lru) :=
  h.iter_put _ _ _

theorem entries_cleanup (h : lru.Lawful) (hkeyed : Keyed (s.entries lru)) :
    (s.step lru (.cleanup time)).entries lru =
      (s.entries lru).filter fun e => decide (time - e.2 < s.dedup.expiryTime) := by
  refine (h.iter_foldl_pop _ _).trans (List.filter_congr fun e he => ?_)
  rw [decide_eq_decide, List.mem_map]
  constructor
  · intro hkept
    refine Nat.lt_of_not_le fun hexpired => hkept ⟨e, ?_, rfl⟩
    exact List.mem_filter.mpr ⟨he, decide_eq_true hexpired⟩
  · rintro hlt ⟨e', he', heq⟩
    obtain ⟨hmem, hexpired⟩ := List.mem_filter.mp he'
    have hsame : e'.2 = e.2 := hkeyed.eq_of_mem (k := e.1) (heq ▸ hmem) he
    have hle := of_decide_eq_true hexpired
    omega

/-- The cache holds the last record of every id that is neither expired nor displaced by others. -/
structure Tracks (lru : LruCache C String ℕ) (counted : Sighting → Bool) (s : Deduplication C) :
    Prop where
  keyed : Keyed (s.entries lru)
  room : 0 < s.capacity lru
  ordered : s.log.Pairwise fun newer older => older.time ≤ newer.time
  past : ∀ e ∈ s.log, e.time ≤ s.clock
  timed : 0 < s.dedup.expiryTime → ∀ e ∈ s.entries lru, ∃ since,
    lastRecord e.1 s.log = some (e.2, since)
  gone : ∀ id recordedAt since, lastRecord id s.log = some (recordedAt, since) →
    (s.entries lru).lookup id = none →
    recordedAt + s.dedup.expiryTime ≤ s.clock ∨ s.capacity lru ≤ (others counted since id).card

theorem tracks_start (h : lru.Lawful) (capacity expiryTime : ℕ) :
    Tracks lru counted (start lru capacity expiryTime) := by
  have hroom : 0 < if capacity = 0 then 100 else capacity := by split_ifs <;> omega
  have hentries : (start lru capacity expiryTime).entries lru = [] := h.iter_new _
  refine ⟨?_, ?_, List.Pairwise.nil, by simp [start], ?_, by simp [start, lastRecord]⟩
  · rw [hentries]
    exact List.nodup_nil
  · exact hroom.trans_eq (h.cap_new _ hroom).symm
  · rw [hentries]
    simp

section Tracks

variable {recordedAt : ℕ} {since : List Sighting}

theorem Tracks.record_le (h : Tracks lru counted s)
    (hlast : lastRecord id s.log = some (recordedAt, since)) : recordedAt ≤ s.clock := by
  obtain ⟨older, hlog⟩ := lastRecord_split hlast
  exact h.past ⟨id, recordedAt, true⟩ (hlog ▸ List.mem_append_right _ List.mem_cons_self)

theorem Tracks.cached_eq (h : Tracks lru counted s) (hpos : 0 < s.dedup.expiryTime) {cached : ℕ}
    (hlookup : (s.entries lru).lookup id = some cached) :
    ∃ since, lastRecord id s.log = some (cached, since) :=
  h.timed hpos _ (mem_of_lookup hlookup)

theorem ordered_cons (h : Tracks lru counted s) {e : Sighting} (htime : s.clock ≤ e.time) :
    (e :: s.log).Pairwise fun newer older => older.time ≤ newer.time :=
  List.pairwise_cons.mpr ⟨fun older hmem => (h.past older hmem).trans htime, h.ordered⟩

theorem past_cons (h : Tracks lru counted s) {e : Sighting} (htime : s.clock ≤ e.time) :
    ∀ e' ∈ e :: s.log, e'.time ≤ e.time := by
  rintro e' he'
  rcases List.mem_cons.mp he' with rfl | he'
  · exact le_rfl
  · exact (h.past e' he').trans htime

/-- What was seen since the record of another id is only added to. -/
theorem Tracks.gone_cons (h : Tracks lru counted s) {e : Sighting} (htime : s.clock ≤ e.time)
    (he : ¬ (e.id = id ∧ e.recorded = true))
    (hlast : lastRecord id (e :: s.log) = some (recordedAt, since))
    (hlookup : (s.entries lru).lookup id = none) :
    recordedAt + s.dedup.expiryTime ≤ e.time ∨
      s.capacity lru ≤ (others counted since id).card := by
  rw [lastRecord_cons_of_ne he] at hlast
  obtain ⟨last, hold, hlast⟩ := Option.map_eq_some_iff.mp hlast
  obtain ⟨rfl, rfl⟩ := Prod.mk.inj hlast
  refine (h.gone id last.1 last.2 hold hlookup).imp (fun hexpired => hexpired.trans htime)
    fun hdisplaced => hdisplaced.trans (Finset.card_le_card ?_)
  exact others_subset (List.sublist_cons_self e last.2) id

/-- Nothing is left to show for a record that is expired at once. -/
theorem Tracks.gone_of_zero (h : Tracks lru counted s) (hzero : s.dedup.expiryTime = 0)
    {e : Sighting} (htime : s.clock ≤ e.time)
    (hlast : lastRecord id (e :: s.log) = some (recordedAt, since)) :
    recordedAt + s.dedup.expiryTime ≤ e.time := by
  obtain ⟨older, hlog⟩ := lastRecord_split hlast
  rw [hzero, Nat.add_zero]
  refine past_cons h htime ⟨id, recordedAt, true⟩ ?_
  rw [hlog]
  exact List.mem_append_right _ List.mem_cons_self

theorem Tracks.hit (h : Tracks lru counted s) (hlawful : lru.Lawful) {cached : ℕ}
    (hlookup : (s.entries lru).lookup id = some cached) (htime : s.clock ≤ time)
    (hfresh : 0 < s.dedup.expiryTime → time < cached + s.dedup.expiryTime) :
    Tracks lru counted (s.step lru (.isDuplicate id time)) := by
  have hlog : (s.step lru (.isDuplicate id time)).log =
      ⟨id, time, !decide (time - cached < s.dedup.expiryTime)⟩ :: s.log := by
    simp only [step, isDuplicate_of_some hlawful hlookup]
  have hentries : (s.step lru (.isDuplicate id time)).entries lru = _ :=
    entries_isDuplicate_of_some hlawful hlookup
  have hseen : 0 < s.dedup.expiryTime → ∀ id',
      ¬ (id = id' ∧ (!decide (time - cached < s.dedup.expiryTime)) = true) := by
    rintro hpos id' ⟨-, hrecorded⟩
    have hlt := hfresh hpos
    have hexpired : ¬ time - cached < s.dedup.expiryTime := by simpa using hrecorded
    omega
  refine ⟨?_, ?_, ?_, ?_, fun hpos e he => ?_, fun id' last since hlast hnone => ?_⟩
  · rw [hentries]
    exact h.keyed.enter
  · rw [capacity_step hlawful]
    exact h.room
  · rw [hlog]
    exact ordered_cons h htime
  · rw [hlog]
    exact past_cons h htime
  · rw [expiryTime_step] at hpos
    have hmem : e ∈ s.entries lru := by
      rw [hentries] at he
      rcases mem_enter.mp he with rfl | he
      · exact mem_of_lookup hlookup
      · exact he.1
    obtain ⟨since, hlast⟩ := h.timed hpos e hmem
    rw [hlog, lastRecord_cons_of_ne (hseen hpos e.1), hlast]
    exact ⟨_, rfl⟩
  · rw [hlog] at hlast
    rw [expiryTime_step, capacity_step hlawful]
    rcases Nat.eq_zero_or_pos s.dedup.expiryTime with hzero | hpos
    · exact Or.inl (h.gone_of_zero hzero htime hlast)
    · refine h.gone_cons htime (hseen hpos id') hlast (lookup_eq_none_iff.mpr fun e he heq => ?_)
      rw [hentries] at hnone
      refine lookup_eq_none_iff.mp hnone (if e.1 = id then (id, cached) else e) ?_ ?_
      · split_ifs with hid
        · exact mem_enter.mpr (Or.inl rfl)
        · exact mem_enter.mpr (Or.inr ⟨he, hid⟩)
      · split_ifs with hid
        · exact hid.symm.trans heq
        · exact heq

/-- A new record is written to the cache, and every entry that has to make room is expired or
displaced. -/
theorem Tracks.record (h : Tracks lru counted s) (htime : s.clock ≤ time)
    (hentries : s'.entries lru = (enter id time (s.entries lru)).take (s.capacity lru))
    (hlog : s'.log = ⟨id, time, true⟩ :: s.log) (hclock : s'.clock = time)
    (hexpiry : s'.dedup.expiryTime = s.dedup.expiryTime)
    (hcapacity : s'.capacity lru = s.capacity lru)
    (hroom : ∀ e ∈ (enter id time (s.entries lru)).drop (s.capacity lru), ∀ since,
      lastRecord e.1 s'.log = some (e.2, since) → time < e.2 + s.dedup.expiryTime →
      s.capacity lru ≤ (others counted since e.1).card) : Tracks lru counted s' := by
  have hother : ∀ {id' : String}, id' ≠ id →
      ¬ ((⟨id, time, true⟩ : Sighting).id = id' ∧ true = true) := fun hne heq => hne heq.1.symm
  refine ⟨?_, ?_, ?_, ?_, fun hpos e he => ?_, fun id' last since hlast hnone => ?_⟩
  · rw [hentries]
    exact h.keyed.enter.sublist (List.take_sublist _ _)
  · exact h.room.trans_eq hcapacity.symm
  · rw [hlog]
    exact ordered_cons h htime
  · rw [hlog, hclock]
    exact past_cons h htime
  · rw [hexpiry] at hpos
    rw [hentries] at he
    rcases mem_enter.mp (List.mem_of_mem_take he) with rfl | ⟨he, hne⟩
    · rw [hlog]
      exact ⟨[], lastRecord_cons_self⟩
    · obtain ⟨since, hlast⟩ := h.timed hpos e he
      rw [hlog, lastRecord_cons_of_ne (hother hne), hlast]
      exact ⟨_, rfl⟩
  · rw [hclock, hexpiry, hcapacity]
    by_cases hid : id' = id
    · obtain ⟨n, hn⟩ := Nat.exists_eq_succ_of_ne_zero h.room.ne'
      have hfirst : (id, time) ∈ s'.entries lru := by
        rw [hentries, hn, enter, List.take_succ_cons]
        exact List.mem_cons_self
      exact absurd hid.symm (lookup_eq_none_iff.mp hnone _ hfirst)
    · rcases Nat.eq_zero_or_pos s.dedup.expiryTime with hzero | hpos
      · exact Or.inl (h.gone_of_zero hzero htime (hlog ▸ hlast))
      · cases hlookup : (s.entries lru).lookup id' with
        | none => exact h.gone_cons htime (hother hid) (hlog ▸ hlast) hlookup
        | some cached =>
            obtain ⟨old, hcached⟩ := h.cached_eq hpos hlookup
            have hsame : last = cached := by
              rw [hlog, lastRecord_cons_of_ne (hother hid), hcached] at hlast
              exact (Prod.mk.inj (Option.some.inj hlast)).1.symm
            subst hsame
            have hmem : (id', last) ∈ enter id time (s.entries lru) :=
              mem_enter.mpr (Or.inr ⟨mem_of_lookup hlookup, hid⟩)
            rw [← List.take_append_drop (s.capacity lru) (enter id time (s.entries lru)),
              List.mem_append, ← hentries] at hmem
            have hdrop := hmem.resolve_left fun hin => lookup_eq_none_iff.mp hnone _ hin rfl
            rcases Nat.lt_or_ge time (last + s.dedup.expiryTime) with hlt | hge
            · exact Or.inr (hroom _ hdrop since hlast hlt)
            · exact Or.inl hge

theorem Tracks.cleanup (h : Tracks lru counted s) (hlawful : lru.Lawful) (htime : s.clock ≤ time) :
    Tracks lru counted (s.step lru (.cleanup time)) := by
  have hentries : (s.step lru (.cleanup time)).entries lru = _ :=
    entries_cleanup hlawful h.keyed
  refine ⟨?_, ?_, h.ordered, fun e he => (h.past e he).trans htime, fun hpos e he => ?_,
    fun id last since hlast hnone => ?_⟩
  · rw [hentries]
    exact h.keyed.sublist List.filter_sublist
  · rw [capacity_step hlawful]
    exact h.room
  · rw [hentries] at he
    exact h.timed (expiryTime_step ▸ hpos) e (List.mem_of_mem_filter he)
  · rw [expiryTime_step, capacity_step hlawful]
    have hle : last ≤ time := (h.record_le hlast).trans htime
    cases hlookup : (s.entries lru).lookup id with
    | none => exact (h.gone id last since hlast hlookup).imp_left fun hexp => hexp.trans htime
    | some cached =>
        refine Or.inl ?_
        rcases Nat.eq_zero_or_pos s.dedup.expiryTime with hzero | hpos
        · rw [hzero]
          exact hle
        · obtain ⟨old, hcached⟩ := h.cached_eq hpos hlookup
          obtain rfl := (Prod.mk.inj (Option.some.inj (hlast.symm.trans hcached))).1
          have hexpired : ¬ time - last < s.dedup.expiryTime := fun hlt =>
            lookup_eq_none_iff.mp hnone (id, last) (by
              rw [hentries]
              exact List.mem_filter.mpr ⟨mem_of_lookup hlookup, decide_eq_true hlt⟩) rfl
          change last + s.dedup.expiryTime ≤ time
          omega

theorem Tracks.clear (h : Tracks lru counted s) (hlawful : lru.Lawful) :
    Tracks lru counted (s.step lru .clear) := by
  have hentries : (s.step lru .clear).entries lru = [] := hlawful.iter_clear _
  refine ⟨?_, ?_, List.Pairwise.nil, fun e he => by simp [step] at he, fun _ e he => ?_,
    fun id last since hlast _ => by simp [step, lastRecord] at hlast⟩
  · rw [hentries]
    exact List.nodup_nil
  · rw [capacity_step hlawful]
    exact h.room
  · simp [hentries] at he

theorem Tracks.remembers (h : Tracks lru counted s) (hlawful : lru.Lawful) :
    s.Remembers lru counted := by
  intro id newer recordedAt older time hlog hclock htime hfew
  obtain ⟨last, since, hlast, hle, hsince⟩ := exists_lastRecord h.ordered hlog
  have hpast := h.record_le hlast
  cases hlookup : (s.entries lru).lookup id with
  | none =>
      rcases h.gone id last since hlast hlookup with hexpired | hdisplaced
      · omega
      · have hsubset : others counted since id ⊆ others counted newer id :=
          others_subset hsince.sublist id
        have hcard := Finset.card_le_card hsubset
        omega
  | some cached =>
      obtain ⟨old, hcached⟩ := h.cached_eq (by omega) hlookup
      obtain rfl := (Prod.mk.inj (Option.some.inj (hlast.symm.trans hcached))).1
      rw [isDuplicate_of_some hlawful hlookup, decide_eq_true_iff]
      omega

/-- After an expired entry was found, the id is not recognised. -/
theorem Tracks.not_remembers_of_findsExpired (h : Tracks lru counted s) (hlawful : lru.Lawful)
    (hexpired : s.FindsExpired lru c) : ¬ (s.step lru c).Remembers lru counted := by
  cases c with
  | isDuplicate id time =>
      obtain ⟨hpos, cached, hlookup, hle⟩ := hexpired
      intro hremembers
      have hrecorded : (!decide (time - cached < s.dedup.expiryTime)) = true := by
        have hge : ¬ time - cached < s.dedup.expiryTime := by omega
        simpa using hge
      have hlog : (s.step lru (.isDuplicate id time)).log = [] ++ ⟨id, time, true⟩ :: s.log := by
        simp only [step, isDuplicate_of_some hlawful hlookup, hrecorded, List.nil_append]
      have hanswer := hremembers id [] time s.log time hlog le_rfl
        (by rw [expiryTime_step]; omega)
        (by rw [capacity_step hlawful]; exact h.room)
      have hlookup' : ((s.step lru (.isDuplicate id time)).entries lru).lookup id =
          some cached := by
        rw [entries_isDuplicate_of_some hlawful hlookup, enter, List.lookup_cons_self]
      rw [isDuplicate_of_some hlawful hlookup', expiryTime_step, decide_eq_true_iff] at hanswer
      omega
  | addMessage | cleanup | clear => exact hexpired.elim

theorem not_remembers_of_evictsEarly (hlawful : lru.Lawful)
    (hgone : ∀ e ∈ s.evicted lru c, ((s.step lru c).entries lru).lookup e.1 = none)
    (hearly : s.EvictsEarly lru counted c) : ¬ (s.step lru c).Remembers lru counted := by
  obtain ⟨e, he, since, hlast, hclock, hfew⟩ := hearly
  intro hremembers
  obtain ⟨older, hlog⟩ := lastRecord_split hlast
  have hanswer := hremembers e.1 since e.2 older (s.step lru c).clock hlog le_rfl
    (by rwa [expiryTime_step]) (by rwa [capacity_step hlawful])
  rw [isDuplicate_of_none hlawful (hgone e he)] at hanswer
  exact Bool.noConfusion hanswer

/-- An entry that had to make room is not in the cache any longer. -/
theorem Tracks.lookup_evicted (h : Tracks lru counted s) (hlawful : lru.Lawful) :
    ∀ e ∈ s.evicted lru c, ((s.step lru c).entries lru).lookup e.1 = none := by
  have hdrop : ∀ id time, ∀ e ∈ (enter id time (s.entries lru)).drop (s.capacity lru),
      ((enter id time (s.entries lru)).take (s.capacity lru)).lookup e.1 = none := by
    intro id time e he
    refine lookup_eq_none_iff.mpr fun e' he' heq => ?_
    have hkeyed : Keyed (enter id time (s.entries lru)) := h.keyed.enter
    rw [← List.take_append_drop (s.capacity lru) (enter id time (s.entries lru)), Keyed,
      List.map_append] at hkeyed
    exact List.disjoint_of_nodup_append hkeyed (List.mem_map_of_mem he')
      (heq ▸ List.mem_map_of_mem he)
  intro e he
  cases c with
  | isDuplicate id time =>
      by_cases hlookup : (s.entries lru).lookup id = none
      · rw [evicted, if_pos hlookup] at he
        rw [entries_isDuplicate_of_none hlawful hlookup]
        exact hdrop id time e he
      · rw [evicted, if_neg hlookup] at he
        exact absurd he List.not_mem_nil
  | addMessage id time =>
      rw [entries_addMessage hlawful]
      exact hdrop id time e he
  | cleanup | clear => exact absurd he List.not_mem_nil

theorem Tracks.step (h : Tracks lru counted s) (hlawful : lru.Lawful) (horder : s.InOrder c)
    (hexpired : ¬ s.FindsExpired lru c) (hearly : ¬ s.EvictsEarly lru counted c) :
    Tracks lru counted (s.step lru c) := by
  have hroom : ∀ e ∈ s.evicted lru c, ∀ since,
      lastRecord e.1 (s.step lru c).log = some (e.2, since) →
      (s.step lru c).clock < e.2 + s.dedup.expiryTime →
      s.capacity lru ≤ (others counted since e.1).card := fun e he since hlast hclock =>
    Nat.le_of_not_lt fun hfew => hearly ⟨e, he, since, hlast, hclock, hfew⟩
  cases c with
  | isDuplicate id time =>
      have htime := horder time rfl
      cases hlookup : (s.entries lru).lookup id with
      | some cached =>
          refine h.hit hlawful hlookup htime fun hpos => Nat.lt_of_not_le fun hle => ?_
          exact hexpired ⟨hpos, cached, hlookup, hle⟩
      | none =>
          have hlog : (s.step lru (.isDuplicate id time)).log = ⟨id, time, true⟩ :: s.log := by
            simp only [Deduplication.step, isDuplicate_of_none hlawful hlookup, Bool.not_false]
          rw [evicted, if_pos hlookup] at hroom
          exact h.record htime (entries_isDuplicate_of_none hlawful hlookup) hlog rfl
            expiryTime_step (capacity_step hlawful) hroom
  | addMessage id time =>
      exact h.record (horder time rfl) (entries_addMessage hlawful) rfl rfl expiryTime_step
        (capacity_step hlawful) hroom
  | cleanup time => exact h.cleanup hlawful (horder time rfl)
  | clear => exact h.clear hlawful

theorem Tracks.remembers_iff (h : Tracks lru counted s) (hlawful : lru.Lawful)
    (horder : s.InOrder c) : (s.step lru c).Remembers lru counted ↔
      ¬ s.FindsExpired lru c ∧ ¬ s.EvictsEarly lru counted c := by
  constructor
  · exact fun hremembers =>
      ⟨fun hexpired => h.not_remembers_of_findsExpired hlawful hexpired hremembers,
        fun hearly => not_remembers_of_evictsEarly hlawful (h.lookup_evicted hlawful) hearly
          hremembers⟩
  · exact fun ⟨hexpired, hearly⟩ => (h.step hlawful horder hexpired hearly).remembers hlawful

end Tracks

/-! ## Entries in the order of their use -/

/-- What was seen since an id. -/
def sinceSeen (id : String) (log : List Sighting) : List Sighting :=
  log.takeWhile fun e => decide (e.id ≠ id)

/-- Every entry of the cache was seen since those behind it. -/
def Used (lru : LruCache C String ℕ) (s : Deduplication C) : Prop :=
  (s.entries lru).Pairwise fun e e' => e.1 ∈ (sinceSeen e'.1 s.log).map Sighting.id

theorem used_enter {entries : List (String × ℕ)} {log : List Sighting} {e : Sighting} {t : ℕ}
    (h : entries.Pairwise fun a b => a.1 ∈ (sinceSeen b.1 log).map Sighting.id) :
    (enter e.id t entries).Pairwise fun a b =>
      a.1 ∈ (sinceSeen b.1 (e :: log)).map Sighting.id := by
  have hcons : ∀ {id : String}, id ≠ e.id → sinceSeen id (e :: log) = e :: sinceSeen id log :=
    fun hne => List.takeWhile_cons_of_pos (decide_eq_true hne.symm)
  refine List.pairwise_cons.mpr ⟨fun b hb => ?_, ?_⟩
  · rw [hcons (mem_remove.mp hb).2]
    exact List.mem_cons_self
  · refine (h.sublist List.filter_sublist).imp_of_mem fun ha hb hab => ?_
    rw [hcons (mem_remove.mp hb).2]
    exact List.mem_cons_of_mem _ hab

theorem Used.step (h : s.Used lru) (hlawful : lru.Lawful) (hkeyed : Keyed (s.entries lru)) :
    (s.step lru c).Used lru := by
  cases c with
  | isDuplicate id time =>
      cases hlookup : (s.entries lru).lookup id with
      | some cached =>
          rw [Used, entries_isDuplicate_of_some hlawful hlookup]
          exact used_enter h
      | none =>
          rw [Used, entries_isDuplicate_of_none hlawful hlookup]
          exact (used_enter h).sublist (List.take_sublist _ _)
  | addMessage id time =>
      rw [Used, entries_addMessage hlawful]
      exact (used_enter h).sublist (List.take_sublist _ _)
  | cleanup time =>
      rw [Used, entries_cleanup hlawful hkeyed]
      exact h.sublist List.filter_sublist
  | clear =>
      have hentries : (s.step lru .clear).entries lru = [] := hlawful.iter_clear _
      rw [Used, hentries]
      exact List.Pairwise.nil

theorem keyed_step (hlawful : lru.Lawful) (hkeyed : Keyed (s.entries lru)) :
    Keyed ((s.step lru c).entries lru) := by
  cases c with
  | isDuplicate id time =>
      cases hlookup : (s.entries lru).lookup id with
      | some cached =>
          rw [entries_isDuplicate_of_some hlawful hlookup]
          exact hkeyed.enter
      | none =>
          rw [entries_isDuplicate_of_none hlawful hlookup]
          exact hkeyed.enter.sublist (List.take_sublist _ _)
  | addMessage id time =>
      rw [entries_addMessage hlawful]
      exact hkeyed.enter.sublist (List.take_sublist _ _)
  | cleanup time =>
      rw [entries_cleanup hlawful hkeyed]
      exact hkeyed.sublist List.filter_sublist
  | clear =>
      have hentries : (s.step lru .clear).entries lru = [] := hlawful.iter_clear _
      rw [hentries]
      exact List.nodup_nil

/-- What was seen since an id was seen was seen since it was recorded. -/
theorem mem_others_of_sinceSeen {id id' : String} {log since : List Sighting} {recordedAt : ℕ}
    (hlast : lastRecord id log = some (recordedAt, since))
    (h : id' ∈ (sinceSeen id log).map Sighting.id) : id' ∈ others (fun _ => true) since id := by
  obtain ⟨older, rfl⟩ := lastRecord_split hlast
  obtain ⟨e, he, rfl⟩ := List.mem_map.mp h
  have hne : e.id ≠ id := by simpa using List.mem_takeWhile_imp he
  have hsince : e ∈ since := by
    rw [sinceSeen, List.takeWhile_append] at he
    split_ifs at he with hall
    · rw [List.takeWhile_cons_of_neg (by simp), List.append_nil] at he
      exact he
    · exact List.takeWhile_subset _ he
  refine Finset.mem_erase.mpr ⟨hne, ?_⟩
  rw [List.mem_toFinset, List.filter_true]
  exact List.mem_map_of_mem hsince

/-- As many others as there is room for are in front of an entry that has to make room. -/
theorem card_others_of_drop {entries : List (String × ℕ)} {log since : List Sighting} {n : ℕ}
    (hkeyed : Keyed entries)
    (hused : entries.Pairwise fun a b => a.1 ∈ (sinceSeen b.1 log).map Sighting.id)
    {e : String × ℕ} (he : e ∈ entries.drop n) {recordedAt : ℕ}
    (hlast : lastRecord e.1 log = some (recordedAt, since)) :
    n ≤ (others (fun _ => true) since e.1).card := by
  have hlength : (entries.take n).length = n := by
    have hlt := List.length_pos_of_mem he
    rw [List.length_drop] at hlt
    rw [List.length_take]
    omega
  rw [← List.take_append_drop n entries] at hused
  have hsubset : ((entries.take n).map Prod.fst).toFinset ⊆ others (fun _ => true) since e.1 := by
    intro id hid
    obtain ⟨a, ha, rfl⟩ := List.mem_map.mp (List.mem_toFinset.mp hid)
    exact mem_others_of_sinceSeen hlast ((List.pairwise_append.mp hused).2.2 a ha e he)
  have hnodup : ((entries.take n).map Prod.fst).Nodup :=
    hkeyed.sublist (List.take_sublist n entries)
  calc n = ((entries.take n).map Prod.fst).length := by rw [List.length_map, hlength]
    _ = ((entries.take n).map Prod.fst).toFinset.card := (List.toFinset_card_of_nodup hnodup).symm
    _ ≤ (others (fun _ => true) since e.1).card := Finset.card_le_card hsubset

/-- If every sighting counts, no entry is evicted early. -/
theorem Used.not_evictsEarly (h : s.Used lru) (hkeyed : Keyed (s.entries lru)) :
    ¬ s.EvictsEarly lru (fun _ => true) c := by
  rintro ⟨e, he, since, hlast, -, hfew⟩
  cases c with
  | isDuplicate id time =>
      by_cases hlookup : (s.entries lru).lookup id = none
      · rw [evicted, if_pos hlookup] at he
        have hused :=
          used_enter (e := ⟨id, time, !(s.dedup.isDuplicate lru id time).1⟩) (t := time) h
        exact Nat.not_lt.mpr (card_others_of_drop hkeyed.enter hused he hlast) hfew
      · rw [evicted, if_neg hlookup] at he
        exact absurd he List.not_mem_nil
  | addMessage id time =>
      have hused := used_enter (e := ⟨id, time, true⟩) (t := time) h
      exact Nat.not_lt.mpr (card_others_of_drop hkeyed.enter hused he hlast) hfew
  | cleanup | clear => exact absurd he List.not_mem_nil

/-! ## Sequences of calls -/

theorem inOrder_of_isChain {calls : List DedupCall}
    (h : (s.clock :: calls.filterMap DedupCall.time?).IsChain (· ≤ ·)) :
    Admissible (step lru) InOrder s calls := by
  induction calls generalizing s with
  | nil => trivial
  | cons c calls ih =>
      cases c with
      | isDuplicate id time | addMessage id time | cleanup time =>
          obtain ⟨hle, hrest⟩ := List.isChain_cons_cons.mp h
          refine ⟨fun time' htime' => ?_, ih hrest⟩
          rwa [← Option.some.inj htime']
      | clear => exact ⟨fun time htime => absurd htime (by simp [DedupCall.time?]), ih h⟩

/-- Sightings of some kind count. Every id is recognised for its time, unless as many others that
count came in between as there is room for, exactly if no id is found expired and no entry is
evicted early. -/
theorem admissible_remembers_iff (hlawful : lru.Lawful) (hs : Tracks lru counted s)
    {calls : List DedupCall} (horder : Admissible (step lru) InOrder s calls) :
    Admissible (step lru) (fun s c => (s.step lru c).Remembers lru counted) s calls ↔
      Admissible (step lru) (fun s c => ¬ s.FindsExpired lru c ∧ ¬ s.EvictsEarly lru counted c)
        s calls := by
  have hiff : ∀ (s : Deduplication C) (c : DedupCall), Tracks lru counted s → True →
      ((s.InOrder c ∧ (s.step lru c).Remembers lru counted) ↔
        (s.InOrder c ∧ ¬ s.FindsExpired lru c ∧ ¬ s.EvictsEarly lru counted c)) :=
    fun s c h _ => and_congr_right fun horder => h.remembers_iff hlawful horder
  have hstep : ∀ (s : Deduplication C) (c : DedupCall), Tracks lru counted s → True →
      s.InOrder c ∧ (s.step lru c).Remembers lru counted → Tracks lru counted (s.step lru c) := by
    intro s c h _ hok
    obtain ⟨horder, hexpired, hearly⟩ := (hiff s c h trivial).mp hok
    exact h.step hlawful horder hexpired hearly
  have hcongr := admissible_congr hstep hiff hs (fun _ _ => trivial : ∀ c ∈ calls, True)
  rwa [admissible_and, admissible_and, and_congr_right_iff, forall_prop_of_true horder] at hcongr

theorem not_evictsEarly_run (hlawful : lru.Lawful) (hkeyed : Keyed (s.entries lru))
    (hused : s.Used lru) (before : List DedupCall) :
    ¬ (run (step lru) s before).EvictsEarly lru (fun _ => true) c := by
  have hstep : ∀ s : Deduplication C, ∀ c ∈ before, Keyed (s.entries lru) ∧ s.Used lru →
      Keyed ((s.step lru c).entries lru) ∧ (s.step lru c).Used lru :=
    fun s c _ h => ⟨keyed_step hlawful h.1, h.2.step hlawful h.1⟩
  obtain ⟨hkeyed', hused'⟩ := invariant_run_of_mem hstep ⟨hkeyed, hused⟩
  exact hused'.not_evictsEarly hkeyed'

/-- Every recorded id is recognised for its time, unless as many others were recorded since as there
is room for, exactly if no id is found expired and no entry is evicted early. If the others only
have to be seen, it does not take more than that no id is found expired. -/
theorem window_iff (hlawful : lru.Lawful) (capacity expiryTime : ℕ) (calls : List DedupCall)
    (h : (calls.filterMap DedupCall.time?).IsChain (· ≤ ·)) :
    (Admissible (step lru) (fun s c => (s.step lru c).Remembers lru Sighting.recorded)
        (start lru capacity expiryTime) calls ↔
      Admissible (step lru)
        (fun s c => ¬ s.FindsExpired lru c ∧ ¬ s.EvictsEarly lru Sighting.recorded c)
        (start lru capacity expiryTime) calls) ∧
    (Admissible (step lru) (fun s c => (s.step lru c).Remembers lru fun _ => true)
        (start lru capacity expiryTime) calls ↔
      Admissible (step lru) (fun s c => ¬ s.FindsExpired lru c)
        (start lru capacity expiryTime) calls) := by
  have hclock : (0 :: calls.filterMap DedupCall.time?).IsChain (· ≤ ·) :=
    List.isChain_cons.mpr ⟨fun time _ => Nat.zero_le time, h⟩
  have horder : Admissible (step lru) InOrder (start lru capacity expiryTime) calls :=
    inOrder_of_isChain hclock
  have hentries : (start lru capacity expiryTime).entries lru = [] := hlawful.iter_new _
  have hkeyed : Keyed ((start lru capacity expiryTime).entries lru) := by
    rw [hentries]
    exact List.nodup_nil
  have hused : (start lru capacity expiryTime).Used lru := by
    rw [Used, hentries]
    exact List.Pairwise.nil
  refine ⟨admissible_remembers_iff hlawful (tracks_start hlawful _ _) horder,
    (admissible_remembers_iff hlawful (tracks_start hlawful _ _) horder).trans ?_⟩
  rw [admissible_and, and_iff_left]
  exact admissible_iff_forall.mpr fun before _ _ _ =>
    not_evictsEarly_run hlawful hkeyed hused before

instance decidableFindsExpired (lru : LruCache C String ℕ) (s : Deduplication C) :
    ∀ c, Decidable (s.FindsExpired lru c)
  | .isDuplicate id time => inferInstanceAs (Decidable (0 < s.dedup.expiryTime ∧
      ∃ cached ∈ (s.entries lru).lookup id, cached + s.dedup.expiryTime ≤ time))
  | .addMessage _ _ => isFalse fun h => h
  | .cleanup _ => isFalse fun h => h
  | .clear => isFalse fun h => h

/-- There is room for two ids, and an expired one is cleaned up. -/
theorem window_iff_cleanup :
    Admissible (step LruCache.list) (fun s c => (s.step .list c).Remembers .list fun _ => true)
      (start .list 2 10)
      [.isDuplicate "a" 0, .addMessage "b" 3, .isDuplicate "a" 5, .cleanup 12,
        .isDuplicate "a" 13] :=
  (window_iff LruCache.lawful_list 2 10 _ (by decide)).2.mpr (by decide +kernel)

/-- An id that came after it had expired, and comes again at once. -/
theorem not_window :
    let s : Deduplication (ℕ × List (String × ℕ)) :=
      run (step .list) (start .list 10 100) [.isDuplicate "a" 0]
    let s' := s.step .list (.isDuplicate "a" 100)
    (s.dedup.isDuplicate .list "a" 100).1 = false ∧
      (s'.dedup.isDuplicate .list "a" 101).1 = false ∧
      ¬ s'.Remembers .list Sighting.recorded := by
  intro s s'
  have hanswer : (s'.dedup.isDuplicate .list "a" 101).1 = false := by decide +kernel
  refine ⟨by decide +kernel, hanswer, fun hremembers => ?_⟩
  have hrepeated := hremembers "a" [] 100 _ 101 rfl (by decide) (by decide +kernel)
    (by decide +kernel)
  exact absurd (hanswer.symm.trans hrepeated) (by decide)

end Deduplication

end ActixPura
