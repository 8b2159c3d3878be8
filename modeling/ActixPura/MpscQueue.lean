import ActixPura.Runs

/-!
# The lock-free queue of the mailboxes

`Queue` is the memory of the queue of `queue.rs`: the boxes that are alive, the two pointers, and
how far the threads are. A push swaps the head and then links the node it swapped out; a pop loads
the link of the tail node and then acts on what it read. Each of the four is one action, so that a
run is any interleaving of any number of pushing threads with the one popping thread. A new box may
reuse any address that is free.

`Fifo` says what the queue is for. A value waits from its swap on, in the order of the swaps, and
the cell remembers the thread that has yet to link it. The memory refines it: no access misses its
box, no assertion fails, and the answers of the pops are the same.
-/

namespace ActixPura.MpscQueue

open Runs Function

inductive PopResult (τ : Type) where
  | data (t : τ)
  | empty
  | inconsistent
  deriving Repr, DecidableEq

structure Node (τ : Type) where
  next : Option ℕ
  value : Option τ
  deriving Repr, DecidableEq

/-- An access to an address without a live box, or a failed assertion. -/
inductive Fault where
  | deadBox
  | assertion
  deriving Repr, DecidableEq

/-- `pushers` holds the swapped-out head and the new node of a push between its two actions, and
`popper` the tail and the link that a pop has loaded. -/
structure Queue (τ : Type) where
  boxes : ℕ → Option (Node τ)
  head : ℕ
  tail : ℕ
  pushers : ℕ → Option (ℕ × ℕ)
  popper : Option (ℕ × Option ℕ)
  answers : List (PopResult τ)
  fault : Option Fault

inductive Action (τ : Type) where
  | swap (thread : ℕ) (value : τ) (address : ℕ)
  | store (thread : ℕ)
  | load
  | finish
  deriving Repr, DecidableEq

variable {τ : Type}

namespace Queue

def new (τ : Type) (stub : ℕ) : Queue τ where
  boxes := update (fun _ => none) stub (some ⟨none, none⟩)
  head := stub
  tail := stub
  pushers := fun _ => none
  popper := none
  answers := []
  fault := none

/-- `Node::new` and the swap of the head. -/
def pushSwap (q : Queue τ) (thread : ℕ) (value : τ) (address : ℕ) : Queue τ :=
  { q with
    boxes := update q.boxes address (some ⟨none, some value⟩)
    head := address
    pushers := update q.pushers thread (some (q.head, address)) }

def pushStore (q : Queue τ) (thread : ℕ) : Queue τ :=
  match q.pushers thread with
  | none => q
  | some (prev, n) =>
    match q.boxes prev with
    | none => { q with fault := some .deadBox }
    | some node =>
      { q with
        boxes := update q.boxes prev (some { node with next := some n })
        pushers := update q.pushers thread none }

def popLoad (q : Queue τ) : Queue τ :=
  match q.boxes q.tail with
  | none => { q with fault := some .deadBox }
  | some node => { q with popper := some (q.tail, node.next) }

/-- The branch of `pop` that has seen a next node: it becomes the tail, its value is taken and the
old tail is freed. -/
def popTake (q : Queue τ) (tail next : ℕ) : Queue τ :=
  match q.boxes tail, q.boxes next with
  | some old, some first =>
    match old.value, first.value with
    | none, some ret =>
      { q with
        boxes := update (update q.boxes next (some { first with value := none })) tail none
        tail := next
        popper := none
        answers := q.answers ++ [.data ret] }
    | _, _ => { q with fault := some .assertion }
  | _, _ => { q with fault := some .deadBox }

def popFinish (q : Queue τ) : Queue τ :=
  match q.popper with
  | none => q
  | some (tail, some next) => q.popTake tail next
  | some (tail, none) =>
    { q with
      popper := none
      answers := q.answers ++ [if q.head = tail then .empty else .inconsistent] }

def step (q : Queue τ) : Action τ → Queue τ
  | .swap thread value address => q.pushSwap thread value address
  | .store thread => q.pushStore thread
  | .load => q.popLoad
  | .finish => q.popFinish

/-- A thread pushes one value at a time, the allocator returns free addresses, and there is one
popper. -/
def Offered (q : Queue τ) : Action τ → Prop
  | .swap thread _ address => q.pushers thread = none ∧ q.boxes address = none
  | .store thread => q.pushers thread ≠ none
  | .load => q.popper = none
  | .finish => q.popper ≠ none

instance [DecidableEq τ] (q : Queue τ) : ∀ a, Decidable (q.Offered a)
  | .swap _ _ _ => inferInstanceAs (Decidable (_ ∧ _))
  | .store _ => inferInstanceAs (Decidable (_ ≠ _))
  | .load => inferInstanceAs (Decidable (_ = _))
  | .finish => inferInstanceAs (Decidable (_ ≠ _))

end Queue

/-! ## The abstract queue -/

/-- A value that was swapped in, and the thread that has yet to link it. -/
structure Cell (τ : Type) where
  value : τ
  pusher : Option ℕ
  deriving Repr, DecidableEq

/-- `seen` says whether the popper has seen the front cell linked. -/
structure Fifo (τ : Type) where
  waiting : List (Cell τ)
  seen : Option Bool
  answers : List (PopResult τ)
  deriving Repr, DecidableEq

def Cell.link (thread : ℕ) (c : Cell τ) : Cell τ :=
  if c.pusher = some thread then { c with pusher := none } else c

namespace Fifo

def new (τ : Type) : Fifo τ := ⟨[], none, []⟩

def frontLinked (f : Fifo τ) : Bool :=
  match f.waiting with
  | [] => false
  | c :: _ => c.pusher.isNone

def answer (f : Fifo τ) : Fifo τ :=
  match f.seen, f.waiting with
  | none, _ => f
  | some true, [] => f
  | some true, c :: cs => ⟨cs, none, f.answers ++ [.data c.value]⟩
  | some false, [] => ⟨[], none, f.answers ++ [.empty]⟩
  | some false, c :: cs => ⟨c :: cs, none, f.answers ++ [.inconsistent]⟩

def step (f : Fifo τ) : Action τ → Fifo τ
  | .swap thread value _ => { f with waiting := f.waiting ++ [⟨value, some thread⟩] }
  | .store thread => { f with waiting := f.waiting.map (Cell.link thread) }
  | .load => { f with seen := some f.frontLinked }
  | .finish => f.answer

end Fifo

/-- What the loop of `pop_spin` finds at the pop that ends it. -/
inductive Spun (τ : Type) where
  | value (t : τ) (rest : List (Cell τ))
  | empty
  | spinning

def popSpin : List (Cell τ) → Spun τ
  | [] => .empty
  | ⟨t, none⟩ :: rest => .value t rest
  | ⟨_, some _⟩ :: _ => .spinning

/-- The values of the pushes of a run, in the order of their swaps. -/
def pushed (as : List (Action τ)) : List τ :=
  as.filterMap fun
    | .swap _ value _ => some value
    | _ => none

def popped (answers : List (PopResult τ)) : List τ :=
  answers.filterMap fun
    | .data t => some t
    | _ => none

/-! ## The memory refines the abstract queue -/

section Refinement

/-- The boxes from an address on. The box before a linked cell points at it; a cell that is not
linked yet is in the hands of its thread, together with the box before it. -/
def Chain (q : Queue τ) : ℕ → Option τ → List (ℕ × Cell τ) → Prop
  | a, v, [] => q.boxes a = some ⟨none, v⟩ ∧ q.head = a
  | a, v, (n, c) :: rest =>
    q.boxes a = some ⟨if c.pusher = none then some n else none, v⟩ ∧
      (∀ t, c.pusher = some t → q.pushers t = some (a, n)) ∧ Chain q n (some c.value) rest

def addresses (a : ℕ) (placed : List (ℕ × Cell τ)) : List ℕ := a :: placed.map Prod.fst

def owners (placed : List (ℕ × Cell τ)) : List ℕ := placed.filterMap fun p => p.2.pusher

def linkAll (thread : ℕ) (placed : List (ℕ × Cell τ)) : List (ℕ × Cell τ) :=
  placed.map fun p => (p.1, p.2.link thread)

inductive Reads (q : Queue τ) (f : Fifo τ) : List (ℕ × Cell τ) → Prop where
  | idle (placed) (hpopper : q.popper = none) (hseen : f.seen = none) : Reads q f placed
  | unlinked (placed) (hpopper : q.popper = some (q.tail, none)) (hseen : f.seen = some false) :
      Reads q f placed
  | linked (n value rest) (hpopper : q.popper = some (q.tail, some n))
      (hseen : f.seen = some true) : Reads q f ((n, ⟨value, none⟩) :: rest)

/-- The memory holds the abstract queue at the addresses of `placed`, and nothing else. -/
structure Represents (q : Queue τ) (f : Fifo τ) (placed : List (ℕ × Cell τ)) : Prop where
  waiting : f.waiting = placed.map Prod.snd
  chain : Chain q q.tail none placed
  distinct : (addresses q.tail placed).Nodup
  live : ∀ a, q.boxes a ≠ none → a ∈ addresses q.tail placed
  single : (owners placed).Nodup
  pending : ∀ t, q.pushers t ≠ none → t ∈ owners placed
  reads : Reads q f placed
  answers : q.answers = f.answers
  fault : q.fault = none

variable {q q' : Queue τ} {f : Fifo τ} {a n t : ℕ} {v : Option τ} {w : τ}
  {placed : List (ℕ × Cell τ)}

theorem owners_cons (p : ℕ × Cell τ) (rest : List (ℕ × Cell τ)) :
    owners (p :: rest) = p.2.pusher.toList ++ owners rest := by
  cases hp : p.2.pusher <;> simp [owners, hp]

theorem mem_owners_cons {p : ℕ × Cell τ} {rest : List (ℕ × Cell τ)} :
    t ∈ owners (p :: rest) ↔ p.2.pusher = some t ∨ t ∈ owners rest := by
  simp [owners_cons]

theorem Chain.congr (h : Chain q a v placed)
    (hboxes : ∀ b ∈ addresses a placed, q'.boxes b = q.boxes b)
    (hpushers : ∀ s ∈ owners placed, q'.pushers s = q.pushers s) (hhead : q'.head = q.head) :
    Chain q' a v placed := by
  induction placed generalizing a v with
  | nil => exact ⟨by rw [hboxes a (by simp [addresses]), h.1], by rw [hhead, h.2]⟩
  | cons p rest ih =>
      obtain ⟨hbox, howner, hrest⟩ := h
      refine ⟨by rw [hboxes a (by simp [addresses]), hbox], fun s hs => ?_, ih hrest ?_ ?_⟩
      · rw [hpushers s (by simp [owners, hs]), howner s hs]
      · intro b hb
        exact hboxes b (List.mem_cons_of_mem _ hb)
      · intro s hs
        exact hpushers s (mem_owners_cons.mpr (Or.inr hs))

theorem Chain.box (h : Chain q a v placed) : ∃ next, q.boxes a = some ⟨next, v⟩ := by
  cases placed with
  | nil => exact ⟨_, h.1⟩
  | cons p rest => exact ⟨_, h.1⟩

theorem Chain.alive (h : Chain q a v placed) {b : ℕ} (hb : b ∈ addresses a placed) :
    q.boxes b ≠ none := by
  induction placed generalizing a v with
  | nil =>
      obtain rfl : b = a := by simpa [addresses] using hb
      simp [h.1]
  | cons p rest ih =>
      rcases List.mem_cons.mp hb with rfl | hrest
      · simp [h.1]
      · exact ih h.2.2 hrest

theorem Chain.pusher_ne_none (h : Chain q a v placed) (ht : t ∈ owners placed) :
    q.pushers t ≠ none := by
  induction placed generalizing a v with
  | nil => simp [owners] at ht
  | cons p rest ih =>
      rcases mem_owners_cons.mp ht with hp | hrest
      · simp [h.2.1 t hp]
      · exact ih h.2.2 hrest

theorem Chain.head_mem (h : Chain q a v placed) : q.head ∈ addresses a placed := by
  induction placed generalizing a v with
  | nil => simp [addresses, h.2]
  | cons p rest ih => exact List.mem_cons_of_mem _ (ih h.2.2)

theorem Chain.head_eq_iff (h : Chain q a v placed) (hdistinct : (addresses a placed).Nodup) :
    q.head = a ↔ placed = [] := by
  cases placed with
  | nil => simp [h.2]
  | cons p rest =>
      have hmem : q.head ∈ addresses p.1 rest := h.2.2.head_mem
      have hne : q.head ≠ a := fun heq => (List.nodup_cons.mp hdistinct).1 (heq ▸ hmem)
      simp [hne]

/-- Taking the value out of the first box leaves the rest as it is. -/
theorem Chain.take (h : Chain q a v placed) (hdistinct : (addresses a placed).Nodup)
    (hbox : q'.boxes a = (q.boxes a).map fun node => { node with value := none })
    (hboxes : ∀ b ∈ addresses a placed, b ≠ a → q'.boxes b = q.boxes b)
    (hpushers : q'.pushers = q.pushers) (hhead : q'.head = q.head) :
    Chain q' a none placed := by
  cases placed with
  | nil => exact ⟨by rw [hbox, h.1, Option.map_some], by rw [hhead, h.2]⟩
  | cons p rest =>
      obtain ⟨hfirst, howner, hrest⟩ := h
      refine ⟨by rw [hbox, hfirst, Option.map_some], by rwa [hpushers], hrest.congr ?_ ?_ hhead⟩
      · intro b hb
        refine hboxes b (List.mem_cons_of_mem _ hb) ?_
        rintro rfl
        exact (List.nodup_cons.mp hdistinct).1 hb
      · exact fun s _ => by rw [hpushers]

theorem Chain.swap (h : Chain q a v placed) (hn : n ∉ addresses a placed)
    (ht : t ∉ owners placed) :
    Chain (q.pushSwap t w n) a v (placed ++ [(n, ⟨w, some t⟩)]) := by
  induction placed generalizing a v with
  | nil =>
      have hna : a ≠ n := by
        rintro rfl
        simp [addresses] at hn
      refine ⟨by simp [Queue.pushSwap, hna, h.1], fun s hs => ?_, ?_, rfl⟩
      · obtain rfl : t = s := by simpa using hs
        simp [Queue.pushSwap, h.2]
      · simp [Queue.pushSwap]
  | cons p rest ih =>
      obtain ⟨hbox, howner, hrest⟩ := h
      have hna : a ≠ n := by
        rintro rfl
        simp [addresses] at hn
      refine ⟨by simp [Queue.pushSwap, hna, hbox], fun s hs => ?_, ih hrest ?_ ?_⟩
      · have hst : s ≠ t := by
          rintro rfl
          simp [owners, hs] at ht
        simp [Queue.pushSwap, hst, howner s hs]
      · exact fun hmem => hn (List.mem_cons_of_mem _ hmem)
      · exact fun hmem => ht (mem_owners_cons.mpr (Or.inr hmem))

theorem linkAll_of_notMem (ht : t ∉ owners placed) : linkAll t placed = placed := by
  induction placed with
  | nil => rfl
  | cons p rest ih =>
      rw [mem_owners_cons, not_or] at ht
      have hrest := ih ht.2
      simp only [linkAll, List.map_cons, Cell.link] at hrest ⊢
      rw [if_neg ht.1, hrest]

/-- The thread of a cell finds its box and the box before it, and its store links the cell. -/
theorem Chain.store (h : Chain q a v placed) (ht : t ∈ owners placed)
    (hsingle : (owners placed).Nodup) (hdistinct : (addresses a placed).Nodup) :
    ∃ prev m x, q.pushers t = some (prev, m) ∧ q.boxes prev = some ⟨none, x⟩ ∧
      prev ∈ addresses a placed ∧
      ∀ q' : Queue τ, q'.boxes = update q.boxes prev (some ⟨some m, x⟩) →
        q'.pushers = update q.pushers t none → q'.head = q.head →
        Chain q' a v (linkAll t placed) := by
  induction placed generalizing a v with
  | nil => simp [owners] at ht
  | cons p rest ih =>
      obtain ⟨m, value, pusher⟩ := p
      obtain ⟨hbox, howner, hrest⟩ := h
      rw [owners_cons] at hsingle
      obtain ⟨-, hsingleRest, hdisjoint⟩ := List.nodup_append.mp hsingle
      obtain ⟨haRest, hdistinctRest⟩ := List.nodup_cons.mp hdistinct
      change a ∉ addresses m rest at haRest
      by_cases hp : pusher = some t
      · subst hp
        have htRest : t ∉ owners rest := fun hmem => hdisjoint t (by simp) t hmem rfl
        refine ⟨a, m, v, howner t rfl, by simpa using hbox, by simp [addresses], ?_⟩
        intro q' hboxes hpushers hhead
        have hlink : linkAll t ((m, ⟨value, some t⟩) :: rest) = (m, ⟨value, none⟩) :: rest := by
          have := linkAll_of_notMem htRest
          simp only [linkAll, List.map_cons, Cell.link] at this ⊢
          rw [this]
          rfl
        rw [hlink]
        refine ⟨by simp [hboxes], fun s hs => (nomatch hs), hrest.congr ?_ ?_ hhead⟩
        · intro b hb
          rw [hboxes, update_of_ne (fun h => haRest (by rw [← h]; exact hb))]
        · intro s hs
          rw [hpushers, update_of_ne (fun h => htRest (by rw [← h]; exact hs))]
      · have htRest : t ∈ owners rest := (mem_owners_cons.mp ht).resolve_left hp
        obtain ⟨prev, m', x, hpusher, hprev, hmem, hstored⟩ :=
          ih hrest htRest hsingleRest hdistinctRest
        refine ⟨prev, m', x, hpusher, hprev, List.mem_cons_of_mem _ hmem, ?_⟩
        intro q' hboxes hpushers hhead
        have hlink : linkAll t ((m, ⟨value, pusher⟩) :: rest) =
            (m, ⟨value, pusher⟩) :: linkAll t rest := by
          simp only [linkAll, List.map_cons, Cell.link]
          rw [if_neg hp]
        rw [hlink]
        refine ⟨?_, fun s hs => ?_, hstored q' hboxes hpushers hhead⟩
        · rw [hboxes, update_of_ne (fun h => haRest (by rw [h]; exact hmem)), hbox]
        · have hst : s ≠ t := by
            rintro rfl
            exact hp hs
          rw [hpushers, update_of_ne hst, howner s hs]

theorem addresses_linkAll : addresses a (linkAll t placed) = addresses a placed := by
  simp [addresses, linkAll, Function.comp_def]

theorem mem_owners_linkAll {s : ℕ} :
    s ∈ owners (linkAll t placed) ↔ s ∈ owners placed ∧ s ≠ t := by
  induction placed with
  | nil => simp [linkAll, owners]
  | cons p rest ih =>
      have hcons : linkAll t (p :: rest) = (p.1, p.2.link t) :: linkAll t rest := rfl
      rw [hcons, mem_owners_cons, mem_owners_cons, ih]
      by_cases hp : p.2.pusher = some t
      · grind [Cell.link]
      · grind [Cell.link]

theorem owners_linkAll_sublist : (owners (linkAll t placed)).Sublist (owners placed) := by
  induction placed with
  | nil => exact List.Sublist.slnil
  | cons p rest ih =>
      have hcons : linkAll t (p :: rest) = (p.1, p.2.link t) :: linkAll t rest := rfl
      rw [hcons, owners_cons, owners_cons]
      refine List.Sublist.append ?_ ih
      by_cases hp : p.2.pusher = some t <;> simp [Cell.link, hp]

theorem represents_new (stub : ℕ) : Represents (Queue.new τ stub) (Fifo.new τ) [] where
  waiting := rfl
  chain := ⟨by simp [Queue.new], rfl⟩
  distinct := by simp [addresses]
  live b hb := by
    by_contra hne
    rw [addresses, List.map_nil, List.mem_singleton] at hne
    exact hb (update_of_ne (f := fun _ => none) hne _)
  single := List.nodup_nil
  pending t ht := absurd rfl ht
  reads := .idle _ rfl rfl
  answers := rfl
  fault := rfl

namespace Represents

variable (h : Represents q f placed)

include h

theorem swap (hoffered : q.Offered (.swap t w n)) :
    Represents (q.pushSwap t w n) (f.step (.swap t w n)) (placed ++ [(n, ⟨w, some t⟩)]) := by
  obtain ⟨hidle, hfree⟩ := hoffered
  have hn : n ∉ addresses q.tail placed := fun hmem => h.chain.alive hmem hfree
  have ht : t ∉ owners placed := fun hmem => h.chain.pusher_ne_none hmem hidle
  have haddresses : addresses q.tail (placed ++ [(n, ⟨w, some t⟩)]) =
      addresses q.tail placed ++ [n] := by simp [addresses]
  have howners : owners (placed ++ [(n, ⟨w, some t⟩)]) = owners placed ++ [t] := by
    simp [owners]
  refine ⟨by simp [Fifo.step, h.waiting], h.chain.swap hn ht, ?_, ?_, ?_, ?_, ?_, h.answers,
    h.fault⟩
  · change (addresses q.tail _).Nodup
    rw [haddresses, List.nodup_append]
    exact ⟨h.distinct, by simp, fun b hb c hc => by
      obtain rfl : c = n := by simpa using hc
      exact fun heq => hn (heq ▸ hb)⟩
  · intro b hb
    change b ∈ addresses q.tail _
    rw [haddresses, List.mem_append, List.mem_singleton]
    by_cases hbn : b = n
    · exact Or.inr hbn
    · exact Or.inl (h.live b (by simpa [Queue.pushSwap, hbn] using hb))
  · rw [howners, List.nodup_append]
    exact ⟨h.single, by simp, fun b hb c hc => by
      obtain rfl : c = t := by simpa using hc
      exact fun heq => ht (heq ▸ hb)⟩
  · intro s hs
    rw [howners, List.mem_append, List.mem_singleton]
    by_cases hst : s = t
    · exact Or.inr hst
    · exact Or.inl (h.pending s (by simpa [Queue.pushSwap, hst] using hs))
  · cases h.reads with
    | idle _ hpopper hseen => exact .idle _ hpopper hseen
    | unlinked _ hpopper hseen => exact .unlinked _ hpopper hseen
    | linked m value rest hpopper hseen => exact .linked m value _ hpopper hseen

theorem store (hoffered : q.Offered (.store t)) :
    Represents (q.pushStore t) (f.step (.store t)) (linkAll t placed) := by
  obtain ⟨prev, m, x, hpusher, hprev, hmem, hchain⟩ :=
    h.chain.store (h.pending t hoffered) h.single h.distinct
  have hq : q.pushStore t = { q with
      boxes := update q.boxes prev (some ⟨some m, x⟩)
      pushers := update q.pushers t none } := by
    simp only [Queue.pushStore, hpusher, hprev]
  rw [hq]
  refine ⟨?_, hchain _ rfl rfl rfl, ?_, ?_, h.single.sublist owners_linkAll_sublist, ?_, ?_,
    h.answers, h.fault⟩
  · simp [Fifo.step, h.waiting, linkAll, Function.comp_def]
  · rw [addresses_linkAll]
    exact h.distinct
  · intro b hb
    rw [addresses_linkAll]
    by_cases hbp : b = prev
    · exact hbp ▸ hmem
    · exact h.live b (by simpa [hbp] using hb)
  · intro s hs
    by_cases hst : s = t
    · simp [hst] at hs
    · exact mem_owners_linkAll.mpr ⟨h.pending s (by simpa [hst] using hs), hst⟩
  · cases h.reads with
    | idle _ hpopper hseen => exact .idle _ hpopper hseen
    | unlinked _ hpopper hseen => exact .unlinked _ hpopper hseen
    | linked m value rest hpopper hseen => exact .linked m value _ hpopper hseen

theorem load : Represents q.popLoad (f.step .load) placed := by
  obtain ⟨next, hbox⟩ := h.chain.box
  have hq : q.popLoad = { q with popper := some (q.tail, next) } := by
    simp only [Queue.popLoad, hbox]
  have hchain : Chain q.popLoad q.tail none placed := by
    rw [hq]
    exact h.chain.congr (fun _ _ => rfl) (fun _ _ => rfl) rfl
  rw [hq] at hchain ⊢
  refine ⟨h.waiting, hchain, h.distinct, h.live, h.single, h.pending, ?_, h.answers, h.fault⟩
  match placed, h.chain, h.waiting with
  | [], hnil, hwaiting =>
      obtain rfl : next = none := by simpa [hbox] using hnil.1
      exact .unlinked _ rfl (by simp [Fifo.step, Fifo.frontLinked, hwaiting])
  | (m, ⟨value, none⟩) :: rest, hcons, hwaiting =>
      obtain rfl : next = some m := by simpa [hbox] using hcons.1
      exact .linked m value rest rfl (by simp [Fifo.step, Fifo.frontLinked, hwaiting])
  | (m, ⟨value, some s⟩) :: rest, hcons, hwaiting =>
      obtain rfl : next = none := by simpa [hbox] using hcons.1
      exact .unlinked _ rfl (by simp [Fifo.step, Fifo.frontLinked, hwaiting])

theorem finish (hoffered : q.Offered .finish) :
    ∃ placed', Represents q.popFinish (f.step .finish) placed' := by
  cases h.reads with
  | idle _ hpopper _ => exact absurd hpopper hoffered
  | unlinked _ hpopper hseen =>
      have hq : q.popFinish = { q with
          popper := none
          answers := q.answers ++ [if placed = [] then .empty else .inconsistent] } := by
        simp only [Queue.popFinish, hpopper, h.chain.head_eq_iff h.distinct]
      have hf : f.answer = ⟨f.waiting, none,
          f.answers ++ [if placed = [] then .empty else .inconsistent]⟩ := by
        have hwaiting := h.waiting
        cases hplaced : placed with
        | nil => simp [Fifo.answer, hseen, hplaced, hwaiting]
        | cons p rest => simp [Fifo.answer, hseen, hplaced, hwaiting]
      refine ⟨placed, ?_⟩
      change Represents _ f.answer _
      rw [hq, hf]
      exact ⟨h.waiting, h.chain.congr (fun _ _ => rfl) (fun _ _ => rfl) rfl, h.distinct, h.live,
        h.single, h.pending, .idle _ rfl rfl, by rw [h.answers], h.fault⟩
  | linked m value rest hpopper hseen =>
      obtain ⟨hbox, -, hrest⟩ := h.chain
      obtain ⟨next, hfirst⟩ := hrest.box
      obtain ⟨htail, hdistinct⟩ := List.nodup_cons.mp h.distinct
      have hmt : m ≠ q.tail := fun heq => htail (by simp [heq])
      have hq : q.popFinish = { q with
          boxes := update (update q.boxes m (some ⟨next, none⟩)) q.tail none
          tail := m
          popper := none
          answers := q.answers ++ [.data value] } := by
        simp only [Queue.popFinish, hpopper, Queue.popTake, hbox, hfirst]
      have hf : f.answer = ⟨rest.map Prod.snd, none, f.answers ++ [.data value]⟩ := by
        simp [Fifo.answer, hseen, h.waiting]
      refine ⟨rest, ?_⟩
      change Represents _ f.answer _
      rw [hq, hf]
      refine ⟨rfl, hrest.take hdistinct (by simp [hmt, hfirst]) (fun b hb hbm => ?_) rfl rfl,
        hdistinct, fun b hb => ?_, ?_, fun s hs => ?_, .idle _ rfl rfl, by rw [h.answers], h.fault⟩
      · have hbt : b ≠ q.tail := fun heq => htail (heq ▸ hb)
        simp [hbt, hbm]
      · by_cases hbt : b = q.tail
        · simp [hbt] at hb
        · by_cases hbm : b = m
          · simp [addresses, hbm]
          · have := h.live b (by simpa [hbt, hbm] using hb)
            exact (List.mem_cons.mp this).resolve_left hbt
      · simpa [owners_cons] using h.single
      · simpa [mem_owners_cons] using h.pending s hs

end Represents

/-- The memory and the abstract queue run in step. -/
theorem simulates : Simulates Queue.step Queue.Offered Fifo.step (fun _ _ => True)
    (fun (q : Queue τ) (f : Fifo τ) => ∃ placed, Represents q f placed) some where
  admitted _ _ _ _ _ _ _ := trivial
  hidden _ _ _ _ _ hevent := nomatch hevent
  matched q f a b hR hoffered hevent := by
    obtain ⟨placed, h⟩ := hR
    obtain rfl : a = b := Option.some.inj hevent
    cases a with
    | swap t w n => exact ⟨_, h.swap hoffered⟩
    | store t => exact ⟨_, h.store hoffered⟩
    | load => exact ⟨_, h.load⟩
    | finish => exact h.finish hoffered

theorem represents_run (stub : ℕ) {as : List (Action τ)}
    (has : Admissible Queue.step Queue.Offered (Queue.new τ stub) as) :
    ∃ placed, Represents (run Queue.step (Queue.new τ stub) as)
      (run Fifo.step (Fifo.new τ) as) placed := by
  have h := (simulates.run ⟨[], represents_new stub⟩ has).1
  rwa [List.filterMap_some] at h

end Refinement

/-- A number of pops by the popper alone. -/
def pops (τ : Type) : ℕ → List (Action τ)
  | 0 => []
  | n + 1 => .load :: .finish :: pops τ n

/-- The loop of `Drop`: the box to free next, the boxes alive and the values they held. -/
structure Dropping (τ : Type) where
  boxes : ℕ → Option (Node τ)
  cur : Option ℕ
  dropped : List τ
  fault : Option Fault

def dropRound (d : Dropping τ) : Option (Dropping τ) :=
  match d.cur with
  | none => none
  | some cur =>
    match d.boxes cur with
    | none => some { d with cur := none, fault := some .deadBox }
    | some node =>
      some ⟨update d.boxes cur none, node.next, d.dropped ++ node.value.toList, d.fault⟩

def Queue.drop (q : Queue τ) (fuel : ℕ) : Dropping τ :=
  loop dropRound fuel ⟨q.boxes, some q.tail, [], q.fault⟩

/-- No push is between its two actions and no pop between its load and its answer. -/
def Queue.Quiet (q : Queue τ) : Prop := (∀ t, q.pushers t = none) ∧ q.popper = none

/-! ## What the pops answer -/

section Answers

variable {as : List (Action τ)} {stub : ℕ}

@[simp] theorem popped_append (xs ys : List (PopResult τ)) :
    popped (xs ++ ys) = popped xs ++ popped ys := List.filterMap_append

@[simp] theorem popped_data (t : τ) : popped [.data t] = [t] := rfl

@[simp] theorem popped_empty : popped [(.empty : PopResult τ)] = [] := rfl

@[simp] theorem popped_inconsistent : popped [(.inconsistent : PopResult τ)] = [] := rfl

theorem link_value (t : ℕ) (c : Cell τ) : (c.link t).value = c.value := by
  unfold Cell.link
  split <;> rfl

theorem frontLinked_link {f : Fifo τ} (t : ℕ) (h : f.frontLinked) :
    (f.step (.store t)).frontLinked := by
  cases hwaiting : f.waiting with
  | nil => simp [Fifo.frontLinked, hwaiting] at h
  | cons c cs =>
      have hc : c.pusher = none := by simpa [Fifo.frontLinked, hwaiting] using h
      simp [Fifo.frontLinked, Fifo.step, hwaiting, Cell.link, hc]

/-- A link once seen stays, because only the popper takes cells away. -/
theorem seen_run (as : List (Action τ)) : (run Fifo.step (Fifo.new τ) as).seen = some true →
    (run Fifo.step (Fifo.new τ) as).frontLinked := by
  refine invariant_run_of_mem (I := fun f : Fifo τ => f.seen = some true → f.frontLinked) ?_ nofun
  intro f a _ ih hseen
  cases a with
  | swap t w n =>
      have h := ih hseen
      cases hwaiting : f.waiting with
      | nil => simp [Fifo.frontLinked, hwaiting] at h
      | cons c cs => simpa [Fifo.frontLinked, Fifo.step, hwaiting] using h
  | store t => exact frontLinked_link t (ih hseen)
  | load => simpa [Fifo.step, Fifo.frontLinked] using hseen
  | finish =>
      simp only [Fifo.step, Fifo.answer] at hseen ⊢
      split at hseen <;> simp_all

/-- A pop either answers what `popSpin` finds at that moment, or has to be repeated. -/
theorem answer_popSpin {f : Fifo τ} (hoffered : f.seen ≠ none)
    (hseen : f.seen = some true → f.frontLinked) :
    f.answer = { f with seen := none, answers := f.answers ++ [.inconsistent] } ∨
      match popSpin f.waiting with
      | .value t rest => f.answer = ⟨rest, none, f.answers ++ [.data t]⟩
      | .empty => f.answer = ⟨[], none, f.answers ++ [.empty]⟩
      | .spinning => False := by
  obtain ⟨waiting, seen, answers⟩ := f
  match seen, waiting with
  | none, _ => exact absurd rfl hoffered
  | some true, [] => simp [Fifo.frontLinked] at hseen
  | some true, ⟨t, none⟩ :: rest => exact Or.inr rfl
  | some true, ⟨t, some s⟩ :: rest => simp [Fifo.frontLinked] at hseen
  | some false, [] => exact Or.inr rfl
  | some false, c :: rest => exact Or.inl rfl

theorem balance_step (f : Fifo τ) (a : Action τ) :
    popped (f.step a).answers ++ (f.step a).waiting.map Cell.value =
      popped f.answers ++ f.waiting.map Cell.value ++ pushed [a] := by
  cases a with
  | swap t w n => simp [Fifo.step, pushed]
  | store t => simp [Fifo.step, pushed, link_value, Function.comp_def]
  | load => simp [Fifo.step, pushed]
  | finish =>
      simp only [Fifo.step, Fifo.answer]
      split <;> simp [pushed, *]

theorem balance_run (f : Fifo τ) (as : List (Action τ)) :
    popped (run Fifo.step f as).answers ++ (run Fifo.step f as).waiting.map Cell.value =
      popped f.answers ++ f.waiting.map Cell.value ++ pushed as := by
  induction as generalizing f with
  | nil => simp [pushed]
  | cons a as ih =>
      rw [run_cons, ih, balance_step, List.append_assoc]
      congr 1
      exact (List.filterMap_append (l := [a])).symm

theorem pushed_eq {placed : List (ℕ × Cell τ)}
    (h : Represents (run Queue.step (Queue.new τ stub) as) (run Fifo.step (Fifo.new τ) as) placed) :
    pushed as = popped (run Queue.step (Queue.new τ stub) as).answers ++
      placed.map fun p => p.2.value := by
  have hbalance := balance_run (Fifo.new τ) as
  rw [h.waiting, ← h.answers, List.map_map] at hbalance
  exact hbalance.symm

theorem Reads.popper_eq_none_iff {q : Queue τ} {f : Fifo τ} {placed : List (ℕ × Cell τ)}
    (h : Reads q f placed) : q.popper = none ↔ f.seen = none := by
  cases h <;> simp [*]

theorem Chain.linked {q : Queue τ} {a : ℕ} {v : Option τ} {placed : List (ℕ × Cell τ)}
    (h : Chain q a v placed) (hquiet : ∀ t, q.pushers t = none) :
    ∀ p ∈ placed, p.2.pusher = none := by
  intro p hp
  cases hpusher : p.2.pusher with
  | none => rfl
  | some t =>
      refine absurd (hquiet t) (h.pusher_ne_none (t := t) ?_)
      exact List.mem_filterMap.mpr ⟨p, hp, hpusher⟩

/-- What pops may answer when `values` were swapped in so far. A load misses the oldest value only
when there is none or its push has not linked it; a pop that saw the link answers with the oldest
value; one that missed it says whether all values are popped by the time it answers. -/
structure PopsInOrder (q : Queue τ) (values : List τ) : Prop where
  safe : q.fault = none
  ordered : ∃ waiting, values = popped q.answers ++ waiting
  loads : (q.step .load).popper = some (q.tail, none) ↔
    popped q.answers = values ∨ ∃ t n, q.pushers t = some (q.tail, n)
  found : ∀ tail n, q.popper = some (tail, some n) → ∃ t waiting,
    values = popped q.answers ++ t :: waiting ∧ (q.step .finish).answers = q.answers ++ [.data t]
  missed : ∀ tail, q.popper = some (tail, none) →
    (popped q.answers = values ∧ (q.step .finish).answers = q.answers ++ [.empty]) ∨
      (popped q.answers ≠ values ∧ (q.step .finish).answers = q.answers ++ [.inconsistent])

theorem Represents.load_misses_iff {q : Queue τ} {f : Fifo τ} {placed : List (ℕ × Cell τ)}
    (h : Represents q f placed) : (q.step .load).popper = some (q.tail, none) ↔
      placed = [] ∨ ∃ t n, q.pushers t = some (q.tail, n) := by
  match placed, h with
  | [], h =>
      have hbox := h.chain.1
      simp [Queue.step, Queue.popLoad, hbox]
  | (n, ⟨value, none⟩) :: rest, h =>
      obtain ⟨hbox, -, hrest⟩ := h.chain
      have hpushers : ¬∃ t m, q.pushers t = some (q.tail, m) := by
        rintro ⟨t, m, ht⟩
        have hmem : t ∈ owners rest := by
          simpa [mem_owners_cons] using h.pending t (by simp [ht])
        obtain ⟨htail, hdistinct⟩ := List.nodup_cons.mp h.distinct
        have hsingle : (owners rest).Nodup := by simpa [owners_cons] using h.single
        obtain ⟨prev, m', x, hprev, -, hin, -⟩ := hrest.store hmem hsingle hdistinct
        obtain ⟨rfl, rfl⟩ : q.tail = prev ∧ m = m' := by simpa [ht] using hprev
        exact htail hin
      simp [Queue.step, Queue.popLoad, hbox, hpushers]
  | (n, ⟨value, some t⟩) :: rest, h =>
      obtain ⟨hbox, howner, -⟩ := h.chain
      have hpusher : ∃ t m, q.pushers t = some (q.tail, m) := ⟨t, n, howner t rfl⟩
      simp [Queue.step, Queue.popLoad, hbox, hpusher]

theorem pops_in_swap_order (stub : ℕ) (as : List (Action τ))
    (has : Admissible Queue.step Queue.Offered (Queue.new τ stub) as) :
    PopsInOrder (run Queue.step (Queue.new τ stub) as) (pushed as) := by
  obtain ⟨placed, h⟩ := represents_run stub has
  have hpushed := pushed_eq h
  set q := run Queue.step (Queue.new τ stub) as
  set f := run Fifo.step (Fifo.new τ) as
  have hall : popped q.answers = pushed as ↔ placed = [] := by
    rw [hpushed, List.self_eq_append_right, List.map_eq_nil_iff]
  have hfinish (hoffered : q.Offered .finish) : (q.step .finish).answers = f.answer.answers := by
    obtain ⟨placed', h'⟩ := h.finish hoffered
    exact h'.answers
  refine ⟨h.fault, ⟨_, hpushed⟩, h.load_misses_iff.trans (or_congr_left hall.symm),
    fun tail n hpopper => ?_, fun tail hpopper => ?_⟩
  · rw [hfinish (by simp [Queue.Offered, hpopper])]
    cases h.reads with
    | idle _ hidle _ => simp [hidle] at hpopper
    | unlinked _ hnone _ => simp [hnone] at hpopper
    | linked m value rest _ hseen =>
        exact ⟨value, _, hpushed, by simp [Fifo.answer, hseen, h.waiting, h.answers]⟩
  · rw [hfinish (by simp [Queue.Offered, hpopper]), Ne, hall]
    cases h.reads with
    | idle _ hidle _ => simp [hidle] at hpopper
    | unlinked _ _ hseen =>
        cases hplaced : placed with
        | nil => simp [Fifo.answer, hseen, h.waiting, hplaced, h.answers]
        | cons p rest => simp [Fifo.answer, hseen, h.waiting, hplaced, h.answers]
    | linked m value rest hsome _ => simp [hsome] at hpopper

/-- Thread 2 links its value before thread 1 has linked the one in front of it. -/
def overtaking : List (Action ℕ) :=
  [.swap 1 7 10, .swap 2 8 11, .store 2, .load, .finish, .store 1, .load, .finish]

theorem pops_in_swap_order_overtaking :
    PopsInOrder (run Queue.step (Queue.new ℕ 0) overtaking) [7, 8] ∧
      (run Queue.step (Queue.new ℕ 0) overtaking).answers = [.inconsistent, .data 7] :=
  ⟨pops_in_swap_order 0 overtaking (by decide), by decide⟩

theorem Represents.admissible_pops {q : Queue τ} {f : Fifo τ} {placed : List (ℕ × Cell τ)}
    (h : Represents q f placed) (hidle : q.popper = none) (n : ℕ) :
    Admissible Queue.step Queue.Offered q (pops τ n) := by
  induction n generalizing q f placed with
  | zero => trivial
  | succ n ih =>
      have hload := h.load
      have hoffered : (q.step .load).Offered .finish := by
        intro hnone
        have := hload.reads.popper_eq_none_iff.mp hnone
        simp [Fifo.step] at this
      obtain ⟨placed', hfinish⟩ := hload.finish hoffered
      refine ⟨hidle, hoffered, ih hfinish (hfinish.reads.popper_eq_none_iff.mpr ?_)⟩
      cases hwaiting : f.waiting with
      | nil => simp [Fifo.step, Fifo.answer, Fifo.frontLinked, hwaiting]
      | cons c cs =>
          cases hc : c.pusher <;>
            simp [Fifo.step, Fifo.answer, Fifo.frontLinked, hwaiting, hc]

theorem run_pops {f : Fifo τ} (hlinked : ∀ c ∈ f.waiting, c.pusher = none) :
    (run Fifo.step f (pops τ (f.waiting.length + 1))).answers =
      f.answers ++ (f.waiting.map fun c => .data c.value) ++ [.empty] := by
  obtain ⟨waiting, seen, answers⟩ := f
  induction waiting generalizing seen answers with
  | nil => simp [pops, Fifo.step, Fifo.answer, Fifo.frontLinked]
  | cons c cs ih =>
      have hc : c.pusher.isNone = true := by simp [hlinked c (by simp)]
      have hstep : ((⟨c :: cs, seen, answers⟩ : Fifo τ).step .load).step .finish =
          ⟨cs, none, answers ++ [.data c.value]⟩ := by
        simp [Fifo.step, Fifo.answer, Fifo.frontLinked, hc]
      have hrest := ih none (answers ++ [.data c.value]) fun d hd => hlinked d (by simp [hd])
      have hpops : pops τ ((c :: cs).length + 1) = .load :: .finish :: pops τ (cs.length + 1) := rfl
      rw [hpops, run_cons, run_cons, hstep]
      simpa using hrest

theorem Chain.drop_eq {q : Queue τ} {a : ℕ} {v : Option τ} {placed : List (ℕ × Cell τ)}
    (h : Chain q a v placed) (hlinked : ∀ p ∈ placed, p.2.pusher = none)
    (hdistinct : (addresses a placed).Nodup) (dropped : List τ) (fault : Option Fault) :
    loop dropRound (placed.length + 1) ⟨q.boxes, some a, dropped, fault⟩ =
      ⟨fun b => if b ∈ addresses a placed then none else q.boxes b, none,
        dropped ++ v.toList ++ placed.map fun p => p.2.value, fault⟩ := by
  induction placed generalizing q a v dropped with
  | nil =>
      have hround : dropRound ⟨q.boxes, some a, dropped, fault⟩ =
          some ⟨update q.boxes a none, none, dropped ++ v.toList, fault⟩ := by
        simp only [dropRound, h.1]
      rw [List.length_nil, loop_succ_of_some hround]
      simp only [loop, Dropping.mk.injEq, List.map_nil, List.append_nil, and_true]
      funext b
      by_cases hba : b = a <;> simp [addresses, hba]
  | cons p rest ih =>
      obtain ⟨n, ⟨value, pusher⟩⟩ := p
      obtain rfl : pusher = none := hlinked _ List.mem_cons_self
      obtain ⟨hbox, -, hrest⟩ := h
      obtain ⟨ha, hdistinctRest⟩ := List.nodup_cons.mp hdistinct
      change a ∉ addresses n rest at ha
      have hround : dropRound ⟨q.boxes, some a, dropped, fault⟩ =
          some ⟨update q.boxes a none, some n, dropped ++ v.toList, fault⟩ := by
        simp only [dropRound, hbox, if_true]
      have hrest' : Chain { q with boxes := update q.boxes a none } n (some value) rest := by
        refine hrest.congr (fun b hb => ?_) (fun _ _ => rfl) rfl
        exact update_of_ne (fun heq => ha (by rw [← heq]; exact hb)) _ _
      rw [List.length_cons, loop_succ_of_some hround,
        ih hrest' (fun p hp => hlinked p (List.mem_cons_of_mem _ hp)) hdistinctRest]
      simp only [Dropping.mk.injEq, true_and]
      refine ⟨funext fun b => ?_, by simp⟩
      change (if b ∈ addresses n rest then none else update q.boxes a none b) =
        if b ∈ a :: addresses n rest then none else q.boxes b
      by_cases hba : b = a
      · simp [hba]
      · simp only [List.mem_cons, hba, false_or, update_of_ne hba]

/-- The queue of a run whose threads are quiet gives up all it holds. Pops by the popper alone
answer every remaining value in order and then that it is empty, and dropping it instead frees
every box once and drops the same values. -/
structure GivesUpAll (q : Queue τ) (waiting : List τ) : Prop where
  offered : Admissible Queue.step Queue.Offered q (pops τ (waiting.length + 1))
  drained : (run Queue.step q (pops τ (waiting.length + 1))).answers =
    q.answers ++ waiting.map .data ++ [.empty]
  freed : ∀ fuel > waiting.length, q.drop fuel = ⟨fun _ => none, none, waiting, none⟩

theorem quiet_queue_gives_up_all (stub : ℕ) (as : List (Action τ))
    (has : Admissible Queue.step Queue.Offered (Queue.new τ stub) as)
    (hquiet : (run Queue.step (Queue.new τ stub) as).Quiet) :
    ∃ waiting, pushed as = popped (run Queue.step (Queue.new τ stub) as).answers ++ waiting ∧
      GivesUpAll (run Queue.step (Queue.new τ stub) as) waiting := by
  obtain ⟨placed, h⟩ := represents_run stub has
  refine ⟨placed.map fun p => p.2.value, pushed_eq h, ?_⟩
  set q := run Queue.step (Queue.new τ stub) as
  set f := run Fifo.step (Fifo.new τ) as
  have hlinked := h.chain.linked hquiet.1
  have hlength : (placed.map fun p => p.2.value).length = f.waiting.length := by
    simp [h.waiting]
  refine ⟨h.admissible_pops hquiet.2 _, ?_, fun fuel hfuel => ?_⟩
  · obtain ⟨placed', h'⟩ := (simulates.run ⟨placed, h⟩
      (h.admissible_pops hquiet.2 (f.waiting.length + 1))).1
    rw [List.filterMap_some] at h'
    rw [hlength, h'.answers, run_pops, h.answers, h.waiting, List.map_map, List.map_map]
    · rfl
    · intro c hc
      obtain ⟨p, hp, rfl⟩ := List.mem_map.mp (h.waiting ▸ hc)
      exact hlinked p hp
  · have hdrop := h.chain.drop_eq hlinked h.distinct [] q.fault
    have hhalted : dropRound (loop dropRound (placed.length + 1)
        ⟨q.boxes, some q.tail, [], q.fault⟩) = none := by
      rw [hdrop]
      rfl
    have hboxes : (fun b => if b ∈ addresses q.tail placed then none else q.boxes b) =
        fun _ => none := by
      funext b
      by_cases hb : b ∈ addresses q.tail placed
      · exact if_pos hb
      · rw [if_neg hb]
        exact not_imp_comm.mp (h.live b) hb
    rw [Queue.drop, loop_eq_of_halted hhalted (by simpa using hfuel), hdrop, hboxes, h.fault]
    rfl

theorem quiet_queue_gives_up_all_overtaking :
    ∃ waiting, [7, 8] = [7] ++ waiting ∧
      GivesUpAll (run Queue.step (Queue.new ℕ 0) overtaking) waiting :=
  quiet_queue_gives_up_all 0 overtaking (by decide) ⟨fun
    | 0 => rfl
    | 1 => rfl
    | 2 => rfl
    | _ + 3 => rfl, rfl⟩

end Answers

end ActixPura.MpscQueue
