import ActixPura.Runs

/-!
# Runs of deliveries

A network is a multiset of packets in flight. Delivering a packet takes it out of the network and
adds the packets that its receiver sends. When every packet has a rank in a well-founded order and
every packet sent ranks below the one whose delivery sends it, the multiset of the ranks in flight
decreases in the Dershowitz-Manna order. No infinite sequence of deliveries exists then, and every
state has a run that empties the network.
-/

namespace ActixPura.Deliveries

open Runs

variable {σ π ρ : Type*} [DecidableEq π] [Preorder ρ]

/-- A delivery exchanges the packet for packets of lower rank. -/
def Descends (inFlight : σ → Multiset π) (deliver : σ → π → σ) (rank : π → ρ) : Prop :=
  ∀ s, ∀ p ∈ inFlight s, ∃ sent : Multiset π,
    inFlight (deliver s p) = (inFlight s).erase p + sent ∧ ∀ q ∈ sent, rank q < rank p

variable {inFlight : σ → Multiset π} {deliver : σ → π → σ} {rank : π → ρ}

theorem Descends.ranks_lt (h : Descends inFlight deliver rank) {s : σ} {p : π}
    (hp : p ∈ inFlight s) :
    ((inFlight (deliver s p)).map rank).IsDershowitzMannaLT ((inFlight s).map rank) := by
  obtain ⟨sent, hsent, hlt⟩ := h s p hp
  refine ⟨((inFlight s).erase p).map rank, sent.map rank, {rank p}, by simp, ?_, ?_, ?_⟩
  · rw [hsent, Multiset.map_add]
  · rw [← Multiset.map_singleton, ← Multiset.map_add, Multiset.add_comm,
      Multiset.singleton_add, Multiset.cons_erase hp]
  · intro r hr
    obtain ⟨q, hq, rfl⟩ := Multiset.mem_map.mp hr
    exact ⟨rank p, Multiset.mem_singleton_self _, hlt q hq⟩

/-- A packet in flight stays there until it is delivered. -/
theorem Descends.mem_of_ne (h : Descends inFlight deliver rank) {s : σ} {p q : π}
    (hp : p ∈ inFlight s) (hq : q ∈ inFlight s) (hne : q ≠ p) : q ∈ inFlight (deliver s p) := by
  obtain ⟨sent, hsent, -⟩ := h s p hp
  rw [hsent, Multiset.mem_add]
  exact Or.inl ((Multiset.mem_erase_of_ne hne).mpr hq)

/-- Once the network is empty, every packet that was in flight has been delivered. -/
theorem Descends.delivered (h : Descends inFlight deliver rank) {s : σ} {ds : List π}
    (hds : Admissible deliver (fun s p => p ∈ inFlight s) s ds)
    (hempty : inFlight (run deliver s ds) = 0) {p : π} (hp : p ∈ inFlight s) :
    ∃ before after, ds = before ++ p :: after := by
  induction ds generalizing s with
  | nil => simp [run_nil] at hempty; simp [hempty] at hp
  | cons d ds ih =>
      by_cases hd : p = d
      · exact ⟨[], ds, by rw [hd, List.nil_append]⟩
      · obtain ⟨before, after, rfl⟩ := ih hds.2 hempty (h.mem_of_ne hds.1 hp hd)
        exact ⟨d :: before, after, rfl⟩

variable [WellFoundedLT ρ]

theorem Descends.wellFounded (h : Descends inFlight deliver rank) :
    WellFounded fun s' s => ∃ p ∈ inFlight s, s' = deliver s p := by
  refine Subrelation.wf ?_
    (InvImage.wf (fun s => (inFlight s).map rank) Multiset.wellFounded_isDershowitzMannaLT)
  rintro s' s ⟨p, hp, rfl⟩
  exact h.ranks_lt hp

theorem Descends.no_infinite_run (h : Descends inFlight deliver rank) (s : ℕ → σ) (p : ℕ → π) :
    ¬ ∀ k, p k ∈ inFlight (s k) ∧ s (k + 1) = deliver (s k) (p k) := by
  intro hrun
  have hchain := wellFounded_iff_isEmpty_descending_chain.mp h.wellFounded
  exact hchain.elim ⟨s, fun k => ⟨p k, hrun k⟩⟩

/-- A packet in flight can be kept back until all other packets are gone. -/
theorem Descends.exists_delayed (h : Descends inFlight deliver rank) {s : σ} {p : π}
    (hp : p ∈ inFlight s) : ∃ ds, Admissible deliver (fun s q => q ∈ inFlight s) s ds ∧
      inFlight (run deliver s ds) = {p} := by
  induction s using h.wellFounded.induction with
  | h s ih =>
      rcases Multiset.empty_or_exists_mem ((inFlight s).erase p) with hrest | ⟨q, hq⟩
      · refine ⟨[], trivial, ?_⟩
        rw [run_nil, ← Multiset.cons_erase hp, hrest]
        rfl
      · have hqs : q ∈ inFlight s := Multiset.mem_of_mem_erase hq
        have hkept : p ∈ inFlight (deliver s q) := by
          by_cases hqp : q = p
          · obtain ⟨sent, hsent, -⟩ := h s q hqs
            rw [hsent, Multiset.mem_add]
            exact Or.inl (hqp ▸ hq)
          · exact h.mem_of_ne hqs hp (Ne.symm hqp)
        obtain ⟨ds, hds, hlast⟩ := ih (deliver s q) ⟨q, hqs, rfl⟩ hkept
        exact ⟨q :: ds, ⟨hqs, hds⟩, hlast⟩

theorem Descends.exists_completed (h : Descends inFlight deliver rank) (s : σ) :
    ∃ ds, Admissible deliver (fun s q => q ∈ inFlight s) s ds ∧
      inFlight (run deliver s ds) = 0 := by
  induction s using h.wellFounded.induction with
  | h s ih =>
      rcases Multiset.empty_or_exists_mem (inFlight s) with hrest | ⟨q, hq⟩
      · exact ⟨[], trivial, hrest⟩
      · obtain ⟨ds, hds, hlast⟩ := ih (deliver s q) ⟨q, hq, rfl⟩
        exact ⟨q :: ds, ⟨hq, hds⟩, hlast⟩

end ActixPura.Deliveries
