import Mathlib

/-!
# Logs attested by the logs of their authors

Every entry of a log carries the tag of the author who created it, and `L t` is the log of the
author `t`. A log is attested when each of its entries, together with everything before it, is a
prefix of its author's log. Attested logs agree up to any position where they hold entries of one
author, attestation survives a growth of the authors' logs, and splicing an attested log onto
another one at a position of agreement gives that log.
-/

namespace ActixPura

variable {ε τ : Type*} (tag : ε → τ)

def Attested (L : τ → List ε) (l : List ε) : Prop :=
  ∀ (i : ℕ) (e : ε), l[i]? = some e → l.take (i + 1) <+: L (tag e)

namespace Attested

variable {tag} {L L' : τ → List ε} {l l' : List ε}

theorem nil (L : τ → List ε) : Attested tag L [] := by
  intro i e he
  simp at he

theorem restrict (h : Attested tag L l) (hl : l' <+: l) : Attested tag L l' := by
  intro i e he
  have hlt : i < l'.length := (List.getElem?_eq_some_iff.mp he).1
  have htake : l'.take (i + 1) = l.take (i + 1) := by
    obtain ⟨r, rfl⟩ := hl
    rw [List.take_append_of_le_length (by omega)]
  rw [htake]
  apply h i e
  obtain ⟨r, rfl⟩ := hl
  rwa [List.getElem?_append_left hlt]

/-- The authors' logs may grow. -/
theorem mono (h : Attested tag L l) (hL : ∀ t, L t <+: L' t) : Attested tag L' l :=
  fun i e he => (h i e he).trans (hL (tag e))

/-- Two attested logs with entries of one author at a position agree up to it. -/
theorem take_eq (h : Attested tag L l) (h' : Attested tag L l') {i : ℕ} {e e' : ε}
    (he : l[i]? = some e) (he' : l'[i]? = some e') (htag : tag e = tag e') :
    l.take (i + 1) = l'.take (i + 1) := by
  have hlen : (l.take (i + 1)).length = (l'.take (i + 1)).length := by
    have hi := (List.getElem?_eq_some_iff.mp he).1
    have hi' := (List.getElem?_eq_some_iff.mp he').1
    rw [List.length_take, List.length_take]
    omega
  have hp := h i e he
  rw [htag] at hp
  exact (List.prefix_of_prefix_length_le hp (h' i e' he') hlen.le).eq_of_length hlen

/-- Splicing at a position where both logs hold an entry of the same author. -/
theorem splice (h : Attested tag L l) (h' : Attested tag L l') {k : ℕ}
    (hk : k = 0 ∨ ∃ e e', l[k - 1]? = some e ∧ l'[k - 1]? = some e' ∧ tag e = tag e') :
    l.take k = l'.take k := by
  rcases hk with rfl | ⟨e, e', he, he', htag⟩
  · simp
  · cases k with
    | zero => simp
    | succ k => exact h.take_eq h' he he' htag

/-- An author extends its own log. -/
theorem concat (h : Attested tag L l) {e : ε} (he : L (tag e) = l ++ [e]) :
    Attested tag L (l ++ [e]) := by
  intro i x hx
  by_cases hlt : i < l.length
  · rw [List.getElem?_append_left hlt] at hx
    rw [List.take_append_of_le_length (by omega)]
    exact h i x hx
  · have hi := (List.getElem?_eq_some_iff.mp hx).1
    rw [List.length_append, List.length_singleton] at hi
    have hlen : i = l.length := by omega
    subst i
    have hxe : e = x := by simpa using hx
    rw [List.take_of_length_le (by simp), ← hxe, he]

end Attested

end ActixPura
