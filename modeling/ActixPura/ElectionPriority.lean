import ActixPura.MasterElection

/-!
# Priorities in an election

The priority that `master.rs` gives a node is its load less a number of hours, and lower is better.
The hours are to be those that the node has been up. They are taken from the time it joined, which
`mark_up` stores in milliseconds since the epoch: of these the low half counts, and an hour has 3600
of them.
-/

namespace ActixPura

/-- A node that comes up for the first time joins at that time. -/
def NodeInfo.markUp (info : NodeInfo) (now : UInt64) : NodeInfo :=
  { info with status := .up, joinedAt := if info.joinedAt.isNone then some now else info.joinedAt }

/-- What is taken off the load of a node that joined at the time. -/
def hoursUp (joinedAt : UInt64) : ℕ := joinedAt.toNat % 2 ^ 32 / 3600

theorem NodeInfo.joinedAt_markUp {info : NodeInfo} (h : info.joinedAt = none) (now : UInt64) :
    (info.markUp now).joinedAt = some now := by
  rw [markUp, h]
  rfl

namespace MasterActor

theorem toNat_saturatingSub (a b : UInt32) :
    (saturatingSub a b).toNat = a.toNat - b.toNat := by
  unfold saturatingSub
  split_ifs with h
  · have hlt := UInt32.lt_iff_toNat_lt.mp h
    simp only [UInt32.toNat_zero]
    omega
  · exact UInt32.toNat_sub_of_le _ _ (UInt32.not_lt.mp h)

theorem toNat_calculatePriorityStatic {nodes : NodeMap} {id : NodeId} {info : NodeInfo}
    {joinedAt : UInt64} (hget : nodes.get id = some info)
    (hjoined : info.joinedAt = some joinedAt) :
    (calculatePriorityStatic nodes id).toNat = info.load.toNat - hoursUp joinedAt := by
  simp only [calculatePriorityStatic, hget, hjoined, Option.getD_some, toNat_saturatingSub,
    UInt32.toNat_div, UInt64.toNat_toUInt32, UInt8.toNat_toUInt32, hoursUp]
  rfl

/-- A node has no worse priority than another exactly if nothing is left of its load, or the hours
that the other node gains on it do not exceed what that node has more of load. So a node that joined
later may come first by the hours that are counted. -/
theorem markUp_priority_le_iff {nodes nodes' : NodeMap} {id id' : NodeId} {info info' : NodeInfo}
    {now now' : UInt64} (hnew : info.joinedAt = none) (hnew' : info'.joinedAt = none)
    (hget : nodes.get id = some (info.markUp now))
    (hget' : nodes'.get id' = some (info'.markUp now')) :
    calculatePriorityStatic nodes id ≤ calculatePriorityStatic nodes' id' ↔
      info.load.toNat ≤ hoursUp now ∨
        info.load.toNat + hoursUp now' ≤ info'.load.toNat + hoursUp now := by
  rw [UInt32.le_iff_toNat_le,
    toNat_calculatePriorityStatic hget (NodeInfo.joinedAt_markUp hnew now),
    toNat_calculatePriorityStatic hget' (NodeInfo.joinedAt_markUp hnew' now')]
  simp only [NodeInfo.markUp]
  omega

def loadedNode (id : NodeId) (load : UInt8) : NodeInfo :=
  { NodeInfo.new id "node" .worker (.v4 ⟨0, 80⟩) with load := load }

theorem nodup_pair : ([1, 2] : List NodeId).Nodup := by decide

/-- Two nodes, each of which comes up with a load at a time. -/
def twoNodes (load load' : UInt8) (now now' : UInt64) : NodeMap :=
  ⟨[(1, (loadedNode 1 load).markUp now), (2, (loadedNode 2 load').markUp now')], nodup_pair⟩

theorem markUp_priority_le_hours :
    calculatePriorityStatic (twoNodes 20 30 1717986918400 1717986954400) 1 ≤
      calculatePriorityStatic (twoNodes 20 30 1717986918400 1717986954400) 2 := by
  have hget : (twoNodes 20 30 1717986918400 1717986954400).get 1 =
      some ((loadedNode 1 20).markUp 1717986918400) := rfl
  have hget' : (twoNodes 20 30 1717986918400 1717986954400).get 2 =
      some ((loadedNode 2 30).markUp 1717986954400) := rfl
  exact (markUp_priority_le_iff rfl rfl hget hget').mpr (by decide)

/-- The first node joined 36 seconds before the other one. -/
theorem not_priority_le :
    let nodes := twoNodes 10 10 1717986918400 1717986954400
    nodes.entries.map (fun entry => (entry.2.load, entry.2.joinedAt)) =
        [(10, some 1717986918400), (10, some 1717986954400)] ∧
      ¬ calculatePriorityStatic nodes 1 ≤ calculatePriorityStatic nodes 2 := by
  decide +kernel

end MasterActor

end ActixPura
