/-
Device paths as the library the bootloader uses for them has them, which is not part of this repository: a path is
nodes one behind another up to an end, and a builder makes one of the nodes that are pushed.
-/
import Bang.Memory.LittleEndian
import Bang.Config.Parse

namespace Bang

open LittleEndian

/-- The library: `ν` are its nodes, `π` its paths, and `β` its builders. -/
structure DevicePaths (ν π β : Type) where
  /-- `DevicePath::node_iter`. -/
  nodeIter : π → List ν
  /-- Whether a node is the end of a whole path. -/
  isEndEntire : ν → Bool
  /-- `media::FilePath { path_name }`. -/
  filePath : CString16 → ν
  /-- `DevicePathBuilder::with_vec`. -/
  withVec : β
  push : β → ν → Option β
  finalize : β → Option π

/-! ## What its documentation says -/

/-- Iterating over a path gives its nodes without the end; pushing a node puts it behind the others, unless it is an
end or longer than the length in it can say; and finalizing gives the path of the nodes. A file's node has four bytes
and the two of each unit of its name and of the NUL. -/
structure DevicePaths.Lawful {ν π β : Type} (dp : DevicePaths ν π β) (pushed : β → List ν) (fits : ν → Prop) :
    Prop where
  nodes : ∀ p, ∀ n ∈ dp.nodeIter p, dp.isEndEntire n = false ∧ fits n
  file : ∀ f, dp.isEndEntire (dp.filePath f) = false ∧ (fits (dp.filePath f) ↔ 4 + 2 * (f.length + 1) < 2 ^ 16)
  empty : pushed dp.withVec = []
  push_iff : ∀ b n, (∃ b', dp.push b n = some b') ↔ dp.isEndEntire n = false ∧ fits n
  push_some : ∀ b n b', dp.push b n = some b' → pushed b' = pushed b ++ [n]
  finalize : ∀ b, ∃ p, dp.finalize b = some p ∧ dp.nodeIter p = pushed b

/-! ## Nodes in lists -/

/-- A node: its type and the bytes behind its length. -/
structure DeviceNode where
  type : UInt8
  subType : UInt8
  data : List UInt8
  deriving DecidableEq, Repr

/-- A node that may be pushed. -/
def DeviceNode.Ok (n : DeviceNode) : Prop := ¬ (n.type = 0x7F ∧ n.subType = 0xFF) ∧ 4 + n.data.length < 2 ^ 16

instance (n : DeviceNode) : Decidable n.Ok := inferInstanceAs (Decidable (_ ∧ _))

/-- Paths as lists of their nodes. -/
def nodeLists : DevicePaths DeviceNode { ns : List DeviceNode // ∀ n ∈ ns, n.Ok }
    { ns : List DeviceNode // ∀ n ∈ ns, n.Ok } where
  nodeIter p := p.1
  isEndEntire n := n.type = 0x7F ∧ n.subType = 0xFF
  filePath f := ⟨4, 4, (f ++ [0]).flatMap u16⟩
  withVec := ⟨[], nofun⟩
  push b n :=
    if h : n.Ok then
      some ⟨b.1 ++ [n], fun m hm => (List.mem_append.1 hm).elim (b.2 m) fun hm => List.mem_singleton.1 hm ▸ h⟩
    else none
  finalize b := some b

end Bang
