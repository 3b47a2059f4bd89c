import RegionIR.Proofs.Graph.Arguments
import RegionIR.Proofs.Graph.Containers
import RegionIR.Proofs.Graph.Creation
import RegionIR.Proofs.Graph.Erasure
import RegionIR.Proofs.Graph.Operands

/-!
# What is in a graph

The four kinds of entities share the laws of their handles.  So what a change
brings into a graph, and what it takes out, is told of all of them at once;
most changes do neither.

## Main results

* `Entity`, `Graph.Live` — handles of any kind, and those that a graph has entries for.
* `Graph.live_placeOp`, `Graph.live_dropArgument`, … — changes that keep all entries.
* `Graph.live_addBlock`, `Graph.live_create`, … — changes that bring new ones.
* `Graph.live_of_prune` — an erasure brings none.
-/

namespace RegionIR

/-- An entity of any kind, by its handle. -/
inductive Entity where
  | value (v : Value)
  | op (o : Op)
  | block (b : Block)
  | region (r : Region)
  deriving DecidableEq

namespace Entity

def kind : Entity → EntityKind
  | .value _ => .value
  | .op _ => .op
  | .block _ => .block
  | .region _ => .region

def num : Entity → Nat
  | .value v => v.num
  | .op o => o.num
  | .block b => b.num
  | .region r => r.num

/-- The entity of a kind that has the number. -/
def ofNum : EntityKind → Nat → Entity
  | .value, i => .value ⟨i⟩
  | .op, i => .op ⟨i⟩
  | .block, i => .block ⟨i⟩
  | .region, i => .region ⟨i⟩

@[simp] theorem kind_ofNum (k : EntityKind) (i : Nat) : (ofNum k i).kind = k := by
  cases k <;> rfl

@[simp] theorem num_ofNum (k : EntityKind) (i : Nat) : (ofNum k i).num = i := by
  cases k <;> rfl

@[simp] theorem ofNum_num (x : Entity) : ofNum x.kind x.num = x := by
  cases x <;> rfl

end Entity

namespace Graph

variable {V : Type}

/-- The graph has an entry under the handle. -/
def Live (g : Graph V) : Entity → Prop
  | .value v => g.values.contains v = true
  | .op o => g.ops.contains o = true
  | .block b => g.blocks.contains b = true
  | .region r => g.regions.contains r = true

instance (g : Graph V) : (x : Entity) → Decidable (g.Live x)
  | .value v => inferInstanceAs (Decidable (g.values.contains v = true))
  | .op o => inferInstanceAs (Decidable (g.ops.contains o = true))
  | .block b => inferInstanceAs (Decidable (g.blocks.contains b = true))
  | .region r => inferInstanceAs (Decidable (g.regions.contains r = true))

theorem not_live_empty (x : Entity) : ¬ (Graph.empty : Graph V).Live x := by
  cases x <;> exact Bool.false_ne_true

variable {g : Graph V} {x : Entity}

/-! ## Changes of entries that are there -/

@[simp] theorem live_modifyValue (v : Value) (f : ValueData → ValueData) :
    (g.modifyValue v f).Live x ↔ g.Live x := by
  cases x <;> simp [Live, Table.contains_modify]

@[simp] theorem live_modifyOp (o : Op) (f : OpData V → OpData V) :
    (g.modifyOp o f).Live x ↔ g.Live x := by
  cases x <;> simp [Live, Table.contains_modify]

@[simp] theorem live_modifyBlock (b : Block) (f : BlockData → BlockData) :
    (g.modifyBlock b f).Live x ↔ g.Live x := by
  cases x <;> simp [Live, Table.contains_modify]

@[simp] theorem live_modifyRegion (r : Region) (f : RegionData → RegionData) :
    (g.modifyRegion r f).Live x ↔ g.Live x := by
  cases x <;> simp [Live, Table.contains_modify]

@[simp] theorem live_renumber (b : Block) (start : Nat) (args : List Value) :
    (g.renumber b start args).Live x ↔ g.Live x := by
  cases x with
  | value v => rw [Live, Live, contains_values_renumber]
  | op _ => rfl
  | block _ => rfl
  | region _ => rfl

theorem live_dropArgument (b : Block) (i : Nat) (arg : Value) :
    (g.dropArgument b i arg).Live x ↔ g.Live x := by
  rw [dropArgument, live_renumber, live_modifyValue, live_modifyBlock]

theorem live_placeOp (b : Block) (i : Nat) (o : Op) : (g.placeOp b i o).Live x ↔ g.Live x := by
  rw [placeOp, live_modifyOp, live_modifyBlock]

theorem live_takeOp (b : Block) (o : Op) : (g.takeOp b o).Live x ↔ g.Live x := by
  rw [takeOp, live_modifyOp, live_modifyBlock]

theorem live_placeBlock (r : Region) (i : Nat) (b : Block) :
    (g.placeBlock r i b).Live x ↔ g.Live x := by
  rw [placeBlock, live_modifyBlock, live_modifyRegion]

theorem live_takeBlock (r : Region) (b : Block) : (g.takeBlock r b).Live x ↔ g.Live x := by
  rw [takeBlock, live_modifyBlock, live_modifyRegion]

theorem live_fillSlot (u : Use) (old new : Value) : (g.fillSlot u old new).Live x ↔ g.Live x := by
  rw [fillSlot, live_modifyValue, live_modifyValue, live_modifyOp]

/-! ## New entries -/

theorem live_addBlock {b : Block} : (g.addBlock b).Live x ↔ x = .block b ∨ g.Live x := by
  cases x <;> simp [Live, addBlock, Table.contains_insert]

theorem live_addRegion {r : Region} : (g.addRegion r).Live x ↔ x = .region r ∨ g.Live x := by
  cases x <;> simp [Live, addRegion, Table.contains_insert]

theorem live_putArgument {b : Block} {i : Nat} {arg : Value} {ty : Ty} :
    (g.putArgument b i arg ty).Live x ↔ x = .value arg ∨ g.Live x := by
  rw [putArgument, live_renumber, live_modifyBlock]
  cases x <;> simp [Live, Table.contains_insert]

theorem live_create {o : Op} {first : Nat} {types : List Ty} {d : OpData V} :
    ((g.putResults o first types).linkOp o d).Live x ↔
      x = .op o ∨ (∃ v ∈ resultHandles first types.length, x = .value v) ∨ g.Live x := by
  cases x with
  | value v =>
      rw [Live, contains_values_iff_origin?, origin?_linkOp]
      by_cases hmem : v ∈ resultHandles first types.length
      · obtain ⟨i, ty, -, -, hfind⟩ := find?_putResults_of_mem hmem g o
        simp [origin?, hfind, hmem]
      · have hsame : (g.putResults o first types).origin? v = g.origin? v := by
          rw [origin?, find?_putResults_of_ne hmem, origin?]
        rw [hsame, ← contains_values_iff_origin?]
        simp [hmem, Live]
  | op o' =>
      simp [Live, linkOp, putResults, Table.contains_insert]
  | block b =>
      simp [Live, linkOp, putResults]
  | region r =>
      simp [Live, linkOp, putResults, Table.contains_foldl_modify]

/-! ## Erasure -/

theorem live_of_prune {o : Op} {t : Subtree} {produced : List Value}
    (h : (g.prune o t produced).Live x) : g.Live x := by
  cases x with
  | value v =>
      rw [Live, Table.contains, find?_values_prune] at h
      split at h
      · cases h
      · rwa [Option.isSome_map] at h
  | op o' =>
      rw [Live, Table.contains, find?_ops_prune] at h
      split at h
      · cases h
      · rwa [Option.isSome_map] at h
  | block b =>
      rw [Live, Table.contains, find?_blocks_prune] at h
      split at h
      · cases h
      · rwa [Option.isSome_map] at h
  | region r =>
      rw [Live, Table.contains, find?_regions_prune] at h
      split at h
      · cases h
      · exact h

end Graph

end RegionIR
