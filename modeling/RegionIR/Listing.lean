import RegionIR.Graph.Verify

/-!
# Listings of a graph

A listing shows every entry of a graph as far as it can be told apart from
outside: types and attributes by their texts, maps in order of their keys.
The difference of two listings is what a step has changed.
-/

namespace RegionIR

structure ValueEntry where
  ty : String
  origin : Origin
  uses : List Use
  deriving DecidableEq

structure OpEntry where
  name : String
  operands : List Value
  results : List Value
  attrs : List (String × String)
  regions : List Region
  successors : List Block
  parent : Option Block
  traits : List OpTrait
  verifiers : List String
  symbols : Option (List (String × Op))
  deriving DecidableEq

structure BlockEntry where
  args : List Value
  ops : List Op
  owner : Option Region
  deriving DecidableEq

structure RegionEntry where
  blocks : List Block
  parent : Option Op
  deriving DecidableEq

def ValueData.entry (d : ValueData) : ValueEntry := ⟨d.ty.text, d.origin, d.uses⟩

def OpData.entry {V : Type} [OpVerifier V] (d : OpData V) : OpEntry where
  name := d.name
  operands := d.operands
  results := d.results
  attrs := d.attrs.entries.map fun a => (a.1, a.2.text)
  regions := d.regions
  successors := d.successors
  parent := d.parent
  traits := d.traits
  verifiers := d.verifiers.map OpVerifier.name
  symbols := d.symbols.map fun t => t.entries

def BlockData.entry (d : BlockData) : BlockEntry := ⟨d.args, d.ops.items, d.owner⟩

def RegionData.entry (d : RegionData) : RegionEntry := ⟨d.blocks.items, d.parent⟩

namespace Table

variable {κ β : Type} [OrderedKey κ]

/-- The entries that are new or differ from those of an earlier table. -/
def changedSince [DecidableEq β] (t old : Table κ β) : List (κ × β) :=
  t.entries.filter fun e => !decide (old.find? e.1 = some e.2)

/-- The keys of an earlier table that are gone. -/
def goneSince (t old : Table κ β) : List κ :=
  old.keys.filter fun k => !t.contains k

end Table

/-- All entries of a graph. -/
structure Listing where
  values : Table Value ValueEntry := .empty
  ops : Table Op OpEntry := .empty
  blocks : Table Block BlockEntry := .empty
  regions : Table Region RegionEntry := .empty
  deriving DecidableEq, Inhabited

/-- The entries of a graph, without the instances behind the texts. -/
def Graph.listing {V : Type} [OpVerifier V] (g : Graph V) : Listing where
  values := g.values.mapValues fun _ d => d.entry
  ops := g.ops.mapValues fun _ d => d.entry
  blocks := g.blocks.mapValues fun _ d => d.entry
  regions := g.regions.mapValues fun _ d => d.entry

end RegionIR
