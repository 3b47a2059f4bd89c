import RegionIR.Graph.Nesting
import RegionIR.Proofs.Data.Entries

/-!
# Views of a graph

An invariant of a graph looks at one or two components of its entries, and
most edits leave these alone.  So each component has a view of its own, the
invariants are stated over views, and an edit that keeps the views of an
invariant keeps the invariant without any argument.

A view of a handle that is not in the graph is `none` or the empty list.
Thus an entry in a list of a view is evidence that the list's owner exists.

## Main results

* `Graph.ext_find?` — a graph is known by its look-ups.
* `Graph.ops_modifyOp` and its three companions — the tables behind a change.
* `Graph.slot?_modifyOp`, `Graph.parent?_modifyOp`, … — a view sees nothing of
  a change that keeps its component.
-/

namespace RegionIR.Graph

variable {V : Type}

/-! ## The views -/

/-- The value in an operand slot. -/
def slot? (g : Graph V) (u : Use) : Option Value :=
  (g.ops.find? u.user).bind fun d => d.operands[u.index]?

/-- The use list of a value. -/
def uses? (g : Graph V) (v : Value) : Option (List Use) := (g.values.find? v).map (·.uses)

def origin? (g : Graph V) (v : Value) : Option Origin := (g.values.find? v).map (·.origin)

/-- The block that an operation names as its parent. -/
def parent? (g : Graph V) (o : Op) : Option Block := (g.ops.find? o).bind (·.parent)

/-- The region that a block names as its owner. -/
def owner? (g : Graph V) (b : Block) : Option Region := (g.blocks.find? b).bind (·.owner)

/-- The operation that a region names as its parent. -/
def holder? (g : Graph V) (r : Region) : Option Op := (g.regions.find? r).bind (·.parent)

def opsIn (g : Graph V) (b : Block) : List Op :=
  ((g.blocks.find? b).map (·.ops.items)).getD []

def argsOf (g : Graph V) (b : Block) : List Value := ((g.blocks.find? b).map (·.args)).getD []

def blocksIn (g : Graph V) (r : Region) : List Block :=
  ((g.regions.find? r).map (·.blocks.items)).getD []

def regionsOf (g : Graph V) (o : Op) : List Region := ((g.ops.find? o).map (·.regions)).getD []

def resultsOf (g : Graph V) (o : Op) : List Value := ((g.ops.find? o).map (·.results)).getD []

/-- The symbol table of an operation. -/
def table? (g : Graph V) (o : Op) : Option (Table String Op) :=
  (g.ops.find? o).bind (·.symbols)

/-- The name under which an operation may be entered in a table: that of a symbol. -/
def symbolName? (g : Graph V) (o : Op) : Option String :=
  (g.ops.find? o).bind fun d => if d.hasTrait .symbol then d.symbolName? else none

/-- Graphs that answer all look-ups alike are equal. -/
theorem ext_find? {g g' : Graph V} (hops : ∀ o, g.ops.find? o = g'.ops.find? o)
    (hvalues : ∀ v, g.values.find? v = g'.values.find? v)
    (hblocks : ∀ b, g.blocks.find? b = g'.blocks.find? b)
    (hregions : ∀ r, g.regions.find? r = g'.regions.find? r) : g = g' := by
  cases g
  cases g'
  cases Table.ext_find? hops
  cases Table.ext_find? hvalues
  cases Table.ext_find? hblocks
  cases Table.ext_find? hregions
  rfl

/-! ## Changing one entry -/

def modifyValue (g : Graph V) (v : Value) (f : ValueData → ValueData) : Graph V :=
  { g with values := g.values.modify v f }

def modifyOp (g : Graph V) (o : Op) (f : OpData V → OpData V) : Graph V :=
  { g with ops := g.ops.modify o f }

def modifyBlock (g : Graph V) (b : Block) (f : BlockData → BlockData) : Graph V :=
  { g with blocks := g.blocks.modify b f }

def modifyRegion (g : Graph V) (r : Region) (f : RegionData → RegionData) : Graph V :=
  { g with regions := g.regions.modify r f }

/-- Changes one value after the other. -/
def modifyValues {α : Type} (g : Graph V) (l : List α) (key : α → Value)
    (f : α → ValueData → ValueData) : Graph V :=
  { g with values := l.foldl (fun t a => t.modify (key a) (f a)) g.values }

section Tables

variable (g : Graph V) (v : Value) (o : Op) (b : Block) (r : Region)
  (fv : ValueData → ValueData) (fo : OpData V → OpData V) (fb : BlockData → BlockData)
  (fr : RegionData → RegionData)

@[simp] theorem values_modifyValue : (g.modifyValue v fv).values = g.values.modify v fv := rfl

@[simp] theorem ops_modifyValue : (g.modifyValue v fv).ops = g.ops := rfl

@[simp] theorem blocks_modifyValue : (g.modifyValue v fv).blocks = g.blocks := rfl

@[simp] theorem regions_modifyValue : (g.modifyValue v fv).regions = g.regions := rfl

@[simp] theorem values_modifyOp : (g.modifyOp o fo).values = g.values := rfl

@[simp] theorem ops_modifyOp : (g.modifyOp o fo).ops = g.ops.modify o fo := rfl

@[simp] theorem blocks_modifyOp : (g.modifyOp o fo).blocks = g.blocks := rfl

@[simp] theorem regions_modifyOp : (g.modifyOp o fo).regions = g.regions := rfl

@[simp] theorem values_modifyBlock : (g.modifyBlock b fb).values = g.values := rfl

@[simp] theorem ops_modifyBlock : (g.modifyBlock b fb).ops = g.ops := rfl

@[simp] theorem blocks_modifyBlock : (g.modifyBlock b fb).blocks = g.blocks.modify b fb := rfl

@[simp] theorem regions_modifyBlock : (g.modifyBlock b fb).regions = g.regions := rfl

@[simp] theorem values_modifyRegion : (g.modifyRegion r fr).values = g.values := rfl

@[simp] theorem ops_modifyRegion : (g.modifyRegion r fr).ops = g.ops := rfl

@[simp] theorem blocks_modifyRegion : (g.modifyRegion r fr).blocks = g.blocks := rfl

@[simp] theorem regions_modifyRegion :
    (g.modifyRegion r fr).regions = g.regions.modify r fr := rfl

end Tables

/-! ## Views that a change does not touch -/

section Frames

variable (g : Graph V) {fv : ValueData → ValueData} {fo : OpData V → OpData V}
  {fb : BlockData → BlockData} {fr : RegionData → RegionData}

theorem uses?_modifyValue (h : ∀ d, (fv d).uses = d.uses) (v v' : Value) :
    (g.modifyValue v fv).uses? v' = g.uses? v' :=
  Table.map_find?_modify h g.values v v'

theorem origin?_modifyValue (h : ∀ d, (fv d).origin = d.origin) (v v' : Value) :
    (g.modifyValue v fv).origin? v' = g.origin? v' :=
  Table.map_find?_modify h g.values v v'

theorem slot?_modifyOp (h : ∀ d, (fo d).operands = d.operands) (o : Op) (u : Use) :
    (g.modifyOp o fo).slot? u = g.slot? u := by
  refine Table.bind_find?_modify (fun d => ?_) g.ops o u.user
  rw [h]

theorem parent?_modifyOp (h : ∀ d, (fo d).parent = d.parent) (o o' : Op) :
    (g.modifyOp o fo).parent? o' = g.parent? o' :=
  Table.bind_find?_modify h g.ops o o'

theorem regionsOf_modifyOp (h : ∀ d, (fo d).regions = d.regions) (o o' : Op) :
    (g.modifyOp o fo).regionsOf o' = g.regionsOf o' :=
  congrArg (·.getD []) (Table.map_find?_modify h g.ops o o')

theorem resultsOf_modifyOp (h : ∀ d, (fo d).results = d.results) (o o' : Op) :
    (g.modifyOp o fo).resultsOf o' = g.resultsOf o' :=
  congrArg (·.getD []) (Table.map_find?_modify h g.ops o o')

theorem table?_modifyOp (h : ∀ d, (fo d).symbols = d.symbols) (o o' : Op) :
    (g.modifyOp o fo).table? o' = g.table? o' :=
  Table.bind_find?_modify h g.ops o o'

theorem symbolName?_modifyOp (htraits : ∀ d, (fo d).traits = d.traits)
    (hattrs : ∀ d, (fo d).attrs = d.attrs) (o o' : Op) :
    (g.modifyOp o fo).symbolName? o' = g.symbolName? o' := by
  refine Table.bind_find?_modify (fun d => ?_) g.ops o o'
  unfold OpData.hasTrait OpData.symbolName?
  rw [htraits, hattrs]

theorem owner?_modifyBlock (h : ∀ d, (fb d).owner = d.owner) (b b' : Block) :
    (g.modifyBlock b fb).owner? b' = g.owner? b' :=
  Table.bind_find?_modify h g.blocks b b'

theorem opsIn_modifyBlock (h : ∀ d, (fb d).ops = d.ops) (b b' : Block) :
    (g.modifyBlock b fb).opsIn b' = g.opsIn b' := by
  unfold opsIn
  rw [blocks_modifyBlock, Table.map_find?_modify fun d => by rw [h]]

theorem argsOf_modifyBlock (h : ∀ d, (fb d).args = d.args) (b b' : Block) :
    (g.modifyBlock b fb).argsOf b' = g.argsOf b' :=
  congrArg (·.getD []) (Table.map_find?_modify h g.blocks b b')

theorem holder?_modifyRegion (h : ∀ d, (fr d).parent = d.parent) (r r' : Region) :
    (g.modifyRegion r fr).holder? r' = g.holder? r' :=
  Table.bind_find?_modify h g.regions r r'

end Frames

/-! ## Views of an entry that is there -/

section Entries

variable {g : Graph V}

theorem uses?_eq {v : Value} {d : ValueData} (h : g.values.find? v = some d) :
    g.uses? v = some d.uses := by simp [uses?, h]

theorem origin?_eq {v : Value} {d : ValueData} (h : g.values.find? v = some d) :
    g.origin? v = some d.origin := by simp [origin?, h]

theorem slot?_eq {o : Op} {d : OpData V} (h : g.ops.find? o = some d) (i : Nat) :
    g.slot? ⟨o, i⟩ = d.operands[i]? := by simp [slot?, h]

theorem parent?_eq {o : Op} {d : OpData V} (h : g.ops.find? o = some d) :
    g.parent? o = d.parent := by simp [parent?, h]

theorem regionsOf_eq {o : Op} {d : OpData V} (h : g.ops.find? o = some d) :
    g.regionsOf o = d.regions := by simp [regionsOf, h]

theorem resultsOf_eq {o : Op} {d : OpData V} (h : g.ops.find? o = some d) :
    g.resultsOf o = d.results := by simp [resultsOf, h]

theorem table?_eq {o : Op} {d : OpData V} (h : g.ops.find? o = some d) :
    g.table? o = d.symbols := by simp [table?, h]

theorem symbolName?_eq {o : Op} {d : OpData V} (h : g.ops.find? o = some d) :
    g.symbolName? o = if d.hasTrait .symbol then d.symbolName? else none := by
  simp [symbolName?, h]

theorem owner?_eq {b : Block} {d : BlockData} (h : g.blocks.find? b = some d) :
    g.owner? b = d.owner := by simp [owner?, h]

theorem opsIn_eq {b : Block} {d : BlockData} (h : g.blocks.find? b = some d) :
    g.opsIn b = d.ops.items := by simp [opsIn, h]

theorem argsOf_eq {b : Block} {d : BlockData} (h : g.blocks.find? b = some d) :
    g.argsOf b = d.args := by simp [argsOf, h]

theorem holder?_eq {r : Region} {d : RegionData} (h : g.regions.find? r = some d) :
    g.holder? r = d.parent := by simp [holder?, h]

theorem blocksIn_eq {r : Region} {d : RegionData} (h : g.regions.find? r = some d) :
    g.blocksIn r = d.blocks.items := by simp [blocksIn, h]

end Entries

/-! ## Views of an entry that is missing -/

section Missing

variable {g : Graph V}

/-- No slot of a missing operation holds anything. -/
theorem slot?_eq_none {u : Use} (h : g.ops.find? u.user = none) : g.slot? u = none := by
  rw [slot?, h, Option.bind_none]

theorem uses?_eq_none {v : Value} (h : g.values.find? v = none) : g.uses? v = none := by
  rw [uses?, h, Option.map_none]

theorem origin?_eq_none {v : Value} (h : g.values.find? v = none) : g.origin? v = none := by
  rw [origin?, h, Option.map_none]

theorem parent?_eq_none {o : Op} (h : g.ops.find? o = none) : g.parent? o = none := by
  rw [parent?, h, Option.bind_none]

theorem contains_values_iff_origin? {v : Value} :
    g.values.contains v = true ↔ ∃ x, g.origin? v = some x := by
  rw [Table.contains, origin?, ← Option.isSome_iff_exists, Option.isSome_map]

/-- Whoever lists something is in the graph. -/
theorem contains_of_mem_opsIn {b : Block} {o : Op} (h : o ∈ g.opsIn b) :
    g.blocks.contains b = true := by
  cases hb : g.blocks.find? b with
  | none =>
      rw [opsIn, hb] at h
      cases h
  | some d => exact Table.contains_iff.2 ⟨d, hb⟩

theorem contains_of_mem_blocksIn {r : Region} {b : Block} (h : b ∈ g.blocksIn r) :
    g.regions.contains r = true := by
  cases hr : g.regions.find? r with
  | none =>
      rw [blocksIn, hr] at h
      cases h
  | some d => exact Table.contains_iff.2 ⟨d, hr⟩

theorem contains_of_mem_regionsOf {o : Op} {r : Region} (h : r ∈ g.regionsOf o) :
    g.ops.contains o = true := by
  cases ho : g.ops.find? o with
  | none =>
      rw [regionsOf, ho] at h
      cases h
  | some d => exact Table.contains_iff.2 ⟨d, ho⟩

/-- Whoever names a container is in the graph. -/
theorem contains_of_parent? {o : Op} {b : Block} (h : g.parent? o = some b) :
    g.ops.contains o = true := by
  obtain ⟨d, hd, -⟩ := Option.bind_eq_some_iff.1 h
  exact Table.contains_iff.2 ⟨d, hd⟩

theorem contains_of_owner? {b : Block} {r : Region} (h : g.owner? b = some r) :
    g.blocks.contains b = true := by
  obtain ⟨d, hd, -⟩ := Option.bind_eq_some_iff.1 h
  exact Table.contains_iff.2 ⟨d, hd⟩

theorem contains_of_holder? {r : Region} {o : Op} (h : g.holder? r = some o) :
    g.regions.contains r = true := by
  obtain ⟨d, hd, -⟩ := Option.bind_eq_some_iff.1 h
  exact Table.contains_iff.2 ⟨d, hd⟩

end Missing

end RegionIR.Graph
