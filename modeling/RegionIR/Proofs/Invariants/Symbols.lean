import RegionIR.Proofs.Graph.Creation
import RegionIR.Proofs.Graph.Erasure

/-!
# Symbol tables name symbols

A table is a reference that nothing points back to: an operation does not
know the tables that list it.  The invariant is kept because an operation
never changes the name it had when it was entered, and because an erasure
goes through the tables of all operations that stay.

## Main results

* `Graph.SymbolsNamed` — the invariant.
* `SymbolsNamed.setTable`, `SymbolsNamed.linkOp`, `SymbolsNamed.prune` — the
  changes that touch a table.
-/

namespace RegionIR.Graph

variable {V : Type}

/-- Every entry of a table names an operation that defines a symbol of that name. -/
structure SymbolsNamed (g : Graph V) : Prop where
  entry : ∀ {o t name s}, g.table? o = some t → t.find? name = some s →
    g.symbolName? s = some name

/-- Writes the symbol table of an operation. -/
def setTable (g : Graph V) (o : Op) (t : Table String Op) : Graph V :=
  g.modifyOp o fun d => { d with symbols := some t }

section Frames

variable (g : Graph V) (o : Op) (t : Table String Op)

@[simp] theorem slot?_setTable (u : Use) : (g.setTable o t).slot? u = g.slot? u :=
  slot?_modifyOp g (fun _ => by rfl) o u

@[simp] theorem parent?_setTable (o' : Op) : (g.setTable o t).parent? o' = g.parent? o' :=
  parent?_modifyOp g (fun _ => by rfl) o o'

@[simp] theorem regionsOf_setTable (o' : Op) :
    (g.setTable o t).regionsOf o' = g.regionsOf o' :=
  regionsOf_modifyOp g (fun _ => by rfl) o o'

@[simp] theorem resultsOf_setTable (o' : Op) :
    (g.setTable o t).resultsOf o' = g.resultsOf o' :=
  resultsOf_modifyOp g (fun _ => by rfl) o o'

@[simp] theorem symbolName?_setTable (o' : Op) :
    (g.setTable o t).symbolName? o' = g.symbolName? o' :=
  symbolName?_modifyOp g (fun _ => by rfl) (fun _ => by rfl) o o'

end Frames

theorem table?_setTable {g : Graph V} {o : Op} {t : Table String Op}
    (ht : g.table? o = some t) (t' : Table String Op) : (g.setTable o t').table? o = some t' := by
  obtain ⟨d, hd, -⟩ := Option.bind_eq_some_iff.1 ht
  simp [table?, setTable, Table.find?_modify, hd]

/-- To write the table that is there changes nothing. -/
theorem setTable_self {g : Graph V} {o : Op} {t : Table String Op} (ht : g.table? o = some t) :
    g.setTable o t = g := by
  obtain ⟨d, hd, hsymbols⟩ := Option.bind_eq_some_iff.1 ht
  have hops : (g.ops.modify o fun d => { d with symbols := some t }) = g.ops := by
    apply Table.ext_find?
    intro o'
    rw [Table.find?_modify]
    split
    · rename_i heq
      simp [heq, hd, ← hsymbols]
    · rfl
  unfold setTable modifyOp
  rw [hops]

/-- A table that was written is left as it was by writing the former table again. -/
theorem setTable_setTable {g : Graph V} {o : Op} {t : Table String Op}
    (ht : g.table? o = some t) (t' : Table String Op) : (g.setTable o t').setTable o t = g := by
  have hops : ((g.ops.modify o fun d => { d with symbols := some t' }).modify o
      fun d => { d with symbols := some t }) =
        g.ops.modify o fun d => { d with symbols := some t } := by
    apply Table.ext_find?
    intro o'
    rw [Table.find?_modify, Table.find?_modify, Table.find?_modify]
    by_cases h : o' = o
    · cases hd : g.ops.find? o <;> simp [h, hd]
    · rw [if_neg h, if_neg h, if_neg h]
  refine Eq.trans ?_ (setTable_self ht)
  unfold setTable modifyOp
  rw [hops]

namespace SymbolsNamed

variable {g g' : Graph V}

theorem empty : SymbolsNamed (Graph.empty : Graph V) where
  entry := by
    intro o t name s h
    cases h

/-- A change that keeps tables and the names of symbols keeps their agreement. -/
theorem congr (h : SymbolsNamed g) (htable : ∀ o, g'.table? o = g.table? o)
    (hname : ∀ o, g'.symbolName? o = g.symbolName? o) : SymbolsNamed g' where
  entry := by
    intro o t name s ht hs
    rw [htable] at ht
    rw [hname]
    exact h.entry ht hs

/-- A table of symbols under their names may be written. -/
theorem setTable (h : SymbolsNamed g) {t : Table String Op}
    (ht : ∀ {name s}, t.find? name = some s → g.symbolName? s = some name) (o : Op) :
    SymbolsNamed (g.setTable o t) where
  entry := by
    intro o' t' name s ht' hs
    rw [symbolName?_setTable]
    simp only [Graph.setTable, table?, ops_modifyOp, Table.find?_modify] at ht'
    by_cases heq : o' = o
    · rw [if_pos heq] at ht'
      obtain ⟨d, -, hd⟩ := Option.bind_eq_some_iff.1 (Option.bind_map.symm.trans ht')
      cases hd
      exact ht hs
    · rw [if_neg heq] at ht'
      exact h.entry ht' hs

/-- An operation that defines a symbol may be entered under its name. -/
theorem insertSymbol (h : SymbolsNamed g) {o s : Op} {t : Table String Op} {name : String}
    (ht : g.table? o = some t) (hs : g.symbolName? s = some name) :
    SymbolsNamed (g.setTable o (t.insert name s)) := by
  refine h.setTable (fun {name' s'} hfind => ?_) o
  rw [Table.find?_insert] at hfind
  split at hfind
  · rename_i heq
    cases hfind
    rw [hs, heq]
  · exact h.entry ht hfind

theorem removeSymbol (h : SymbolsNamed g) {o : Op} {t : Table String Op}
    (ht : g.table? o = some t) (name : String) : SymbolsNamed (g.setTable o (t.erase name)) := by
  refine h.setTable (fun {name' s'} hfind => ?_) o
  rw [Table.find?_erase] at hfind
  split at hfind
  · cases hfind
  · exact h.entry ht hfind

/-- A new operation has no entries in its table, and is in no table. -/
theorem linkOp (h : SymbolsNamed g) {o : Op} {d : OpData V} (ho : g.ops.find? o = none)
    (hempty : ∀ t, d.symbols = some t → t = .empty) : SymbolsNamed (g.linkOp o d) where
  entry := by
    intro o' t name s ht hs
    have hfind : ∀ x, (g.linkOp o d).ops.find? x = if o = x then some d else g.ops.find? x :=
      fun x => Table.find?_insert g.ops o x d
    rw [table?, hfind] at ht
    by_cases heq : o = o'
    · rw [if_pos heq] at ht
      rw [hempty t ht] at hs
      cases hs
    · rw [if_neg heq] at ht
      have hname := h.entry ht hs
      have hne : o ≠ s := by
        rintro rfl
        rw [symbolName?, ho] at hname
        cases hname
      rw [symbolName?, hfind, if_neg hne]
      exact hname

/-- The tables that stay lose the symbols that go. -/
theorem prune (h : SymbolsNamed g) (o : Op) (t : Subtree) (produced : List Value) :
    SymbolsNamed (g.prune o t produced) where
  entry := by
    intro o' table name s htable hs
    rw [table?, find?_ops_prune] at htable
    split at htable
    · cases htable
    · rw [Option.bind_map] at htable
      obtain ⟨d, hd, hmap⟩ := Option.bind_eq_some_iff.1 htable
      obtain ⟨table₀, htable₀, rfl⟩ := Option.map_eq_some_iff.1 hmap
      rw [Table.find?_filterValues, Option.filter_eq_some_iff] at hs
      obtain ⟨hs, hstays⟩ := hs
      have hname := h.entry ((table?_eq hd).trans htable₀) hs
      rw [symbolName?, find?_ops_prune, if_neg (of_decide_eq_true hstays), Option.bind_map]
      exact hname

end SymbolsNamed

end RegionIR.Graph
