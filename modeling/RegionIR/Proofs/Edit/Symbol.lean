import RegionIR.Edit.Symbol
import RegionIR.Proofs.Edit.Basic

/-!
# Edits of symbol tables

A symbol is entered under the name it has, so the entry is right when it is
made.  Dropping a name needs no condition.

## Main results

* `ends_insertSymbol`, `ends_removeSymbol` — where the edits end.
* `atomicFrom_insertSymbol`, `atomicFrom_removeSymbol`
* `faultless_insertSymbol`, `faultless_removeSymbol`
-/

namespace RegionIR.Edit

open RegionIR.Action

variable {V : Type} {s : Store V} {refused : EditError → Store V → Prop}

theorem ends_symbolTable {o : Op} {done : Table String Op → Store V → Prop}
    (hdone : ∀ t, s.graph.table? o = some t → done t s)
    (hrefused : s.graph.table? o = none → ∀ e, refused e s) :
    ((symbolTable o).run s).Ends done refused := by
  rw [symbolTable, ends_bind, ends_ask]
  intro d hd
  have htable := Graph.table?_eq (Table.demand_eq_ok_iff.1 hd)
  cases ht : d.symbols with
  | none => exact hrefused (htable.trans ht) _
  | some t => exact hdone t (htable.trans ht)

/-- A symbol is entered under its name unless the name is bound. -/
theorem ends_insertSymbol {table symbol : Op} {done : Unit → Store V → Prop}
    (hdone : ∀ t name, s.graph.table? table = some t → s.graph.symbolName? symbol = some name →
      t.find? name = none → done () ⟨s.graph.setTable table (t.insert name symbol), s.next⟩)
    (hrefused : (∀ t name, s.graph.table? table = some t →
      s.graph.symbolName? symbol = some name → t.find? name ≠ none) → ∀ e, refused e s) :
    ((insertSymbol table symbol).run s).Ends done refused := by
  rw [insertSymbol, ends_bind, ends_ask]
  intro d hd
  have hname := Graph.symbolName?_eq (Table.demand_eq_ok_iff.1 hd)
  cases hsymbol : if d.hasTrait .symbol then d.symbolName? else none with
  | none =>
      refine hrefused (fun t name _ hnamed => ?_) _
      cases (hname.trans hsymbol).symm.trans hnamed
  | some name =>
      have hnamed := hname.trans hsymbol
      dsimp only
      rw [ends_bind]
      refine ends_symbolTable (fun t ht => ?_) fun hno => hrefused fun t _ ht => ?_
      · cases hfind : t.find? name with
        | some existing =>
            refine hrefused (fun t' name' ht' hnamed' => ?_) _
            cases ht.symm.trans ht'
            cases hnamed.symm.trans hnamed'
            rw [hfind]
            exact Option.some_ne_none existing
        | none =>
            dsimp only
            rw [ends_updateOp]
            exact fun _ => hdone t name ht hnamed hfind
      · cases hno.symm.trans ht

theorem ends_removeSymbol {table : Op} {name : String} {done : Option Op → Store V → Prop}
    (hdone : ∀ t, s.graph.table? table = some t →
      done (t.find? name) ⟨s.graph.setTable table (t.erase name), s.next⟩)
    (hrefused : s.graph.table? table = none → ∀ e, refused e s) :
    ((removeSymbol table name).run s).Ends done refused := by
  rw [removeSymbol, ends_bind]
  refine ends_symbolTable (fun t ht => ?_) hrefused
  rw [ends_bind, ends_updateOp]
  exact fun _ => hdone t ht

theorem atomicFrom_insertSymbol (table symbol : Op) :
    AtomicFrom (insertSymbol table symbol) s := by
  refine ends_insertSymbol (fun t name ht hname _ => ?_) fun _ _ => .refl s
  exact Store.Leads.change (.refl s) (.insertSymbol ht hname)

theorem atomicFrom_removeSymbol (table : Op) (name : String) :
    AtomicFrom (removeSymbol table name) s := by
  refine ends_removeSymbol (fun t ht => ?_) fun _ _ => .refl s
  exact Store.Leads.change (.refl s) (.removeSymbol name ht)

/-! ## Edits that meet no fault -/

theorem faultless_symbolTable {o : Op} (ho : s.graph.ops.contains o = true) :
    ((symbolTable o).run s).Faultless := by
  obtain ⟨d, hd⟩ := Table.contains_iff.1 ho
  rw [symbolTable, faultless_ask_bind (Table.demand_eq_ok_iff.2 hd)]
  cases d.symbols <;> trivial

theorem faultless_insertSymbol {table symbol : Op} (htable : s.graph.ops.contains table = true)
    (hsymbol : s.graph.ops.contains symbol = true) :
    ((insertSymbol table symbol).run s).Faultless := by
  obtain ⟨d, hd⟩ := Table.contains_iff.1 hsymbol
  rw [insertSymbol, faultless_ask_bind (Table.demand_eq_ok_iff.2 hd)]
  cases if d.hasTrait .symbol then d.symbolName? else none with
  | none => trivial
  | some name =>
      dsimp only
      rw [faultless_bind]
      refine ⟨faultless_symbolTable htable, ends_symbolTable (fun t _ => ?_) fun _ _ => trivial⟩
      cases t.find? name with
      | some existing => trivial
      | none => exact (faultless_updateOp table _).2 htable

theorem faultless_removeSymbol {table : Op} (htable : s.graph.ops.contains table = true)
    (name : String) : ((removeSymbol table name).run s).Faultless := by
  rw [removeSymbol, faultless_bind]
  refine ⟨faultless_symbolTable htable, ends_symbolTable (fun t _ => ?_) fun _ _ => trivial⟩
  rw [faultless_bind_pure, faultless_updateOp]
  exact htable

end RegionIR.Edit
