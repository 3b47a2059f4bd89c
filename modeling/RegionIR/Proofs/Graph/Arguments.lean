import RegionIR.Proofs.Graph.Views

/-!
# Inserting and removing arguments

An argument knows its position, so an insertion or a removal writes the
positions of the arguments that move.  Only these are written: an insertion
renumbers from the position after the new argument, a removal from the
position that was freed.

## Main results

* `Graph.origin?_renumber_of_getElem?`, `Graph.origin?_renumber_of_ne` — the
  renumbering writes the stated positions and no others.
* `Graph.argsOf_putArgument`, `Graph.argsOf_dropArgument` — the argument list.
* `Graph.find?_putArgument`, `Graph.find?_dropArgument` — a value keeps all but its origin.
-/

namespace RegionIR.Graph

variable {V : Type}

/-- Writes the positions of the arguments from a position on. -/
def renumber (g : Graph V) (b : Block) (start : Nat) (args : List Value) : Graph V :=
  { g with
    values := (args.zipIdx.drop start).foldl
      (fun values a => values.modify a.1 fun d => d.withOrigin (.argument (some b) (some a.2)))
      g.values }

/-- Inserts a new argument at a position of a block. -/
def putArgument (g : Graph V) (b : Block) (i : Nat) (arg : Value) (ty : Ty) : Graph V :=
  let d : ValueData := { ty := ty, origin := .argument (some b) (some i) }
  ({ g with values := g.values.insert arg d }.modifyBlock b
    fun d => { d with args := d.args.insertIdx i arg }).renumber b (i + 1)
      ((g.argsOf b).insertIdx i arg)

/-- Detaches the argument at a position of a block. -/
def dropArgument (g : Graph V) (b : Block) (i : Nat) (arg : Value) : Graph V :=
  ((g.modifyBlock b fun d => { d with args := d.args.eraseIdx i }).modifyValue arg
    fun d => d.withOrigin (.argument none none)).renumber b i ((g.argsOf b).eraseIdx i)

/-! ## The renumbering -/

private theorem mem_drop_zipIdx {args : List Value} {start : Nat} {a : Value × Nat} :
    a ∈ args.zipIdx.drop start ↔ start ≤ a.2 ∧ args[a.2]? = some a.1 := by
  rw [List.mem_iff_getElem?]
  constructor
  · rintro ⟨j, hj⟩
    rw [List.getElem?_drop, List.getElem?_zipIdx] at hj
    obtain ⟨v, hv, rfl⟩ := Option.map_eq_some_iff.1 hj
    exact ⟨by simp, by simpa using hv⟩
  · rintro ⟨hle, ha⟩
    refine ⟨a.2 - start, ?_⟩
    rw [List.getElem?_drop, List.getElem?_zipIdx, show start + (a.2 - start) = a.2 by omega, ha]
    simp

private theorem origin_foldl_withOrigin {b : Block} {k : Nat} {l : List (Value × Nat)}
    (hne : l ≠ []) (hk : ∀ a ∈ l, a.2 = k) (d : ValueData) :
    (l.foldl (fun d a => d.withOrigin (.argument (some b) (some a.2))) d).origin =
      .argument (some b) (some k) := by
  induction l generalizing d with
  | nil => exact absurd rfl hne
  | cons a rest ih =>
      rw [List.foldl_cons]
      by_cases hrest : rest = []
      · subst hrest
        rw [List.foldl_nil, ValueData.withOrigin, hk a List.mem_cons_self]
      · exact ih hrest (fun a' ha' => hk a' (List.mem_cons_of_mem a ha')) _

/-- An argument at a position that is written says that position. -/
theorem origin?_renumber_of_getElem? {g : Graph V} {args : List Value} (hnodup : args.Nodup)
    {start k : Nat} {v : Value} (hk : args[k]? = some v) (hstart : start ≤ k)
    (hv : g.values.contains v = true) (b : Block) :
    (g.renumber b start args).origin? v = some (.argument (some b) (some k)) := by
  obtain ⟨d, hd⟩ := Table.contains_iff.1 hv
  have hmem : (v, k) ∈ (args.zipIdx.drop start).filter fun a => a.1 = v :=
    List.mem_filter.2 ⟨mem_drop_zipIdx.2 ⟨hstart, hk⟩, by simp⟩
  have hall : ∀ a ∈ (args.zipIdx.drop start).filter (fun a => a.1 = v), a.2 = k := by
    intro a ha
    obtain ⟨hdrop, heq⟩ := List.mem_filter.1 ha
    have hget := (mem_drop_zipIdx.1 hdrop).2
    rw [of_decide_eq_true heq] at hget
    have hlt := (List.getElem?_eq_some_iff.1 hget).1
    exact (List.getElem?_inj hlt hnodup).1 (hget.trans hk.symm)
  unfold origin? renumber
  rw [Table.find?_foldl_modify, hd, Option.map_some, Option.map_some,
    origin_foldl_withOrigin (List.ne_nil_of_mem hmem) hall]

/-- A value at no position that is written keeps its entry. -/
theorem find?_renumber_of_ne {args : List Value} {start : Nat} {v : Value}
    (h : ∀ k, start ≤ k → args[k]? ≠ some v) (g : Graph V) (b : Block) :
    (g.renumber b start args).values.find? v = g.values.find? v := by
  unfold renumber
  rw [Table.find?_foldl_modify_of_ne]
  intro a ha heq
  obtain ⟨hle, hget⟩ := mem_drop_zipIdx.1 ha
  exact h a.2 hle (heq ▸ hget)

theorem origin?_renumber_of_ne {args : List Value} {start : Nat} {v : Value}
    (h : ∀ k, start ≤ k → args[k]? ≠ some v) (g : Graph V) (b : Block) :
    (g.renumber b start args).origin? v = g.origin? v := by
  rw [origin?, find?_renumber_of_ne h, origin?]

private theorem foldl_withOrigin (b : Block) (l : List (Value × Nat)) (d : ValueData) :
    ∃ origin, l.foldl (fun d a => d.withOrigin (.argument (some b) (some a.2))) d =
      d.withOrigin origin := by
  induction l generalizing d with
  | nil => exact ⟨d.origin, rfl⟩
  | cons a rest ih =>
      obtain ⟨origin, horigin⟩ := ih (d.withOrigin (.argument (some b) (some a.2)))
      exact ⟨origin, horigin⟩

/-- Whatever positions are written, nothing but the origin of a value changes. -/
theorem find?_renumber {g : Graph V} {v : Value} {d : ValueData} (h : g.values.find? v = some d)
    (b : Block) (start : Nat) (args : List Value) :
    ∃ origin, (g.renumber b start args).values.find? v = some (d.withOrigin origin) := by
  obtain ⟨origin, horigin⟩ :=
    foldl_withOrigin b ((args.zipIdx.drop start).filter fun a => a.1 = v) d
  refine ⟨origin, ?_⟩
  unfold renumber
  rw [Table.find?_foldl_modify, h, Option.map_some, horigin]

/-- Where the positions below `start` were right, all positions are right in the end. -/
theorem origin?_renumber {g : Graph V} {b : Block} {args : List Value} {start : Nat}
    (hnodup : args.Nodup) (hlive : ∀ v ∈ args, g.values.contains v = true)
    (hbelow : ∀ {k v}, k < start → args[k]? = some v →
      g.origin? v = some (.argument (some b) (some k)))
    {k : Nat} {v : Value} (hk : args[k]? = some v) :
    (g.renumber b start args).origin? v = some (.argument (some b) (some k)) := by
  by_cases hstart : start ≤ k
  · exact origin?_renumber_of_getElem? hnodup hk hstart (hlive v (List.mem_of_getElem? hk)) b
  · rw [origin?_renumber_of_ne]
    · exact hbelow (by omega) hk
    · intro k' hk' heq
      have hlt := (List.getElem?_eq_some_iff.1 hk).1
      have hkk : k = k' := (List.getElem?_inj hlt hnodup).1 (hk.trans heq.symm)
      omega

theorem uses?_renumber (g : Graph V) (b : Block) (start : Nat) (args : List Value) (v : Value) :
    (g.renumber b start args).uses? v = g.uses? v := by
  unfold uses? renumber
  exact Table.map_find?_foldl_modify (fun a d => by rw [ValueData.withOrigin]) g.values v

theorem contains_values_renumber (g : Graph V) (b : Block) (start : Nat) (args : List Value)
    (v : Value) : (g.renumber b start args).values.contains v = g.values.contains v := by
  have h := uses?_renumber g b start args v
  have hsome := congrArg Option.isSome h
  rwa [uses?, uses?, Option.isSome_map, Option.isSome_map] at hsome

/-! ## Insertion -/

theorem argsOf_putArgument {g : Graph V} {b : Block} (hb : g.blocks.contains b = true) (i : Nat)
    (arg : Value) (ty : Ty) (b' : Block) :
    (g.putArgument b i arg ty).argsOf b' =
      if b' = b then (g.argsOf b).insertIdx i arg else g.argsOf b' := by
  obtain ⟨d, hd⟩ := Table.contains_iff.1 hb
  show (((g.blocks.modify b fun d => { d with args := d.args.insertIdx i arg }).find? b').map
    (·.args)).getD [] = _
  rw [Table.find?_modify]
  by_cases h : b' = b
  · subst h
    simp [hd, argsOf]
  · rw [if_neg h, if_neg h, argsOf]

/-- An argument at the end needs no renumbering. -/
theorem putArgument_length {g : Graph V} {b : Block} {d : BlockData}
    (hd : g.blocks.find? b = some d) (arg : Value) (ty : Ty) :
    g.putArgument b d.args.length arg ty =
      ({ g with values := (g.values.insert arg
        { ty := ty, origin := .argument (some b) (some d.args.length) }) } : Graph V).modifyBlock b
        fun d => { d with args := d.args ++ [arg] } := by
  have hblocks :
      (g.blocks.modify b fun e => { e with args := e.args.insertIdx d.args.length arg }) =
        g.blocks.modify b fun e => { e with args := e.args ++ [arg] } := by
    refine Table.modify_congr fun e he => ?_
    cases hd.symm.trans he
    rw [List.insertIdx_length_self]
  have hdrop : ((g.argsOf b).insertIdx d.args.length arg).zipIdx.drop (d.args.length + 1) = [] := by
    rw [argsOf_eq hd, List.insertIdx_length_self]
    apply List.drop_of_length_le
    simp
  unfold putArgument renumber modifyBlock
  rw [hdrop]
  simp only [hblocks, List.foldl_nil]

theorem find?_modifyBlock_self {g : Graph V} {b : Block} {d : BlockData}
    (hd : g.blocks.find? b = some d) (f : BlockData → BlockData) :
    (g.modifyBlock b f).blocks.find? b = some (f d) := by
  rw [blocks_modifyBlock, Table.find?_modify, if_pos rfl, hd, Option.map_some]

theorem argsOf_modifyBlock_self {g : Graph V} {b : Block} {d : BlockData}
    (hd : g.blocks.find? b = some d) (f : BlockData → BlockData) :
    (g.modifyBlock b f).argsOf b = (f d).args :=
  argsOf_eq (find?_modifyBlock_self hd f)

theorem uses?_putArgument (g : Graph V) (b : Block) (i : Nat) (arg : Value) (ty : Ty)
    (v : Value) :
    (g.putArgument b i arg ty).uses? v = if v = arg then some [] else g.uses? v := by
  unfold putArgument
  rw [uses?_renumber]
  show ((g.values.insert arg _).find? v).map (·.uses) = _
  rw [Table.find?_insert]
  by_cases h : v = arg
  · rw [if_pos h.symm, if_pos h]
    rfl
  · rw [if_neg (Ne.symm h), if_neg h, uses?]

/-- The graph with a new argument before the renumbering has one value more. -/
private theorem origin?_insert_value (g : Graph V) (arg : Value) (d : ValueData) (b : Block)
    (f : BlockData → BlockData) (v : Value) :
    ({ g with values := g.values.insert arg d }.modifyBlock b f).origin? v =
      if v = arg then some d.origin else g.origin? v := by
  show ((g.values.insert arg d).find? v).map (·.origin) = _
  rw [Table.find?_insert]
  by_cases hv : v = arg
  · rw [if_pos hv.symm, if_pos hv]
    rfl
  · rw [if_neg (Ne.symm hv), if_neg hv, origin?]

/-- If the arguments said their positions, then so they do with a new one among them. -/
theorem origin?_putArgument {g : Graph V} {b : Block} {i : Nat} {arg : Value}
    (hnodup : ((g.argsOf b).insertIdx i arg).Nodup)
    (hright : ∀ {k v}, (g.argsOf b)[k]? = some v →
      g.origin? v = some (.argument (some b) (some k)))
    (hi : i ≤ (g.argsOf b).length) (ty : Ty) {k : Nat} {v : Value}
    (hk : ((g.argsOf b).insertIdx i arg)[k]? = some v) :
    (g.putArgument b i arg ty).origin? v = some (.argument (some b) (some k)) := by
  refine origin?_renumber hnodup (fun v hv => ?_) (fun {k v} hlt hk => ?_) hk
  · rw [contains_values_iff_origin?, origin?_insert_value]
    split
    · exact ⟨_, rfl⟩
    · rename_i hne
      rcases (List.mem_insertIdx hi).1 hv with heq | hv
      · exact absurd heq hne
      · obtain ⟨j, hj⟩ := List.mem_iff_getElem?.1 hv
        exact ⟨_, hright hj⟩
  · rw [origin?_insert_value]
    by_cases heq : k = i
    · subst heq
      rw [List.getElem?_insertIdx_self, if_pos hi] at hk
      rw [if_pos (Option.some.inj hk).symm]
    · have hself : ((g.argsOf b).insertIdx i arg)[i]? = some arg := by
        rw [List.getElem?_insertIdx_self, if_pos hi]
      have hlen := (List.getElem?_eq_some_iff.1 hk).1
      have hne : v ≠ arg := fun hv =>
        heq ((List.getElem?_inj hlen hnodup).1 (hk.trans (hv ▸ hself.symm)))
      rw [List.getElem?_insertIdx_of_lt (by omega)] at hk
      rw [if_neg hne, hright hk]

/-- The new argument is used by nobody, and no position is written a second time. -/
theorem find?_putArgument_self {g : Graph V} {b : Block} {i : Nat} {arg : Value}
    (hnodup : ((g.argsOf b).insertIdx i arg).Nodup) (hi : i ≤ (g.argsOf b).length) (ty : Ty) :
    (g.putArgument b i arg ty).values.find? arg =
      some { ty := ty, origin := .argument (some b) (some i), uses := [] } := by
  have hself : ((g.argsOf b).insertIdx i arg)[i]? = some arg := by
    rw [List.getElem?_insertIdx_self, if_pos hi]
  have hlt := (List.getElem?_eq_some_iff.1 hself).1
  unfold putArgument
  rw [find?_renumber_of_ne]
  · rw [values_modifyBlock, Table.find?_insert, if_pos rfl]
  · intro k hk hget
    have heq : i = k := (List.getElem?_inj hlt hnodup).1 (hself.trans hget.symm)
    omega

/-- A value keeps its type and its uses, whether it is renumbered or not. -/
theorem find?_putArgument {g : Graph V} {arg v : Value} {d : ValueData} (hne : v ≠ arg)
    (hd : g.values.find? v = some d) (b : Block) (i : Nat) (ty : Ty) :
    ∃ origin, (g.putArgument b i arg ty).values.find? v = some (d.withOrigin origin) := by
  refine find?_renumber ?_ b (i + 1) _
  rw [values_modifyBlock, Table.find?_insert, if_neg (Ne.symm hne), hd]

theorem find?_putArgument_of_not_mem {g : Graph V} {b : Block} {i : Nat} {arg v : Value}
    (hi : i ≤ (g.argsOf b).length) (hv : v ∉ (g.argsOf b).insertIdx i arg) (ty : Ty) :
    (g.putArgument b i arg ty).values.find? v = g.values.find? v := by
  have hne : arg ≠ v := fun heq => hv (heq ▸ (List.mem_insertIdx hi).2 (Or.inl rfl))
  unfold putArgument
  rw [find?_renumber_of_ne fun k _ hk => hv (List.mem_of_getElem? hk), values_modifyBlock,
    Table.find?_insert, if_neg hne]

theorem origin?_putArgument_of_not_mem {g : Graph V} {b : Block} {i : Nat} {arg : Value}
    (hi : i ≤ (g.argsOf b).length) (ty : Ty) {v : Value}
    (hv : v ∉ (g.argsOf b).insertIdx i arg) :
    (g.putArgument b i arg ty).origin? v = g.origin? v := by
  rw [origin?, find?_putArgument_of_not_mem hi hv, origin?]

/-! ## Removal -/

theorem argsOf_dropArgument (g : Graph V) (b : Block) (i : Nat) (arg : Value) (b' : Block) :
    (g.dropArgument b i arg).argsOf b' =
      if b' = b then (g.argsOf b).eraseIdx i else g.argsOf b' := by
  show (((g.blocks.modify b fun d => { d with args := d.args.eraseIdx i }).find? b').map
    (·.args)).getD [] = _
  rw [Table.find?_modify]
  by_cases h : b' = b
  · subst h
    rw [if_pos rfl, if_pos rfl, argsOf]
    cases g.blocks.find? b' <;> simp
  · rw [if_neg h, if_neg h, argsOf]

/-- The other arguments stay. -/
theorem mem_eraseIdx_iff {l : List Value} (hnodup : l.Nodup) {i : Nat} {arg v : Value}
    (harg : l[i]? = some arg) : v ∈ l.eraseIdx i ↔ v ≠ arg ∧ v ∈ l := by
  have hlt := (List.getElem?_eq_some_iff.1 harg).1
  rw [List.mem_eraseIdx_iff_getElem?]
  constructor
  · rintro ⟨k, hk, hget⟩
    refine ⟨fun heq => hk ?_, List.mem_of_getElem? hget⟩
    exact ((List.getElem?_inj hlt hnodup).1 (harg.trans (heq ▸ hget).symm)).symm
  · rintro ⟨hne, hv⟩
    obtain ⟨k, hk⟩ := List.mem_iff_getElem?.1 hv
    refine ⟨k, fun heq => hne ?_, hk⟩
    subst heq
    exact Option.some.inj (hk.symm.trans harg)

/-- The graph with an argument taken out before the renumbering differs in its origin. -/
private theorem origin?_detached {g : Graph V} {arg : Value}
    (hlive : g.values.contains arg = true) (b : Block) (f : BlockData → BlockData) (v : Value) :
    ((g.modifyBlock b f).modifyValue arg fun d => d.withOrigin (.argument none none)).origin? v =
      if v = arg then some (.argument none none) else g.origin? v := by
  obtain ⟨d, hd⟩ := Table.contains_iff.1 hlive
  show ((g.values.modify arg _).find? v).map (·.origin) = _
  rw [Table.find?_modify]
  by_cases hv : v = arg
  · rw [if_pos hv, if_pos hv, hv, hd]
    rfl
  · rw [if_neg hv, if_neg hv, origin?]

/-- If the arguments said their positions, then so do those that are left. -/
theorem origin?_dropArgument {g : Graph V} {b : Block} {i : Nat} {arg : Value}
    (hnodup : (g.argsOf b).Nodup)
    (hright : ∀ {k v}, (g.argsOf b)[k]? = some v →
      g.origin? v = some (.argument (some b) (some k)))
    (harg : (g.argsOf b)[i]? = some arg) {k : Nat} {v : Value}
    (hk : ((g.argsOf b).eraseIdx i)[k]? = some v) :
    (g.dropArgument b i arg).origin? v = some (.argument (some b) (some k)) := by
  have hlive : g.values.contains arg = true := contains_values_iff_origin?.2 ⟨_, hright harg⟩
  refine origin?_renumber (hnodup.eraseIdx i) (fun v hv => ?_) (fun {k v} hlt hk => ?_) hk
  · obtain ⟨hne, hold⟩ := (mem_eraseIdx_iff hnodup harg).1 hv
    obtain ⟨j, hj⟩ := List.mem_iff_getElem?.1 hold
    rw [contains_values_iff_origin?, origin?_detached hlive, if_neg hne]
    exact ⟨_, hright hj⟩
  · obtain ⟨hne, -⟩ := (mem_eraseIdx_iff hnodup harg).1 (List.mem_of_getElem? hk)
    rw [List.getElem?_eraseIdx_of_lt hlt] at hk
    rw [origin?_detached hlive, if_neg hne, hright hk]

theorem origin?_dropArgument_of_not_mem {g : Graph V} {b : Block} {i : Nat} {arg v : Value}
    (hlive : g.values.contains arg = true) (hv : v ∉ (g.argsOf b).eraseIdx i) :
    (g.dropArgument b i arg).origin? v =
      if v = arg then some (.argument none none) else g.origin? v := by
  unfold dropArgument
  rw [origin?_renumber_of_ne fun k _ hk => hv (List.mem_of_getElem? hk), origin?_detached hlive]

/-- The argument that is taken out forgets its position and nothing else. -/
theorem find?_dropArgument_self {g : Graph V} {b : Block} {i : Nat} {arg : Value}
    (hnodup : (g.argsOf b).Nodup) (harg : (g.argsOf b)[i]? = some arg) :
    (g.dropArgument b i arg).values.find? arg =
      (g.values.find? arg).map fun d => d.withOrigin (.argument none none) := by
  have hnot : arg ∉ (g.argsOf b).eraseIdx i :=
    fun hmem => ((mem_eraseIdx_iff hnodup harg).1 hmem).1 rfl
  unfold dropArgument
  rw [find?_renumber_of_ne fun k _ hk => hnot (List.mem_of_getElem? hk), values_modifyValue,
    Table.find?_modify, if_pos rfl, values_modifyBlock]

theorem find?_dropArgument {g : Graph V} {v : Value} {d : ValueData}
    (hd : g.values.find? v = some d) (b : Block) (i : Nat) (arg : Value) :
    ∃ origin, (g.dropArgument b i arg).values.find? v = some (d.withOrigin origin) := by
  unfold dropArgument
  by_cases hv : v = arg
  · have hdetached : ((g.modifyBlock b fun d => { d with args := d.args.eraseIdx i }).modifyValue
        arg fun d => d.withOrigin (.argument none none)).values.find? v =
          some (d.withOrigin (.argument none none)) := by
      rw [values_modifyValue, Table.find?_modify, if_pos hv, values_modifyBlock, hd,
        Option.map_some]
    exact find?_renumber hdetached b i _
  · refine find?_renumber ?_ b i _
    rw [values_modifyValue, Table.find?_modify, if_neg hv, values_modifyBlock, hd]

theorem find?_dropArgument_of_not_mem {g : Graph V} {b : Block} {i : Nat} {arg v : Value}
    (harg : (g.argsOf b)[i]? = some arg) (hv : v ∉ g.argsOf b) :
    (g.dropArgument b i arg).values.find? v = g.values.find? v := by
  have hne : v ≠ arg := fun heq => hv (heq ▸ List.mem_of_getElem? harg)
  have hnot : v ∉ (g.argsOf b).eraseIdx i := fun hmem => hv (List.mem_of_mem_eraseIdx hmem)
  unfold dropArgument
  rw [find?_renumber_of_ne fun k _ hk => hnot (List.mem_of_getElem? hk), values_modifyValue,
    Table.find?_modify, if_neg hne, values_modifyBlock]

theorem uses?_dropArgument (g : Graph V) (b : Block) (i : Nat) (arg v : Value) :
    (g.dropArgument b i arg).uses? v = g.uses? v := by
  unfold dropArgument
  rw [uses?_renumber, uses?_modifyValue _ fun d => by rw [ValueData.withOrigin]]
  rfl

/-! ## What both leave alone -/

section Frames

variable (g : Graph V) (b : Block) (i : Nat) (arg : Value) (ty : Ty)

@[simp] theorem opsIn_putArgument (b' : Block) :
    (g.putArgument b i arg ty).opsIn b' = g.opsIn b' :=
  opsIn_modifyBlock { g with values := _ } (fun _ => by rfl) b b'

@[simp] theorem owner?_putArgument (b' : Block) :
    (g.putArgument b i arg ty).owner? b' = g.owner? b' :=
  owner?_modifyBlock { g with values := _ } (fun _ => by rfl) b b'

@[simp] theorem opsIn_dropArgument (b' : Block) :
    (g.dropArgument b i arg).opsIn b' = g.opsIn b' :=
  opsIn_modifyBlock g (fun _ => by rfl) b b'

@[simp] theorem owner?_dropArgument (b' : Block) :
    (g.dropArgument b i arg).owner? b' = g.owner? b' :=
  owner?_modifyBlock g (fun _ => by rfl) b b'

end Frames

end RegionIR.Graph
