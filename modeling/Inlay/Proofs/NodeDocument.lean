import Inlay.Source.Document

namespace Inlay.Source.Draft

open Toml

section Tables

theorem get?_cons (k key : String) (v : Value) (rest : Table) :
    Table.get? ((k, v) :: rest) key = if k = key then some v else Table.get? rest key := by
  by_cases h : k = key <;> simp [Table.get?, h]

theorem get?_erase_of_ne {t : Table} {key name : String} (h : key ≠ name) :
    (t.erase name).get? key = t.get? key := by
  induction t with
  | nil => rfl
  | cons e rest ih =>
    obtain ⟨k, v⟩ := e
    by_cases hk : k = name
    · subst hk
      have hne : ¬k = key := fun e => h e.symm
      simp only [Table.erase, List.filter_cons, bne_self_eq_false, Bool.false_eq_true, if_false]
      rw [get?_cons, if_neg hne]
      exact ih
    · simp only [Table.erase, List.filter_cons, bne_iff_ne, ne_eq, hk, not_false_eq_true,
        if_true]
      rw [get?_cons, get?_cons]
      split
      · rfl
      · exact ih

/-- A value stored in a table is smaller than the table. -/
theorem sizeOf_lt_of_get? {t : Table} {key : String} {v : Value} (h : t.get? key = some v) :
    sizeOf v < sizeOf t := by
  obtain ⟨e, he, rfl⟩ := Option.map_eq_some_iff.1 h
  have hmem := List.mem_of_find?_eq_some he
  have hlt := List.sizeOf_lt_of_mem hmem
  obtain ⟨k, v⟩ := e
  simp only [Prod.mk.sizeOf_spec] at hlt ⊢
  omega

theorem sizeOf_items_lt {t : Table} {key : String} {items : List Value}
    (h : t.get? key = some (.array items)) : sizeOf items < sizeOf t := by
  have := sizeOf_lt_of_get? h
  simp only [Value.array.sizeOf_spec] at this
  omega

end Tables

/-- The string stored under `name`, if the entry is a string. -/
def stringAt (t : Table) (name : String) : Option String :=
  match t.get? name with
  | some (.string s) => some s
  | _ => none

/-- The faults of a table as a node of its own, in the order they are checked: a `type` that is
missing or not a string, then a `model` that is not a string. -/
def headFaults (t : Table) : List NodeFault :=
  (match t.get? "type" with
    | some (.string _) => []
    | some _ => [.typeNotString]
    | none => [.typeMissing]) ++
  (match t.get? "model" with
    | some (.string _) => []
    | some _ => [.modelNotString]
    | none => [])

mutual

/-- Every fault of the document made of table `t`, found at `at_`, in pre-order: the table's own
faults, then those of its children. -/
def faults (key : String) (at_ : Path) (t : Table) : List (Path × NodeFault) :=
  (headFaults t).map (at_, ·) ++ childFaults key at_ t
termination_by (sizeOf t, 1)

/-- The faults of the children that table `t` at `at_` lists: an entry under `key` that is not
an array, or else the faults of its items. -/
def childFaults (key : String) (at_ : Path) (t : Table) : List (Path × NodeFault) :=
  match h : t.get? key with
  | some (.array items) => itemFaults key at_ 0 items
  | some _ => [(at_, .childrenNotArray)]
  | none => []
termination_by (sizeOf t, 0)
decreasing_by exact Prod.Lex.left _ _ (sizeOf_items_lt h)

/-- The faults of the items of an array of children, the first of them at `index`: a table's
faults at its own path, and an item that is no table at the path of the table that lists it. -/
def itemFaults (key : String) (at_ : Path) (index : Nat) : List Value → List (Path × NodeFault)
  | [] => []
  | .table u :: rest =>
    faults key ((at_.child key).listChild index) u ++ itemFaults key at_ (index + 1) rest
  | _ :: rest => (at_, .childNotTable) :: itemFaults key at_ (index + 1) rest
termination_by items => (sizeOf items, 2)
decreasing_by
  · exact Prod.Lex.left _ _ (by simp only [List.cons.sizeOf_spec, Value.table.sizeOf_spec]; omega)
  · exact Prod.Lex.left _ _ (by simp only [List.cons.sizeOf_spec]; omega)
  · exact Prod.Lex.left _ _ (by simp only [List.cons.sizeOf_spec]; omega)

end

mutual

/-- The node a table describes, read without checks: its type (empty when it has none), its
model, the table without `type`, `model` and the children's entry as payload, and the nodes of
the tables among its children. -/
def mirror (key : String) (t : Table) : Draft :=
  .mk ((stringAt t "type").getD "") (stringAt t "model")
    (((t.erase "type").erase "model").erase key) (mirrorChildren key t)
termination_by (sizeOf t, 1)

/-- The nodes of the tables among the children that table `t` lists under `key`. -/
def mirrorChildren (key : String) (t : Table) : List Draft :=
  match h : t.get? key with
  | some (.array items) => mirrorItems key items
  | _ => []
termination_by (sizeOf t, 0)
decreasing_by exact Prod.Lex.left _ _ (sizeOf_items_lt h)

/-- The nodes of the tables among some items, in order. -/
def mirrorItems (key : String) : List Value → List Draft
  | [] => []
  | .table u :: rest => mirror key u :: mirrorItems key rest
  | _ :: rest => mirrorItems key rest
termination_by items => (sizeOf items, 2)
decreasing_by
  · exact Prod.Lex.left _ _ (by simp only [List.cons.sizeOf_spec, Value.table.sizeOf_spec]; omega)
  · exact Prod.Lex.left _ _ (by simp only [List.cons.sizeOf_spec]; omega)
  · exact Prod.Lex.left _ _ (by simp only [List.cons.sizeOf_spec]; omega)

end

/-- The value when there is no fault, else the report of the first fault. -/
def unlessFault {α : Type} : List (Path × NodeFault) → α → Except DocumentError α
  | [], a => .ok a
  | (p, f) :: _, _ => .error (.invalidNode p f)

/-- The tables of the document made of `root`: the root, and the tables among the items of the
array of children of a table of it. -/
inductive Reached (key : String) (root : Table) : Table → Prop
  | root : Reached key root root
  | child {t u : Table} {items : List Value} : Reached key root t →
      t.get? key = some (.array items) → .table u ∈ items → Reached key root u

/-- A table that describes a node, its children apart: a string `type`, a `model` that is absent
or a string, and an entry under `key` that is absent or an array of tables. -/
structure Describes (key : String) (t : Table) : Prop where
  type_string : ∃ s, t.get? "type" = some (.string s)
  model_string : ∀ v, t.get? "model" = some v → ∃ s, v = .string s
  children_tables : ∀ v, t.get? key = some v →
    ∃ items, v = .array items ∧ ∀ it ∈ items, ∃ u, it = .table u

section Faults

theorem unlessFault_append_bind {α β : Type} (fs gs : List (Path × NodeFault)) (a : α)
    (k : α → Except DocumentError β) (b : β) (hk : k a = unlessFault gs b) :
    unlessFault fs a >>= k = unlessFault (fs ++ gs) b := by
  cases fs with
  | nil => exact hk
  | cons pf _ => rfl

/-- The children's entry of a table decides its faults: the items' faults for an array, one fault
for anything else, none when there is no entry. -/
theorem childFaults_eq (key : String) (at_ : Path) (t : Table) :
    childFaults key at_ t =
      match t.get? key with
      | some (.array items) => itemFaults key at_ 0 items
      | some _ => [(at_, .childrenNotArray)]
      | none => [] := by
  rw [childFaults]
  split <;> rename_i h <;> simp only [h]

theorem mirrorChildren_eq (key : String) (t : Table) :
    mirrorChildren key t =
      match t.get? key with
      | some (.array items) => mirrorItems key items
      | _ => [] := by
  rw [mirrorChildren]
  split <;> rename_i h <;> simp only [h]

/-- Reading the children listed in a table looks up the first entry under `key`. -/
theorem childrenIn_eq (key : String) (at_ : Path) :
    ∀ es : Table, childrenIn key at_ es =
      match es.get? key with
      | some (.array items) => ofItems key at_ 0 items
      | some _ => .error (.invalidNode at_ .childrenNotArray)
      | none => .ok []
  | [] => by rw [childrenIn.eq_def]; rfl
  | (k, v) :: rest => by
    rw [childrenIn.eq_def, get?_cons]
    dsimp only
    by_cases hk : k = key
    · rw [if_pos hk, if_pos hk]
      cases v <;> rfl
    · rw [if_neg hk, if_neg hk]
      exact childrenIn_eq key at_ rest

end Faults

section Reading

theorem stringAt_of_get? {t : Table} {name s : String} (h : t.get? name = some (.string s)) :
    stringAt t name = some s := by
  simp [stringAt, h]

theorem stringAt_of_get?_none {t : Table} {name : String} (h : t.get? name = none) :
    stringAt t name = none := by
  simp [stringAt, h]

/-- A table whose type and model are right has no faults of its own. -/
theorem headFaults_eq_nil {t : Table} {s : String} (htype : t.get? "type" = some (.string s))
    (hmodel : ∀ v, t.get? "model" = some v → ∃ m, v = .string m) : headFaults t = [] := by
  unfold headFaults
  rw [htype]
  cases hm : t.get? "model" with
  | none => rfl
  | some v =>
    obtain ⟨m, rfl⟩ := hmodel v hm
    rfl

/-- A table whose type is not a string has that as its first fault. -/
theorem headFaults_of_type {t : Table} {v : Value} (htype : t.get? "type" = some v)
    (hv : ∀ s, v = .string s → False) : ∃ more, headFaults t = .typeNotString :: more := by
  unfold headFaults
  rw [htype]
  cases v with
  | string s => exact absurd rfl (hv s)
  | _ => exact ⟨_, rfl⟩

theorem headFaults_of_type_none {t : Table} (htype : t.get? "type" = none) :
    ∃ more, headFaults t = .typeMissing :: more := by
  unfold headFaults
  rw [htype]
  exact ⟨_, rfl⟩

/-- A table with a string type and a model that is not a string has that as its only own
fault. -/
theorem headFaults_of_model {t : Table} {s : String} {v : Value}
    (htype : t.get? "type" = some (.string s)) (hmodel : t.get? "model" = some v)
    (hv : ∀ m, v = .string m → False) : headFaults t = [.modelNotString] := by
  unfold headFaults
  rw [htype, hmodel]
  cases v with
  | string m => exact absurd rfl (hv m)
  | _ => rfl

/-- A table with faults of its own is reported at its first one. -/
theorem unlessFault_faults_of_head {α : Type} {key : String} {at_ : Path} {t : Table} {f : NodeFault}
    {more : List NodeFault} (h : headFaults t = f :: more) (a : α) :
    unlessFault (faults key at_ t) a = .error (.invalidNode at_ f) := by
  rw [faults, h]
  rfl

theorem unlessFault_bind_pure {α β : Type} (fs : List (Path × NodeFault)) (a : α) (g : α → β) :
    (unlessFault fs a >>= fun x => pure (g x)) = unlessFault fs (g a) := by
  cases fs with
  | nil => rfl
  | cons pf _ => rfl

/-- Reading a table, the children it lists and their items: the mirrored tree unless there is a
fault, else the first fault in pre-order. -/
theorem read_eq_unlessFault {key : String} (hkey : key ≠ "type" ∧ key ≠ "model") :
    (∀ at_ t, ofTable key at_ t = unlessFault (faults key at_ t) (mirror key t)) ∧
    (∀ at_ es, childrenIn key at_ es =
      unlessFault (childFaults key at_ es) (mirrorChildren key es)) ∧
    (∀ at_ index items, ofItems key at_ index items =
      unlessFault (itemFaults key at_ index items) (mirrorItems key items)) := by
  have hplain : ¬(key = "type" ∨ key = "model") := not_or.2 hkey
  apply ofTable.mutual_induct key
  · intro at_ table rest s htake hchildren
    have htype : table.get? "type" = some (.string s) := congrArg Prod.fst htake
    have hrest : table.erase "type" = rest := congrArg Prod.snd htake
    have hmodel : rest.get? "model" = table.get? "model" := by
      rw [← hrest]
      exact get?_erase_of_ne (by decide)
    rw [ofTable.eq_1, htake]
    dsimp only
    split
    · rename_i m hm
      rw [Table.take, hmodel] at hm
      have hhead := headFaults_eq_nil htype fun v hv => ⟨m, Option.some.inj (hv.symm.trans hm)⟩
      simp only [pure_bind, if_neg hplain, hchildren, unlessFault_bind_pure]
      rw [faults, hhead, mirror, stringAt_of_get? htype, stringAt_of_get? hm, ← hrest]
      rfl
    · rename_i v hv hm
      rw [Table.take, hmodel] at hm
      rw [unlessFault_faults_of_head (headFaults_of_model htype hm hv)]
      rfl
    · rename_i hm
      rw [Table.take, hmodel] at hm
      have hhead := headFaults_eq_nil htype fun v hv => absurd (hv.symm.trans hm) (by simp)
      simp only [pure_bind, if_neg hplain, hchildren, unlessFault_bind_pure]
      rw [faults, hhead, mirror, stringAt_of_get? htype, stringAt_of_get?_none hm, ← hrest]
      rfl
  · intro at_ table rest v hv htake _
    have htype : table.get? "type" = some v := congrArg Prod.fst htake
    obtain ⟨more, hhead⟩ := headFaults_of_type htype hv
    rw [ofTable.eq_1, htake, unlessFault_faults_of_head hhead]
    dsimp only
    split
    · rename_i s e
      exact absurd (Option.some.inj e) (hv s)
    · rfl
    · cases ‹some v = none›
  · intro at_ table rest htake _
    have htype : table.get? "type" = none := congrArg Prod.fst htake
    obtain ⟨more, hhead⟩ := headFaults_of_type_none htype
    rw [ofTable.eq_1, htake, unlessFault_faults_of_head hhead]
    rfl
  · intro at_
    rw [childrenIn_eq, childFaults_eq, mirrorChildren_eq]
    rfl
  · intro at_ rest items hitems
    rw [childrenIn_eq, childFaults_eq, mirrorChildren_eq, get?_cons, if_pos rfl]
    exact hitems
  · intro at_ v rest hv
    rw [childrenIn_eq, childFaults_eq, mirrorChildren_eq, get?_cons, if_pos rfl]
    cases v with
    | array items => exact absurd rfl (hv items)
    | _ => rfl
  · intro at_ k v rest hk hrest
    rw [childrenIn_eq, childFaults_eq, mirrorChildren_eq] at hrest ⊢
    rw [get?_cons, if_neg hk]
    exact hrest
  · intro at_ index
    rw [ofItems.eq_1, itemFaults.eq_1, mirrorItems.eq_1]
    rfl
  · intro at_ index u rest hu hrest
    rw [ofItems.eq_2, hu, hrest, itemFaults.eq_2, mirrorItems.eq_2]
    exact unlessFault_append_bind _ _ _ _ _ (unlessFault_bind_pure _ _ _)
  · intro at_ index item more hitem
    rw [ofItems.eq_3 _ _ _ _ _ hitem, itemFaults.eq_3 _ _ _ _ _ hitem]
    rfl

end Reading

section Wellformed

theorem Reached.trans {key : String} {root t u : Table} (h₁ : Reached key root t)
    (h₂ : Reached key t u) : Reached key root u := by
  induction h₂ with
  | root => exact h₁
  | child _ hget hmem ih => exact .child ih hget hmem

/-- A table of a document is the document itself, or a table of the document made of one of the
tables among the document's children. -/
theorem reached_iff {key : String} {root w : Table} :
    Reached key root w ↔ w = root ∨
      ∃ items u, root.get? key = some (.array items) ∧ .table u ∈ items ∧ Reached key u w := by
  constructor
  · intro h
    induction h with
    | root => exact .inl rfl
    | child _ hget hmem ih =>
      rcases ih with rfl | ⟨items, u, hget', hmem', hr⟩
      · exact .inr ⟨_, _, hget, hmem, .root⟩
      · exact .inr ⟨items, u, hget', hmem', .child hr hget hmem⟩
  · rintro (rfl | ⟨items, u, hget, hmem, hr⟩)
    · exact .root
    · exact (Reached.child .root hget hmem).trans hr

theorem headFaults_eq_nil_iff {t : Table} :
    headFaults t = [] ↔ (∃ s, t.get? "type" = some (.string s)) ∧
      ∀ v, t.get? "model" = some v → ∃ m, v = .string m := by
  constructor
  · intro h
    have htype : ∃ s, t.get? "type" = some (.string s) := by
      cases ht : t.get? "type" with
      | none =>
        obtain ⟨_, e⟩ := headFaults_of_type_none ht
        rw [e] at h
        cases h
      | some v =>
        by_cases hv : ∃ s, v = .string s
        · obtain ⟨s, rfl⟩ := hv
          exact ⟨s, rfl⟩
        · obtain ⟨_, e⟩ := headFaults_of_type ht fun s hs => hv ⟨s, hs⟩
          rw [e] at h
          cases h
    obtain ⟨s, hs⟩ := htype
    refine ⟨⟨s, hs⟩, fun v hv => ?_⟩
    by_cases hstring : ∃ m, v = .string m
    · exact hstring
    · rw [headFaults_of_model hs hv fun m hm => hstring ⟨m, hm⟩] at h
      cases h
  · rintro ⟨⟨s, hs⟩, hmodel⟩
    exact headFaults_eq_nil hs hmodel

/-- A document has no fault exactly when every table of it describes a node. -/
theorem faults_eq_nil_iff (key : String) :
    (∀ at_ t, faults key at_ t = [] ↔ ∀ u, Reached key t u → Describes key u) ∧
    (∀ at_ t, childFaults key at_ t = [] ↔
      (∀ v, t.get? key = some v → ∃ items, v = .array items ∧ ∀ it ∈ items, ∃ u, it = .table u) ∧
      ∀ items u, t.get? key = some (.array items) → .table u ∈ items →
        ∀ w, Reached key u w → Describes key w) ∧
    (∀ at_ index items, itemFaults key at_ index items = [] ↔
      (∀ it ∈ items, ∃ u, it = .table u) ∧
      ∀ u, .table u ∈ items → ∀ w, Reached key u w → Describes key w) := by
  apply faults.mutual_induct key
  · intro at_ t hchildren
    rw [faults, List.append_eq_nil_iff, List.map_eq_nil_iff, headFaults_eq_nil_iff, hchildren]
    constructor
    · rintro ⟨⟨htype, hmodel⟩, htables, hbelow⟩ u hu
      rcases reached_iff.1 hu with rfl | ⟨items, v, hget, hmem, hv⟩
      · exact ⟨htype, hmodel, htables⟩
      · exact hbelow items v hget hmem u hv
    · intro hall
      have ht := hall t .root
      exact ⟨⟨ht.type_string, ht.model_string⟩, ht.children_tables,
        fun items u hget hmem w hw => hall w (reached_iff.2 (.inr ⟨items, u, hget, hmem, hw⟩))⟩
  · intro at_ t items hget hitems
    have hfaults : childFaults key at_ t = itemFaults key at_ 0 items := by
      rw [childFaults_eq, hget]
    rw [hfaults, hitems]
    constructor
    · rintro ⟨htables, hbelow⟩
      refine ⟨fun v hv => ⟨items, Option.some.inj (hv.symm.trans hget), htables⟩,
        fun items' u hget' hmem => ?_⟩
      obtain rfl : items' = items := by
        have e := hget'.symm.trans hget
        simp only [Option.some.injEq, Value.array.injEq] at e
        exact e
      exact hbelow u hmem
    · rintro ⟨htables, hbelow⟩
      obtain ⟨items', e, hall⟩ := htables _ hget
      cases e
      exact ⟨hall, fun u hmem => hbelow _ u hget hmem⟩
  · intro at_ t v hv hget
    have hfaults : childFaults key at_ t = [(at_, .childrenNotArray)] := by
      rw [childFaults_eq, hget]
      cases v with
      | array items => exact absurd rfl (hv items)
      | _ => rfl
    rw [hfaults]
    simp only [List.cons_ne_nil, false_iff, not_and]
    intro htables
    obtain ⟨items, e, -⟩ := htables v hget
    exact absurd e (hv items)
  · intro at_ t hget
    have hfaults : childFaults key at_ t = [] := by
      rw [childFaults_eq, hget]
    simp [hfaults, hget]
  · intro at_ index
    simp [itemFaults.eq_1]
  · intro at_ index u rest hu hrest
    rw [itemFaults.eq_2, List.append_eq_nil_iff, hu, hrest]
    constructor
    · rintro ⟨hall, htables, hbelow⟩
      refine ⟨fun it hit => ?_, fun u' hmem => ?_⟩
      · rcases List.mem_cons.1 hit with rfl | hit
        · exact ⟨u, rfl⟩
        · exact htables it hit
      · rcases List.mem_cons.1 hmem with e | hmem
        · cases e
          exact hall
        · exact hbelow u' hmem
    · rintro ⟨htables, hbelow⟩
      exact ⟨hbelow u List.mem_cons_self,
        fun it hit => htables it (List.mem_cons_of_mem _ hit),
        fun u' hmem => hbelow u' (List.mem_cons_of_mem _ hmem)⟩
  · intro at_ index head rest hhead _
    rw [itemFaults.eq_3 _ _ _ _ _ hhead]
    simp only [List.cons_ne_nil, false_iff, not_and]
    intro htables
    obtain ⟨u, hu⟩ := htables head List.mem_cons_self
    exact absurd hu (hhead u)

end Wellformed

section Document

theorem unlessFault_eq_ok_iff {α : Type} {fs : List (Path × NodeFault)} {a d : α} :
    unlessFault fs a = .ok d ↔ fs = [] ∧ d = a := by
  cases fs with
  | nil =>
    constructor
    · intro h
      cases h
      exact ⟨rfl, rfl⟩
    · rintro ⟨-, rfl⟩
      rfl
  | cons pf _ =>
    constructor
    · intro h
      cases h
    · rintro ⟨h, -⟩
      cases h

theorem unlessFault_eq_invalidNode_iff {α : Type} {fs : List (Path × NodeFault)} {a : α}
    {at_ : Path} {fault : NodeFault} :
    unlessFault fs a = .error (.invalidNode at_ fault) ↔ fs.head? = some (at_, fault) := by
  cases fs with
  | nil =>
    constructor
    · intro h
      cases h
    · intro h
      cases h
  | cons pf _ =>
    obtain ⟨p, f⟩ := pf
    constructor
    · intro h
      cases h
      rfl
    · intro h
      cases h
      rfl

theorem unlessFault_ne_unreadable {α : Type} (fs : List (Path × NodeFault)) (a : α)
    (e : ReadError) : unlessFault fs a ≠ .error (.unreadable e) := by
  cases fs with
  | nil => exact fun h => by cases h
  | cons pf _ => exact fun h => by cases h

/-- Reading a node document. The text fails to parse exactly when it is no TOML document.
Otherwise reading succeeds exactly when every table of the document describes a node, and gives
the node tree the tables spell; else it reports the first fault in pre-order, at the path of its
table. -/
theorem ofDocument_reads (text key : String) (hkey : key ≠ "type" ∧ key ≠ "model") :
    (∀ e, ofDocument text key = .error (.unreadable e) ↔ Toml.read text = .error e) ∧
    ∀ t, Toml.read text = .ok t →
      ((∃ d, ofDocument text key = .ok d) ↔ ∀ u, Reached key t u → Describes key u) ∧
      (∀ d, ofDocument text key = .ok d → d = mirror key t) ∧
      ∀ at_ fault, ofDocument text key = .error (.invalidNode at_ fault) ↔
        (faults key Path.root t).head? = some (at_, fault) := by
  have hread := (read_eq_unlessFault hkey).1 Path.root
  refine ⟨fun e => ?_, fun t ht => ?_⟩
  · unfold ofDocument
    cases hr : Toml.read text with
    | error e' =>
      constructor
      · intro h
        cases h
        rfl
      · intro h
        cases h
        rfl
    | ok t =>
      dsimp only
      rw [hread]
      exact ⟨fun h => absurd h (unlessFault_ne_unreadable _ _ _), fun h => by cases h⟩
  · have hdoc : ofDocument text key = unlessFault (faults key Path.root t) (mirror key t) := by
      unfold ofDocument
      rw [ht]
      exact hread t
    rw [hdoc, ← (faults_eq_nil_iff key).1 Path.root t]
    refine ⟨⟨fun ⟨d, hd⟩ => (unlessFault_eq_ok_iff.1 hd).1,
      fun h => ⟨mirror key t, unlessFault_eq_ok_iff.2 ⟨h, rfl⟩⟩⟩,
      fun d hd => (unlessFault_eq_ok_iff.1 hd).2, fun at_ fault => unlessFault_eq_invalidNode_iff⟩

/-- Children listed under `attachments`, the standard key, are read as `ofDocument_reads` says,
here for the document of a group with one untyped child. -/
theorem attachments_document_reads :
    ("attachments" ≠ "type" ∧ "attachments" ≠ "model") ∧
    (∀ e, ofDocument "type = \"group\"\n[[attachments]]\nname = \"x\"\n" "attachments" =
        .error (.unreadable e) ↔
      Toml.read "type = \"group\"\n[[attachments]]\nname = \"x\"\n" = .error e) ∧
    ∀ t, Toml.read "type = \"group\"\n[[attachments]]\nname = \"x\"\n" = .ok t →
      ((∃ d, ofDocument "type = \"group\"\n[[attachments]]\nname = \"x\"\n" "attachments" = .ok d) ↔
        ∀ u, Reached "attachments" t u → Describes "attachments" u) ∧
      (∀ d, ofDocument "type = \"group\"\n[[attachments]]\nname = \"x\"\n" "attachments" = .ok d →
        d = mirror "attachments" t) ∧
      ∀ at_ fault,
        ofDocument "type = \"group\"\n[[attachments]]\nname = \"x\"\n" "attachments" =
          .error (.invalidNode at_ fault) ↔
        (faults "attachments" Path.root t).head? = some (at_, fault) :=
  ⟨by decide, ofDocument_reads _ _ (by decide)⟩

end Document

end Inlay.Source.Draft
