import Inlay.Proofs.Build

namespace Inlay

theorem Source.Forest.pathWithin_congr {f f' : Source.Forest} (h : f'.nodes = f.nodes) (k : Nat)
    (id : SourceId) : f'.pathWithin k id = f.pathWithin k id := by
  have hnode : f'.node = f.node := by funext x; simp [Source.Forest.node, h]
  have hidx : f'.childIndex = f.childIndex := by funext x; simp [Source.Forest.childIndex, hnode]
  induction k generalizing id with
  | zero => rfl
  | succ k ih => simp only [Source.Forest.pathWithin, hnode, hidx, ih]

theorem Source.Forest.path_congr {f f' : Source.Forest} (h : f'.nodes = f.nodes) :
    f'.path = f.path := by
  funext id
  simp only [Source.Forest.path, h, Source.Forest.pathWithin_congr h]

theorem Source.Forest.childIndex_congr {f f' : Source.Forest} (h : f'.nodes = f.nodes) :
    f'.childIndex = f.childIndex := by
  funext id
  simp [Source.Forest.childIndex, Source.Forest.node, h]

namespace Sync

namespace State

variable {s : State} {k : Nat} {y o : InlaidId}

theorem pathWithin_primary (h : (s.node y).placement = .primary) :
    s.pathWithin (k + 1) y = .ok (s.forest.path (s.node y).source) := by
  rw [pathWithin, h]

theorem pathWithin_modelRoot (h : (s.node y).placement = .modelRoot o) :
    s.pathWithin (k + 1) y = s.modelPathWithin k o := by
  rw [pathWithin, h]

theorem pathWithin_modelChild (h : (s.node y).placement = .modelChild o) :
    s.pathWithin (k + 1) y = (s.modelPathWithin k o).map (·.join (s.forest.path (s.node y).source)) := by
  rw [pathWithin, h]
  dsimp only
  cases s.modelPathWithin k o <;> rfl

theorem pathWithin_frozen {i : Nat} {p : Path} (h : (s.node y).placement = .frozen i p) :
    s.pathWithin (k + 1) y = .ok p := by
  rw [pathWithin, h]

theorem modelPathWithin_error {e : Fault} (h : s.modelChildIndex o = .error e) :
    s.modelPathWithin (k + 1) o = .error e := by
  rw [modelPathWithin, h]

/-- The slot of a model node with no literal child continues the node's own path. -/
theorem modelPathWithin_first (h : s.modelChildIndex o = .ok 0) :
    s.modelPathWithin (k + 1) o = (s.pathWithin k o).map fun p => (p.child s.slotKey).child "0" := by
  rw [modelPathWithin, h]
  dsimp only
  rw [if_pos rfl]
  cases s.pathWithin k o <;> rfl

/-- The slot of a model node with literal children continues the addressing of the first. -/
theorem modelPathWithin_later {index : Nat} (h : s.modelChildIndex o = .ok index) (hne : index ≠ 0) :
    s.modelPathWithin (k + 1) o = (s.pathWithin k ((s.node o).children.headD default)).map
      fun sib => if sib.isListElement then sib.parent.listChild index
        else sib.parent.child (toString index) := by
  rw [modelPathWithin, h]
  dsimp only
  rw [if_neg hne]
  cases s.pathWithin k ((s.node o).children.headD default) with
  | error => rfl
  | ok p => by_cases hl : p.isListElement <;> simp [Except.map, hl]

/-- A model node has a slot index exactly when its inlined root is in place: its last child. -/
theorem modelChildIndex_eq_ok {n : Nat} :
    s.modelChildIndex o = .ok n ↔ (s.hiddenOf o).isSome ∧ n = (s.node o).children.length - 1 := by
  simp only [modelChildIndex, hiddenOf]
  cases (s.node o).inlining with
  | none => simp
  | some i => by_cases h : i.hidden.isSome <;> simp [h, eq_comm]

theorem indexOf_literal
    (h : (s.node y).placement = .primary ∨ ∃ o, (s.node y).placement = .modelChild o) :
    s.indexOf y = .ok (s.forest.childIndex (s.node y).source) := by
  rcases h with h | ⟨o, h⟩ <;> simp only [indexOf, h]

theorem indexOf_modelRoot (h : (s.node y).placement = .modelRoot o) :
    s.indexOf y = s.modelChildIndex o := by
  simp only [indexOf, h]

theorem indexOf_frozen {i : Nat} {p : Path} (h : (s.node y).placement = .frozen i p) :
    s.indexOf y = .ok i := by
  simp only [indexOf, h]

/-- The slot index of a model node reads only the node and the source nodes. -/
theorem modelChildIndex_congr {s' : State} (hf : s'.forest.nodes = s.forest.nodes)
    (hi : (s'.node o).inlining = (s.node o).inlining)
    (hc : (s'.node o).children = (s.node o).children)
    (hs : (s'.node o).source = (s.node o).source) :
    s'.modelChildIndex o = s.modelChildIndex o := by
  simp only [modelChildIndex, hi, hc, hs, Source.Forest.node, hf]

/-- The fuel a path query needs: one step, or two more than twice the owner. -/
def rank (s : State) (y : InlaidId) : Nat :=
  match (s.node y).placement.owner with
  | some o => 2 * o.val + 3
  | none => 1

theorem one_le_rank (s : State) (y : InlaidId) : 1 ≤ s.rank y := by
  unfold rank
  split <;> omega

theorem rank_of_owner {s : State} {y o : InlaidId} (h : (s.node y).placement.owner = some o) :
    s.rank y = 2 * o.val + 3 := by
  simp only [rank, h]

end State

/-- A tree whose top is placed by the source and all of whose nodes are sound. -/
structure Standing (s : State) (top : InlaidId) : Prop where
  top_lt : top.val < s.nodes.size
  primary : (s.node top).placement = .primary
  sound : ∀ y, Below s top y → Sound s y

section Standing

variable {s : State} {top : InlaidId} (hs : Standing s top) (ha : Arena s)
include hs ha

/-- The owner of a node of a standing tree is an older node of the tree above it, with its inlined
root in place. -/
theorem Standing.owner {y o : InlaidId} (hy : Below s top y)
    (ho : (s.node y).placement.owner = some o) :
    Below s top o ∧ Below s o y ∧ o.val < y.val ∧ (s.hiddenOf o).isSome := by
  induction hy generalizing o with
  | refl => rw [hs.primary] at ho; cases ho
  | @child p c hp hc ih =>
    have hpc := (ha.child_bound p c hc).1
    rw [(hs.sound p hp).placed c hc, State.childPlacement] at ho
    split at ho
    · rename_i hh
      cases ho
      exact ⟨hp, .single hc, hpc, by rw [hh]; rfl⟩
    · rw [Placement.owner_inherited] at ho
      obtain ⟨h₁, h₂, h₃, h₄⟩ := ih ho
      exact ⟨h₁, .child h₂ hc, Nat.lt_trans h₃ hpc, h₄⟩

theorem Standing.lt_size {y : InlaidId} (hy : Below s top y) : y.val < s.nodes.size :=
  hy.lt_size ha hs.top_lt

/-- An owner outranks the nodes whose paths its own path is made of. -/
theorem Standing.rank_le {y : InlaidId} (hy : Below s top y) : s.rank y ≤ 2 * y.val + 1 := by
  unfold State.rank
  split
  · rename_i o ho
    have := (hs.owner ha hy ho).2.2.1
    omega
  · omega

/-- The first child of a model node whose slot is not its first child is a literal child: it has
the owner of the model node. -/
theorem Standing.first_child {o : InlaidId} {index : Nat} (ho : Below s top o)
    (hidx : s.modelChildIndex o = .ok index) (hne : index ≠ 0) :
    Below s top ((s.node o).children.headD default) ∧
      s.rank ((s.node o).children.headD default) = s.rank o := by
  have hsound := hs.sound o ho
  obtain ⟨hsome, rfl⟩ := State.modelChildIndex_eq_ok.1 hidx
  obtain ⟨h, hh⟩ := Option.isSome_iff_exists.1 hsome
  have hlast := (hsound.hidden_last h hh).2
  obtain ⟨c, rest, hcs⟩ : ∃ c rest, (s.node o).children = c :: rest := by
    cases hc : (s.node o).children with
    | nil => rw [hc] at hlast; cases hlast
    | cons c rest => exact ⟨c, rest, rfl⟩
  have hrest : rest ≠ [] := fun e => hne (by rw [hcs, e]; rfl)
  have hch : c ≠ h := by
    intro e
    have hnd := ha.nodup o
    rw [hcs] at hnd hlast
    rw [List.getLast?_cons, List.getLast?_eq_some_getLast hrest] at hlast
    have hmem : h ∈ rest := by
      cases hlast
      exact List.getLast_mem hrest
    exact (List.nodup_cons.1 hnd).1 (e ▸ hmem)
  have hc : c ∈ (s.node o).children := by rw [hcs]; exact List.mem_cons_self
  refine ⟨by rw [hcs]; exact .child ho hc, ?_⟩
  rw [hcs]
  simp only [List.headD_cons, State.rank]
  rw [hsound.placed c hc, State.childPlacement, if_neg fun e => hch (Option.some.inj (e.symm.trans hh)),
    Placement.owner_inherited]

/-- One more step of fuel changes no path of a standing tree once the fuel reaches the rank, and
no slot path once it reaches twice the owner and two. Each path climbs to its owner's slot, and
each slot to its model node or the first child of it, all of smaller rank. -/
theorem Standing.stable_succ (k : Nat) :
    (∀ y, Below s top y → s.rank y ≤ k → s.pathWithin (k + 1) y = s.pathWithin k y) ∧
      ∀ o, Below s top o → 2 * o.val + 2 ≤ k →
        s.modelPathWithin (k + 1) o = s.modelPathWithin k o := by
  induction k with
  | zero =>
    refine ⟨fun y _ hk => ?_, fun o _ hk => by omega⟩
    have := State.one_le_rank s y
    omega
  | succ k ih =>
    refine ⟨fun y hy hk => ?_, fun o ho hk => ?_⟩
    · cases hp : (s.node y).placement with
      | primary => rw [State.pathWithin_primary hp, State.pathWithin_primary hp]
      | modelRoot o =>
        have hown := hs.owner ha hy (by rw [hp]; rfl)
        have hr : 2 * o.val + 2 ≤ k := by
          rw [State.rank_of_owner (by rw [hp]; rfl)] at hk
          omega
        rw [State.pathWithin_modelRoot hp, State.pathWithin_modelRoot hp, ih.2 o hown.1 hr]
      | modelChild o =>
        have hown := hs.owner ha hy (by rw [hp]; rfl)
        have hr : 2 * o.val + 2 ≤ k := by
          rw [State.rank_of_owner (by rw [hp]; rfl)] at hk
          omega
        rw [State.pathWithin_modelChild hp, State.pathWithin_modelChild hp, ih.2 o hown.1 hr]
      | frozen i p => rw [State.pathWithin_frozen hp, State.pathWithin_frozen hp]
    · have hrank := hs.rank_le ha ho
      cases hidx : s.modelChildIndex o with
      | error e => rw [State.modelPathWithin_error hidx, State.modelPathWithin_error hidx]
      | ok index =>
        by_cases h0 : index = 0
        · subst h0
          rw [State.modelPathWithin_first hidx, State.modelPathWithin_first hidx,
            ih.1 o ho (by omega)]
        · obtain ⟨hc, hc_rank⟩ := hs.first_child ha ho hidx h0
          rw [State.modelPathWithin_later hidx h0, State.modelPathWithin_later hidx h0,
            ih.1 _ hc (by omega)]

theorem Standing.pathWithin_of_rank_le {y : InlaidId} (hy : Below s top y) {m : Nat}
    (hm : s.rank y ≤ m) : s.pathWithin m y = s.pathWithin (s.rank y) y := by
  obtain ⟨j, rfl⟩ := Nat.exists_eq_add_of_le hm
  clear hm
  induction j with
  | zero => rfl
  | succ j ih => rw [← Nat.add_assoc, (hs.stable_succ ha _).1 y hy (by omega), ih]

/-- The path of a node of a standing tree is the one its rank computes. -/
theorem Standing.pathOf_eq {y : InlaidId} (hy : Below s top y) :
    s.pathOf y = s.pathWithin (s.rank y) y := by
  have hlt := hs.lt_size ha hy
  have hrank := hs.rank_le ha hy
  exact hs.pathWithin_of_rank_le ha hy (by unfold State.pathFuel; omega)

/-- Any fuel enough for the rank computes the path of a node of a standing tree. -/
theorem Standing.pathWithin_eq_pathOf {y : InlaidId} (hy : Below s top y) {m : Nat}
    (hm : s.rank y ≤ m) : s.pathWithin m y = s.pathOf y := by
  rw [hs.pathOf_eq ha hy, hs.pathWithin_of_rank_le ha hy hm]

/-- Every node of a standing tree has a path, at any fuel, and so has the slot of every model
node of it with its inlined root in place. -/
theorem Standing.pathWithin_ok (k : Nat) :
    (∀ y, Below s top y → ∃ p, s.pathWithin k y = .ok p) ∧
      ∀ o, Below s top o → (s.hiddenOf o).isSome → ∃ p, s.modelPathWithin k o = .ok p := by
  induction k with
  | zero => exact ⟨fun _ _ => ⟨_, rfl⟩, fun _ _ _ => ⟨_, rfl⟩⟩
  | succ k ih =>
    refine ⟨fun y hy => ?_, fun o ho hh => ?_⟩
    · cases hp : (s.node y).placement with
      | primary => exact ⟨_, State.pathWithin_primary hp⟩
      | modelRoot o =>
        obtain ⟨ho, -, -, hh⟩ := hs.owner ha hy (by rw [hp]; rfl)
        obtain ⟨p, hp'⟩ := ih.2 o ho hh
        exact ⟨p, by rw [State.pathWithin_modelRoot hp, hp']⟩
      | modelChild o =>
        obtain ⟨ho, -, -, hh⟩ := hs.owner ha hy (by rw [hp]; rfl)
        obtain ⟨p, hp'⟩ := ih.2 o ho hh
        exact ⟨_, by rw [State.pathWithin_modelChild hp, hp']; rfl⟩
      | frozen i p => exact ⟨p, State.pathWithin_frozen hp⟩
    · have hidx : s.modelChildIndex o = .ok ((s.node o).children.length - 1) :=
        State.modelChildIndex_eq_ok.2 ⟨hh, rfl⟩
      by_cases h0 : (s.node o).children.length - 1 = 0
      · rw [h0] at hidx
        obtain ⟨p, hp⟩ := ih.1 o ho
        exact ⟨_, by rw [State.modelPathWithin_first hidx, hp]; rfl⟩
      · obtain ⟨p, hp⟩ := ih.1 _ (hs.first_child ha ho hidx h0).1
        rw [State.modelPathWithin_later hidx h0, hp]
        exact ⟨_, rfl⟩

theorem Standing.pathOf_ok {y : InlaidId} (hy : Below s top y) : ∃ p, s.pathOf y = .ok p :=
  (hs.pathWithin_ok ha _).1 y hy

/-- Every node of a standing tree has an index. -/
theorem Standing.indexOf_ok {y : InlaidId} (hy : Below s top y) : ∃ i, s.indexOf y = .ok i := by
  cases hp : (s.node y).placement with
  | primary => exact ⟨_, State.indexOf_literal (.inl hp)⟩
  | modelChild o => exact ⟨_, State.indexOf_literal (.inr ⟨o, hp⟩)⟩
  | modelRoot o =>
    obtain ⟨-, -, -, hh⟩ := hs.owner ha hy (by rw [hp]; rfl)
    exact ⟨_, by rw [State.indexOf_modelRoot hp, State.modelChildIndex_eq_ok.2 ⟨hh, rfl⟩]⟩
  | frozen i p => exact ⟨i, State.indexOf_frozen hp⟩

end Standing

/-- A state in which part of a standing tree of `s₀` is frozen where it stood in `s₀`: the source
nodes, the tracker's key and the shape of the tree are as they were, every node of the tree is
placed as it was or frozen at its index and path in `s₀`, and every node placed as it was has its
owner's slot where it was. -/
structure Freezing (s₀ s : State) (top : InlaidId) : Prop where
  forest : s.forest.nodes = s₀.forest.nodes
  slotKey : s.slotKey = s₀.slotKey
  nodes_size : s₀.nodes.size ≤ s.nodes.size
  source : ∀ y, Below s₀ top y → (s.node y).source = (s₀.node y).source
  children : ∀ y, Below s₀ top y → (s.node y).children = (s₀.node y).children
  placed : ∀ y, Below s₀ top y → (s.node y).placement = (s₀.node y).placement ∨
    ∃ i p, s₀.indexOf y = .ok i ∧ s₀.pathOf y = .ok p ∧ (s.node y).placement = .frozen i p
  slot : ∀ y o, Below s₀ top y → (s.node y).placement = (s₀.node y).placement →
    (s₀.node y).placement.owner = some o → s.modelChildIndex o = s₀.modelChildIndex o

theorem Freezing.refl (s₀ : State) (top : InlaidId) : Freezing s₀ s₀ top :=
  ⟨rfl, rfl, Nat.le_refl _, fun _ _ => rfl, fun _ _ => rfl, fun _ _ => .inl rfl,
    fun _ _ _ _ _ => rfl⟩

section Freezing

variable {s₀ s : State} {top : InlaidId} (hs : Standing s₀ top) (ha : Arena s₀)
  (hf : Freezing s₀ s top)
include hs ha hf

/-- While a standing tree freezes, every path and slot path of it computes as before: a frozen node
answers the path it had, and every other node climbs through nodes of the tree that are frozen
where they stood or are placed as they were, to slots that are where they were. -/
theorem Freezing.agree (k : Nat) :
    (∀ y, Below s₀ top y → s₀.rank y ≤ k → s.pathWithin k y = s₀.pathWithin k y) ∧
      ∀ o, Below s₀ top o → 2 * o.val + 2 ≤ k → s.modelChildIndex o = s₀.modelChildIndex o →
        s.modelPathWithin k o = s₀.modelPathWithin k o := by
  induction k with
  | zero =>
    refine ⟨fun y _ hk => ?_, fun o _ hk => by omega⟩
    have := State.one_le_rank s₀ y
    omega
  | succ k ih =>
    refine ⟨fun y hy hk => ?_, fun o ho hk hidx_eq => ?_⟩
    · rcases hf.placed y hy with hsame | ⟨i, p, -, hp, hfz⟩
      · have hslot := hf.slot y
        cases hp0 : (s₀.node y).placement with
        | primary =>
          rw [State.pathWithin_primary (hsame.trans hp0), State.pathWithin_primary hp0,
            hf.source y hy, Source.Forest.path_congr hf.forest]
        | modelRoot o =>
          have hown := hs.owner ha hy (by rw [hp0]; rfl)
          have hr : 2 * o.val + 2 ≤ k := by
            rw [State.rank_of_owner (by rw [hp0]; rfl)] at hk
            omega
          rw [State.pathWithin_modelRoot (hsame.trans hp0), State.pathWithin_modelRoot hp0,
            ih.2 o hown.1 hr (hslot o hy hsame (by rw [hp0]; rfl))]
        | modelChild o =>
          have hown := hs.owner ha hy (by rw [hp0]; rfl)
          have hr : 2 * o.val + 2 ≤ k := by
            rw [State.rank_of_owner (by rw [hp0]; rfl)] at hk
            omega
          rw [State.pathWithin_modelChild (hsame.trans hp0), State.pathWithin_modelChild hp0,
            ih.2 o hown.1 hr (hslot o hy hsame (by rw [hp0]; rfl)), hf.source y hy,
            Source.Forest.path_congr hf.forest]
        | frozen i p =>
          rw [State.pathWithin_frozen (hsame.trans hp0), State.pathWithin_frozen hp0]
      · rw [State.pathWithin_frozen hfz, hs.pathWithin_eq_pathOf ha hy hk, hp]
    · have hrank := hs.rank_le ha ho
      cases hidx : s₀.modelChildIndex o with
      | error e =>
        rw [State.modelPathWithin_error (hidx_eq.trans hidx), State.modelPathWithin_error hidx]
      | ok index =>
        by_cases h0 : index = 0
        · subst h0
          rw [State.modelPathWithin_first (hidx_eq.trans hidx), State.modelPathWithin_first hidx,
            ih.1 o ho (by omega), hf.slotKey]
        · obtain ⟨hc, hc_rank⟩ := hs.first_child ha ho hidx h0
          rw [State.modelPathWithin_later (hidx_eq.trans hidx) h0,
            State.modelPathWithin_later hidx h0, hf.children o ho, ih.1 _ hc (by omega)]

/-- Freezing part of a standing tree where it stands moves no node of the tree. -/
theorem Freezing.pathOf_eq {y : InlaidId} (hy : Below s₀ top y) : s.pathOf y = s₀.pathOf y := by
  have hrank := hs.rank_le ha hy
  have hlt := hs.lt_size ha hy
  have hsize := hf.nodes_size
  rw [State.pathOf, (hf.agree hs ha _).1 y hy (by unfold State.pathFuel; omega),
    hs.pathWithin_eq_pathOf ha hy (by unfold State.pathFuel; omega)]

omit hs ha in
/-- Freezing part of a standing tree where it stands changes the index of no node of the tree. -/
theorem Freezing.indexOf_eq {y : InlaidId} (hy : Below s₀ top y) : s.indexOf y = s₀.indexOf y := by
  rcases hf.placed y hy with hsame | ⟨i, p, hi, -, hfz⟩
  · cases hp0 : (s₀.node y).placement with
    | primary =>
      rw [State.indexOf_literal (.inl (hsame.trans hp0)), State.indexOf_literal (.inl hp0),
        hf.source y hy, Source.Forest.childIndex_congr hf.forest]
    | modelChild o =>
      rw [State.indexOf_literal (.inr ⟨o, hsame.trans hp0⟩), State.indexOf_literal (.inr ⟨o, hp0⟩),
        hf.source y hy, Source.Forest.childIndex_congr hf.forest]
    | modelRoot o =>
      rw [State.indexOf_modelRoot (hsame.trans hp0), State.indexOf_modelRoot hp0,
        hf.slot y o hy hsame (by rw [hp0]; rfl)]
    | frozen i p => rw [State.indexOf_frozen (hsame.trans hp0), State.indexOf_frozen hp0]
  · rw [State.indexOf_frozen hfz, hi]

end Freezing

end Sync

end Inlay
