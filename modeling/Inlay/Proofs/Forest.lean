import Inlay.Proofs.Live

namespace Inlay

namespace Source.Forest

/-- Every model a source node names, it still names. -/
def KeepsModels (f f' : Forest) : Prop :=
  ∀ id m, (f.node id).model = some m → (f'.node id).model = some m

section KeepsModels

variable {f f₁ f₂ f₃ : Forest}

theorem KeepsModels.refl (f : Forest) : KeepsModels f f := fun _ _ h => h

theorem KeepsModels.trans (h₁ : KeepsModels f₁ f₂) (h₂ : KeepsModels f₂ f₃) :
    KeepsModels f₁ f₃ :=
  fun id m h => h₂ id m (h₁ id m h)

theorem KeepsModels.of_nodes_eq {f' : Forest} (h : f'.nodes = f.nodes) : KeepsModels f f' :=
  fun id m hm => by simpa [node, h] using hm

/-- A node without a model stood for one without a model before. -/
theorem KeepsModels.plain {f' : Forest} (h : KeepsModels f f') {id : SourceId}
    (hid : (f'.node id).model = none) : (f.node id).model = none := by
  cases hm : (f.node id).model with
  | none => rfl
  | some m => rw [h id m hm] at hid; cases hid

theorem keepsModels_modifyNode {g : Node → Node} (hg : ∀ n, (g n).model = n.model) (id : SourceId) :
    KeepsModels f (f.modifyNode id g) := by
  intro y m hm
  simp only [node, modifyNode, Sync.getD_modify] at hm ⊢
  split
  · rw [hg]; exact hm
  · exact hm

theorem keepsModels_addNode (n : Node) : KeepsModels f (f.addNode n).2 := by
  intro y m hm
  simp only [node, addNode, Sync.getD_push] at hm ⊢
  split
  · rename_i hy
    rw [Array.getD_eq_getD_getElem?, Array.getElem?_eq_none (by omega)] at hm
    cases hm
  · exact hm

theorem keepsModels_modifyTree (t : TreeId) (g : Tree → Tree) : KeepsModels f (f.modifyTree t g) :=
  .of_nodes_eq rfl

theorem keepsModels_addTree (t : Tree) : KeepsModels f (f.addTree t).2 := .of_nodes_eq rfl

/-- A fold whose every step keeps the models keeps them. -/
theorem keepsModels_foldl {β : Type} {step : Forest → β → Forest}
    (hstep : ∀ f b, KeepsModels f (step f b)) : ∀ (l : List β) (f : Forest),
      KeepsModels f (l.foldl step f)
  | [], f => .refl f
  | b :: l, f => (hstep f b).trans (keepsModels_foldl hstep l _)

theorem keepsModels_adoptWithin (style : Style) :
    ∀ (fuel : Nat) (f : Forest) (id : SourceId), KeepsModels f (f.adoptWithin style fuel id)
  | 0, f, _ => .refl f
  | fuel + 1, f, id => by
    rw [adoptWithin]
    refine (keepsModels_modifyNode (fun _ => by rfl) id).trans
      (keepsModels_foldl (fun f c => ?_) _ _)
    exact (keepsModels_modifyNode (fun _ => by rfl) c).trans (keepsModels_adoptWithin style fuel _ c)

theorem keepsModels_freezeWithin :
    ∀ (fuel : Nat) (f : Forest) (id : SourceId), KeepsModels f (f.freezeWithin fuel id)
  | 0, f, _ => .refl f
  | fuel + 1, f, id => by
    rw [freezeWithin]
    refine (keepsModels_modifyNode (fun _ => by rfl) id).trans
      (keepsModels_foldl (fun f c => ?_) _ _)
    exact keepsModels_freezeWithin fuel f c

mutual

theorem keepsModels_plant (f : Forest) : ∀ d : Draft, KeepsModels f (f.plant d).2
  | .mk kind model payload children => by
    rw [plant]
    exact (keepsModels_plantAll f children).trans (keepsModels_addNode _)

theorem keepsModels_plantAll (f : Forest) : ∀ ds : List Draft, KeepsModels f (plant.plantAll f ds).2
  | [] => .refl f
  | d :: ds => by
    rw [plant.plantAll]
    exact (keepsModels_plant f d).trans (keepsModels_plantAll _ ds)

end

theorem keepsModels_placeRoot {t : TreeId} {id : SourceId} {f' : Forest}
    (h : f.placeRoot t id = .ok f') : KeepsModels f f' := by
  unfold placeRoot at h
  split at h
  · cases h
  · cases h
    exact (keepsModels_adoptWithin _ _ _ _).trans (keepsModels_modifyTree _ _)

theorem keepsModels_takeRoot {t : TreeId} {root : SourceId} {f' : Forest}
    (h : f.takeRoot t = .ok (root, f')) : KeepsModels f f' := by
  unfold takeRoot at h
  split at h
  · cases h
  · cases h
    exact (keepsModels_modifyTree _ _).trans (keepsModels_freezeWithin _ _ _)

theorem keepsModels_insertChild {t : TreeId} {parent : List Nat} {index : Nat} {id : SourceId}
    {f' : Forest} (h : f.insertChild t parent index id = .ok f') : KeepsModels f f' := by
  unfold insertChild at h
  cases hp : f.resolve t parent with
  | error e => rw [hp] at h; cases h
  | ok p =>
    rw [hp] at h
    simp only [bind, Except.bind, pure, Except.pure] at h
    split at h
    · cases h
    · simp only [Except.ok.injEq] at h
      subst h
      exact (keepsModels_modifyNode (fun _ => by rfl) id).trans
        ((keepsModels_adoptWithin _ _ _ _).trans (keepsModels_modifyNode (fun _ => by rfl) p))

theorem keepsModels_detachChild {t : TreeId} {address : List Nat} {c : SourceId} {f' : Forest}
    (h : f.detachChild t address = .ok (c, f')) : KeepsModels f f' := by
  unfold detachChild at h
  split at h
  · cases h
  · cases hp : f.resolve t address.dropLast with
    | error e => rw [hp] at h; cases h
    | ok p =>
      rw [hp] at h
      simp only [bind, Except.bind, pure, Except.pure] at h
      split at h
      · cases h
      · simp only [Except.ok.injEq, Prod.mk.injEq] at h
        obtain ⟨rfl, rfl⟩ := h
        exact (keepsModels_freezeWithin _ _ _).trans ((keepsModels_modifyNode (fun _ => by rfl) p).trans
          (keepsModels_modifyNode (fun _ => by rfl) _))

theorem keepsModels_replacePayload {t : TreeId} {address : List Nat} {payload : Toml.Table}
    {f' : Forest} (h : f.replacePayload t address payload = .ok f') : KeepsModels f f' := by
  unfold replacePayload at h
  cases hp : f.resolve t address with
  | error e => rw [hp] at h; cases h
  | ok id =>
    rw [hp] at h
    simp only [bind, Except.bind, pure, Except.pure, Except.ok.injEq] at h
    subst h
    exact keepsModels_modifyNode (fun _ => by rfl) id

end KeepsModels

/-- Every tree stays, with its subscriber table, and a tree added has an empty table. -/
def KeepsTables (f f' : Forest) : Prop :=
  f.trees.size ≤ f'.trees.size ∧ ∀ t, (f'.tree t).subscribers = (f.tree t).subscribers

section KeepsTables

variable {f f₁ f₂ f₃ : Forest}

theorem KeepsTables.trans (h₁ : KeepsTables f₁ f₂) (h₂ : KeepsTables f₂ f₃) : KeepsTables f₁ f₃ :=
  ⟨Nat.le_trans h₁.1 h₂.1, fun t => (h₂.2 t).trans (h₁.2 t)⟩

theorem KeepsTables.of_trees_eq {f' : Forest} (h : f'.trees = f.trees) : KeepsTables f f' :=
  ⟨Nat.le_of_eq (by rw [h]), fun t => by simp [tree, h]⟩

theorem keepsTables_modifyTree (t : TreeId) {g : Tree → Tree}
    (hg : ∀ tr, (g tr).subscribers = tr.subscribers) : KeepsTables f (f.modifyTree t g) := by
  refine ⟨Nat.le_of_eq (Array.size_modify ..).symm, fun t' => ?_⟩
  simp only [tree, modifyTree, Sync.getD_modify]
  split
  · exact hg _
  · rfl

/-- A tree added with an empty table: the table the old forest read there, out of range, was the
default one, which is empty. -/
theorem keepsTables_addTree {t : Tree} (ht : t.subscribers = Slots.empty) :
    KeepsTables f (f.addTree t).2 := by
  refine ⟨Nat.le_of_lt (by simp [addTree]), fun t' => ?_⟩
  simp only [tree, addTree, Sync.getD_push]
  split
  · rename_i h
    rw [ht, Array.getD_eq_getD_getElem?, Array.getElem?_eq_none (by omega)]
    rfl
  · rfl

/-- A fold whose every step keeps the trees keeps them. -/
theorem trees_foldl {β : Type} {step : Forest → β → Forest}
    (hstep : ∀ f b, (step f b).trees = f.trees) :
    ∀ (l : List β) (f : Forest), (l.foldl step f).trees = f.trees
  | [], _ => rfl
  | b :: l, f => (trees_foldl hstep l _).trans (hstep f b)

theorem trees_adoptWithin (style : Style) :
    ∀ (fuel : Nat) (f : Forest) (id : SourceId), (f.adoptWithin style fuel id).trees = f.trees
  | 0, _, _ => rfl
  | fuel + 1, f, id => by
    rw [adoptWithin]
    refine trees_foldl (fun f c => ?_) _ _
    exact trees_adoptWithin style fuel _ c

theorem trees_freezeWithin :
    ∀ (fuel : Nat) (f : Forest) (id : SourceId), (f.freezeWithin fuel id).trees = f.trees
  | 0, _, _ => rfl
  | fuel + 1, f, id => by
    rw [freezeWithin]
    refine trees_foldl (fun f c => ?_) _ _
    exact trees_freezeWithin fuel f c

mutual

theorem trees_plant (f : Forest) : ∀ d : Draft, (f.plant d).2.trees = f.trees
  | .mk kind model payload children => by
    rw [plant]
    exact trees_plantAll f children

theorem trees_plantAll (f : Forest) : ∀ ds : List Draft, (plant.plantAll f ds).2.trees = f.trees
  | [] => rfl
  | d :: ds => by
    rw [plant.plantAll]
    exact (trees_plantAll _ ds).trans (trees_plant f d)

end

theorem keepsTables_placeRoot {t : TreeId} {id : SourceId} {f' : Forest}
    (h : f.placeRoot t id = .ok f') : KeepsTables f f' := by
  unfold placeRoot at h
  split at h
  · cases h
  · cases h
    exact (KeepsTables.of_trees_eq (trees_adoptWithin _ _ _ _)).trans
      (keepsTables_modifyTree _ fun _ => rfl)

theorem keepsTables_takeRoot {t : TreeId} {root : SourceId} {f' : Forest}
    (h : f.takeRoot t = .ok (root, f')) : KeepsTables f f' := by
  unfold takeRoot at h
  split at h
  · cases h
  · cases h
    refine (keepsTables_modifyTree t fun _ => ?_).trans (.of_trees_eq (trees_freezeWithin _ _ _))
    rfl

theorem keepsTables_insertChild {t : TreeId} {parent : List Nat} {index : Nat} {id : SourceId}
    {f' : Forest} (h : f.insertChild t parent index id = .ok f') : KeepsTables f f' := by
  unfold insertChild at h
  cases hp : f.resolve t parent with
  | error e => rw [hp] at h; cases h
  | ok p =>
    rw [hp] at h
    simp only [bind, Except.bind, pure, Except.pure] at h
    split at h
    · cases h
    · simp only [Except.ok.injEq] at h
      subst h
      exact .of_trees_eq (trees_adoptWithin _ _ _ _)

theorem keepsTables_detachChild {t : TreeId} {address : List Nat} {c : SourceId} {f' : Forest}
    (h : f.detachChild t address = .ok (c, f')) : KeepsTables f f' := by
  unfold detachChild at h
  split at h
  · cases h
  · cases hp : f.resolve t address.dropLast with
    | error e => rw [hp] at h; cases h
    | ok p =>
      rw [hp] at h
      simp only [bind, Except.bind, pure, Except.pure] at h
      split at h
      · cases h
      · simp only [Except.ok.injEq, Prod.mk.injEq] at h
        obtain ⟨rfl, rfl⟩ := h
        exact .of_trees_eq (trees_freezeWithin _ _ _)

theorem keepsTables_replacePayload {t : TreeId} {address : List Nat} {payload : Toml.Table}
    {f' : Forest} (h : f.replacePayload t address payload = .ok f') : KeepsTables f f' := by
  unfold replacePayload at h
  cases hp : f.resolve t address with
  | error e => rw [hp] at h; cases h
  | ok id =>
    rw [hp] at h
    simp only [bind, Except.bind, pure, Except.pure, Except.ok.injEq] at h
    subst h
    exact .of_trees_eq rfl

end KeepsTables

end Source.Forest

namespace Sync

variable {s s' : State}

/-- A new forest that keeps every model keeps the heap an arena. -/
theorem Arena.of_forest (ha : Arena s) (hn : s'.nodes = s.nodes) (hf : s'.feeds = s.feeds)
    (hk : s.forest.KeepsModels s'.forest) : Arena s' := by
  have hnode : ∀ x, s'.node x = s.node x := fun x => by simp [State.node, hn]
  have hfeed : ∀ g, s'.feed g = s.feed g := fun g => by simp [State.feed, hf]
  refine ⟨fun x c hc => ?_, fun x c hc => ?_, fun x => ?_, fun x hx => ?_, fun g o h => ?_,
    fun x h hh => ?_, fun x p hp => ?_⟩
  · rw [hnode] at hc; rw [hn]; exact ha.child_bound x c hc
  · rw [hnode] at hc; rw [hnode]; exact ha.child_parent x c hc
  · rw [hnode]; exact ha.nodup x
  · rw [hnode] at hx ⊢; exact ha.plain x (hk.plain hx)
  · rw [hfeed] at h; rw [hn]; exact ha.mount_bound g o h
  · rw [hnode]; exact ha.hidden_last x h (by simpa only [State.hiddenOf, hnode] using hh)
  · rw [hnode] at hp; rw [hn]; exact ha.parent_bound x p hp

/-- A new forest that keeps every model, with the heap, the root and the tracker's presence as
they were, keeps the invariant and every frozen node. -/
theorem Holds.of_forest (hw : Wellformed s) (hn : s'.nodes = s.nodes) (hf : s'.feeds = s.feeds)
    (hroot : s'.tracker.root = s.tracker.root) (hpresent : s'.tracker.present = s.tracker.present)
    (hk : s.forest.KeepsModels s'.forest) : Holds s s' := by
  have hnode : ∀ x, s'.node x = s.node x := fun x => by simp [State.node, hn]
  refine ⟨hw.frame (hw.arena.of_forest hn hf hk) (Nat.le_of_eq (by rw [hn])) hroot
    hpresent (fun r _ => by rw [hnode]; exact ⟨rfl, rfl⟩) (fun x _ => hnode x)
    fun g o hact hm _ => .inl ?_, .of_placement (Nat.le_of_eq (by rw [hn])) fun y => by rw [hnode]⟩
  simp only [State.feed, hf] at hact hm
  exact ⟨hact, hm⟩

end Sync

end Inlay
