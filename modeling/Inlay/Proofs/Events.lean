import Inlay.Proofs.Regions

namespace Inlay.Source.Forest

variable {f f' : Forest} {t T : TreeId} {id : SourceId} {a : List Nat}

section Trees

theorem tree_modifyTree_self (ht : t.val < f.trees.size) {h : Tree → Tree} :
    (f.modifyTree t h).tree t = h (f.tree t) := by
  rw [tree_modifyTree, if_pos ⟨rfl, ht⟩]

theorem tree_modifyTree_ne (hne : T ≠ t) {h : Tree → Tree} : (f.modifyTree t h).tree T = f.tree T := by
  rw [tree_modifyTree, if_neg fun e => hne (Sync.TreeId.ext_val e.1.symm)]

theorem tree_of_trees_eq (h : f'.trees = f.trees) (T : TreeId) : f'.tree T = f.tree T := by
  rw [tree, tree, h]

/-- A tree with a root is a tree of the forest. -/
theorem lt_size_of_root {r : SourceId} (hr : (f.tree t).root = some r) : t.val < f.trees.size :=
  Nat.lt_of_not_le fun ht => by
    rw [tree_of_size_le ht] at hr
    cases hr

/-- A node below the root of a tree sits at some depth of that tree. -/
theorem InTree.of_below (hl : f.Linked) {r u : SourceId} (hr : (f.tree t).root = some r)
    (hu : Below f r u) : ∃ d, InTree f u d := by
  obtain ⟨d, hd⟩ := hl.climbs hr hu
  exact ⟨d, hd, t, r, hr, hu⟩

end Trees

/-- What an edit of the tree `t` leaves of the forest: every node's model, every tree's served
model, the roots of the other trees, and the children of the nodes outside `t`. -/
structure Reshapes (f f' : Forest) (t : TreeId) : Prop where
  model : ∀ u, (f'.node u).model = (f.node u).model
  serving : ∀ T, (f'.tree T).serving = (f.tree T).serving
  roots : ∀ T, T ≠ t → (f'.tree T).root = (f.tree T).root
  children : ∀ u, (∀ R, (f.tree t).root = some R → ¬ Below f R u) →
    (f'.node u).children = (f.node u).children

/-- What the edit behind the event `e` of the tree `t` did to the forest `f`: the tree's root, or
the children list of the node the event's address leads to, changed as the event says, and every
other children list and the tree's root otherwise kept. -/
inductive Applies (f : Forest) (t : TreeId) : Event → Forest → Prop
  | placed {src : SourceId} {f' : Forest} : (f.tree t).root = none →
      (f'.tree t).root = some src → (∀ u, (f'.node u).children = (f.node u).children) →
      Applies f t (.added [] src) f'
  | inserted {a : List Nat} {i : Nat} {src R p : SourceId} {f' : Forest} :
      (f.tree t).root = some R → Addressed f R a p → i ≤ (f.node p).children.length →
      (f'.node p).children = (f.node p).children.insertIdx i src →
      (∀ u, u ≠ p → (f'.node u).children = (f.node u).children) →
      (f'.tree t).root = some R → Applies f t (.added (a ++ [i]) src) f'
  | taken {r : SourceId} {f' : Forest} : (f.tree t).root = some r → (f'.tree t).root = none →
      (∀ u, (f'.node u).children = (f.node u).children) → Applies f t (.removed []) f'
  | detached {a : List Nat} {i : Nat} {R p c : SourceId} {f' : Forest} :
      (f.tree t).root = some R → Addressed f R a p → (f.node p).children[i]? = some c →
      (f'.node p).children = (f.node p).children.eraseIdx i →
      (∀ u, u ≠ p → (f'.node u).children = (f.node u).children) →
      (f'.tree t).root = some R → Applies f t (.removed (a ++ [i])) f'
  | changed {a : List Nat} {R u : SourceId} {f' : Forest} : (f.tree t).root = some R →
      Addressed f R a u → (∀ u, (f'.node u).children = (f.node u).children) →
      (f'.tree t).root = some R → Applies f t (.changed a) f'

section Edits

variable (hl : f.Linked)
include hl

/-- Placing a loose node as the root of a tree without one. -/
theorem placeRoot_reshapes (hid : Loose f id) (h : f.placeRoot t id = .ok f') :
    Reshapes f f' t ∧ (t.val < f.trees.size → Applies f t (.added [] id) f') := by
  obtain ⟨hnone, rfl⟩ := placeRoot_ok h
  have hA : Adopts f (f.adopt (f.tree t).style id) id :=
    adoptWithin_spec hl (f.tree t).style (f.nodes.size + 1) f id (fun _ => rfl) rfl hid.descends
      (Nat.lt_succ_of_lt hid.lt)
  have htree := tree_of_trees_eq hA.trees
  have hch : ∀ u, (((f.adopt (f.tree t).style id).modifyTree t fun tr => { tr with root := some id }).node
      u).children = (f.node u).children := fun u => by
    rw [node_modifyTree, hA.children]
  refine ⟨⟨fun u => by rw [node_modifyTree, hA.model], fun T => ?_, fun T hT => ?_,
    fun u _ => hch u⟩, fun ht => .placed hnone ?_ hch⟩
  · rw [tree_modifyTree]
    split <;> rw [htree]
  · rw [tree_modifyTree_ne hT, htree]
  · rw [tree_modifyTree_self (by rw [hA.trees]; exact ht)]

omit hl in
/-- Taking the root out of a tree. -/
theorem takeRoot_reshapes {r : SourceId} (h : f.takeRoot t = .ok (r, f')) :
    Reshapes f f' t ∧ Applies f t (.removed []) f' := by
  obtain ⟨hroot, rfl⟩ := takeRoot_ok h
  set g := f.modifyTree t fun tr => { tr with root := none }
  have hF : Freezes g (g.freeze r) r := freezeWithin_spec _ _ _
  have htree := tree_of_trees_eq hF.trees
  have hch : ∀ u, ((g.freeze r).node u).children = (f.node u).children := fun u => by
    rw [hF.children, node_modifyTree]
  refine ⟨⟨fun u => by rw [hF.model, node_modifyTree], fun T => ?_, fun T hT => ?_,
    fun u _ => hch u⟩, .taken hroot ?_ hch⟩
  · rw [htree, tree_modifyTree]
    split <;> rfl
  · rw [htree, tree_modifyTree_ne hT]
  · rw [htree, tree_modifyTree_self (lt_size_of_root hroot)]

/-- Inserting a loose node as a child of the node at an address. -/
theorem insertChild_reshapes (hid : Loose f id) {i : Nat} (h : f.insertChild t a i id = .ok f') :
    Reshapes f f' t ∧ Applies f t (.added (a ++ [i]) id) f' := by
  obtain ⟨p, hp, hi, rfl⟩ := insertChild_ok h
  obtain ⟨R, hR, hpa⟩ := resolve_ok hp
  have hp_lt : p.val < f.nodes.size := hl.lt_size_of_below hR hpa.toBelow
  set f₁ := f.modifyNode id fun n => { n with parent := some p }
  have hch₁ : ∀ u, (f₁.node u).children = (f.node u).children := fun u =>
    field_modifyNode Node.children (fun n => { n with parent := some p }) fun _ => rfl
  have hA : Adopts f₁ (f₁.adopt (f.tree t).style id) id :=
    adoptWithin_spec hl _ (f₁.nodes.size + 1) f₁ id hch₁ size_modifyNode hid.descends
      (by rw [size_modifyNode]; exact Nat.lt_succ_of_lt hid.lt)
  set f₂ := f₁.adopt (f.tree t).style id
  have htree : ∀ T, f₂.tree T = f.tree T := tree_of_trees_eq hA.trees
  have hsize : f₂.nodes.size = f.nodes.size := by rw [hA.size, size_modifyNode]
  have hnode : ∀ u, ((f₂.modifyNode p fun n => { n with children := n.children.insertIdx i id }).node
      u).children = if p = u then (f.node p).children.insertIdx i id else (f.node u).children := by
    intro u
    rw [node_modifyNode]
    by_cases hpu : p = u
    · subst hpu
      rw [if_pos ⟨rfl, by rw [hsize]; exact hp_lt⟩, if_pos rfl, hA.children, hch₁]
    · rw [if_neg fun e => hpu (SourceId.ext_val e.1), if_neg hpu, hA.children, hch₁]
  refine ⟨⟨fun u => ?_, fun T => by rw [tree_modifyNode, htree], fun T _ => by
    rw [tree_modifyNode, htree], fun u hu => ?_⟩, .inserted hR hpa hi ?_ (fun u hu => ?_) ?_⟩
  · rw [field_modifyNode Node.model (fun n => { n with children := n.children.insertIdx i id })
      fun _ => rfl, hA.model]
    exact field_modifyNode Node.model (fun n => { n with parent := some p }) fun _ => rfl
  · rw [hnode, if_neg fun e : p = u => hu R hR (e ▸ hpa.toBelow)]
  · rw [hnode, if_pos rfl]
  · rw [hnode, if_neg (Ne.symm hu)]
  · rw [tree_modifyNode, htree, hR]

/-- Detaching the node at a nonempty address from its parent. -/
theorem detachChild_reshapes {c : SourceId} (h : f.detachChild t a = .ok (c, f')) :
    Reshapes f f' t ∧ Applies f t (.removed a) f' := by
  unfold Forest.detachChild at h
  split at h
  · cases h
  rename_i i hlast
  cases hp : f.resolve t a.dropLast with
  | error e => rw [hp] at h; cases h
  | ok p =>
    rw [hp] at h
    simp only [bind, Except.bind, pure, Except.pure] at h
    split at h
    · cases h
    rename_i c₁ hc
    simp only [Except.ok.injEq, Prod.mk.injEq] at h
    obtain ⟨-, rfl⟩ := h
    obtain ⟨R, hR, hpa⟩ := resolve_ok hp
    have hp_lt : p.val < f.nodes.size := hl.lt_size_of_below hR hpa.toBelow
    set g := f.freeze c₁
    have hF : Freezes f g c₁ := freezeWithin_spec _ _ _
    have hsize : g.nodes.size = f.nodes.size := hF.size
    have hnode : ∀ u, (((g.modifyNode p fun n => { n with children := n.children.eraseIdx i }).modifyNode
        c₁ fun n => { n with parent := none }).node u).children =
        if p = u then (f.node p).children.eraseIdx i else (f.node u).children := by
      intro u
      rw [field_modifyNode Node.children (fun n => { n with parent := none }) fun _ => rfl,
        node_modifyNode]
      by_cases hpu : p = u
      · subst hpu
        rw [if_pos ⟨rfl, by rw [hsize]; exact hp_lt⟩, if_pos rfl, hF.children]
      · rw [if_neg fun e => hpu (SourceId.ext_val e.1), if_neg hpu, hF.children]
    have htree : ∀ T, (((g.modifyNode p fun n => { n with children := n.children.eraseIdx i }).modifyNode
        c₁ fun n => { n with parent := none }).tree T) = f.tree T := fun T => by
      rw [tree_modifyNode, tree_modifyNode, tree_of_trees_eq hF.trees]
    have ha : a = a.dropLast ++ [i] := (List.dropLast_append_getLast? i hlast).symm
    refine ⟨⟨fun u => ?_, fun T => by rw [htree], fun T _ => by rw [htree], fun u hu => ?_⟩, ?_⟩
    · rw [field_modifyNode Node.model (fun n => { n with parent := none }) fun _ => rfl,
        field_modifyNode Node.model (fun n => { n with children := n.children.eraseIdx i })
          fun _ => rfl, hF.model]
    · rw [hnode, if_neg fun e : p = u => hu R hR (e ▸ hpa.toBelow)]
    · rw [ha]
      exact .detached hR hpa hc (by rw [hnode, if_pos rfl]) (fun u hu => by
        rw [hnode, if_neg (Ne.symm hu)]) (by rw [htree, hR])

omit hl in
/-- Replacing the payload of the node at an address. -/
theorem replacePayload_reshapes {payload : Toml.Table} (h : f.replacePayload t a payload = .ok f') :
    Reshapes f f' t ∧ Applies f t (.changed a) f' := by
  obtain ⟨u, hu, rfl⟩ := replacePayload_ok h
  obtain ⟨R, hR, hua⟩ := resolve_ok hu
  have hch : ∀ v, ((f.modifyNode u fun n => { n with payload := payload }).node v).children =
      (f.node v).children := fun _ =>
    field_modifyNode Node.children (fun n => { n with payload := payload }) fun _ => rfl
  exact ⟨⟨fun _ => field_modifyNode Node.model (fun n => { n with payload := payload }) fun _ => rfl, fun _ => rfl, fun _ _ => rfl,
    fun v _ => hch v⟩, .changed hR hua hch hR⟩

end Edits

end Inlay.Source.Forest
