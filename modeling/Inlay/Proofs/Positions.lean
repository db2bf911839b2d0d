import Mathlib.Data.List.Induction
import Inlay.Proofs.Linked

namespace Inlay

namespace Style

/-- The segment an index adds to a path: its decimal text as a key in keyed layout, a list
position in list layout. -/
def slot (st : Style) (i : Nat) : Segment :=
  match st.layout with
  | .keyed => .key (toString i)
  | .list => .index i

/-- The path of the node at an address: the style's key and the slot of each index in turn. -/
def addressPath (st : Style) (address : List Nat) : Path :=
  ⟨address.flatMap fun i => [.key st.key, st.slot i]⟩

@[simp] theorem addressPath_nil (st : Style) : st.addressPath [] = Path.root := rfl

/-- One more index adds the key and the index's slot. -/
theorem addressPath_concat (st : Style) (a : List Nat) (i : Nat) :
    st.addressPath (a ++ [i]) = match st.layout with
      | .keyed => ((st.addressPath a).child st.key).child (toString i)
      | .list => ((st.addressPath a).child st.key).listChild i := by
  cases h : st.layout <;> simp [addressPath, slot, h, Path.child, Path.listChild]

/-- Written out, the path of an address is the style's key and the index's slot per index:
`/key/i` in keyed layout, `/key[i]` in list layout. -/
theorem render_addressPath (st : Style) {a : List Nat} (h : a ≠ []) :
    (st.addressPath a).render = String.join (a.map fun i => "/" ++ st.key ++ (st.slot i).render) := by
  have hjoin : ∀ a : List Nat, String.join ((a.flatMap fun i => [Segment.key st.key, st.slot i]).map
      Segment.render) = String.join (a.map fun i => "/" ++ st.key ++ (st.slot i).render) := by
    intro a
    induction a with
    | nil => rfl
    | cons i a ih =>
      rw [List.flatMap_cons, List.map_append, String.join_append, ih, List.map_cons, String.join_cons]
      simp [Segment.render, String.append_assoc]
  unfold Path.render
  split
  · rename_i hnil
    obtain ⟨i, a, rfl⟩ := List.exists_cons_of_ne_nil h
    simp [addressPath] at hnil
  · exact hjoin a

end Style

namespace Source.Forest

variable {f f₁ f₂ f₃ : Forest} {st : Style}

section Restyle

/-- What adopting may change of what positions read: styles, and only to the adopted one. -/
structure Restyles (st : Style) (f g : Forest) : Prop where
  size : g.nodes.size = f.nodes.size
  children : ∀ u, (g.node u).children = (f.node u).children
  detached : ∀ u, (g.node u).detached = (f.node u).detached
  style : ∀ u, (g.node u).style = st ∨ (g.node u).style = (f.node u).style

theorem Restyles.refl (st : Style) (f : Forest) : Restyles st f f :=
  ⟨rfl, fun _ => rfl, fun _ => rfl, fun _ => .inr rfl⟩

theorem Restyles.trans (h₁ : Restyles st f₁ f₂) (h₂ : Restyles st f₂ f₃) : Restyles st f₁ f₃ := by
  refine ⟨h₂.size.trans h₁.size, fun u => (h₂.children u).trans (h₁.children u),
    fun u => (h₂.detached u).trans (h₁.detached u), fun u => ?_⟩
  rcases h₂.style u with h | h
  · exact .inl h
  · rw [h]; exact h₁.style u

/-- A node with the adopted style keeps it. -/
theorem Restyles.keeps (h : Restyles st f₁ f₂) {u : SourceId} (hu : (f₁.node u).style = st) :
    (f₂.node u).style = st := by
  rcases h.style u with h | h
  · exact h
  · rw [h, hu]

theorem restyles_modifyNode (id : SourceId) (g : Node → Node) (hg : ∀ n, (g n).children = n.children ∧
    (g n).detached = n.detached ∧ ((g n).style = st ∨ (g n).style = n.style)) :
    Restyles st f (f.modifyNode id g) := by
  refine ⟨size_modifyNode, fun u => ?_, fun u => ?_, fun u => ?_⟩ <;> rw [node_modifyNode] <;>
    split
  · exact (hg _).1
  · rfl
  · exact (hg _).2.1
  · rfl
  · exact (hg _).2.2
  · exact .inr rfl

theorem restyles_foldl {β : Type} {step : Forest → β → Forest}
    (hstep : ∀ f b, Restyles st f (step f b)) :
    ∀ (l : List β) (f : Forest), Restyles st f (l.foldl step f)
  | [], f => .refl st f
  | b :: l, f => (hstep f b).trans (restyles_foldl hstep l _)

/-- Adopting with any fuel changes parents and gives styles, nothing else a position reads. -/
theorem restyles_adoptWithin (st : Style) :
    ∀ (k : Nat) (f : Forest) (id : SourceId), Restyles st f (f.adoptWithin st k id)
  | 0, f, _ => .refl st f
  | k + 1, f, id => by
    rw [adoptWithin]
    refine (restyles_modifyNode id (fun n => { n with style := st }) fun _ => ⟨rfl, rfl, .inl rfl⟩).trans
      (restyles_foldl (fun h c => ?_) _ _)
    exact (restyles_modifyNode c (fun n => { n with parent := some id }) fun _ => ⟨rfl, rfl, .inr rfl⟩).trans
      (restyles_adoptWithin st k _ c)

/-- Adopting below a node whose subtree descends, with fuel past its id, gives every node of the
subtree the style. -/
theorem style_adoptWithin (st : Style) : ∀ (k : Nat) (g : Forest) (id : SourceId),
    (∀ u c, Below g id u → c ∈ (g.node u).children → c.val < u.val) →
    id.val < g.nodes.size → id.val < k →
    ∀ u, Below g id u → ((g.adoptWithin st k id).node u).style = st
  | 0, _, _, _, _, hk => absurd hk (Nat.not_lt_zero _)
  | k + 1, g, id, hd, hlt, hk => by
    let step := fun (h : Forest) (c : SourceId) =>
      (h.modifyNode c fun n => { n with parent := some id }).adoptWithin st k c
    have hstep : ∀ h c, Restyles st h (step h c) := fun h c =>
      (restyles_modifyNode c (fun n => { n with parent := some id }) fun _ => ⟨rfl, rfl, .inr rfl⟩).trans
        (restyles_adoptWithin st k _ c)
    have hfold : ∀ (l : List SourceId) (h : Forest), (∀ c ∈ l, c ∈ (g.node id).children) →
        (∀ u, (h.node u).children = (g.node u).children) → h.nodes.size = g.nodes.size →
        ∀ c ∈ l, ∀ u, Below g c u → ((l.foldl step h).node u).style = st := by
      intro l
      induction l with
      | nil => intro _ _ _ _ c hc; exact absurd hc List.not_mem_nil
      | cons c l ih =>
        intro h hsub hch hsz c' hc' u hu
        have hcm : c ∈ (g.node id).children := hsub c List.mem_cons_self
        have hr := hstep h c
        rw [List.foldl_cons]
        rcases List.mem_cons.1 hc' with rfl | hc'
        · refine (restyles_foldl hstep l _).keeps ?_
          have hm₁ : Restyles st h (h.modifyNode c' fun n => { n with parent := some id }) :=
            restyles_modifyNode c' _ fun _ => ⟨rfl, rfl, .inr rfl⟩
          have hch₁ : ∀ v, ((h.modifyNode c' fun n => { n with parent := some id }).node v).children =
              (g.node v).children := fun v => (hm₁.children v).trans (hch v)
          have hc_lt : c'.val < id.val := hd id c' .refl hcm
          refine style_adoptWithin st k _ c' (fun v d hv hm => ?_) (by rw [size_modifyNode, hsz]; omega)
            (by omega) u (hu.congr hch₁)
          rw [hch₁] at hm
          exact hd v d ((Below.single hcm).trans (hv.congr fun w => (hch₁ w).symm)) hm
        · exact ih _ (fun d hd => hsub d (List.mem_cons_of_mem c hd))
            (fun v => (hr.children v).trans (hch v)) (hr.size.trans hsz) c' hc' u hu
    let g₁ := g.modifyNode id fun n => { n with style := st }
    have hr₁ : Restyles st g g₁ := restyles_modifyNode id _ fun _ => ⟨rfl, rfl, .inl rfl⟩
    intro u hu
    change (((g₁.node id).children.foldl step g₁).node u).style = st
    rw [hr₁.children]
    rcases hu.cases_head with rfl | ⟨c, hcm, hcu⟩
    · refine (restyles_foldl hstep _ _).keeps ?_
      rw [node_modifyNode, if_pos ⟨rfl, hlt⟩]
    · exact hfold _ g₁ (fun c hc => hc) hr₁.children hr₁.size c hcm u hcu

end Restyle

section Outcome

variable {f' : Forest} {t : TreeId} {id : SourceId} {a : List Nat}

theorem placeRoot_ok (h : f.placeRoot t id = .ok f') :
    (f.tree t).root = none ∧
      f' = (f.adopt (f.tree t).style id).modifyTree t fun tr => { tr with root := some id } := by
  unfold Forest.placeRoot at h
  split at h
  · cases h
  · rename_i hnone
    simp only [Except.ok.injEq] at h
    exact ⟨hnone, h.symm⟩

theorem takeRoot_ok {r : SourceId} (h : f.takeRoot t = .ok (r, f')) :
    (f.tree t).root = some r ∧ f' = (f.modifyTree t fun tr => { tr with root := none }).freeze r := by
  unfold Forest.takeRoot at h
  split at h
  · cases h
  · rename_i r₀ hroot
    simp only [Except.ok.injEq, Prod.mk.injEq] at h
    obtain ⟨rfl, rfl⟩ := h
    exact ⟨hroot, rfl⟩

theorem insertChild_ok {i : Nat} (h : f.insertChild t a i id = .ok f') :
    ∃ p, f.resolve t a = .ok p ∧ i ≤ (f.node p).children.length ∧
      f' = ((f.modifyNode id fun n => { n with parent := some p }).adopt (f.tree t).style id).modifyNode
        p fun n => { n with children := n.children.insertIdx i id } := by
  unfold Forest.insertChild at h
  cases hp : f.resolve t a with
  | error e => rw [hp] at h; cases h
  | ok p =>
    rw [hp] at h
    simp only [bind, Except.bind, pure, Except.pure] at h
    split at h
    · cases h
    · rename_i hi
      simp only [Except.ok.injEq] at h
      exact ⟨p, rfl, Nat.le_of_not_lt hi, h.symm⟩

theorem detachChild_ok {c : SourceId} (h : f.detachChild t a = .ok (c, f')) :
    ∃ p i, f.resolve t a.dropLast = .ok p ∧ (f.node p).children[i]? = some c ∧
      f' = ((f.freeze c).modifyNode p fun n => { n with children := n.children.eraseIdx i }).modifyNode
        c fun n => { n with parent := none } := by
  unfold Forest.detachChild at h
  split at h
  · cases h
  · rename_i i _
    cases hp : f.resolve t a.dropLast with
    | error e => rw [hp] at h; cases h
    | ok p =>
      rw [hp] at h
      simp only [bind, Except.bind, pure, Except.pure] at h
      split at h
      · cases h
      · rename_i c₁ hc₁
        simp only [Except.ok.injEq, Prod.mk.injEq] at h
        obtain ⟨rfl, rfl⟩ := h
        exact ⟨p, i, rfl, hc₁, rfl⟩

theorem replacePayload_ok {payload : Toml.Table} (h : f.replacePayload t a payload = .ok f') :
    ∃ u, f.resolve t a = .ok u ∧ f' = f.modifyNode u fun n => { n with payload := payload } := by
  unfold Forest.replacePayload at h
  cases hp : f.resolve t a with
  | error e => rw [hp] at h; cases h
  | ok u =>
    rw [hp] at h
    simp only [bind, Except.bind, pure, Except.pure, Except.ok.injEq] at h
    exact ⟨u, rfl, h.symm⟩

end Outcome

section Freeze

variable {f₀ g : Forest}

/-- Freezing with any fuel changes no style. -/
theorem style_freezeWithin : ∀ (k : Nat) (f : Forest) (id u : SourceId),
    ((f.freezeWithin k id).node u).style = (f.node u).style
  | 0, _, _, _ => rfl
  | k + 1, f, id, u => by
    have hfold : ∀ (l : List SourceId) (g : Forest),
        ((l.foldl (fun g c => g.freezeWithin k c) g).node u).style = (g.node u).style := by
      intro l
      induction l with
      | nil => intro g; rfl
      | cons c l ih => intro g; rw [List.foldl_cons, ih, style_freezeWithin k g c u]
    rw [freezeWithin, hfold, node_modifyNode]
    split <;> rfl

/-- Changing one node in a way a field does not see keeps that field of every node. -/
theorem field_modifyNode {β : Type} (field : Node → β) {id u : SourceId} (g : Node → Node)
    (hg : ∀ n, field (g n) = field n) : field ((f.modifyNode id g).node u) = field (f.node u) := by
  rw [node_modifyNode]
  split
  · exact hg _
  · rfl

/-- A recorded position is what the node answers. -/
theorem position_of_detached {u : SourceId} {i : Nat} {p : Path}
    (h : (f.node u).detached = some (i, p)) : f.childIndex u = i ∧ f.path u = p :=
  ⟨by simp only [childIndex, h], by simp only [path, pathWithin, h]⟩

/-- Every position recorded in `f` is still recorded in `g`. -/
def Retains (f g : Forest) : Prop :=
  ∀ u x, (f.node u).detached = some x → (g.node u).detached = some x

theorem Retains.refl (f : Forest) : Retains f f := fun _ _ h => h

theorem Retains.trans (h₁ : Retains f₁ f₂) (h₂ : Retains f₂ f₃) : Retains f₁ f₃ :=
  fun u x h => h₂ u x (h₁ u x h)

theorem Retains.of_detached (h : ∀ u, (f₂.node u).detached = (f₁.node u).detached) :
    Retains f₁ f₂ :=
  fun u _ hx => (h u).trans hx

/-- A forest part way through a freeze: as `f₀` in everything a position reads, except that some
nodes have recorded the position they have in `f₀`. -/
structure Agrees (f₀ g : Forest) : Prop where
  size : g.nodes.size = f₀.nodes.size
  children : ∀ u, (g.node u).children = (f₀.node u).children
  parent : ∀ u, (g.node u).parent = (f₀.node u).parent
  style : ∀ u, (g.node u).style = (f₀.node u).style
  detached : ∀ u, (g.node u).detached = (f₀.node u).detached ∨
    (g.node u).detached = some (f₀.childIndex u, f₀.path u)

theorem Agrees.refl (f₀ : Forest) : Agrees f₀ f₀ :=
  ⟨rfl, fun _ => rfl, fun _ => rfl, fun _ => rfl, fun _ => .inl rfl⟩

section Linked

variable (hl : Linked f₀) {t : TreeId} {r : SourceId} (hr : (f₀.tree t).root = some r)
include hl hr

/-- Going down a tree, chains of parents only get longer. -/
theorem Linked.climbs_le {x u : SourceId} (hx : Below f₀ r x) (hu : Below f₀ x u) {n m : Nat}
    (hn : Climbs f₀ x n) (hm : Climbs f₀ u m) : n ≤ m := by
  induction hu generalizing m with
  | refl => exact Nat.le_of_eq (hn.unique hm)
  | @child p c hp hc ih =>
    have hpar := hl.child_parent t r p c hr (hx.trans hp) hc
    cases hm with
    | top h => rw [hpar] at h; cases h
    | up h hm' => rw [hpar] at h; cases h; exact Nat.le_succ_of_le (ih hm')

/-- Part way through a freeze, every node of the tree answers the position it has in `f₀`:
the nodes above it have recorded that position or still compute it. -/
theorem Agrees.position (hg : Agrees f₀ g) {w : SourceId} (hw : Below f₀ r w) :
    g.childIndex w = f₀.childIndex w ∧
      ∀ n k, Climbs f₀ w n → n < k → g.pathWithin k w = f₀.path w := by
  induction hw with
  | refl =>
    have hp : (f₀.node r).parent = none := hl.root_parent t r hr
    have hd : (f₀.node r).detached = none := hl.attached t r r hr .refl
    rcases hg.detached r with hgd | hgd
    · rw [hd] at hgd
      refine ⟨by simp only [childIndex, hgd, hg.parent, hp, hd], fun n k _ hk => ?_⟩
      obtain ⟨k, rfl⟩ : ∃ j, k = j + 1 := ⟨k - 1, by omega⟩
      simp only [path, pathWithin, hgd, hg.parent, hp, hd]
    · refine ⟨(position_of_detached hgd).1, fun n k _ hk => ?_⟩
      obtain ⟨k, rfl⟩ : ∃ j, k = j + 1 := ⟨k - 1, by omega⟩
      simp only [pathWithin, hgd]
  | @child p w hp hm ih =>
    have hpar : (f₀.node w).parent = some p := hl.child_parent t r p w hr hp hm
    have hd : (f₀.node w).detached = none := hl.attached t r w hr (.child hp hm)
    rcases hg.detached w with hgd | hgd
    · rw [hd] at hgd
      have hidx : g.childIndex w = f₀.childIndex w := by
        simp only [childIndex, hgd, hd, hg.parent, hpar, hg.children]
      refine ⟨hidx, fun n k hn hk => ?_⟩
      cases hn with
      | top h => rw [hpar] at h; cases h
      | @up _ p' m hp' hm' =>
        rw [hpar] at hp'
        cases hp'
        obtain ⟨k, rfl⟩ : ∃ j, k = j + 1 := ⟨k - 1, by omega⟩
        rw [path_of_climbs (Climbs.up hpar hm'), pathWithin.eq_2 g w k, pathWithin.eq_2 f₀ w (m + 1)]
        simp only [hgd, hd, hg.parent, hpar, hg.style, ih.2 m k hm' (by omega), hidx,
          ← path_of_climbs hm']
    · refine ⟨(position_of_detached hgd).1, fun n k _ hk => ?_⟩
      obtain ⟨k, rfl⟩ : ∃ j, k = j + 1 := ⟨k - 1, by omega⟩
      simp only [pathWithin, hgd]

/-- Freezing a node of a tree, part way through a freeze of `f₀`, with `k` levels of fuel: every
node down to `k` levels below it records the position it has in `f₀`, and no recorded position
changes. -/
theorem freezeWithin_records : ∀ (k : Nat) (g : Forest) (x : SourceId) (n : Nat),
    Agrees f₀ g → Below f₀ r x → Climbs f₀ x n →
    Agrees f₀ (g.freezeWithin k x) ∧ Retains g (g.freezeWithin k x) ∧
      ∀ u m, Below f₀ x u → Climbs f₀ u m → m < n + k →
        ((g.freezeWithin k x).node u).detached = some (f₀.childIndex u, f₀.path u)
  | 0, g, x, n, hg, hx, hn =>
    ⟨hg, .refl g, fun u m hu hm hlt => absurd (hl.climbs_le hr hx hu hn hm) (by omega)⟩
  | k + 1, g, x, n, hg, hx, hn => by
    obtain ⟨hidx, hpath⟩ := hg.position hl hr hx
    have hgx : g.path x = f₀.path x :=
      hpath n _ hn (by rw [hg.size]; exact Nat.lt_succ_of_le hn.le_size)
    have hx_lt : x.val < g.nodes.size := by rw [hg.size]; exact hl.lt_size_of_below hr hx
    let g₁ := g.modifyNode x fun nd => { nd with detached := some (g.childIndex x, g.path x) }
    have hnode₁ : ∀ u, g₁.node u = if x.val = u.val ∧ u.val < g.nodes.size then
        { g.node u with detached := some (g.childIndex x, g.path x) } else g.node u :=
      fun u => node_modifyNode
    have hx₁ : (g₁.node x).detached = some (f₀.childIndex x, f₀.path x) := by
      rw [hnode₁, if_pos ⟨rfl, hx_lt⟩, hidx, hgx]
    have hret₁ : Retains g g₁ := fun u y hy => by
      rw [hnode₁]
      split
      · rename_i e
        obtain rfl := SourceId.ext_val e.1
        rcases hg.detached x with h | h
        · rw [h, hl.attached t r x hr hx] at hy; cases hy
        · rw [hy] at h; rw [h, hidx, hgx]
      · exact hy
    have hg₁ : Agrees f₀ g₁ := by
      refine ⟨by rw [size_modifyNode, hg.size], fun u => ?_, fun u => ?_, fun u => ?_, fun u => ?_⟩
      · rw [hnode₁]; split <;> exact hg.children u
      · rw [hnode₁]; split <;> exact hg.parent u
      · rw [hnode₁]; split <;> exact hg.style u
      · rw [hnode₁]
        split
        · rename_i e
          obtain rfl := SourceId.ext_val e.1
          exact .inr (by rw [hidx, hgx])
        · exact hg.detached u
    have hfold : ∀ (l : List SourceId) (h : Forest), (∀ c ∈ l, c ∈ (f₀.node x).children) →
        Agrees f₀ h → Agrees f₀ (l.foldl (fun h c => h.freezeWithin k c) h) ∧
          Retains h (l.foldl (fun h c => h.freezeWithin k c) h) ∧
          ∀ c ∈ l, ∀ u m, Below f₀ c u → Climbs f₀ u m → m < n + 1 + k →
            ((l.foldl (fun h c => h.freezeWithin k c) h).node u).detached =
              some (f₀.childIndex u, f₀.path u) := by
      intro l
      induction l with
      | nil => intro h _ hh; exact ⟨hh, .refl h, fun c hc => absurd hc List.not_mem_nil⟩
      | cons c l ih =>
        intro h hsub hh
        have hcm : c ∈ (f₀.node x).children := hsub c List.mem_cons_self
        have hc : Climbs f₀ c (n + 1) := .up (hl.child_parent t r x c hr hx hcm) hn
        obtain ⟨hA, hR, hF⟩ := freezeWithin_records k h c (n + 1) hh (.child hx hcm) hc
        obtain ⟨hA', hR', hF'⟩ := ih _ (fun d hd => hsub d (List.mem_cons_of_mem c hd)) hA
        refine ⟨hA', hR.trans hR', fun c' hc' u m hu hm hlt => ?_⟩
        rw [List.foldl_cons]
        rcases List.mem_cons.1 hc' with rfl | hc'
        · exact hR' _ _ (hF u m hu hm hlt)
        · exact hF' c' hc' u m hu hm hlt
    have e : g.freezeWithin (k + 1) x =
        (g₁.node x).children.foldl (fun h c => h.freezeWithin k c) g₁ := rfl
    rw [e, hg₁.children x]
    obtain ⟨hA, hR, hF⟩ := hfold _ g₁ (fun c hc => hc) hg₁
    refine ⟨hA, hret₁.trans hR, fun u m hu hm hlt => ?_⟩
    rcases hu.cases_head with rfl | ⟨c, hcm, hcu⟩
    · exact hR _ _ hx₁
    · exact hF c hcm u m hcu hm (by omega)

/-- Freezing a node of a tree records, for every node below it, its index and path. -/
theorem freeze_records (g : Forest) (hg : g.nodes = f₀.nodes) {x : SourceId} (hx : Below f₀ r x) :
    Retains f₀ (g.freeze x) ∧
      ∀ u, Below f₀ x u → ((g.freeze x).node u).detached = some (f₀.childIndex u, f₀.path u) := by
  have hA : Agrees f₀ g := by
    have e : ∀ u, g.node u = f₀.node u := fun u => by rw [node, hg]; rfl
    exact ⟨by rw [hg], fun u => by rw [e], fun u => by rw [e], fun u => by rw [e],
      fun u => .inl (by rw [e])⟩
  obtain ⟨n, hn⟩ := hl.climbs hr hx
  obtain ⟨_, hR, hF⟩ := freezeWithin_records hl hr (g.nodes.size + 1) g x n hA hx hn
  refine ⟨fun u y hy => hR u y (by rw [node, hg]; exact hy), fun u hu => ?_⟩
  obtain ⟨m, hm⟩ := hl.climbs hr (hx.trans hu)
  exact hF u m hu hm (by rw [hg]; have := hm.le_size; omega)

end Linked

end Freeze

section Styled

variable {f' : Forest} {t : TreeId} {id : SourceId}

/-- Every node a tree holds carries the tree's style. -/
def Styled (f : Forest) : Prop :=
  ∀ t r u, (f.tree t).root = some r → Below f r u → (f.node u).style = (f.tree t).style

/-- A forest whose roots are roots it had, with the trees' styles, and whose trees hold only nodes
they held, with their styles, is styled as before. -/
theorem Styled.of_roots (hs : Styled f)
    (hroot : ∀ t r, (f'.tree t).root = some r → (f.tree t).root = some r ∧
      (f'.tree t).style = (f.tree t).style)
    (hbelow : ∀ t r u, (f.tree t).root = some r → Below f' r u → Below f r u)
    (hstyle : ∀ t r u, (f.tree t).root = some r → Below f r u → (f'.node u).style = (f.node u).style) :
    Styled f' := fun t r u hr hu => by
  obtain ⟨hr', hst⟩ := hroot t r hr
  have hu' := hbelow t r u hr' hu
  rw [hst, hstyle t r u hr' hu']
  exact hs t r u hr' hu'

theorem tree_addTree {tr : Tree} : (f.addTree tr).2.tree t =
    if t.val = f.trees.size then tr else f.tree t :=
  Sync.getD_push _ _ _ _

/-- Past the last tree every lookup answers the default tree, which has no root. -/
theorem tree_of_size_le (ht : f.trees.size ≤ t.val) : f.tree t = default := by
  rw [tree, Array.getD_eq_getD_getElem?, Array.getElem?_eq_none ht]
  rfl

theorem Below.of_addTree {tr : Tree} {a b : SourceId} (h : Below (f.addTree tr).2 a b) :
    Below f a b := by
  refine h.congr fun u => ?_
  rfl

/-- A tree added without a root adds no root. -/
theorem root_addTree {tr : Tree} (h : tr.root = none) :
    ((f.addTree tr).2.tree t).root = (f.tree t).root := by
  rw [tree_addTree]
  split
  · rw [h, tree_of_size_le (by omega)]
    rfl
  · rfl

theorem Styled.addTree (hs : Styled f) {tr : Tree} (h : tr.root = none) :
    Styled (f.addTree tr).2 := by
  refine hs.of_roots (fun t r hr => ?_) (fun _ _ _ _ hu => hu.of_addTree) (fun _ _ _ _ _ => rfl)
  rw [root_addTree h] at hr
  refine ⟨hr, ?_⟩
  rw [tree_addTree, if_neg]
  intro e
  rw [tree_of_size_le (by omega)] at hr
  cases hr

theorem Styled.grow (hl : Linked f) (hs : Styled f) (h : Grows f f') : Styled f' := by
  have htree : ∀ t, f'.tree t = f.tree t := fun t => by rw [tree, h.trees]; rfl
  refine hs.of_roots (fun t r hr => ?_) (fun t r u hr hu => ?_) (fun t r u hr hu => ?_)
  · rw [htree] at hr ⊢; exact ⟨hr, rfl⟩
  · exact (h.below hl (hl.root_lt t r hr) hu).1
  · rw [h.node u (hl.lt_size_of_below hr hu)]

/-- Placing a loose node as a root gives its subtree the tree's style. -/
theorem Styled.placeRoot (hl : Linked f) (hs : Styled f) (hid : Loose f id)
    (h : f.placeRoot t id = .ok f') : Styled f' := by
  unfold Forest.placeRoot at h
  split at h
  · cases h
  · simp only [Except.ok.injEq] at h
    subst h
    have hA : Adopts f (f.adopt (f.tree t).style id) id :=
      adoptWithin_spec hl (f.tree t).style (f.nodes.size + 1) f id (fun _ => rfl) rfl
        hid.descends (Nat.lt_succ_of_lt hid.lt)
    set fa := f.adopt (f.tree t).style id with hfa
    have htree : ∀ t', fa.tree t' = f.tree t' := fun t' => by rw [tree, hA.trees]; rfl
    intro t' r u hr hu
    have hu' : Below f r u := (Below.of_modifyTree hu).congr fun v => (hA.children v).symm
    change (fa.node u).style = _
    rw [tree_modifyTree] at hr ⊢
    split at hr
    · rename_i e
      simp only [Option.some.injEq] at hr
      subst hr
      have ht : t = t' := by cases t; cases t'; simp only at e; rw [e.1]
      subst ht
      rw [if_pos e, htree]
      exact style_adoptWithin _ _ f id hid.descends hid.lt (Nat.lt_succ_of_lt hid.lt) u hu'
    · rename_i hne
      rw [htree] at hr
      rw [if_neg hne, htree, hA.outside u (hid.apart hl hr hu')]
      exact hs t' r u hr hu'

/-- Taking a root out keeps every other tree and every style. -/
theorem Styled.takeRoot (hs : Styled f) {r : SourceId} (h : f.takeRoot t = .ok (r, f')) :
    Styled f' := by
  obtain ⟨_, rfl⟩ := takeRoot_ok h
  set f₁ := f.modifyTree t fun tr => { tr with root := none }
  have hF : Freezes f₁ (f₁.freeze r) r := freezeWithin_spec _ _ _
  have htree : ∀ t', (f₁.freeze r).tree t' = f₁.tree t' := fun t' => by rw [tree, hF.trees]; rfl
  refine hs.of_roots (fun t' r' hr => ?_)
    (fun _ _ _ _ hu => Below.of_modifyTree (hu.congr fun v => (hF.children v).symm))
    fun _ _ u _ _ => style_freezeWithin _ _ _ u
  rw [htree, tree_modifyTree] at hr ⊢
  split at hr
  · cases hr
  · rename_i hne
    rw [if_neg hne]
    exact ⟨hr, rfl⟩

/-- Taking a child out keeps the trees, with fewer nodes, and every style. -/
theorem Styled.detachChild (hs : Styled f) {c : SourceId} (h : f.detachChild t a = .ok (c, f')) :
    Styled f' := by
  obtain ⟨p, i, _, _, rfl⟩ := detachChild_ok h
  unfold freeze
  have htree : ∀ t', (((f.freezeWithin (f.nodes.size + 1) c).modifyNode p fun n => { n with children := n.children.eraseIdx i }).modifyNode
      c fun n => { n with parent := none }).tree t' = f.tree t' := fun t' => by
    rw [tree_modifyNode, tree_modifyNode, tree, (freezeWithin_spec _ f c).trees]; rfl
  refine hs.of_roots (fun t' r hr => ?_) (fun _ _ _ _ hu => hu.congr' fun v d hd => ?_)
    fun _ _ v _ _ => ?_
  · rw [htree] at hr ⊢; exact ⟨hr, rfl⟩
  · rw [field_modifyNode Node.children _ (by intro; rfl), node_modifyNode] at hd
    rw [← (freezeWithin_spec _ f c).children v]
    split at hd
    · exact (List.eraseIdx_sublist _ _).subset hd
    · exact hd
  · rw [field_modifyNode Node.style _ (by intro; rfl), field_modifyNode Node.style _ (by intro; rfl),
      style_freezeWithin]

theorem Styled.replacePayload (hs : Styled f) {payload : Toml.Table}
    (h : f.replacePayload t a payload = .ok f') : Styled f' := by
  obtain ⟨_, _, rfl⟩ := replacePayload_ok h
  refine hs.of_roots (fun _ _ hr => ⟨hr, rfl⟩)
    (fun _ _ _ _ hu => hu.congr fun v => (field_modifyNode Node.children _ (by intro; rfl)).symm)
    fun _ _ _ _ _ => field_modifyNode Node.style _ (by intro; rfl)

/-- Inserting a loose node gives its subtree the tree's style. -/
theorem Styled.insertChild (hl : Linked f) (hs : Styled f) (hid : Loose f id) {i : Nat}
    (h : f.insertChild t a i id = .ok f') : Styled f' := by
  obtain ⟨p, hp, _, rfl⟩ := insertChild_ok h
  obtain ⟨r, hr, hpa⟩ := resolve_ok hp
  set f₁ := f.modifyNode id fun n => { n with parent := some p }
  have hch₁ : ∀ u, (f₁.node u).children = (f.node u).children :=
    fun u => field_modifyNode Node.children _ (by intro; rfl)
  have hA : Adopts f₁ (f₁.adopt (f.tree t).style id) id :=
    adoptWithin_spec hl _ (f₁.nodes.size + 1) f₁ id hch₁ size_modifyNode hid.descends
      (by rw [size_modifyNode]; exact Nat.lt_succ_of_lt hid.lt)
  set f₂ := f₁.adopt (f.tree t).style id
  have htree : ∀ t', (f₂.modifyNode p fun n => { n with children := n.children.insertIdx i id }).tree t' =
      f.tree t' := fun t' => by rw [tree_modifyNode, tree, hA.trees]; rfl
  have hmem : ∀ u c, c ∈ ((f₂.modifyNode p fun n => { n with children := n.children.insertIdx i id }).node
      u).children → c ∈ (f.node u).children ∨ (u = p ∧ c = id) := fun u c hc => by
    rw [node_modifyNode] at hc
    split at hc
    · rename_i e
      obtain rfl := SourceId.ext_val e.1
      change c ∈ (f₂.node p).children.insertIdx i id at hc
      rw [hA.children, hch₁] at hc
      rcases (List.mem_insertIdx (by assumption)).1 hc with rfl | hc
      · exact .inr ⟨rfl, rfl⟩
      · exact .inl hc
    · rw [hA.children, hch₁] at hc
      exact .inl hc
  intro t' r' u hr' hu
  rw [htree] at hr' ⊢
  rw [field_modifyNode Node.style _ (by intro; rfl)]
  rcases below_of_insert hmem hu with hu | ⟨hp', hiu⟩
  · rw [hA.outside u fun hb => hid.apart hl hr' hu (hb.congr fun w => (hch₁ w).symm),
      field_modifyNode Node.style _ (by intro; rfl)]
    exact hs t' r' u hr' hu
  · obtain rfl := hl.tree_eq hr' hr hp' hpa.toBelow
    exact style_adoptWithin _ _ f₁ id (fun v d hv hd => hid.descends v d (hv.congr fun w => (hch₁ w).symm)
      (by rw [← hch₁]; exact hd)) (by rw [size_modifyNode]; exact hid.lt)
      (by rw [size_modifyNode]; exact Nat.lt_succ_of_lt hid.lt) u (hiu.congr hch₁)

end Styled

section Records

variable {f' : Forest} {t : TreeId} {a : List Nat}

/-- Only nodes of the forest record positions. -/
theorem lt_size_of_detached {u : SourceId} {x : Nat × Path} (h : (f.node u).detached = some x) :
    u.val < f.nodes.size := by
  by_contra hge
  rw [node_of_size_le (Nat.le_of_not_lt hge)] at h
  cases h

theorem Grows.retains (h : Grows f f') : Retains f f' :=
  fun u _ hx => by rw [h.node u (lt_size_of_detached hx)]; exact hx

theorem retains_addTree (tr : Tree) : Retains f (f.addTree tr).2 := fun _ _ hx => hx

theorem retains_adoptWithin (k : Nat) (id : SourceId) : Retains f (f.adoptWithin st k id) :=
  .of_detached (restyles_adoptWithin st k f id).detached

theorem retains_placeRoot {id : SourceId} (h : f.placeRoot t id = .ok f') : Retains f f' := by
  obtain ⟨_, rfl⟩ := placeRoot_ok h
  exact retains_adoptWithin _ _

theorem retains_insertChild {id : SourceId} {i : Nat} (h : f.insertChild t a i id = .ok f') :
    Retains f f' := by
  obtain ⟨p, _, _, rfl⟩ := insertChild_ok h
  exact (Retains.of_detached fun _ => field_modifyNode Node.detached _ (by intro; rfl)).trans
    ((retains_adoptWithin _ _).trans
      (.of_detached fun _ => field_modifyNode Node.detached _ (by intro; rfl)))

theorem retains_replacePayload {payload : Toml.Table} (h : f.replacePayload t a payload = .ok f') :
    Retains f f' := by
  obtain ⟨_, _, rfl⟩ := replacePayload_ok h
  exact .of_detached fun _ => field_modifyNode Node.detached _ (by intro; rfl)

variable (hl : Linked f)
include hl

/-- Taking a root out records, for every node of the tree, its index and path. -/
theorem takeRoot_records {r : SourceId} (h : f.takeRoot t = .ok (r, f')) :
    Retains f f' ∧ ∀ u, Below f r u → (f'.node u).detached = some (f.childIndex u, f.path u) := by
  obtain ⟨hroot, rfl⟩ := takeRoot_ok h
  exact freeze_records hl hroot (f.modifyTree t fun tr => { tr with root := none }) rfl .refl

/-- Taking a child out records, for every node of its subtree, its index and path. -/
theorem detachChild_records {c : SourceId} (h : f.detachChild t a = .ok (c, f')) :
    Retains f f' ∧ ∀ u, Below f c u → (f'.node u).detached = some (f.childIndex u, f.path u) := by
  obtain ⟨p, i, hp, hc, rfl⟩ := detachChild_ok h
  obtain ⟨r, hr, hpa⟩ := resolve_ok hp
  obtain ⟨hR, hF⟩ := freeze_records hl hr f rfl (.child hpa.toBelow (List.mem_of_getElem? hc))
  have e : ∀ u, ((((f.freeze c).modifyNode p fun n => { n with children := n.children.eraseIdx i
      }).modifyNode c fun n => { n with parent := none }).node u).detached =
      ((f.freeze c).node u).detached := fun u => by
    rw [field_modifyNode Node.detached _ (by intro; rfl), field_modifyNode Node.detached _ (by intro; rfl)]
  exact ⟨hR.trans (.of_detached e), fun u hu => by rw [e]; exact hF u hu⟩

end Records

section Address

variable {t : TreeId} {r : SourceId}

/-- The last index of an address leads from the node at the rest of the address. -/
theorem Addressed.concat {u v : SourceId} {i : Nat} :
    ∀ {a : List Nat}, Addressed f u (a ++ [i]) v →
      ∃ p, Addressed f u a p ∧ (f.node p).children[i]? = some v
  | [], h => by
    cases h with
    | cons hc hv => cases hv; exact ⟨u, .nil, hc⟩
  | j :: a, h => by
    cases h with
    | cons hc hv =>
      obtain ⟨p, hp, hpv⟩ := Addressed.concat hv
      exact ⟨p, .cons hc hp, hpv⟩

variable (hl : Linked f) (hs : Styled f) (hr : (f.tree t).root = some r)
include hl hs hr

/-- In a linked styled tree the node at an address stands where the address says: its index is
the address's last index, its path has the tree's key and one slot per index, and it is listed
by its parent. -/
theorem position_of_addressed {a : List Nat} {u : SourceId} (h : Addressed f r a u) :
    f.childIndex u = a.getLast?.getD 0 ∧ f.path u = (f.tree t).style.addressPath a ∧
      ∀ p, (f.node u).parent = some p → u ∈ (f.node p).children := by
  induction a using List.reverseRecOn generalizing u with
  | nil =>
    cases h
    have hp := hl.root_parent t r hr
    have hd := hl.attached t r r hr .refl
    refine ⟨by simp only [childIndex, hd, hp, List.getLast?_nil, Option.getD_none], ?_,
      fun p h => by rw [hp] at h; cases h⟩
    simp only [path, pathWithin, hd, hp, Style.addressPath_nil]
  | append_singleton a i ih =>
    obtain ⟨p, hp, hpu⟩ := Addressed.concat h
    have hpr : Below f r p := hp.toBelow
    have hum : u ∈ (f.node p).children := List.mem_of_getElem? hpu
    have hpar : (f.node u).parent = some p := hl.child_parent t r p u hr hpr hum
    have hd : (f.node u).detached = none := hl.attached t r u hr (.child hpr hum)
    have hidx : f.childIndex u = i := by
      rw [childIndex_of_parent hd hpar]
      obtain ⟨hi, rfl⟩ := List.getElem?_eq_some_iff.1 hpu
      exact (hl.nodup p).idxOf_getElem i hi
    obtain ⟨n, hn⟩ := hl.climbs hr hpr
    refine ⟨by rw [hidx, List.getLast?_concat, Option.getD_some], ?_, fun q hq => ?_⟩
    · have h := path_of_parent hd hpar hn
      rw [hs t r u hr (.child hpr hum), (ih hp).2.1, hidx] at h
      exact h.trans (Style.addressPath_concat _ _ _).symm
    · rw [hpar] at hq
      cases hq
      exact hum

/-- The node a tree resolves an address to stands where the address says. -/
theorem position_of_resolve {a : List Nat} {u : SourceId} (h : f.resolve t a = .ok u) :
    f.childIndex u = a.getLast?.getD 0 ∧ f.path u = (f.tree t).style.addressPath a ∧
      ∀ p, (f.node u).parent = some p → u ∈ (f.node p).children := by
  obtain ⟨r', hr', hu⟩ := resolve_ok h
  rw [hr] at hr'
  cases hr'
  exact position_of_addressed hl hs hr hu

end Address

end Source.Forest

end Inlay
