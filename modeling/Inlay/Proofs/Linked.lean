import Mathlib.Data.List.Nodup
import Mathlib.Data.List.Perm.Subperm
import Inlay.Proofs.Heap

namespace Inlay

theorem SourceId.ext_val {a b : SourceId} (h : a.val = b.val) : a = b := by
  cases a; cases b; cases h; rfl

namespace Source.Forest

/-- The nodes reached from `top` through children lists, `top` included. -/
inductive Below (f : Forest) (top : SourceId) : SourceId → Prop
  | refl : Below f top top
  | child {p c : SourceId} : Below f top p → c ∈ (f.node p).children → Below f top c

/-- The chain of parents from a node ends, after `n` links, at a node without parent. -/
inductive Climbs (f : Forest) : SourceId → Nat → Prop
  | top {id : SourceId} : (f.node id).parent = none → Climbs f id 0
  | up {id p : SourceId} {n : Nat} : (f.node id).parent = some p → Climbs f p n →
      Climbs f id (n + 1)

variable {f : Forest}

section Below

theorem Below.trans {a b c : SourceId} (h₁ : Below f a b) (h₂ : Below f b c) : Below f a c := by
  induction h₂ with
  | refl => exact h₁
  | child _ hc ih => exact .child ih hc

theorem Below.single {p c : SourceId} (hc : c ∈ (f.node p).children) : Below f p c :=
  .child .refl hc

/-- A node reached from `top` is `top` or a child of a node reached from `top`. -/
theorem Below.cases_last {top x : SourceId} (h : Below f top x) :
    x = top ∨ ∃ p, Below f top p ∧ x ∈ (f.node p).children := by
  cases h with
  | refl => exact .inl rfl
  | child hp hc => exact .inr ⟨_, hp, hc⟩

/-- A node reached from `top` is `top` or reached from one of its children. -/
theorem Below.cases_head {top x : SourceId} (h : Below f top x) :
    x = top ∨ ∃ c ∈ (f.node top).children, Below f c x := by
  induction h with
  | refl => exact .inl rfl
  | @child p c _ hc ih =>
    rcases ih with rfl | ⟨d, hd, hp⟩
    · exact .inr ⟨c, hc, .refl⟩
    · exact .inr ⟨d, hd, .child hp hc⟩

/-- When no node is listed by two parents, two nodes above a common node lie on one line. -/
theorem Below.comparable
    (huniq : ∀ u u' c, c ∈ (f.node u).children → c ∈ (f.node u').children → u = u')
    {a b x : SourceId} (ha : Below f a x) (hb : Below f b x) : Below f a b ∨ Below f b a := by
  induction ha generalizing b with
  | refl => exact .inr hb
  | @child p c hp hc ih =>
    rcases hb.cases_last with rfl | ⟨p', hp', hc'⟩
    · exact .inl (.child hp hc)
    · exact ih (huniq p' p c hc' hc ▸ hp')

end Below

section Climbs

theorem Climbs.unique {id : SourceId} {n m : Nat} (h₁ : Climbs f id n) (h₂ : Climbs f id m) :
    n = m := by
  induction h₁ generalizing m with
  | top hn =>
    cases h₂ with
    | top _ => rfl
    | up hp _ => rw [hn] at hp; cases hp
  | up hp _ ih =>
    cases h₂ with
    | top hn => rw [hn] at hp; cases hp
    | up hp' h' =>
      rw [hp] at hp'
      cases hp'
      rw [ih h']

/-- The nodes passed on the way up, the terminal one left out: distinct, since the chain ends,
and in the forest, since each has a parent. -/
theorem Climbs.chain {id : SourceId} {n : Nat} (h : Climbs f id n) :
    ∃ l : List SourceId, l.length = n ∧ l.Nodup ∧ ∀ x ∈ l, ∃ m, 0 < m ∧ m ≤ n ∧ Climbs f x m := by
  induction h with
  | top _ => exact ⟨[], rfl, List.nodup_nil, fun _ hx => absurd hx List.not_mem_nil⟩
  | @up id p n hp hc ih =>
    obtain ⟨l, hlen, hnd, hl⟩ := ih
    have hid : id ∉ l := fun hmem => by
      obtain ⟨m, _, hm, hcm⟩ := hl id hmem
      have := (Climbs.up hp hc).unique hcm
      omega
    refine ⟨id :: l, by rw [List.length_cons, hlen], List.nodup_cons.2 ⟨hid, hnd⟩, ?_⟩
    intro x hx
    rcases List.mem_cons.1 hx with rfl | hx
    · exact ⟨n + 1, Nat.succ_pos n, Nat.le_refl _, .up hp hc⟩
    · obtain ⟨m, hm0, hm, hcm⟩ := hl x hx
      exact ⟨m, hm0, Nat.le_succ_of_le hm, hcm⟩

/-- A node with a parent is a node of the forest: past the end every node is the default one. -/
theorem lt_size_of_parent {id p : SourceId} (h : (f.node id).parent = some p) :
    id.val < f.nodes.size := by
  by_contra hge
  rw [node, Array.getD_eq_getD_getElem?, Array.getElem?_eq_none (Nat.le_of_not_lt hge)] at h
  cases h

/-- A chain of parents that ends is no longer than the number of nodes. -/
theorem Climbs.le_size {id : SourceId} {n : Nat} (h : Climbs f id n) : n ≤ f.nodes.size := by
  obtain ⟨l, hlen, hnd, hl⟩ := h.chain
  have hlt : ∀ x ∈ l, x.val < f.nodes.size := fun x hx => by
    obtain ⟨m, hm0, _, hcm⟩ := hl x hx
    cases hcm with
    | top _ => omega
    | up hp _ => exact lt_size_of_parent hp
  have hinj : Function.Injective (SourceId.val) := fun a b e => by
    cases a; cases b; cases e; rfl
  have hsub : l.map SourceId.val ⊆ List.range f.nodes.size := fun x hx => by
    obtain ⟨y, hy, rfl⟩ := List.mem_map.1 hx
    exact List.mem_range.2 (hlt y hy)
  have hle := (List.subperm_of_subset (hnd.map hinj) hsub).length_le
  rw [List.length_map, List.length_range] at hle
  omega

/-- Once the fuel exceeds the length of the chain of parents, more fuel changes no path. -/
theorem pathWithin_of_climbs {id : SourceId} {n : Nat} (h : Climbs f id n) :
    ∀ k, n < k → f.pathWithin k id = f.pathWithin (n + 1) id := by
  induction h with
  | top hn =>
    intro k hk
    obtain ⟨k, rfl⟩ : ∃ j, k = j + 1 := ⟨k - 1, by omega⟩
    simp only [pathWithin, hn]
  | @up id p n hp _ ih =>
    intro k hk
    obtain ⟨k, rfl⟩ : ∃ j, k = j + 1 := ⟨k - 1, by omega⟩
    simp only [pathWithin, hp, ih k (by omega)]

theorem path_of_climbs {id : SourceId} {n : Nat} (h : Climbs f id n) :
    f.path id = f.pathWithin (n + 1) id :=
  pathWithin_of_climbs h _ (Nat.lt_succ_of_le h.le_size)

end Climbs

section Access

variable {id u : SourceId} {g : Node → Node} {t t' : TreeId} {h : Tree → Tree}

theorem node_modifyNode : (f.modifyNode id g).node u =
    if id.val = u.val ∧ u.val < f.nodes.size then g (f.node u) else f.node u :=
  Sync.getD_modify _ _ _ _ _

@[simp] theorem size_modifyNode : (f.modifyNode id g).nodes.size = f.nodes.size :=
  Array.size_modify ..

@[simp] theorem tree_modifyNode : (f.modifyNode id g).tree t = f.tree t := rfl

@[simp] theorem node_modifyTree : (f.modifyTree t h).node u = f.node u := rfl

@[simp] theorem size_modifyTree : (f.modifyTree t h).nodes.size = f.nodes.size := rfl

theorem tree_modifyTree : (f.modifyTree t h).tree t' =
    if t.val = t'.val ∧ t'.val < f.trees.size then h (f.tree t') else f.tree t' :=
  Sync.getD_modify _ _ _ _ _

theorem node_addNode {n : Node} : (f.addNode n).2.node u =
    if u.val = f.nodes.size then n else f.node u :=
  Sync.getD_push _ _ _ _

@[simp] theorem size_addNode {n : Node} : (f.addNode n).2.nodes.size = f.nodes.size + 1 :=
  Array.size_push ..

@[simp] theorem tree_addNode {n : Node} : (f.addNode n).2.tree t = f.tree t := rfl

theorem children_default : (default : Node).children = [] := rfl

/-- Past the last node every lookup answers the default node. -/
theorem node_of_size_le (hu : f.nodes.size ≤ u.val) : f.node u = default := by
  rw [node, Array.getD_eq_getD_getElem?, Array.getElem?_eq_none hu]
  rfl

end Access

/-- Reachability through children lists reads nothing but the children lists. -/
theorem Below.congr {f' : Forest} (hc : ∀ u, (f'.node u).children = (f.node u).children)
    {a b : SourceId} (h : Below f a b) : Below f' a b := by
  induction h with
  | refl => exact .refl
  | child _ hm ih => exact .child ih (by rw [hc]; exact hm)

/-- Reachability through fewer children is reachability. -/
theorem Below.congr' {f' : Forest} (hc : ∀ u d, d ∈ (f'.node u).children → d ∈ (f.node u).children)
    {a b : SourceId} (h : Below f' a b) : Below f a b := by
  induction h with
  | refl => exact .refl
  | child _ hm ih => exact .child ih (hc _ _ hm)

theorem Below.of_modifyTree {t : TreeId} {h : Tree → Tree} {a b : SourceId}
    (hb : Below (f.modifyTree t h) a b) : Below f a b := by
  refine hb.congr fun u => ?_
  rfl

/-- The trees of the forest hang together: roots are parentless and in no children list, no two
trees share a root, and every node below a root is in place and the parent of its children.
Children lists repeat no node, no node is in two of them, and they name nodes of the forest. -/
structure Linked (f : Forest) : Prop where
  root_parent : ∀ t r, (f.tree t).root = some r → (f.node r).parent = none
  root_orphan : ∀ t r u, (f.tree t).root = some r → r ∉ (f.node u).children
  root_inj : ∀ t t' r, (f.tree t).root = some r → (f.tree t').root = some r → t = t'
  root_lt : ∀ t r, (f.tree t).root = some r → r.val < f.nodes.size
  attached : ∀ t r u, (f.tree t).root = some r → Below f r u → (f.node u).detached = none
  child_parent : ∀ t r u c, (f.tree t).root = some r → Below f r u → c ∈ (f.node u).children →
    (f.node c).parent = some u
  nodup : ∀ u, (f.node u).children.Nodup
  parent_unique : ∀ u u' c, c ∈ (f.node u).children → c ∈ (f.node u').children → u = u'
  child_lt : ∀ u c, c ∈ (f.node u).children → c.val < f.nodes.size

section Linked

variable (hl : Linked f)
include hl

/-- A node of a tree climbs to the tree's root. -/
theorem Linked.climbs {t : TreeId} {r u : SourceId} (hr : (f.tree t).root = some r)
    (hu : Below f r u) : ∃ n, Climbs f u n := by
  induction hu with
  | refl => exact ⟨0, .top (hl.root_parent t r hr)⟩
  | child hp hc ih =>
    obtain ⟨n, hn⟩ := ih
    exact ⟨n + 1, .up (hl.child_parent t r _ _ hr hp hc) hn⟩

/-- Two trees whose nodes meet are one tree. -/
theorem Linked.tree_eq {t t' : TreeId} {r r' u : SourceId} (hr : (f.tree t).root = some r)
    (hr' : (f.tree t').root = some r') (hu : Below f r u) (hu' : Below f r' u) : t = t' := by
  have hsame : ∀ {a b : SourceId} {t₀ : TreeId}, (f.tree t₀).root = some b → Below f a b →
      b = a := fun {a b t₀} hb hab => by
    rcases hab.cases_last with e | ⟨p, _, hc⟩
    · exact e
    · exact absurd hc (hl.root_orphan t₀ b p hb)
  rcases Below.comparable hl.parent_unique hu hu' with h | h
  · obtain rfl := hsame hr' h
    exact hl.root_inj t t' _ hr hr'
  · obtain rfl := hsame hr h
    exact hl.root_inj t t' _ hr hr'

/-- A forest whose children lists, parents and positions and whose tree roots are as they were
is linked as it was. -/
theorem Linked.congr {f' : Forest}
    (hc : ∀ u, (f'.node u).children = (f.node u).children)
    (hp : ∀ u, (f'.node u).parent = (f.node u).parent)
    (hd : ∀ u, (f'.node u).detached = (f.node u).detached)
    (hr : ∀ t, (f'.tree t).root = (f.tree t).root) (hs : f'.nodes.size = f.nodes.size) :
    Linked f' := by
  have hb : ∀ {a b}, Below f' a b → Below f a b := fun h => h.congr fun u => (hc u).symm
  refine ⟨fun t r h => ?_, fun t r u h => ?_, fun t t' r h h' => ?_, fun t r h => ?_,
    fun t r u h hu => ?_, fun t r u c h hu hm => ?_, fun u => ?_, fun u u' c hm hm' => ?_,
    fun u c hm => ?_⟩
  · rw [hp]; exact hl.root_parent t r (by rwa [← hr])
  · rw [hc]; exact hl.root_orphan t r u (by rwa [← hr])
  · exact hl.root_inj t t' r (by rwa [← hr]) (by rwa [← hr])
  · rw [hs]; exact hl.root_lt t r (by rwa [← hr])
  · rw [hd]; exact hl.attached t r u (by rwa [← hr]) (hb hu)
  · rw [hp]; exact hl.child_parent t r u c (by rwa [← hr]) (hb hu) (by rwa [← hc])
  · rw [hc]; exact hl.nodup u
  · exact hl.parent_unique u u' c (by rwa [← hc]) (by rwa [← hc])
  · rw [hs]; exact hl.child_lt u c (by rwa [← hc])

end Linked

/-- A freshly planted node: no tree has it as root, no children list names it, it has no parent,
and below it every node is in place, each child planted before its parent. -/
structure Loose (f : Forest) (id : SourceId) : Prop where
  not_root : ∀ t, (f.tree t).root ≠ some id
  orphan : ∀ u, id ∉ (f.node u).children
  parent : (f.node id).parent = none
  descends : ∀ u c, Below f id u → c ∈ (f.node u).children → c.val < u.val
  fresh : ∀ u, Below f id u → (f.node u).detached = none
  lt : id.val < f.nodes.size

/-- Planting adds nodes after the old ones, whose children are new nodes too, and changes no old
node and no tree. -/
structure Grows (f f' : Forest) : Prop where
  size_le : f.nodes.size ≤ f'.nodes.size
  node : ∀ u, u.val < f.nodes.size → f'.node u = f.node u
  new_children : ∀ u c, f.nodes.size ≤ u.val → c ∈ (f'.node u).children → f.nodes.size ≤ c.val
  trees : f'.trees = f.trees

section Grows

variable {f₁ f₂ f₃ : Forest}

theorem Grows.refl (f : Forest) : Grows f f :=
  ⟨Nat.le_refl _, fun _ _ => rfl, fun u _ hu hc => by
    rw [node_of_size_le hu, children_default] at hc
    exact absurd hc List.not_mem_nil, rfl⟩

theorem Grows.trans (h₁ : Grows f₁ f₂) (h₂ : Grows f₂ f₃) : Grows f₁ f₃ := by
  refine ⟨Nat.le_trans h₁.size_le h₂.size_le, fun u hu => ?_, fun u c hu hc => ?_,
    h₂.trees.trans h₁.trees⟩
  · rw [h₂.node u (Nat.lt_of_lt_of_le hu h₁.size_le), h₁.node u hu]
  · by_cases hu₂ : u.val < f₂.nodes.size
    · rw [h₂.node u hu₂] at hc
      exact h₁.new_children u c hu hc
    · exact Nat.le_trans h₁.size_le (h₂.new_children u c (Nat.le_of_not_lt hu₂) hc)

/-- When the old nodes are as they were, from an old node only old nodes are reached. -/
theorem below_of_same (hl : Linked f₁) (h : ∀ u, u.val < f₁.nodes.size → f₂.node u = f₁.node u)
    {a u : SourceId} (ha : a.val < f₁.nodes.size) (hu : Below f₂ a u) :
    Below f₁ a u ∧ u.val < f₁.nodes.size := by
  induction hu with
  | refl => exact ⟨.refl, ha⟩
  | @child p c _ hc ih =>
    rw [h p ih.2] at hc
    exact ⟨.child ih.1 hc, hl.child_lt p c hc⟩

theorem Grows.below (hl : Linked f₁) (h : Grows f₁ f₂) {a u : SourceId}
    (ha : a.val < f₁.nodes.size) (hu : Below f₂ a u) : Below f₁ a u ∧ u.val < f₁.nodes.size :=
  below_of_same hl h.node ha hu

theorem Loose.grow (hl : Linked f₁) {c : SourceId} (hc : Loose f₁ c) (h : Grows f₁ f₂) :
    Loose f₂ c := by
  have hbelow : ∀ {u}, Below f₂ c u → Below f₁ c u ∧ u.val < f₁.nodes.size :=
    fun hu => h.below hl hc.lt hu
  refine ⟨fun t => by rw [tree, h.trees]; exact hc.not_root t, fun u hu => ?_, ?_,
    fun u d hu hd => ?_, fun u hu => ?_, Nat.lt_of_lt_of_le hc.lt h.size_le⟩
  · by_cases hu₁ : u.val < f₁.nodes.size
    · rw [h.node u hu₁] at hu
      exact hc.orphan u hu
    · have := h.new_children u c (Nat.le_of_not_lt hu₁) hu
      have := hc.lt
      omega
  · rw [h.node c hc.lt]; exact hc.parent
  · obtain ⟨hu₁, hlt⟩ := hbelow hu
    rw [h.node u hlt] at hd
    exact hc.descends u d hu₁ hd
  · obtain ⟨hu₁, hlt⟩ := hbelow hu
    rw [h.node u hlt]
    exact hc.fresh u hu₁

end Grows

section Plant

variable {n : Node}

theorem node_addNode_old {u : SourceId} (hu : u.val < f.nodes.size) : (f.addNode n).2.node u = f.node u := by
  rw [node_addNode, if_neg (by omega)]

/-- A new node whose children are loose keeps the trees linked. -/
theorem Linked.addNode (hl : Linked f) (hc : ∀ c ∈ n.children, Loose f c) (hnd : n.children.Nodup) :
    Linked (f.addNode n).2 := by
  have hold : ∀ u, u.val < f.nodes.size → (f.addNode n).2.node u = f.node u :=
    fun u hu => node_addNode_old hu
  have hchild : ∀ u c, c ∈ ((f.addNode n).2.node u).children → c.val < f.nodes.size ∧
      ((u.val < f.nodes.size ∧ c ∈ (f.node u).children) ∨
        (u.val = f.nodes.size ∧ c ∈ n.children)) := fun u c hm => by
    rw [node_addNode] at hm
    split at hm
    · exact ⟨(hc c hm).lt, .inr ⟨by assumption, hm⟩⟩
    · by_cases hu : u.val < f.nodes.size
      · exact ⟨hl.child_lt u c hm, .inl ⟨hu, hm⟩⟩
      · rw [node_of_size_le (Nat.le_of_not_lt hu), children_default] at hm
        exact absurd hm List.not_mem_nil
  have hbelow : ∀ {t r u}, (f.tree t).root = some r → Below (f.addNode n).2 r u →
      Below f r u ∧ u.val < f.nodes.size :=
    fun hr hu => below_of_same hl hold (hl.root_lt _ _ hr) hu
  refine ⟨fun t r hr => ?_, fun t r u hr hm => ?_, fun t t' r hr hr' => hl.root_inj t t' r hr hr',
    fun t r hr => ?_, fun t r u hr hu => ?_,
    fun t r u c hr hu hm => ?_, fun u => ?_, fun u u' c hm hm' => ?_, fun u c hm => ?_⟩
  · rw [hold r (hl.root_lt t r hr)]; exact hl.root_parent t r hr
  · rcases (hchild u r hm).2 with ⟨_, hm⟩ | ⟨_, hm⟩
    · exact hl.root_orphan t r u hr hm
    · exact (hc r hm).not_root t hr
  · rw [size_addNode]; exact Nat.lt_succ_of_lt (hl.root_lt t r hr)
  · rw [hold u (hbelow hr hu).2]; exact hl.attached t r u hr (hbelow hr hu).1
  · have hu' := (hbelow hr hu).2
    rw [hold u hu'] at hm
    rw [hold c (hl.child_lt u c hm)]
    exact hl.child_parent t r u c hr (hbelow hr hu).1 hm
  · rw [node_addNode]
    split
    · exact hnd
    · by_cases hu : u.val < f.nodes.size
      · exact hl.nodup u
      · rw [node_of_size_le (Nat.le_of_not_lt hu), children_default]; exact List.nodup_nil
  · rcases (hchild u c hm).2 with ⟨_, hm⟩ | ⟨hu, hm⟩ <;>
      rcases (hchild u' c hm').2 with ⟨_, hm'⟩ | ⟨hu', hm'⟩
    · exact hl.parent_unique u u' c hm hm'
    · exact absurd hm ((hc c hm').orphan u)
    · exact absurd hm' ((hc c hm).orphan u')
    · exact SourceId.ext_val (hu.trans hu'.symm)
  · rw [size_addNode]; exact Nat.lt_succ_of_lt (hchild u c hm).1

/-- The new node, whose children are loose and were planted after `f₀`, is loose itself. -/
theorem Loose.addNode (hl : Linked f) (hc : ∀ c ∈ n.children, Loose f c)
    (hp : n.parent = none) (hd : n.detached = none) :
    Loose (f.addNode n).2 (f.addNode n).1 := by
  have hold : ∀ u, u.val < f.nodes.size → (f.addNode n).2.node u = f.node u :=
    fun u hu => node_addNode_old hu
  have htop : (f.addNode n).2.node (f.addNode n).1 = n := by
    rw [node_addNode]
    exact if_pos rfl
  have hbelow : ∀ {c u}, c ∈ n.children → Below (f.addNode n).2 c u →
      Below f c u ∧ u.val < f.nodes.size :=
    fun hm hu => below_of_same hl hold (hc _ hm).lt hu
  refine ⟨fun t e => ?_, fun u hm => ?_, by rw [htop]; exact hp, fun u c hu hm => ?_,
    fun u hu => ?_, by rw [size_addNode]; exact Nat.lt_succ_self _⟩
  · have := hl.root_lt t _ e
    exact absurd this (Nat.lt_irrefl _)
  · by_cases hu : u.val < f.nodes.size
    · rw [hold u hu] at hm
      exact absurd (hl.child_lt u _ hm) (Nat.lt_irrefl _)
    · rw [node_addNode] at hm
      split at hm
      · exact absurd (hc _ hm).lt (Nat.lt_irrefl _)
      · rw [node_of_size_le (Nat.le_of_not_lt hu), children_default] at hm
        exact absurd hm List.not_mem_nil
  · rcases hu.cases_head with rfl | ⟨d, hdm, hdu⟩
    · rw [htop] at hm
      exact (hc c hm).lt
    · rw [htop] at hdm
      obtain ⟨hdu', hlt⟩ := hbelow hdm hdu
      rw [hold u hlt] at hm
      exact (hc d hdm).descends u c hdu' hm
  · rcases hu.cases_head with rfl | ⟨d, hdm, hdu⟩
    · rw [htop]; exact hd
    · rw [htop] at hdm
      obtain ⟨hdu', hlt⟩ := hbelow hdm hdu
      rw [hold u hlt]
      exact (hc d hdm).fresh u hdu'

mutual

/-- Planting keeps the trees linked, adds nodes after the old ones, and leaves the planted top
loose. -/
theorem plant_spec (f : Forest) (hl : Linked f) : ∀ d : Draft,
    Linked (f.plant d).2 ∧ Grows f (f.plant d).2 ∧ Loose (f.plant d).2 (f.plant d).1 ∧
      f.nodes.size ≤ (f.plant d).1.val
  | .mk kind model payload children => by
    obtain ⟨hl₁, hg₁, hids, hnd⟩ := plantAll_spec f hl children
    rcases hp : plant.plantAll f children with ⟨ids, f₁⟩
    rw [hp] at hl₁ hg₁ hids hnd
    simp only [plant, hp]
    have hc : ∀ c ∈ (Node.fresh kind model payload ids).children, Loose f₁ c :=
      fun c hm => (hids c hm).1
    refine ⟨hl₁.addNode hc hnd, ⟨?_, fun u hu => ?_, fun u c hu hm => ?_, hg₁.trees⟩,
      Loose.addNode hl₁ hc rfl rfl, hg₁.size_le⟩
    · rw [size_addNode]; exact Nat.le_succ_of_le hg₁.size_le
    · rw [node_addNode_old (Nat.lt_of_lt_of_le hu hg₁.size_le)]; exact hg₁.node u hu
    · rw [node_addNode] at hm
      split at hm
      · exact (hids c hm).2
      · by_cases hu₁ : u.val < f₁.nodes.size
        · exact hg₁.new_children u c hu hm
        · rw [node_of_size_le (Nat.le_of_not_lt hu₁), children_default] at hm
          exact absurd hm List.not_mem_nil

/-- Planting a list of descriptions keeps the trees linked and gives distinct loose tops. -/
theorem plantAll_spec (f : Forest) (hl : Linked f) : ∀ ds : List Draft,
    Linked (plant.plantAll f ds).2 ∧ Grows f (plant.plantAll f ds).2 ∧
      (∀ c ∈ (plant.plantAll f ds).1, Loose (plant.plantAll f ds).2 c ∧ f.nodes.size ≤ c.val) ∧
      (plant.plantAll f ds).1.Nodup
  | [] => ⟨hl, .refl f, fun _ h => absurd h List.not_mem_nil, List.nodup_nil⟩
  | d :: ds => by
    obtain ⟨hl₁, hg₁, hloose, hge⟩ := plant_spec f hl d
    obtain ⟨hl₂, hg₂, hids, hnd⟩ := plantAll_spec _ hl₁ ds
    rw [plant.plantAll]
    refine ⟨hl₂, hg₁.trans hg₂, fun c hc => ?_, ?_⟩
    · rcases List.mem_cons.1 hc with rfl | hc
      · exact ⟨hloose.grow hl₁ hg₂, hge⟩
      · exact ⟨(hids c hc).1, Nat.le_trans hg₁.size_le (hids c hc).2⟩
    · refine List.nodup_cons.2 ⟨fun hc => ?_, hnd⟩
      have := (hids _ hc).2
      have := hloose.lt
      omega

end

end Plant

section Adopt

/-- What adopting the subtree below `id` changes: each node below it takes as parent the node that
lists it, and styles change; children lists, positions, models and everything outside stay. -/
structure Adopts (f f' : Forest) (id : SourceId) : Prop where
  children : ∀ u, (f'.node u).children = (f.node u).children
  detached : ∀ u, (f'.node u).detached = (f.node u).detached
  model : ∀ u, (f'.node u).model = (f.node u).model
  outside : ∀ u, ¬ Below f id u → f'.node u = f.node u
  top : (f'.node id).parent = (f.node id).parent
  linked : ∀ u c, Below f id u → c ∈ (f.node u).children → (f'.node c).parent = some u
  trees : f'.trees = f.trees
  size : f'.nodes.size = f.nodes.size

variable {id : SourceId}

/-- Below a node whose subtree descends, ids only go down. -/
theorem le_of_descends (hd : ∀ u c, Below f id u → c ∈ (f.node u).children → c.val < u.val)
    {a b : SourceId} (ha : Below f id a) (hb : Below f a b) : b.val ≤ a.val := by
  induction hb with
  | refl => exact Nat.le_refl _
  | @child p c hp hc ih => exact Nat.le_trans (Nat.le_of_lt (hd p c (ha.trans hp) hc)) ih

/-- Below a node whose subtree descends, the subtrees of two children share no node. -/
theorem disjoint_of_descends (hl : Linked f)
    (hd : ∀ u c, Below f id u → c ∈ (f.node u).children → c.val < u.val)
    {c₁ c₂ u : SourceId} (h₁ : c₁ ∈ (f.node id).children) (h₂ : c₂ ∈ (f.node id).children)
    (hne : c₁ ≠ c₂) (hu₁ : Below f c₁ u) (hu₂ : Below f c₂ u) : False := by
  have key : ∀ {a b : SourceId}, a ∈ (f.node id).children → b ∈ (f.node id).children → a ≠ b →
      Below f a b → False := fun {a b} ha hb hab h => by
    rcases h.cases_last with e | ⟨p, hp, hbp⟩
    · exact hab e.symm
    · have e : p = id := hl.parent_unique p id b hbp hb
      subst e
      have hle := le_of_descends hd (.single ha) hp
      have := hd p a .refl ha
      omega
  rcases Below.comparable hl.parent_unique hu₁ hu₂ with h | h
  · exact key h₁ h₂ hne h
  · exact key h₂ h₁ (Ne.symm hne) h

/-- Adopting with `k` levels of fuel, below any node whose subtree descends from an id under `k`,
from a forest with the children lists and size of `f`. -/
def AdoptSpec (f : Forest) (st : Style) (k : Nat) : Prop :=
  ∀ (g : Forest) (id : SourceId), (∀ u, (g.node u).children = (f.node u).children) →
    g.nodes.size = f.nodes.size →
    (∀ u c, Below f id u → c ∈ (f.node u).children → c.val < u.val) → id.val < k →
    Adopts g (g.adoptWithin st k id) id

theorem adopt_zero (st : Style) : AdoptSpec f st 0 := fun _ _ _ _ _ hk => absurd hk (Nat.not_lt_zero _)

theorem adopt_succ (hl : Linked f) {st : Style} {k : Nat} (ih : AdoptSpec f st k) :
    AdoptSpec f st (k + 1) := by
  intro g id hc hs hd hk
  have hbelow : ∀ {h : Forest} {a b : SourceId}, (∀ u, (h.node u).children = (f.node u).children) →
      Below h a b → Below f a b := fun hh hb => hb.congr fun u => (hh u).symm
  have hbelow' : ∀ {h : Forest} {a b : SourceId}, (∀ u, (h.node u).children = (f.node u).children) →
      Below f a b → Below h a b := fun hh hb => hb.congr hh
  let g₁ := g.modifyNode id fun n => { n with style := st }
  have hnode₁ : ∀ u, g₁.node u = if id.val = u.val ∧ u.val < g.nodes.size then
      { g.node u with style := st } else g.node u := fun u => node_modifyNode
  have hg₁ : ∀ u, (g₁.node u).children = (g.node u).children ∧ (g₁.node u).detached =
      (g.node u).detached ∧ (g₁.node u).model = (g.node u).model ∧
      (g₁.node u).parent = (g.node u).parent := fun u => by
    rw [hnode₁]; split <;> exact ⟨rfl, rfl, rfl, rfl⟩
  have hid_lt : ∀ c ∈ (f.node id).children, c.val < id.val := fun c hm => hd id c .refl hm
  let Inv : Forest → List SourceId → Prop := fun h done =>
    (∀ u, (h.node u).children = (f.node u).children) ∧
    (∀ u, (h.node u).detached = (g.node u).detached) ∧ (∀ u, (h.node u).model = (g.node u).model) ∧
    h.trees = g.trees ∧ h.nodes.size = f.nodes.size ∧
    (∀ u, (∀ c ∈ done, ¬ Below f c u) → h.node u = g₁.node u) ∧
    (∀ c ∈ done, (h.node c).parent = some id ∧
      ∀ u d, Below f c u → d ∈ (f.node u).children → (h.node d).parent = some u)
  have hfold : ∀ (l : List SourceId) (h : Forest) (done : List SourceId),
      (∀ c ∈ done ++ l, c ∈ (f.node id).children) → (done ++ l).Nodup → Inv h done →
      Inv (l.foldl (fun h c => (h.modifyNode c fun n => { n with parent := some id }).adoptWithin
        st k c) h) (done ++ l) := by
    intro l
    induction l with
    | nil => intro h done _ _ hinv; simpa using hinv
    | cons c l ihl =>
      intro h done hsub hnd hinv
      obtain ⟨hch, hdet, hmod, htr, hsz, hout, hdone⟩ := hinv
      have hcm : c ∈ (f.node id).children := hsub c (by simp)
      have hc_done : c ∉ done := fun hm => by
        have := (List.nodup_append.1 hnd).2.2 c hm c (by simp)
        exact this rfl
      let h₂ := h.modifyNode c fun n => { n with parent := some id }
      have hc_lt : c.val < h.nodes.size := by rw [hsz]; exact hl.child_lt id c hcm
      have hnode₂ : ∀ u, h₂.node u = if c.val = u.val ∧ u.val < h.nodes.size then
          { h.node u with parent := some id } else h.node u := fun u => node_modifyNode
      have hch₂ : ∀ u, (h₂.node u).children = (f.node u).children := fun u => by
        rw [hnode₂]; split <;> exact hch u
      have hA := ih h₂ c hch₂ (by rw [size_modifyNode, hsz])
        (fun u d hu hm => hd u d ((Below.single hcm).trans hu) hm)
        (Nat.lt_of_lt_of_le (hid_lt c hcm) (Nat.le_of_lt_succ hk))
      have hsame : ∀ u, ¬ Below f c u → (h₂.adoptWithin st k c).node u = h.node u := fun u hu => by
        rw [hA.outside u fun hb => hu (hbelow hch₂ hb), hnode₂, if_neg]
        rintro ⟨e, _⟩
        exact hu (SourceId.ext_val e ▸ .refl)
      rw [List.foldl_cons, show done ++ c :: l = done ++ [c] ++ l by simp]
      refine ihl _ (done ++ [c]) (by simpa using hsub) (by simpa using hnd) ⟨fun u => ?_,
        fun u => ?_, fun u => ?_, ?_, ?_, fun u hu => ?_, fun c' hc' => ?_⟩
      · rw [hA.children, hch₂]
      · rw [hA.detached, hnode₂]; split <;> exact hdet u
      · rw [hA.model, hnode₂]; split <;> exact hmod u
      · rw [hA.trees]; exact htr
      · rw [hA.size, size_modifyNode, hsz]
      · rw [hsame u fun hb => hu c (by simp) hb]
        exact hout u fun c' hc' => hu c' (by simp [hc'])
      · rcases List.mem_append.1 hc' with hc' | hc'
        · have hne : c' ≠ c := fun e => hc_done (e ▸ hc')
          have hcm' : c' ∈ (f.node id).children := hsub c' (by simp [hc'])
          have hfar : ∀ u, Below f c' u → ¬ Below f c u := fun u h₁ h₂ =>
            disjoint_of_descends hl hd hcm' hcm hne h₁ h₂
          refine ⟨by rw [hsame c' (hfar c' .refl)]; exact (hdone c' hc').1, fun u d hu hm => ?_⟩
          rw [hsame d (hfar d (.child hu hm))]
          exact (hdone c' hc').2 u d hu hm
        · rw [List.mem_singleton] at hc'
          subst hc'
          refine ⟨?_, fun u d hu hm => hA.linked u d (hbelow' hch₂ hu) (by rw [hch₂]; exact hm)⟩
          rw [hA.top, hnode₂, if_pos ⟨rfl, hc_lt⟩]
  have hch₁ : ∀ u, (g₁.node u).children = (f.node u).children := fun u => (hg₁ u).1.trans (hc u)
  have hinv := hfold (f.node id).children g₁ [] (fun c hm => by simpa using hm)
    (by simpa using hl.nodup id) ⟨hch₁, fun u => (hg₁ u).2.1, fun u => (hg₁ u).2.2.1, rfl,
      by rw [size_modifyNode, hs], fun u _ => rfl, fun c hm => absurd hm List.not_mem_nil⟩
  simp only [List.nil_append] at hinv
  obtain ⟨hch, hdet, hmod, htr, hsz, hout, hdone⟩ := hinv
  have hlist : (g₁.node id).children = (f.node id).children := hch₁ id
  have hnot : ∀ u, ¬ Below f id u → ∀ c ∈ (f.node id).children, ¬ Below f c u :=
    fun u hu c hm hb => hu ((Below.single hm).trans hb)
  have htop : ∀ c ∈ (f.node id).children, ¬ Below f c id := fun c hm hb => by
    have := le_of_descends hd (.single hm) hb
    have := hid_lt c hm
    omega
  have e : g.adoptWithin st (k + 1) id = List.foldl (fun h c =>
      (h.modifyNode c fun n => { n with parent := some id }).adoptWithin st k c) g₁
      (g₁.node id).children := rfl
  rw [e, hlist]
  refine ⟨fun u => ?_, hdet, hmod, fun u hu => ?_, ?_, fun u d hu hm => ?_, htr, ?_⟩
  · rw [hch, hc]
  · rw [hout u (hnot u fun hb => hu (hbelow' hc hb)), hnode₁, if_neg]
    rintro ⟨e, _⟩
    exact hu (SourceId.ext_val e ▸ .refl)
  · rw [hout id htop, (hg₁ id).2.2.2]
  · rw [hc] at hm
    rcases (hbelow hc hu).cases_head with rfl | ⟨c, hcm, hcu⟩
    · exact (hdone d hm).1
    · exact (hdone c hcm).2 u d hcu hm
  · rw [hsz, hs]

/-- Adopting from the forest itself, with fuel past the node's id. -/
theorem adoptWithin_spec (hl : Linked f) (st : Style) :
    ∀ k, AdoptSpec f st k
  | 0 => adopt_zero st
  | k + 1 => adopt_succ hl (adoptWithin_spec hl st k)

end Adopt

section Freeze

/-- What freezing the subtree below `id` changes: the positions of nodes below it, nothing else. -/
structure Freezes (f f' : Forest) (id : SourceId) : Prop where
  children : ∀ u, (f'.node u).children = (f.node u).children
  parent : ∀ u, (f'.node u).parent = (f.node u).parent
  model : ∀ u, (f'.node u).model = (f.node u).model
  outside : ∀ u, ¬ Below f id u → f'.node u = f.node u
  trees : f'.trees = f.trees
  size : f'.nodes.size = f.nodes.size

theorem Freezes.refl (f : Forest) (id : SourceId) : Freezes f f id :=
  ⟨fun _ => rfl, fun _ => rfl, fun _ => rfl, fun _ _ => rfl, rfl, rfl⟩

/-- Freezing with any fuel changes positions below the node only. -/
theorem freezeWithin_spec : ∀ (k : Nat) (f : Forest) (id : SourceId), Freezes f (f.freezeWithin k id) id
  | 0, f, id => Freezes.refl f id
  | k + 1, f, id => by
    let f₁ := f.modifyNode id fun n => { n with detached := some (f.childIndex id, f.path id) }
    have hnode₁ : ∀ u, f₁.node u = if id.val = u.val ∧ u.val < f.nodes.size then
        { f.node u with detached := some (f.childIndex id, f.path id) } else f.node u :=
      fun u => node_modifyNode
    have hfold : ∀ (l : List SourceId) (g : Forest), (∀ c ∈ l, c ∈ (f.node id).children) →
        Freezes f g id → Freezes f (l.foldl (fun g c => g.freezeWithin k c) g) id := by
      intro l
      induction l with
      | nil => intro g _ hg; exact hg
      | cons c l ih =>
        intro g hl hg
        have hc := freezeWithin_spec k g c
        refine ih _ (fun d hd => hl d (List.mem_cons_of_mem c hd)) ⟨fun u => ?_, fun u => ?_,
          fun u => ?_, fun u hu => ?_, hc.trees.trans hg.trees, hc.size.trans hg.size⟩
        · rw [hc.children, hg.children]
        · rw [hc.parent, hg.parent]
        · rw [hc.model, hg.model]
        · have hcu : ¬ Below g c u := fun hb =>
            hu ((Below.single (hl c List.mem_cons_self)).trans
              (hb.congr fun v => (hg.children v).symm))
          rw [hc.outside u hcu, hg.outside u hu]
    have e : f.freezeWithin (k + 1) id =
        List.foldl (fun g c => g.freezeWithin k c) f₁ (f₁.node id).children := rfl
    have hlist : (f₁.node id).children = (f.node id).children := by
      rw [hnode₁]; split <;> rfl
    rw [e, hlist]
    refine hfold _ f₁ (fun c hc => hc) ⟨fun u => ?_, fun u => ?_, fun u => ?_, fun u hu => ?_, rfl,
      size_modifyNode⟩
    all_goals rw [hnode₁]
    all_goals split
    all_goals first
      | rfl
      | rename_i h
        exact absurd (SourceId.ext_val h.1 ▸ Below.refl) hu

end Freeze

section Address

/-- Following the child indices of an address from `u` leads to `v`. -/
inductive Addressed (f : Forest) : SourceId → List Nat → SourceId → Prop
  | nil {u : SourceId} : Addressed f u [] u
  | cons {u c v : SourceId} {i : Nat} {a : List Nat} : (f.node u).children[i]? = some c →
      Addressed f c a v → Addressed f u (i :: a) v

theorem Addressed.toBelow {u v : SourceId} {a : List Nat} (h : Addressed f u a v) : Below f u v := by
  induction h with
  | nil => exact .refl
  | cons hc _ ih => exact (Below.single (List.mem_of_getElem? hc)).trans ih

theorem addressed_of_foldlM {ε : Type} {step : SourceId → Nat → Except ε SourceId}
    (hstep : ∀ u i c, step u i = .ok c → (f.node u).children[i]? = some c) :
    ∀ (a : List Nat) (u v : SourceId), a.foldlM step u = .ok v → Addressed f u a v
  | [], u, v, h => by
    simp only [List.foldlM_nil, pure, Except.pure, Except.ok.injEq] at h
    subst h
    exact .nil
  | i :: a, u, v, h => by
    rw [List.foldlM_cons] at h
    cases hs : step u i with
    | error e => rw [hs] at h; cases h
    | ok c =>
      rw [hs] at h
      exact .cons (hstep u i c hs) (addressed_of_foldlM hstep a c v h)

/-- A resolved address leads from the tree's root. -/
theorem resolve_ok {t : TreeId} {a : List Nat} {p : SourceId} (h : f.resolve t a = .ok p) :
    ∃ r, (f.tree t).root = some r ∧ Addressed f r a p := by
  unfold resolve at h
  split at h
  · cases h
  · rename_i r hr
    refine ⟨r, hr, addressed_of_foldlM (fun u i c hs => ?_) a r p h⟩
    dsimp only at hs
    split at hs
    · rename_i hc; cases hs; exact hc
    · cases hs

end Address

section Edits

variable {f' : Forest} {t : TreeId} {id : SourceId}

/-- A loose node's subtree and the trees share no node. -/
theorem Loose.apart (hl : Linked f) (hid : Loose f id) {t : TreeId} {r u : SourceId}
    (hr : (f.tree t).root = some r) (hu : Below f r u) : ¬ Below f id u := fun hiu => by
  rcases Below.comparable hl.parent_unique hu hiu with h | h
  · rcases h.cases_last with rfl | ⟨q, _, hq⟩
    · exact hid.not_root t hr
    · exact hid.orphan q hq
  · rcases h.cases_last with rfl | ⟨q, _, hq⟩
    · exact hid.not_root t hr
    · exact hl.root_orphan t r q hr hq

/-- Placing a loose node as the root of a tree without one keeps the trees linked. -/
theorem Linked.placeRoot (hl : Linked f) (hid : Loose f id) (h : f.placeRoot t id = .ok f') :
    Linked f' := by
  unfold Forest.placeRoot at h
  split at h
  · cases h
  · rename_i hnone
    simp only [Except.ok.injEq] at h
    subst h
    have hA : Adopts f (f.adopt (f.tree t).style id) id :=
      adoptWithin_spec hl (f.tree t).style (f.nodes.size + 1) f id (fun _ => rfl) rfl
        hid.descends (Nat.lt_succ_of_lt hid.lt)
    set fa := f.adopt (f.tree t).style id
    have hnode : ∀ u, (fa.modifyTree t fun tr => { tr with root := some id }).node u = fa.node u :=
      fun _ => rfl
    have hroot : ∀ t' r, ((fa.modifyTree t fun tr => { tr with root := some id }).tree t').root =
        some r → (t.val = t'.val ∧ r = id) ∨ (f.tree t').root = some r := fun t' r hr => by
      rw [tree_modifyTree] at hr
      split at hr
      · rename_i hc; simp only [Option.some.injEq] at hr; exact .inl ⟨hc.1, hr.symm⟩
      · rw [tree, hA.trees] at hr
        exact .inr hr
    have hbelow : ∀ {a b}, Below (fa.modifyTree t fun tr => { tr with root := some id }) a b →
        Below f a b := fun hb => hb.congr fun u => by rw [hnode, hA.children]
    have hold : ∀ {t' r u}, (f.tree t').root = some r → Below f r u → fa.node u = f.node u :=
      fun {_ _ u} hr hu => hA.outside u (hid.apart hl hr hu)
    refine ⟨fun t' r hr => ?_, fun t' r u hr hm => ?_, fun t₁ t₂ r h₁ h₂ => ?_, fun t' r hr => ?_,
      fun t' r u hr hu => ?_, fun t' r u c hr hu hm => ?_, fun u => ?_, fun u u' c hm hm' => ?_,
      fun u c hm => ?_⟩
    · rw [hnode]
      rcases hroot t' r hr with ⟨_, rfl⟩ | hr
      · rw [hA.top]; exact hid.parent
      · rw [hold hr .refl]; exact hl.root_parent t' r hr
    · rw [hnode, hA.children] at hm
      rcases hroot t' r hr with ⟨_, rfl⟩ | hr
      · exact hid.orphan u hm
      · exact hl.root_orphan t' r u hr hm
    · rcases hroot t₁ r h₁ with ⟨e₁, hr₁⟩ | ho₁ <;> rcases hroot t₂ r h₂ with ⟨e₂, hr₂⟩ | ho₂
      · cases t₁; cases t₂; simp only at e₁ e₂; rw [← e₁, ← e₂]
      · rw [hr₁] at ho₂; exact absurd ho₂ (hid.not_root t₂)
      · rw [hr₂] at ho₁; exact absurd ho₁ (hid.not_root t₁)
      · exact hl.root_inj t₁ t₂ r ho₁ ho₂
    · rw [size_modifyTree, hA.size]
      rcases hroot t' r hr with ⟨_, rfl⟩ | hr
      · exact hid.lt
      · exact hl.root_lt t' r hr
    · rw [hnode, hA.detached]
      rcases hroot t' r hr with ⟨_, rfl⟩ | hr
      · exact hid.fresh u (hbelow hu)
      · exact hl.attached t' r u hr (hbelow hu)
    · rw [hnode, hA.children] at hm
      rw [hnode]
      rcases hroot t' r hr with ⟨_, rfl⟩ | hr
      · exact hA.linked u c (hbelow hu) hm
      · rw [hold hr (.child (hbelow hu) hm)]
        exact hl.child_parent t' r u c hr (hbelow hu) hm
    · rw [hnode, hA.children]; exact hl.nodup u
    · rw [hnode, hA.children] at hm hm'; exact hl.parent_unique u u' c hm hm'
    · rw [hnode, hA.children] at hm; rw [size_modifyTree, hA.size]; exact hl.child_lt u c hm

/-- Taking the root out of a tree keeps the other trees linked: the freeze stays inside the
tree that loses its root. -/
theorem Linked.takeRoot (hl : Linked f) {r : SourceId} (h : f.takeRoot t = .ok (r, f')) :
    Linked f' := by
  unfold Forest.takeRoot at h
  split at h
  · cases h
  · rename_i r₀ hroot
    simp only [Except.ok.injEq, Prod.mk.injEq] at h
    obtain ⟨rfl, rfl⟩ := h
    set f₁ := f.modifyTree t fun tr => { tr with root := none }
    have hF : Freezes f₁ (f₁.freeze r₀) r₀ := freezeWithin_spec _ _ _
    have hroots : ∀ t' r', ((f₁.freeze r₀).tree t').root = some r' →
        t.val ≠ t'.val ∧ (f.tree t').root = some r' := fun t' r' hr => by
      rw [tree, hF.trees] at hr
      change (f₁.tree t').root = some r' at hr
      rw [tree_modifyTree] at hr
      split at hr
      · cases hr
      · rename_i hne
        refine ⟨fun e => hne ⟨e, ?_⟩, hr⟩
        by_contra hge
        have ht : t = t' := by cases t; cases t'; simp only at e; rw [e]
        subst ht
        rw [tree, Array.getD_eq_getD_getElem?, Array.getElem?_eq_none (by omega)] at hroot
        cases hroot
    have hbelow : ∀ {a b}, Below (f₁.freeze r₀) a b → Below f a b :=
      fun hb => hb.congr fun u => by rw [hF.children]; rfl
    have hsame : ∀ {t' r' u}, ((f₁.freeze r₀).tree t').root = some r' → Below f r' u →
        (f₁.freeze r₀).node u = f.node u := fun {t' r' u} hr hu => by
      obtain ⟨hne, hr'⟩ := hroots t' r' hr
      refine hF.outside u fun hb => hne ?_
      have hb' : Below f r₀ u := Below.of_modifyTree hb
      rw [hl.tree_eq hroot hr' hb' hu]
    refine ⟨fun t' r' hr => ?_, fun t' r' u hr hm => ?_, fun t₁ t₂ r' h₁ h₂ => ?_,
      fun t' r' hr => ?_, fun t' r' u hr hu => ?_, fun t' r' u c hr hu hm => ?_, fun u => ?_,
      fun u u' c hm hm' => ?_, fun u c hm => ?_⟩
    · rw [hF.parent]; exact hl.root_parent t' r' (hroots t' r' hr).2
    · rw [hF.children] at hm; exact hl.root_orphan t' r' u (hroots t' r' hr).2 hm
    · exact hl.root_inj t₁ t₂ r' (hroots t₁ r' h₁).2 (hroots t₂ r' h₂).2
    · rw [hF.size]; exact hl.root_lt t' r' (hroots t' r' hr).2
    · rw [hsame hr (hbelow hu)]; exact hl.attached t' r' u (hroots t' r' hr).2 (hbelow hu)
    · rw [hF.parent]; rw [hF.children] at hm
      exact hl.child_parent t' r' u c (hroots t' r' hr).2 (hbelow hu) hm
    · rw [hF.children]; exact hl.nodup u
    · rw [hF.children] at hm hm'; exact hl.parent_unique u u' c hm hm'
    · rw [hF.children] at hm; rw [hF.size]; exact hl.child_lt u c hm

/-- A node below a root is a node of the forest. -/
theorem Linked.lt_size_of_below (hl : Linked f) {r u : SourceId} (hr : (f.tree t).root = some r)
    (hu : Below f r u) : u.val < f.nodes.size := by
  rcases hu.cases_last with rfl | ⟨q, _, hq⟩
  · exact hl.root_lt t u hr
  · exact hl.child_lt q u hq

/-- With one more edge from `p` to `id`, a node reached is reached as before or through `id`. -/
theorem below_of_insert {p : SourceId}
    (hc : ∀ u c, c ∈ (f'.node u).children → c ∈ (f.node u).children ∨ (u = p ∧ c = id))
    {a b : SourceId} (h : Below f' a b) : Below f a b ∨ (Below f a p ∧ Below f id b) := by
  induction h with
  | refl => exact .inl .refl
  | @child q c _ hm ih =>
    rcases hc q c hm with hm | ⟨rfl, rfl⟩
    · rcases ih with ih | ⟨hp, hi⟩
      · exact .inl (.child ih hm)
      · exact .inr ⟨hp, .child hi hm⟩
    · rcases ih with ih | ⟨hp, _⟩
      · exact .inr ⟨ih, .refl⟩
      · exact .inr ⟨hp, .refl⟩

/-- Inserting a loose node as a child in a tree keeps the trees linked. -/
theorem Linked.insertChild (hl : Linked f) (hid : Loose f id) {a : List Nat} {i : Nat}
    (h : f.insertChild t a i id = .ok f') : Linked f' := by
  unfold Forest.insertChild at h
  cases hp : f.resolve t a with
  | error e => rw [hp] at h; cases h
  | ok p =>
    rw [hp] at h
    simp only [bind, Except.bind, pure, Except.pure] at h
    split at h
    · cases h
    · rename_i hi
      simp only [Except.ok.injEq] at h
      subst h
      obtain ⟨r, hr, hpa⟩ := resolve_ok hp
      have hpr : Below f r p := hpa.toBelow
      have hp_lt : p.val < f.nodes.size := hl.lt_size_of_below hr hpr
      have hi' : i ≤ (f.node p).children.length := Nat.le_of_not_lt hi
      set f₁ := f.modifyNode id fun n => { n with parent := some p }
      have hnode₁ : ∀ u, f₁.node u = if id.val = u.val ∧ u.val < f.nodes.size then
          { f.node u with parent := some p } else f.node u := fun u => node_modifyNode
      have hch₁ : ∀ u, (f₁.node u).children = (f.node u).children := fun u => by
        rw [hnode₁]; split <;> rfl
      have hA : Adopts f₁ (f₁.adopt (f₁.tree t).style id) id :=
        adoptWithin_spec hl _ (f₁.nodes.size + 1) f₁ id hch₁ size_modifyNode hid.descends
          (by rw [size_modifyNode]; exact Nat.lt_succ_of_lt hid.lt)
      set f₂ := f₁.adopt (f₁.tree t).style id
      have hnode' : ∀ u, (f₂.modifyNode p fun n => { n with children := n.children.insertIdx i id }).node u =
          if p.val = u.val ∧ u.val < f₂.nodes.size then
            { f₂.node u with children := (f₂.node u).children.insertIdx i id } else f₂.node u :=
        fun u => node_modifyNode
      set f' := f₂.modifyNode p fun n => { n with children := n.children.insertIdx i id }
      have hsz : f'.nodes.size = f.nodes.size := by
        rw [size_modifyNode, hA.size, size_modifyNode]
      have hch₂ : ∀ u, (f₂.node u).children = (f.node u).children := fun u => by
        rw [hA.children, hch₁]
      have hch' : ∀ u, (f'.node u).children =
          if p = u then (f.node p).children.insertIdx i id else (f.node u).children := fun u => by
        rw [hnode']
        by_cases hu : p = u
        · subst hu; rw [if_pos ⟨rfl, by rw [hA.size, size_modifyNode]; exact hp_lt⟩, if_pos rfl]
          simp only [hch₂]
        · rw [if_neg fun h => hu (SourceId.ext_val h.1), if_neg hu, hch₂]
      have hmem : ∀ u c, c ∈ (f'.node u).children → c ∈ (f.node u).children ∨ (u = p ∧ c = id) :=
        fun u c hm => by
          rw [hch'] at hm
          split at hm
          · rename_i hu; subst hu
            rcases (List.mem_insertIdx hi').1 hm with rfl | hm
            · exact .inr ⟨rfl, rfl⟩
            · exact .inl hm
          · exact .inl hm
      have hpar' : ∀ u, (f'.node u).parent = (f₂.node u).parent := fun u => by
        rw [hnode']; split <;> rfl
      have hdet' : ∀ u, (f'.node u).detached = (f.node u).detached := fun u => by
        rw [hnode']
        split <;> (rw [hA.detached, hnode₁]; split <;> rfl)
      have hout : ∀ u, ¬ Below f id u → (f'.node u).parent = (f.node u).parent := fun u hu => by
        rw [hpar', hA.outside u fun hb => hu (hb.congr fun v => (hch₁ v).symm), hnode₁, if_neg]
        rintro ⟨e, _⟩
        exact hu (SourceId.ext_val e ▸ .refl)
      have hroot_of : ∀ {t' r'}, (f'.tree t').root = some r' → (f.tree t').root = some r' :=
        fun hr' => by rwa [tree_modifyNode, tree, hA.trees] at hr'
      have hapart : ∀ {t' r' u}, (f.tree t').root = some r' → Below f r' u → ¬ Below f id u :=
        fun hr' hu => hid.apart hl hr' hu
      refine ⟨fun t' r' hr' => ?_, fun t' r' u hr' hm => ?_, fun t₁ t₂ r' h₁ h₂ => ?_,
        fun t' r' hr' => ?_, fun t' r' u hr' hu => ?_, fun t' r' u c hr' hu hm => ?_,
        fun u => ?_, fun u u' c hm hm' => ?_, fun u c hm => ?_⟩
      · have hr' := hroot_of hr'
        rw [hout r' (hapart hr' .refl)]; exact hl.root_parent t' r' hr'
      · have hr' := hroot_of hr'
        rcases hmem u r' hm with hm | ⟨_, e⟩
        · exact hl.root_orphan t' r' u hr' hm
        · rw [e] at hr'; exact hid.not_root t' hr'
      · exact hl.root_inj t₁ t₂ r' (hroot_of h₁) (hroot_of h₂)
      · rw [hsz]; exact hl.root_lt t' r' (hroot_of hr')
      · have hr' := hroot_of hr'
        rw [hdet']
        rcases below_of_insert hmem hu with hu | ⟨_, hiu⟩
        · exact hl.attached t' r' u hr' hu
        · exact hid.fresh u hiu
      · have hr' := hroot_of hr'
        rcases hmem u c hm with hm | ⟨eu, ec⟩
        · rcases below_of_insert hmem hu with hu | ⟨_, hiu⟩
          · have hc_old : ¬ Below f id c := hapart hr' (.child hu hm)
            rw [hout c hc_old]
            exact hl.child_parent t' r' u c hr' hu hm
          · rw [hpar']
            exact hA.linked u c (hiu.congr hch₁) (by rw [hch₁]; exact hm)
        · rw [ec, eu, hpar', hA.top, hnode₁, if_pos ⟨rfl, hid.lt⟩]
      · rw [hch']
        split
        · rename_i hu; subst hu
          exact (List.perm_insertIdx id _ hi').nodup_iff.2
            (List.nodup_cons.2 ⟨hid.orphan p, hl.nodup p⟩)
        · exact hl.nodup u
      · rcases hmem u c hm with hm | ⟨eu, ec⟩ <;> rcases hmem u' c hm' with hm' | ⟨eu', ec'⟩
        · exact hl.parent_unique u u' c hm hm'
        · rw [ec'] at hm; exact absurd hm (hid.orphan u)
        · rw [ec] at hm'; exact absurd hm' (hid.orphan u')
        · rw [eu, eu']
      · rw [hsz]
        rcases hmem u c hm with hm | ⟨_, ec⟩
        · exact hl.child_lt u c hm
        · rw [ec]; exact hid.lt

/-- Once no children list names `c`, no node reached from a node outside every list lies below
`c`. -/
theorem not_below_of_detached (hl : Linked f) {c : SourceId}
    (hsub : ∀ u d, d ∈ (f'.node u).children → d ∈ (f.node u).children)
    (hgone : ∀ u, c ∉ (f'.node u).children) {a b : SourceId} (ha : ∀ u, a ∉ (f.node u).children)
    (hac : a ≠ c) (h : Below f' a b) (hcb : Below f c b) : False := by
  induction h with
  | refl =>
    rcases hcb.cases_last with e | ⟨q, _, hq⟩
    · exact hac e
    · exact ha q hq
  | @child q b _ hb ih =>
    rcases hcb.cases_last with e | ⟨q', hq', hbq'⟩
    · exact hgone q (e ▸ hb)
    · exact ih (hl.parent_unique q' q b hbq' (hsub q b hb) ▸ hq')

theorem not_mem_eraseIdx_of_getElem? {α : Type} {l : List α} {i : Nat} {c : α} (hl : l.Nodup)
    (h : l[i]? = some c) : c ∉ l.eraseIdx i := fun hm => by
  obtain ⟨j, hj, hji, hjc⟩ := List.mem_eraseIdx_iff_getElem.1 hm
  obtain ⟨hi, hic⟩ := List.getElem?_eq_some_iff.1 h
  exact hji ((hl.getElem_inj_iff).1 (hjc.trans hic.symm))

/-- Taking a child out of a tree keeps the trees linked. -/
theorem Linked.detachChild (hl : Linked f) {a : List Nat} {c : SourceId}
    (h : f.detachChild t a = .ok (c, f')) : Linked f' := by
  unfold Forest.detachChild at h
  split at h
  · cases h
  · rename_i index _
    cases hp : f.resolve t a.dropLast with
    | error e => rw [hp] at h; cases h
    | ok p =>
      rw [hp] at h
      simp only [bind, Except.bind, pure, Except.pure] at h
      split at h
      · cases h
      · rename_i c₁ hc₀
        simp only [Except.ok.injEq, Prod.mk.injEq] at h
        obtain ⟨ec, rfl⟩ := h
        rw [ec] at hc₀ ⊢
        obtain ⟨r, hr, hpa⟩ := resolve_ok hp
        have hcm : c ∈ (f.node p).children := List.mem_of_getElem? hc₀
        have hc_lt : c.val < f.nodes.size := hl.child_lt p c hcm
        have hp_lt : p.val < f.nodes.size := hl.lt_size_of_below hr hpa.toBelow
        have hF : Freezes f (f.freeze c) c := freezeWithin_spec _ _ _
        set f₁ := f.freeze c
        set f₂ := f₁.modifyNode p fun n => { n with children := n.children.eraseIdx index }
        have hnode₂ : ∀ u, f₂.node u = if p.val = u.val ∧ u.val < f₁.nodes.size then
            { f₁.node u with children := (f₁.node u).children.eraseIdx index } else f₁.node u :=
          fun u => node_modifyNode
        have hnode' : ∀ u, (f₂.modifyNode c fun n => { n with parent := none }).node u =
            if c.val = u.val ∧ u.val < f₂.nodes.size then { f₂.node u with parent := none }
            else f₂.node u := fun u => node_modifyNode
        set f' := f₂.modifyNode c fun n => { n with parent := none }
        have hch' : ∀ u, (f'.node u).children =
            if p = u then (f.node p).children.eraseIdx index else (f.node u).children := fun u => by
          rw [hnode']
          have e : (f₂.node u).children =
              if p = u then (f.node p).children.eraseIdx index else (f.node u).children := by
            rw [hnode₂]
            by_cases hu : p = u
            · subst hu; rw [if_pos ⟨rfl, by rw [hF.size]; exact hp_lt⟩, if_pos rfl, hF.children]
            · rw [if_neg fun h => hu (SourceId.ext_val h.1), if_neg hu, hF.children]
          split <;> exact e
        have hsub : ∀ u d, d ∈ (f'.node u).children → d ∈ (f.node u).children := fun u d hm => by
          rw [hch'] at hm
          split at hm
          · rename_i hu; subst hu; exact (List.eraseIdx_sublist _ _).subset hm
          · exact hm
        have hgone : ∀ u, c ∉ (f'.node u).children := fun u hm => by
          rw [hch'] at hm
          split at hm
          · rename_i hu; subst hu; exact not_mem_eraseIdx_of_getElem? (hl.nodup p) hc₀ hm
          · rename_i hu; exact hu (hl.parent_unique p u c hcm hm)
        have hpar' : ∀ u, u ≠ c → (f'.node u).parent = (f.node u).parent := fun u hu => by
          rw [hnode', if_neg fun h => hu (SourceId.ext_val h.1).symm, hnode₂]
          split <;> exact hF.parent u
        have hsz : f'.nodes.size = f.nodes.size := by
          rw [size_modifyNode, size_modifyNode, hF.size]
        have hroots : ∀ t', (f'.tree t').root = (f.tree t').root := fun t' => by
          rw [tree_modifyNode, tree_modifyNode, tree, hF.trees]; rfl
        have hrc : ∀ {t' r'}, (f.tree t').root = some r' → r' ≠ c := fun hr' e =>
          hl.root_orphan _ _ p hr' (e ▸ hcm)
        have hbelow : ∀ {t' r' u}, (f.tree t').root = some r' → Below f' r' u →
            Below f r' u ∧ ¬ Below f c u := fun {t' r' _} hr' hu =>
          ⟨hu.congr' hsub, not_below_of_detached hl hsub hgone (fun q => hl.root_orphan t' r' q hr')
            (hrc hr') hu⟩
        refine ⟨fun t' r' hr' => ?_, fun t' r' u hr' hm => ?_, fun t₁ t₂ r' h₁ h₂ => ?_,
          fun t' r' hr' => ?_, fun t' r' u hr' hu => ?_, fun t' r' u d hr' hu hm => ?_,
          fun u => ?_, fun u u' d hm hm' => ?_, fun u d hm => ?_⟩
        · rw [hroots] at hr'
          rw [hpar' r' (hrc hr')]; exact hl.root_parent t' r' hr'
        · rw [hroots] at hr'; exact hl.root_orphan t' r' u hr' (hsub u r' hm)
        · rw [hroots] at h₁ h₂; exact hl.root_inj t₁ t₂ r' h₁ h₂
        · rw [hroots] at hr'; rw [hsz]; exact hl.root_lt t' r' hr'
        · rw [hroots] at hr'
          obtain ⟨hu, hnc⟩ := hbelow hr' hu
          rw [hnode']
          split
          · rename_i e; exact absurd (SourceId.ext_val e.1 ▸ Below.refl) hnc
          · rw [hnode₂]
            split <;> (rw [hF.outside u hnc]; exact hl.attached t' r' u hr' hu)
        · rw [hroots] at hr'
          have hdc : d ≠ c := fun e => hgone u (e ▸ hm)
          rw [hpar' d hdc]
          exact hl.child_parent t' r' u d hr' (hbelow hr' hu).1 (hsub u d hm)
        · rw [hch']
          split
          · exact (hl.nodup p).eraseIdx index
          · exact hl.nodup u
        · exact hl.parent_unique u u' d (hsub u d hm) (hsub u' d hm')
        · rw [hsz]; exact hl.child_lt u d (hsub u d hm)

/-- Replacing a payload keeps the trees linked. -/
theorem Linked.replacePayload (hl : Linked f) {a : List Nat} {payload : Toml.Table}
    (h : f.replacePayload t a payload = .ok f') : Linked f' := by
  unfold Forest.replacePayload at h
  cases hp : f.resolve t a with
  | error e => rw [hp] at h; cases h
  | ok id =>
    rw [hp] at h
    simp only [bind, Except.bind, pure, Except.pure, Except.ok.injEq] at h
    subst h
    have hsame : ∀ u, ((f.modifyNode id fun n => { n with payload := payload }).node u).children =
        (f.node u).children ∧ ((f.modifyNode id fun n => { n with payload := payload }).node u).parent =
        (f.node u).parent ∧ ((f.modifyNode id fun n => { n with payload := payload }).node u).detached =
        (f.node u).detached := fun u => by
      rw [node_modifyNode]; split <;> exact ⟨rfl, rfl, rfl⟩
    exact hl.congr (fun u => (hsame u).1) (fun u => (hsame u).2.1) (fun u => (hsame u).2.2)
      (fun _ => rfl) size_modifyNode

/-- Changing a tree's subscribers, or anything but its root, keeps the trees linked. -/
theorem Linked.modifyTree (hl : Linked f) {g : Tree → Tree} (hg : ∀ tr, (g tr).root = tr.root) :
    Linked (f.modifyTree t g) :=
  hl.congr (fun _ => rfl) (fun _ => rfl) (fun _ => rfl) (fun t' => by
    rw [tree_modifyTree]; split
    · exact hg _
    · rfl) rfl

end Edits

section Position

variable {c p : SourceId}

/-- The index of a node in place is its position among its parent's children. -/
theorem childIndex_of_parent (hd : (f.node c).detached = none) (hp : (f.node c).parent = some p) :
    f.childIndex c = (f.node p).children.idxOf c := by
  simp only [childIndex, hd, hp]

/-- The path of a node in place extends its parent's path by the tree's key and the node's
index, written as the layout says. -/
theorem path_of_parent {n : Nat} (hd : (f.node c).detached = none)
    (hp : (f.node c).parent = some p) (hc : Climbs f p n) :
    f.path c = match (f.node c).style.layout with
      | .keyed => ((f.path p).child (f.node c).style.key).child (toString (f.childIndex c))
      | .list => ((f.path p).child (f.node c).style.key).listChild (f.childIndex c) := by
  have hcc : Climbs f c (n + 1) := .up hp hc
  have h := path_of_climbs hcc
  rw [pathWithin] at h
  simp only [hd, hp] at h
  rw [path_of_climbs hc]
  exact h

end Position

end Source.Forest

end Inlay
