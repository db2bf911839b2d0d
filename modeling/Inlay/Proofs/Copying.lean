import Mathlib.Data.List.Dedup
import Inlay.Proofs.Expansion

namespace Inlay

/-- A predicate that holds of more elements of a list counts more of them. -/
theorem countP_lt_of_mem {α : Type} {p q : α → Bool} {l : List α} (h : ∀ x ∈ l, p x → q x)
    {a : α} (ha : a ∈ l) (hp : p a = false) (hq : q a = true) : l.countP p < l.countP q := by
  induction l with
  | nil => cases ha
  | cons b l ih =>
    have hl : ∀ x ∈ l, p x → q x := fun x hx => h x (List.mem_cons_of_mem b hx)
    have hb := h b List.mem_cons_self
    rw [List.countP_cons, List.countP_cons]
    rcases List.mem_cons.1 ha with rfl | ha
    · have := List.countP_mono_left hl
      simp only [hp, hq, Bool.false_eq_true, ↓reduceIte]
      omega
    · have := ih hl ha
      have hpq : (if p b = true then 1 else 0) ≤ (if q b = true then 1 else 0) := by
        split <;> simp_all
      omega

namespace Source.Forest

variable {f : Forest}

section Budget

/-- The model names of the forest that `used` does not hold. -/
def unusedNames (f : Forest) (used : List String) : Nat :=
  f.modelNames.countP fun m => m ∉ used

/-- The fuel a copy of a node `depth` levels below a tree's root takes at most, below model nodes
of the names `used`: for each name left, one more inlining of at most as many levels as there are
nodes and four steps, and the levels left to the bottom of the tree. -/
def copyFuel (f : Forest) (used : List String) (depth : Nat) : Nat :=
  (f.nodes.size + 5) * f.unusedNames used + (f.nodes.size - depth) + 1

theorem unusedNames_append_le (used more : List String) :
    f.unusedNames (used ++ more) ≤ f.unusedNames used :=
  List.countP_mono_left fun m _ h => by simp_all

/-- A name of the forest that is not used yet is used up by its inlining. -/
theorem unusedNames_lt {used : List String} {m : String} (hm : m ∈ f.modelNames) (hu : m ∉ used) :
    f.unusedNames (used ++ [m]) < f.unusedNames used :=
  countP_lt_of_mem (fun x _ h => by simp_all) hm (by simp) (by simpa using hu)

theorem unusedNames_le_size (used : List String) : f.unusedNames used ≤ f.nodes.size :=
  calc f.unusedNames used ≤ f.modelNames.length := List.countP_le_length
    _ ≤ (f.nodes.toList.filterMap (·.model)).length := (List.dedup_sublist _).length_le
    _ ≤ f.nodes.toList.length := List.length_filterMap_le _ _
    _ = f.nodes.size := Array.length_toList

/-- A child is copied with the fuel of its parent less one: it is one level further down, below
the parent's model name too. -/
theorem copyFuel_child (used : List String) {depth : Nat} (more : List String)
    (hd : depth + 1 ≤ f.nodes.size) :
    f.copyFuel (used ++ more) (depth + 1) + 1 ≤ f.copyFuel used depth := by
  have h := Nat.mul_le_mul_left (f.nodes.size + 5) (f.unusedNames_append_le used more)
  unfold copyFuel
  omega

/-- The root inlined into a model node named `m` is copied from the top of its tree with the
fuel of the names left to the node, less the levels of one tree and four steps. -/
theorem copyFuel_inline {used : List String} {m : String} (hm : m ∈ f.modelNames)
    (hu : m ∉ used) : f.copyFuel (used ++ [m]) 0 + 4 ≤ (f.nodes.size + 5) * f.unusedNames used := by
  have h := Nat.mul_le_mul_left (f.nodes.size + 5) (f.unusedNames_lt hm hu)
  rw [Nat.mul_succ] at h
  unfold copyFuel
  omega

/-- A model node is inlined with its copy's fuel less the step of its copy. -/
theorem mul_unusedNames_lt_copyFuel (used : List String) (depth : Nat) :
    (f.nodes.size + 5) * f.unusedNames used < f.copyFuel used depth := by
  unfold copyFuel
  omega

/-- The builders' fuel suffices for a copy from any depth below no model node, with two steps
to spare: one to fill a mount, one to start a feed. -/
theorem copyFuel_nil_add_two_le (depth : Nat) :
    f.copyFuel [] depth + 2 ≤ (f.nodes.size + 4) * (f.nodes.size + 4) := by
  have h := Nat.mul_le_mul_left (f.nodes.size + 5) (f.unusedNames_le_size [])
  have e : (f.nodes.size + 4) * (f.nodes.size + 4) =
      (f.nodes.size + 5) * f.nodes.size + 3 * f.nodes.size + 16 := by
    simp only [Nat.add_mul, Nat.mul_add]
    omega
  unfold copyFuel
  omega

theorem copyFuel_nil_lt (depth : Nat) :
    f.copyFuel [] depth < (f.nodes.size + 4) * (f.nodes.size + 4) := by
  have := f.copyFuel_nil_add_two_le depth
  omega

end Budget

section Depth

/-- `src` is a node of a tree of the forest, `depth` links below the tree's root. -/
structure InTree (f : Forest) (src : SourceId) (depth : Nat) : Prop where
  climbs : Climbs f src depth
  rooted : ∃ t r, (f.tree t).root = some r ∧ Below f r src

theorem InTree.root (hl : Linked f) {t : TreeId} {r : SourceId} (hr : (f.tree t).root = some r) :
    InTree f r 0 :=
  ⟨.top (hl.root_parent t r hr), t, r, hr, .refl⟩

theorem InTree.child (hl : Linked f) {src c : SourceId} {depth : Nat} (h : InTree f src depth)
    (hc : c ∈ (f.node src).children) : InTree f c (depth + 1) := by
  obtain ⟨t, r, hr, hb⟩ := h.rooted
  exact ⟨.up (hl.child_parent t r src c hr hb hc) h.climbs, t, r, hr, .child hb hc⟩

end Depth

end Source.Forest

namespace Sync

variable {s s' : State} {f : Source.Forest} {x y p : InlaidId} {m : String}

section Names

/-- A model node of name `m` is `p` or above it. -/
def NameAt (s : State) (p : InlaidId) (m : String) : Prop :=
  s.modelName p = some m ∨ NameAbove s p m

theorem NameAt.above_child (hp : (s.node x).parent = some p) (h : NameAt s p m) :
    NameAbove s x m := by
  rcases h with h | ⟨a, ha, hm⟩
  · exact ⟨p, .parent hp, h⟩
  · exact ⟨a, .up hp ha, hm⟩

/-- The walk up of the cycle guard finds a model node of the name only where there is one. -/
theorem State.nameAt_of_usesModelWithin {name : String} :
    ∀ (k : Nat) (p : InlaidId), s.usesModelWithin (fun _ => true) name k p = true →
      NameAt s p name
  | 0, _, h => by cases h
  | k + 1, p, h => by
    rw [State.usesModelWithin] at h
    split at h
    · exact .inl ‹_›
    · split at h
      · rename_i q hq
        exact .inr ((State.nameAt_of_usesModelWithin k q (by simpa using h)).above_child hq)
      · cases h

/-- The nodes above an old node stay above it through a change that keeps every origin. -/
theorem Descent.above (hd : Descent s s') (hl : Lineage s) (hx : x.val < s.nodes.size)
    {a : InlaidId} (h : Above s a x) : Above s' a x := by
  induction h with
  | parent hp => exact .parent (by rwa [Inlaid.Node.parent_eq_of_origin (hd.origin _ hx)])
  | @up q z hq _ ih =>
    exact .up (by rwa [Inlaid.Node.parent_eq_of_origin (hd.origin _ hx)])
      (ih (Nat.lt_trans (hl.parent_lt _ _ hq) hx))

/-- A change that keeps every origin keeps the cycle guard's verdict on every old node. -/
theorem Descent.guarded_iff (hd : Descent s s') (hl : Lineage s) (hx : x.val < s.nodes.size) :
    Guarded s' x ↔ Guarded s x := by
  refine ⟨fun hg a ha => ?_, hd.guarded hl hx⟩
  rw [← hd.modelName (Nat.lt_trans (hl.above_lt ha) hx), ← hd.modelName hx]
  exact hg a (hd.above hl hx ha)

theorem NameAt.descent (h : NameAt s p m) (hd : Descent s s') (hl : Lineage s)
    (hp : p.val < s.nodes.size) : NameAt s' p m := by
  rcases h with h | ⟨a, ha, hm⟩
  · exact .inl (by rw [hd.modelName hp]; exact h)
  · exact .inr ⟨a, hd.above hl hp ha, by rw [hd.modelName (Nat.lt_trans (hl.above_lt ha) hp)]; exact hm⟩

end Names

section Ground

theorem Steady.resolve (h : Steady s s') (m : String) : s'.resolve m = s.resolve m := by
  simp only [State.resolve, h.resolver, h.library]

theorem Steady.forest_node (h : Steady s s') (u : SourceId) : s'.forest.node u = s.forest.node u := by
  simp only [Source.Forest.node, h.forest_nodes]

/-- What copying the forest `f` needs of a session besides its heap: a forest with the nodes and
the tree roots of `f`, the tracker there, and every tree a model name resolves to, when the tree
is asked, serving no model or that one. -/
structure Ground (f : Source.Forest) (s : State) : Prop where
  nodes : s.forest.nodes = f.nodes
  roots : ∀ T, (s.forest.tree T).root = (f.tree T).root
  present : s.tracker.present = true
  serves : ∀ m T, s.resolve m = some (T, true) →
    (s.forest.tree T).serving = none ∨ (s.forest.tree T).serving = some m

theorem Ground.forest_node (hg : Ground f s) (u : SourceId) : s.forest.node u = f.node u := by
  simp only [Source.Forest.node, hg.nodes]

/-- A change that keeps what `Steady` keeps and changes no tree's root or served model keeps the
ground. -/
theorem Ground.keep (hg : Ground f s) (hst : Steady s s')
    (htrees : ∀ T, (s'.forest.tree T).root = (s.forest.tree T).root ∧
      (s'.forest.tree T).serving = (s.forest.tree T).serving) : Ground f s' :=
  ⟨hst.forest_nodes.trans hg.nodes, fun T => (htrees T).1.trans (hg.roots T),
    by rw [hst.tracker]; exact hg.present, fun m T h => by
      rw [(htrees T).2]
      exact hg.serves m T (by rwa [hst.resolve] at h)⟩

/-- A change of the heap alone keeps the ground. -/
theorem Ground.of_heap (hg : Ground f s) (hst : Steady s s') (hforest : s'.forest = s.forest) :
    Ground f s' :=
  hg.keep hst fun T => by rw [hforest]; exact ⟨rfl, rfl⟩

/-- A node of the heap whose name a model of the forest has. -/
theorem Ground.mem_modelNames (hg : Ground f s) (hl : Lineage s) {n : String}
    (h : s.modelName x = some n) : n ∈ f.modelNames := by
  have hm := hl.named x n h
  rw [hg.forest_node] at hm
  exact Source.Forest.mem_modelNames hm

/-- The tree a model node's feed follows may fill the node's slot: it serves no model, or the
node's, or it is not asked. -/
theorem Ground.checkServed {g : SubscriberId} {o : InlaidId} {name : String} (hg : Ground f s)
    (hname : s.modelName o = some name)
    (hres : s.resolve name = some ((s.feed g).tree, (s.feed g).announcesModel)) :
    s.checkServed (s.feed g) o = .ok () := by
  have hexp : (s.node o).inlining.map (·.name) = some name := hname
  unfold State.checkServed
  cases hann : (s.feed g).announcesModel with
  | false => simp only [hexp, Bool.false_eq_true, if_false]
  | true =>
    rw [hann] at hres
    simp only [hexp, if_true]
    rcases hg.serves name _ hres with h | h <;> simp [h]

end Ground

section Copies

/-- The node `y` copies its source node as `f` has it: its literal children stand for the source
node's children, it holds a feed exactly when it inlines a model, and that feed fills the node's
inlined slot with the root of the feed's tree in `f`. -/
structure Copies (s : State) (f : Source.Forest) (y : InlaidId) : Prop where
  literal : LitCopies s f y
  inlines : Inlines s y
  mount : ∀ k, s.feedOf y = some k → (s.feed k).mount = .owner y ∧
    (s.hiddenOf y).map (fun h => (s.node h).source) = (f.tree (s.feed k).tree).root

/-- Every node below `x` copies its source node as `f` has it. -/
def Copied (s : State) (f : Source.Forest) (x : InlaidId) : Prop :=
  ∀ y, Below s x y → Copies s f y

/-- The feed a copied node holds is a feed of the session: it fills that node's slot. -/
theorem Copies.feed_lt (h : Copies s f y) {k : SubscriberId} (hk : s.feedOf y = some k) :
    k.val < s.feeds.size := by
  by_contra hge
  have hmount := (h.mount k hk).1
  rw [State.feed_of_size_le (Nat.le_of_not_lt hge)] at hmount
  cases hmount

/-- A node's copy stands while the node, the feed it holds and every origin stay as they were,
and the resolver and the forest's nodes too. -/
theorem Copies.keep (h : Copies s f y) (ha : Arena s) (hl : Lineage s) (hy : y.val < s.nodes.size)
    (hd : Descent s s') (hres : ∀ m, s'.resolve m = s.resolve m)
    (hfn : ∀ u, s'.forest.node u = s.forest.node u) (hnode : s'.node y = s.node y)
    (hfeed : ∀ k, s.feedOf y = some k → s'.feed k = s.feed k) : Copies s' f y := by
  have hfeedOf : s'.feedOf y = s.feedOf y := by simp only [State.feedOf, hnode]
  have hhidden : s'.hiddenOf y = s.hiddenOf y := by simp only [State.hiddenOf, hnode]
  have hname : s'.modelName y = s.modelName y := by simp only [State.modelName, hnode]
  have hguard := hd.guarded_iff hl hy
  have hsrc : ∀ c ∈ (s.node y).children, (s'.node c).source = (s.node c).source := fun c hc =>
    Inlaid.Node.source_eq_of_origin (hd.origin c (ha.child_bound y c hc).2)
  have hlit : s'.literals y = s.literals y := by
    simp only [State.literals, State.literalCount, hnode]
  refine ⟨?_, ⟨?_, fun k hk => ?_, fun hk n hn hg => ?_⟩, fun k hk => ?_⟩
  · unfold LitCopies
    rw [hlit, hnode, List.map_congr_left fun c hc => hsrc c (State.mem_children_of_literal hc)]
    exact h.literal
  · rw [hname, hnode, hfn]
    exact h.inlines.named
  · rw [hfeedOf] at hk
    obtain ⟨hg, n, hn, hr⟩ := h.inlines.fed k hk
    exact ⟨hguard.2 hg, n, by rw [hname]; exact hn, by rw [hres, hfeed k hk]; exact hr⟩
  · rw [hfeedOf] at hk
    rw [hres]
    exact h.inlines.unfed hk n (by rwa [hname] at hn) (hguard.1 hg)
  · rw [hfeedOf] at hk
    obtain ⟨hmount, hroot⟩ := h.mount k hk
    rw [hfeed k hk, hhidden]
    refine ⟨hmount, ?_⟩
    cases hh : s.hiddenOf y with
    | none => rw [hh] at hroot; exact hroot
    | some r =>
      rw [hh, Option.map_some] at hroot
      rw [Option.map_some, hsrc r (List.mem_of_getLast? (ha.hidden_last y r hh))]
      exact hroot

/-- A copied subtree stays copied while every node below it, the feeds they hold and every origin
stay as they were. -/
theorem Copied.keep (h : Copied s f x) (ha : Arena s) (hl : Lineage s) (hx : x.val < s.nodes.size)
    (hd : Descent s s') (hres : ∀ m, s'.resolve m = s.resolve m)
    (hfn : ∀ u, s'.forest.node u = s.forest.node u) (hnode : ∀ y, Below s x y → s'.node y = s.node y)
    (hfeed : ∀ y k, Below s x y → s.feedOf y = some k → s'.feed k = s.feed k) :
    Copied s' f x := by
  intro y hy
  have hy' : Below s x y := (below_iff_of_children_eq fun w hw => by rw [hnode w hw]).1 hy
  exact (h y hy').keep ha hl (hy'.lt_size ha hx) hd hres hfn (hnode y hy') fun k => hfeed y k hy'

/-- A copied subtree stays copied through an extension that leaves its nodes and their feeds
alone and keeps every origin. -/
theorem Copied.extend {o : Option InlaidId} {g : Option SubscriberId} (h : Copied s f x)
    (ha : Arena s) (hl : Lineage s) (hx : x.val < s.nodes.size) (hd : Descent s s')
    (he : Extends s s' o g) (ho : ∀ y, o = some y → ¬ Below s x y)
    (hg : ∀ y k, g = some k → Below s x y → s.feedOf y ≠ some k) : Copied s' f x :=
  h.keep ha hl hx hd he.steady.resolve he.steady.forest_node
    (fun y hy => he.node y (hy.lt_size ha hx) fun e => ho y e hy)
    fun y k hy hk => he.feed k ((h y hy).feed_lt hk) fun e => hg y k e hy hk

/-- A copied subtree stays copied through an extension that changes only nodes older than it. -/
theorem Copied.extend_older {id : InlaidId} {g : Option SubscriberId} (h : Copied s f x)
    (ha : Arena s) (hl : Lineage s) (hx : x.val < s.nodes.size) (hd : Descent s s')
    (he : Extends s s' (some id) g) (hid : id.val < x.val)
    (hg : ∀ y k, g = some k → Below s x y → s.feedOf y ≠ some k) : Copied s' f x :=
  h.extend ha hl hx hd he (fun y e hb => by
    cases e
    exact absurd (hb.le ha) (Nat.not_le.2 hid)) hg

end Copies

section Steps

variable {E : Fault → State → Prop}

theorem addNode_forest (m : Inlaid.Node) :
    Ensures (addNode m) s (fun _ s' => s'.forest = s.forest) fun _ _ => True :=
  Ensures.modifyGet rfl

theorem modifyNode_forest (id : InlaidId) (g : Inlaid.Node → Inlaid.Node) :
    Ensures (modifyNode id g) s (fun _ s' => s'.forest = s.forest) fun _ _ => True :=
  Ensures.modify rfl

theorem addFeed_forest (fd : Feed) :
    Ensures (addFeed fd) s (fun _ s' => s'.forest = s.forest) fun _ _ => True :=
  Ensures.modifyGet rfl

/-- Changing the tracker's root keeps the ground. -/
theorem Ground.retrack (hg : Ground f s) (r : Option InlaidId) :
    Ground f { s with tracker := { s.tracker with root := r } } :=
  ⟨hg.nodes, hg.roots, hg.present, hg.serves⟩

/-- Subscribing keeps the ground and the feed's tree, and answers the root of that tree in `f`. -/
theorem subscribe_ground (hg : Ground f s) (g : SubscriberId) :
    Ensures (subscribe g) s (fun r s' => r = (f.tree (s.feed g).tree).root ∧ Ground f s' ∧
      (s'.feed g).tree = (s.feed g).tree ∧
      (s'.feed g).announcesModel = (s.feed g).announcesModel) fun _ _ => True := by
  refine (subscribe_spec (E := fun _ _ => True) g s).mono (fun r s' h => ?_)
    fun _ _ _ => trivial
  obtain ⟨hr, hs'⟩ := h
  have hst : Steady s s' := by subst hs'; exact ⟨rfl, rfl, rfl, rfl, rfl, rfl⟩
  have hforest := congrArg State.forest hs'
  have hf := congrArg State.feeds hs'
  dsimp only at hforest hf
  refine ⟨hr.trans (hg.roots _), hg.keep hst fun T => ?_, ?_⟩
  · rw [hforest, Source.Forest.tree_modifyTree]
    split <;> exact ⟨rfl, rfl⟩
  · rw [State.feed_of_modify hf]
    split <;> exact ⟨rfl, rfl⟩

/-- Listing a fresh node last among the children of a node without an inlined root, which the new
node names as its parent, keeps the arena. -/
theorem Arena.append_child (ha : Arena s) {id x : InlaidId} (hx : x.val < s.nodes.size)
    (hid : id.val < x.val) (hpar : (s.node x).parent = some id)
    (hfresh : ∀ c ∈ (s.node id).children, c.val < x.val)
    (hh : (s.node id).inlining.bind (·.hidden) = none) (hst : Steady s s')
    (hn : s'.nodes = s.nodes.modify id.val fun m => { m with children := m.children ++ [x] })
    (hf : s'.feeds = s.feeds) : Arena s' := by
  refine ha.modify rfl rfl (fun h => h) (fun c hc => ?_) ?_ (fun k hk => ?_) hn hst.forest_nodes hf
  · rcases List.mem_append.1 hc with h | h
    · exact .inl h
    · rw [List.mem_singleton.1 h]
      exact .inr ⟨hid, hx, hpar⟩
  · refine List.nodup_append.2 ⟨ha.nodup id, by simp, fun a ha' b hb => ?_⟩
    rw [List.mem_singleton.1 hb]
    exact fun e => Nat.lt_irrefl _ (e ▸ hfresh a ha')
  · have hk' : (s.node id).inlining.bind (·.hidden) = some k := hk
    rw [hh] at hk'
    cases hk'

/-- A model node's name is its source node's model. -/
theorem Lineage.named_eq (hl : Lineage s) {n : String} (h : s.modelName x = some n) :
    s.modelName x = (s.forest.node (s.node x).source).model :=
  h.trans (hl.named x n h).symm

/-- A guarded model node's name is none of the names at or above its parent. -/
theorem not_mem_of_guarded {used : List String} {name : String} (hname : s.modelName x = some name)
    (hg : Guarded s x) (hused : ∀ m ∈ used, ∃ p, (s.node x).parent = some p ∧ NameAt s p m) :
    name ∉ used := fun hm => by
  obtain ⟨p, hp, hat⟩ := hused name hm
  exact (guarded_iff hname).1 hg (hat.above_child hp)

end Steps

section Specs

variable (f : Source.Forest)

/-- What inlining leaves at the model node `id`: it holds a feed exactly when it inlines a model,
and that feed fills its slot with a copy of the root of the feed's tree in `f`. -/
structure Inlays (s : State) (id : InlaidId) : Prop where
  inlines : Inlines s id
  mount : ∀ k, s.feedOf id = some k → (s.feed k).mount = .owner id ∧
    (s.hiddenOf id).map (fun h => (s.node h).source) = (f.tree (s.feed k).tree).root
  hidden : ∀ h, s.hiddenOf id = some h → Copied s f h

/-- The slot of the model node `o` holds a copy of the root of the tree `T` in `f`, or nothing when
that tree has no root. -/
structure Fills (s : State) (o : InlaidId) (T : TreeId) : Prop where
  root : (s.hiddenOf o).map (fun h => (s.node h).source) = (f.tree T).root
  copied : ∀ h, s.hiddenOf o = some h → Copied s f h

/-- The feed `g` follows the tree that the name of the model node `o` resolves to, and asks that
tree which model it serves when the resolver says so. -/
def FeedFor (s : State) (g : SubscriberId) (o : InlaidId) : Prop :=
  ∃ name, s.modelName o = some name ∧
    s.resolve name = some ((s.feed g).tree, (s.feed g).announcesModel)

/-- `create fuel` copies a node `depth` levels down a tree of `f`, below a parent at or above which
the model names `used` are, and does not fail, given the fuel the copy takes. -/
def CreateCopies (fuel : Nat) : Prop :=
  ∀ (placement : Placement) (parent : Option InlaidId) (src : SourceId) (s : State)
    (used : List String) (depth : Nat),
    Arena s → Lineage s → Ground f s → placement.isFrozen = false →
    (∀ p, parent = some p → p.val < s.nodes.size) →
    (∀ m ∈ used, ∃ p, parent = some p ∧ NameAt s p m) → f.InTree src depth →
    f.copyFuel used depth ≤ fuel →
    Ensures (create fuel placement parent src) s (fun x s' => Ground f s' ∧ Copied s' f x)
      fun _ _ => False

/-- `expand fuel` inlines what the model node `id`, fresh from its children, has to inline, and
does not fail, given the fuel of the model names left below those at and above its parent. -/
def ExpandCopies (fuel : Nat) : Prop :=
  ∀ (id : InlaidId) (name : String) (s : State) (used : List String),
    Arena s → Lineage s → Ground f s → id.val < s.nodes.size →
    (s.node id).inlining = some ⟨name, none, none⟩ →
    (∀ m ∈ used, ∃ p, (s.node id).parent = some p ∧ NameAt s p m) →
    (f.nodes.size + 5) * f.unusedNames used ≤ fuel →
    Ensures (expand fuel id name) s (fun _ s' => Ground f s' ∧ Inlays f s' id) fun _ _ => False

/-- `start fuel` fills the empty slot of the model node `o` from the tree its feed follows, and
does not fail, given the fuel a copy of the tree's root takes below the names at and above `o`. -/
def StartCopies (fuel : Nat) : Prop :=
  ∀ (g : SubscriberId) (o : InlaidId) (s : State) (used : List String),
    Arena s → Lineage s → Ground f s → g.val < s.feeds.size → (s.feed g).mount = .owner o →
    o.val < s.nodes.size → s.hiddenOf o = none → FeedFor s g o → (∀ m ∈ used, NameAt s o m) →
    f.copyFuel used 0 + 2 ≤ fuel →
    Ensures (start fuel g) s
      (fun _ s' => Ground f s' ∧ (s'.feed g).tree = (s.feed g).tree ∧
        (s'.feed g).announcesModel = (s.feed g).announcesModel ∧ Fills f s' o (s.feed g).tree)
      fun _ _ => False

/-- `fill fuel` copies the root of the tree of the feed `g` into the empty slot of the model node
`o`, and does not fail, given the fuel the copy takes below the names at and above `o`. -/
def FillCopies (fuel : Nat) : Prop :=
  ∀ (g : SubscriberId) (o : InlaidId) (s : State) (used : List String),
    Arena s → Lineage s → Ground f s → (s.feed g).mount = .owner o → o.val < s.nodes.size →
    s.hiddenOf o = none → FeedFor s g o → (∀ m ∈ used, NameAt s o m) →
    f.copyFuel used 0 + 1 ≤ fuel →
    Ensures (fill fuel g (f.tree (s.feed g).tree).root) s
      (fun r s' => Ground f s' ∧ r = s'.hiddenOf o ∧ Fills f s' o (s.feed g).tree)
      fun _ _ => False

end Specs

section Framed

variable {fuel : Nat}

/-- A copy by `create`, with what the build's own specifications say of it. -/
theorem create_copies_framed (hc : CreateCopies f fuel) (used : List String) {placement : Placement}
    {parent : Option InlaidId} {src : SourceId} {depth : Nat} (ha : Arena s)
    (hl : Lineage s) (hg : Ground f s) (hpl : placement.isFrozen = false)
    (hpar : ∀ p, parent = some p → p.val < s.nodes.size)
    (hused : ∀ m ∈ used, ∃ p, parent = some p ∧ NameAt s p m) (hin : f.InTree src depth)
    (hfuel : f.copyFuel used depth ≤ fuel) :
    Ensures (create fuel placement parent src) s
      (fun x s' => Created s s' x placement parent ∧ Descent s s' ∧ (s'.node x).source = src ∧
        Ground f s' ∧ Copied s' f x) fun _ _ => False :=
  (((build_spec fuel).1 placement parent src s ha hpl hpar).and
    ((create_origin fuel placement src hl hpar).and
      (hc placement parent src s used depth ha hl hg hpl hpar hused hin hfuel))).mono
    (fun _ _ h => by obtain ⟨h₁, ⟨h₂, _, h₃⟩, h₄⟩ := h; exact ⟨h₁, h₂, h₃, h₄⟩)
    fun _ _ h => h.2.2

/-- An inlining by `expand`, with what the build's own specifications say of it. -/
theorem expand_copies_framed (he : ExpandCopies f fuel) (used : List String) {id : InlaidId}
    {name : String} (ha : Arena s) (hl : Lineage s) (hg : Ground f s)
    (hid : id.val < s.nodes.size) (hinl : (s.node id).inlining = some ⟨name, none, none⟩)
    (hused : ∀ m ∈ used, ∃ p, (s.node id).parent = some p ∧ NameAt s p m)
    (hfuel : (f.nodes.size + 5) * f.unusedNames used ≤ fuel) :
    Ensures (expand fuel id name) s
      (fun _ s' => Extends s s' (some id) none ∧ Arena s' ∧ Inlined s s' id ∧ Descent s s' ∧
        Ground f s' ∧ Inlays f s' id) fun _ _ => False := by
  have hname : s.modelName id = some name := by simp [State.modelName, hinl]
  refine (((build_spec fuel).2.1 id name s ha hid (by rw [hinl]; rfl)
    (by simp [State.hiddenOf, hinl]) (by simp [State.feedOf, hinl])).and
    (((build_descends fuel).2.1 id name s hl hid hname).and
      (he id name s used ha hl hg hid hinl hused hfuel))).mono
    (fun _ _ h => by obtain ⟨⟨h₁, h₂, _, h₃, _⟩, h₄, h₅⟩ := h; exact ⟨h₁, h₂, h₃, h₄, h₅⟩)
    fun _ _ h => h.2.2

/-- A start by `start`, with what the build's own specifications say of it. -/
theorem start_copies_framed (hs : StartCopies f fuel) (used : List String) {g : SubscriberId}
    {o : InlaidId} (ha : Arena s) (hl : Lineage s) (hg : Ground f s)
    (hgs : g.val < s.feeds.size) (hmount : (s.feed g).mount = .owner o) (ho : o.val < s.nodes.size)
    (hh : s.hiddenOf o = none) (hfor : FeedFor s g o) (hused : ∀ m ∈ used, NameAt s o m)
    (hfuel : f.copyFuel used 0 + 2 ≤ fuel) :
    Ensures (start fuel g) s
      (fun _ s' => Extends s s' (some o) (some g) ∧ Arena s' ∧
        (s'.feed g).mount = (s.feed g).mount ∧ Descent s s' ∧ Ground f s' ∧
        (s'.feed g).tree = (s.feed g).tree ∧
        (s'.feed g).announcesModel = (s.feed g).announcesModel ∧ Fills f s' o (s.feed g).tree)
      fun _ _ => False :=
  (((build_spec fuel).2.2.1 g o s ha hgs hmount ho hh).and
    (((build_descends fuel).2.2.1 g s hl).and
      (hs g o s used ha hl hg hgs hmount ho hh hfor hused hfuel))).mono
    (fun _ _ h => by obtain ⟨⟨h₁, h₂, _, _, h₃, _⟩, h₄, h₅⟩ := h; exact ⟨h₁, h₂, h₃, h₄, h₅⟩)
    fun _ _ h => h.2.2

/-- A fill by `fill`, with what the build's own specifications say of it. -/
theorem fill_copies_framed (hfill : FillCopies f fuel) (used : List String) {g : SubscriberId}
    {o : InlaidId} (ha : Arena s) (hl : Lineage s) (hg : Ground f s)
    (hmount : (s.feed g).mount = .owner o) (ho : o.val < s.nodes.size) (hh : s.hiddenOf o = none)
    (hfor : FeedFor s g o) (hused : ∀ m ∈ used, NameAt s o m)
    (hfuel : f.copyFuel used 0 + 1 ≤ fuel) :
    Ensures (fill fuel g (f.tree (s.feed g).tree).root) s
      (fun r s' => Extends s s' (some o) none ∧ Arena s' ∧ Descent s s' ∧ Ground f s' ∧
        r = s'.hiddenOf o ∧ Fills f s' o (s.feed g).tree) fun _ _ => False :=
  (((build_spec fuel).2.2.2 g _ o s ha hmount ho hh).and
    (((build_descends fuel).2.2.2 g _ s hl).and
      (hfill g o s used ha hl hg hmount ho hh hfor hused hfuel))).mono
    (fun _ _ h => by obtain ⟨⟨h₁, h₂, _⟩, h₃, h₄⟩ := h; exact ⟨h₁, h₂, h₃, h₄⟩)
    fun _ _ h => h.2.2

end Framed

section Zero

/-- A model node fresh from its children and left without a feed inlays nothing, when the guard
or the resolver says there is nothing to inline. -/
theorem Inlays.of_unfed (hl : Lineage s) {id : InlaidId} {name : String}
    (hinl : (s.node id).inlining = some ⟨name, none, none⟩)
    (h : Guarded s id → s.resolve name = none) : Inlays f s id := by
  have hname : s.modelName id = some name := by simp [State.modelName, hinl]
  have hfeed : s.feedOf id = none := by simp [State.feedOf, hinl]
  refine ⟨⟨hl.named_eq hname, fun k hk => ?_, fun _ n hn hgd => ?_⟩, fun k hk => ?_, fun r hr => ?_⟩
  · rw [hfeed] at hk; cases hk
  · rw [hname] at hn
    cases hn
    exact h hgd
  · rw [hfeed] at hk; cases hk
  · simp [State.hiddenOf, hinl] at hr

theorem create_copies_zero : CreateCopies f 0 := by
  intro _ _ _ _ used depth _ _ _ _ _ _ _ hfuel
  exact absurd hfuel (by unfold Source.Forest.copyFuel; omega)

/-- With no fuel there is no name left: the node's own is used above it, and the guard stops it. -/
theorem expand_copies_zero : ExpandCopies f 0 := by
  intro id name s used _ hl hg _ hinl hused hfuel
  rw [expand]
  have hname : s.modelName id = some name := by simp [State.modelName, hinl]
  have hu : f.unusedNames used = 0 := by
    rcases Nat.mul_eq_zero.1 (Nat.le_zero.1 hfuel) with h | h
    · omega
    · exact h
  refine Ensures.pure ⟨hg, Inlays.of_unfed hl hinl fun hgd => absurd hu ?_⟩
  exact Nat.pos_iff_ne_zero.1 (List.countP_pos_iff.2 ⟨name, hg.mem_modelNames hl hname,
    by simpa using not_mem_of_guarded hname hgd hused⟩)

theorem start_copies_zero : StartCopies f 0 := by
  intro _ _ _ _ _ _ _ _ _ _ _ _ _ hfuel
  omega

theorem fill_copies_zero : FillCopies f 0 := by
  intro _ _ _ _ _ _ _ _ _ _ _ _ hfuel
  omega

end Zero

section Succ

variable {fuel : Nat}

theorem fill_copies_succ (hf : f.Linked) (hc : CreateCopies f fuel) : FillCopies f (fuel + 1) := by
  intro g o s used ha hl hg hmount ho hh hfor hused hfuel
  obtain ⟨name, hname, hres⟩ := hfor
  rw [fill]
  apply Ensures.bind; apply Ensures.get
  dsimp only
  split
  · rename_i he; rw [hmount] at he; cases he
  rename_i o' he
  rw [hmount] at he
  cases he
  cases hroot : (f.tree (s.feed g).tree).root with
  | none =>
    refine Ensures.andThen ((detachHidden_spec o s).also (modifyNode_forest o _))
      fun _ s' h' => Ensures.pure ?_
    obtain ⟨⟨hst, hn, _⟩, hfor'⟩ := h'
    have hsame : ∀ y, s'.node y = s.node y := fun y => by
      rw [State.node_of_modify hn]
      split
      · rename_i h; obtain ⟨rfl, _⟩ := h; exact Inlaid.Node.detach_of_hidden_none hh
      · rfl
    have hh' : s'.hiddenOf o = none := by simp only [State.hiddenOf, hsame]; exact hh
    exact ⟨hg.of_heap hst hfor', hh'.symm, ⟨by rw [hh', hroot]; rfl, fun _ e => by
      rw [hh'] at e; cases e⟩⟩
  | some r =>
    apply Ensures.bind
    refine Ensures.ofExcept (fun _ _ => ?_) fun e he => by
      rw [hg.checkServed hname hres] at he; cases he
    have hguard : Guarded s o := (hl.owner g o hmount).2
    refine Ensures.andThen (create_copies_framed hc _ ha hl hg rfl (fun p e => by cases e; exact ho)
      (fun m hm => ⟨o, rfl, hused m hm⟩) (Source.Forest.InTree.root hf hroot) (by omega))
      fun x s₁ h₁ => ?_
    obtain ⟨hx, hd₁, hsrc, hg₁, hcopy⟩ := h₁
    refine Ensures.andThen (((modifyNode_spec o _ s₁).also (modifyNode_forest o _)).also
      (modifyNode_descends_guarded hd₁.lineage (fun m => Inlaid.Node.origin_attach m x)
        (hd₁.guarded hl ho hguard))) fun _ s₂ h₂ => Ensures.pure ?_
    obtain ⟨⟨⟨hst, hn, hf₂⟩, hfor₂⟩, hd₂⟩ := h₂
    have hnode := State.node_of_modify hn
    have ho₁ : s₁.node o = s.node o := hx.grows.node_kept ho
    have hox : o.val < x.val := by rw [hx.fresh]; exact ho
    have hnode_o : s₂.node o = (s.node o).attach x := by
      rw [hnode, if_pos ⟨rfl, Nat.lt_of_lt_of_le ho hx.grows.nodes_le⟩, ho₁]
      rfl
    have hnode_x : s₂.node x = s₁.node x := by
      rw [hnode, if_neg fun h => Nat.ne_of_lt hox (congrArg InlaidId.val h.1)]
    obtain ⟨i, hi, -⟩ := Option.map_eq_some_iff.1 hname
    have hh₂ : s₂.hiddenOf o = some x := by
      simp only [State.hiddenOf, hnode_o, Inlaid.Node.hidden_attach, hi, Option.map_some]
    have hext : Extends s₁ s₂ (some o) none := (Extends.refl s₁ _ _).then_modify hst hn hf₂
      fun k hk => .inl ((Inlaid.Node.feed_attach (s₁.node o) x).symm.trans hk)
    refine ⟨hg₁.of_heap hst hfor₂, by rw [hh₂], ⟨?_, fun h e => ?_⟩⟩
    · rw [hh₂, Option.map_some, hnode_x, hsrc, hroot]
    · rw [hh₂] at e
      cases e
      exact hcopy.extend_older hx.arena hd₁.lineage hx.lt hd₂ hext hox fun _ _ e => by cases e

theorem start_copies_succ (hfill : FillCopies f fuel) : StartCopies f (fuel + 1) := by
  intro g o s used ha hl hg hgs hmount ho hh hfor hused hfuel
  rw [start]
  refine Ensures.andThen (((subscribe_extends ha hgs).also (subscribe_descends hl g)).also
    (subscribe_ground hg g)) fun root s₁ h => ?_
  obtain ⟨⟨h₁, hd₁⟩, hroot, hg₁, htree, hann⟩ := h
  obtain ⟨-, hext₁, ha₁, hn₁, hsize₁, -, hmount₁, -⟩ := h₁
  have hnode₁ : ∀ y, s₁.node y = s.node y := fun y => by simp [State.node, hn₁]
  apply Ensures.bind; apply Ensures.get
  rw [if_pos hg₁.present]
  apply Ensures.discard
  have hfor₁ : FeedFor s₁ g o := by
    obtain ⟨name, hname, hres⟩ := hfor
    exact ⟨name, by simpa [State.modelName, hnode₁] using hname,
      by rw [hext₁.steady.resolve, htree, hann]; exact hres⟩
  have hroot₁ : (f.tree (s.feed g).tree).root = (f.tree (s₁.feed g).tree).root := by rw [htree]
  rw [hroot, hroot₁]
  refine (fill_copies_framed hfill _ ha₁ hd₁.lineage hg₁ (by rw [hmount₁]; exact hmount)
    (by rw [hn₁]; exact ho) (by simpa [State.hiddenOf, hnode₁] using hh) hfor₁
    (fun m hm => (hused m hm).descent hd₁ hl ho) (by omega)).mono
    (fun _ s₂ h₂ => ?_) fun _ _ h => h
  obtain ⟨hext₂, _, _, hg₂, _, hfills⟩ := h₂
  have hf₂ : s₂.feed g = s₁.feed g :=
    hext₂.feed g (by rw [hsize₁]; exact hgs) (Option.some_ne_none g).symm
  rw [htree] at hfills
  exact ⟨hg₂, by rw [hf₂, htree], by rw [hf₂, hann], hfills⟩

/-- Inlining a resolved model into a guarded model node whose name is none of those above it: the
new feed's slot holds a copy of the root of the model's tree. -/
theorem inline_copies (hs : StartCopies f fuel) {id : InlaidId} {name : String}
    {used : List String} {tree : TreeId} {announces : Bool} (ha : Arena s) (hl : Lineage s)
    (hg : Ground f s) (hid : id.val < s.nodes.size)
    (hinl : (s.node id).inlining = some ⟨name, none, none⟩) (hguard : Guarded s id)
    (hused : ∀ m ∈ used, ∃ p, (s.node id).parent = some p ∧ NameAt s p m)
    (hres : s.resolve name = some (tree, announces))
    (hfuel : (f.nodes.size + 5) * f.unusedNames used ≤ fuel + 1) :
    Ensures (do
        let g ← addFeed { mount := .owner id, tree, announcesModel := announces, active := true,
                          subscription := none }
        try start fuel g catch e => do stopFeed g; throw e
        modifyInlining id fun i => { i with feed := some g } : Run Unit) s
      (fun _ s' => Ground f s' ∧ Inlays f s' id) fun _ _ => False := by
  have hname : s.modelName id = some name := by simp [State.modelName, hinl]
  have hbudget := Source.Forest.copyFuel_inline (hg.mem_modelNames hl hname)
    (not_mem_of_guarded hname hguard hused)
  refine Ensures.andThen (((addFeed_spec _ s).also (addFeed_forest _)).also
    (addFeed_descends hl fun o ho => by cases ho; exact ⟨hid, hguard⟩))
    fun g s₁ h₁ => ?_
  obtain ⟨⟨⟨hg_eq, hst₁, hn₁, hf₁⟩, hfor₁⟩, hd₁⟩ := h₁
  have hnode₁ : ∀ y, s₁.node y = s.node y := fun y => by simp [State.node, hn₁]
  have hsize₁ : s₁.nodes.size = s.nodes.size := by rw [hn₁]
  have hg_feed : s₁.feed g = ⟨.owner id, tree, announces, true, none⟩ := by
    rw [State.feed_of_push hf₁, if_pos (by rw [hg_eq])]
  have ha₁ : Arena s₁ := ha.of_eq hnode₁ hsize₁ hst₁.forest_nodes fun k o h => by
    rw [State.feed_of_push hf₁] at h
    split at h
    · cases h; exact hid
    · exact ha.mount_bound k o h
  apply Ensures.bind
  apply Ensures.tryCatch
  refine (start_copies_framed hs (used ++ [name]) ha₁ hd₁.lineage (hg.of_heap hst₁ hfor₁) (by simp [hf₁, hg_eq])
    (by rw [hg_feed]) (by rw [hsize₁]; exact hid) (by simp [State.hiddenOf, hnode₁, hinl])
    ⟨name, by simpa [State.modelName, hnode₁] using hname, by rw [hst₁.resolve, hg_feed]; exact hres⟩
    (fun m hm => ?_) (by omega)).mono (fun _ s₂ h₂ => ?_) fun _ _ h => h.elim
  · rcases List.mem_append.1 hm with hm | hm
    · obtain ⟨p, hp, hat⟩ := hused m hm
      exact .inr ((hat.descent hd₁ hl (Nat.lt_trans (hl.parent_lt _ _ hp) hid)).above_child
        (by rw [hnode₁]; exact hp))
    · rw [List.mem_singleton.1 hm]
      exact .inl (by simpa [State.modelName, hnode₁] using hname)
  obtain ⟨hext₂, ha₂, hmount₂, hd₂, hg₂, htree₂, hann₂, hfills⟩ := h₂
  have hmod : (modifyInlining id fun i => { i with feed := some g } : Run Unit) =
      modifyNode id (·.withFeed g) := rfl
  rw [hmod]
  refine (((modifyNode_spec id _ s₂).also (modifyNode_forest id _)).also
    (modifyNode_descends hd₂.lineage id (fun m => Inlaid.Node.origin_withFeed m g)
      fun m h hh => (Inlaid.Node.hidden_withFeed m g).symm.trans hh)).mono
    (fun _ s₃ h₃ => ?_) fun _ _ h => h
  obtain ⟨⟨⟨hst₃, hn₃, hf₃⟩, hfor₃⟩, hd₃⟩ := h₃
  have hnode₃ := State.node_of_modify hn₃
  have hid₂ : id.val < s₂.nodes.size := Nat.lt_of_lt_of_le hid (hsize₁ ▸ hext₂.nodes_le)
  have hid₃ : s₃.node id = (s₂.node id).withFeed g := by rw [hnode₃, if_pos ⟨rfl, hid₂⟩]
  have hother : ∀ y, y ≠ id → s₃.node y = s₂.node y := fun y hy => by
    rw [hnode₃, if_neg fun h => hy h.1.symm]
  have hfeed₃ : s₃.feed g = s₂.feed g := by simp [State.feed, hf₃]
  have hd : Descent s s₃ := hd₁.trans (hd₂.trans hd₃)
  have hname₃ : s₃.modelName id = some name := by rw [hd.modelName hid]; exact hname
  obtain ⟨i, hi, -⟩ := Option.map_eq_some_iff.1 (hd₂.modelName (hsize₁ ▸ hid) ▸
    (by simpa [State.modelName, hnode₁] using hname : s₁.modelName id = some name))
  have hfeedOf₃ : s₃.feedOf id = some g := by
    simp only [State.feedOf, hid₃, Inlaid.Node.feed_withFeed, hi, Option.map_some]
  have hh₃ : s₃.hiddenOf id = s₂.hiddenOf id := by
    simp only [State.hiddenOf, hid₃, Inlaid.Node.hidden_withFeed]
  have htree₃ : (s₃.feed g).tree = tree := by rw [hfeed₃, htree₂, hg_feed]
  have hann₃ : (s₃.feed g).announcesModel = announces := by rw [hfeed₃, hann₂, hg_feed]
  have hidden_gt : ∀ h, s₂.hiddenOf id = some h → id.val < h.val := fun h e =>
    (ha₂.child_bound id h (List.mem_of_getLast? (ha₂.hidden_last id h e))).1
  refine ⟨hg₂.of_heap hst₃ hfor₃, ⟨⟨hd₃.lineage.named_eq hname₃, fun k hk => ?_, fun hk => ?_⟩,
    fun k hk => ?_, fun h e => ?_⟩⟩
  · rw [hfeedOf₃] at hk
    cases hk
    refine ⟨(hd.guarded_iff hl hid).2 hguard, name, hname₃, ?_⟩
    rw [htree₃, hann₃, (hst₁.trans (hext₂.steady.trans hst₃)).resolve]
    exact hres
  · rw [hfeedOf₃] at hk; cases hk
  · rw [hfeedOf₃] at hk
    cases hk
    refine ⟨by rw [hfeed₃, hmount₂, hg_feed], ?_⟩
    rw [htree₃, hh₃]
    have hroot := hfills.root
    rw [hg_feed] at hroot
    cases e : s₂.hiddenOf id with
    | none => rw [e] at hroot; exact hroot
    | some h =>
      rw [e, Option.map_some] at hroot
      rw [Option.map_some, hother h fun e' => Nat.lt_irrefl _ (e' ▸ hidden_gt h e)]
      exact hroot
  · rw [hh₃] at e
    exact (hfills.copied h e).keep ha₂ hd₂.lineage
      (ha₂.child_bound id h (List.mem_of_getLast? (ha₂.hidden_last id h e))).2 hd₃ hst₃.resolve
      hst₃.forest_node (fun y hy => hother y fun e' => by
        rw [e'] at hy
        exact absurd (hy.le ha₂) (Nat.not_le.2 (hidden_gt h e)))
      fun _ k _ _ => by simp [State.feed, hf₃]

theorem expand_copies_succ (hs : StartCopies f fuel) : ExpandCopies f (fuel + 1) := by
  intro id name s used ha hl hg hid hinl hused hfuel
  rw [expand]
  apply Ensures.bind; apply Ensures.get
  dsimp only
  have hname : s.modelName id = some name := by simp [State.modelName, hinl]
  split <;> split
  case h_1.isTrue =>
    rename_i p hp hu
    have hu' : s.usesModel (fun _ => true) p name = true := by simpa [hg.present] using hu
    have habove := (State.nameAt_of_usesModelWithin _ p hu').above_child hp
    exact Ensures.pure ⟨hg, Inlays.of_unfed hl hinl fun hgd =>
      absurd habove ((guarded_iff hname).1 hgd)⟩
  case h_2.isTrue =>
    rename_i hu
    simp [hg.present] at hu
  case h_1.isFalse =>
    rename_i p hp hu
    have hu' : s.usesModel (fun _ => true) p name = false := by simpa [hg.present] using hu
    have hguard := hl.guarded_of_unused hid hname hp hu'
    cases hres : s.resolve name with
    | none => exact Ensures.pure ⟨hg, Inlays.of_unfed hl hinl fun _ => hres⟩
    | some r => exact inline_copies hs ha hl hg hid hinl hguard hused hres hfuel
  case h_2.isFalse =>
    rename_i hp _
    cases hres : s.resolve name with
    | none => exact Ensures.pure ⟨hg, Inlays.of_unfed hl hinl fun _ => hres⟩
    | some r => exact inline_copies hs ha hl hg hid hinl (guarded_of_root hp) hused hres hfuel

theorem create_copies_succ (hf : f.Linked) (hc : CreateCopies f fuel) (he : ExpandCopies f fuel) :
    CreateCopies f (fuel + 1) := by
  intro placement parent src s used depth ha hl hg hpl hpar hused hin hfuel
  rw [create]
  apply Ensures.bind; apply Ensures.get
  dsimp only
  rw [Placement.forChildren_eq_ok hpl]
  apply Ensures.bind
  refine Ensures.ofExcept (fun childPl hcp => ?_) fun _ h => by cases h
  cases hcp
  refine Ensures.andThen (((addNode_spec _ s).also (addNode_forest _)).also
    (addNode_descends (E := fun _ _ => True) hl hpar (fun n hn => by simpa [Option.map_map] using hn)
      (by cases (s.forest.node src).model <;> rfl)))
    fun id s₁ h₁ => ?_
  obtain ⟨⟨⟨hid, hst₁, hn₁, hf₁⟩, hfor₁⟩, hd₁, _, hid_lt, hnode₁⟩ := h₁
  have hid_val : id.val = s.nodes.size := by rw [hid]
  have ha₁ : Arena s₁ := Arena.push ha rfl (fun h => by simp [h])
    (by cases (s.forest.node src).model <;> rfl) hpar hn₁ hst₁.forest_nodes hf₁
  have hchildren : (s.forest.node src).children = (f.node src).children := by
    rw [hg.forest_node]
  let Loop : List SourceId → State → Prop := fun rest t => Arena t ∧ Descent s₁ t ∧ Ground f t ∧
    Extends s₁ t (some id) none ∧ ∃ cs, t.node id = { s₁.node id with children := cs } ∧
      cs.map (fun c => (t.node c).source) ++ rest = (f.node src).children ∧
      ∀ c ∈ cs, id.val < c.val ∧ c.val < t.nodes.size ∧ Copied t f c
  apply Ensures.bind
  apply Ensures.tryCatch
  refine Ensures.mono (Q := fun _ sE => ∃ sL, Loop [] sL ∧ Extends sL sE (some id) none ∧
      Arena sE ∧ Inlined sL sE id ∧ Descent sL sE ∧ Ground f sE ∧ Inlays f sE id)
    (E := fun _ _ => False) ?_ (fun _ sE hE => Ensures.pure ?_) fun _ _ h => h.elim
  · refine Ensures.andThen (Ensures.forIn (I := Loop) (fun c rest t hI => ?_) _ s₁
      ⟨ha₁, Descent.refl hd₁.lineage, hg.of_heap hst₁ hfor₁, Extends.refl s₁ _ _, [],
        by rw [hnode₁], hchildren, by simp⟩) fun _ sL hL => ?_
    · obtain ⟨ha', hd', hg', hext', cs, hcs, hsrcs, hcsP⟩ := hI
      have hid' : id.val < t.nodes.size := Nat.lt_of_lt_of_le hid_lt hext'.nodes_le
      have hc_mem : c ∈ (f.node src).children := by rw [← hsrcs]; simp
      have hin' := Source.Forest.InTree.child hf hin hc_mem
      have hbudget := Source.Forest.copyFuel_child used
        (s.forest.node src).model.toList hin'.climbs.le_size
      have hpar_t : (t.node id).parent = parent := by rw [hcs, hnode₁]
      have hname_t : t.modelName id = (s.forest.node src).model := by
        simp [State.modelName, hcs, hnode₁, Option.map_map, Function.comp_def]
      refine Ensures.andThen (create_copies_framed hc
        (used ++ (s.forest.node src).model.toList) ha' hd'.lineage hg'
        (Placement.isFrozen_inherited hpl) (fun _ e => by cases e; exact hid') (fun m hm => ⟨id, rfl, ?_⟩) hin'
        (by omega)) fun x t₁ hx₁ => ?_
      · rcases List.mem_append.1 hm with hm | hm
        · obtain ⟨p, hp, hat⟩ := hused m hm
          cases hp
          exact .inr ((hat.descent (hd₁.trans hd') hl (hpar p rfl)).above_child hpar_t)
        · exact .inl (by rw [hname_t]; exact Option.mem_toList.1 hm)
      obtain ⟨hx, hdx, hsrcx, hgx, hcopyx⟩ := hx₁
      refine Ensures.andThen (((modifyNode_spec id _ t₁).also (modifyNode_forest id _)).also
        (modifyNode_descends hdx.lineage id (fun _ => rfl) fun _ _ hh => hh))
        fun _ t₂ h₂ => Ensures.pure ⟨rfl, ?_⟩
      obtain ⟨⟨⟨hst, hn, hf₂⟩, hfor₂⟩, hd₂⟩ := h₂
      have hnode := State.node_of_modify hn
      have hid₁ : t₁.node id = { s₁.node id with children := cs } := by
        rw [hx.grows.node_kept hid', hcs]
      have hid_lt₁ : id.val < t₁.nodes.size := Nat.lt_of_lt_of_le hid' hx.grows.nodes_le
      have hx_gt : id.val < x.val := by rw [hx.fresh]; exact hid'
      have hother : ∀ y, y ≠ id → t₂.node y = t₁.node y := fun y hy => by
        rw [hnode, if_neg fun h => hy h.1.symm]
      have hext₂ : Extends t₁ t₂ (some id) none :=
        (Extends.refl _ _ _).then_modify hst hn hf₂ fun k hk => .inl hk
      have ha₂ : Arena t₂ := hx.arena.append_child hx.lt hx_gt hx.parent
        (fun c' hc' => by
          rw [hid₁] at hc'
          exact Nat.lt_of_lt_of_le (hcsP c' hc').2.1 (Nat.le_of_eq hx.fresh.symm))
        (by rw [hid₁, hnode₁]; cases (s.forest.node src).model <;> rfl) hst hn hf₂
      refine ⟨ha₂, hd'.trans (hdx.trans hd₂), hgx.of_heap hst hfor₂,
        (hext'.trans hx.grows.widen (fun _ _ h => h) fun _ _ h => h).trans hext₂
          (fun _ _ h => h) (fun _ _ h => h), cs ++ [x], ?_, ?_, fun c' hc' => ?_⟩
      · rw [hnode, if_pos ⟨rfl, hid_lt₁⟩, hid₁]
      · have hsrc_old : ∀ c' ∈ cs, (t₂.node c').source = (t.node c').source := fun c' h =>
          Inlaid.Node.source_eq_of_origin ((hdx.trans hd₂).origin c' (hcsP c' h).2.1)
        have hsrc_new : (t₂.node x).source = c := by
          rw [hother x fun e => Nat.lt_irrefl _ (e ▸ hx_gt), hsrcx]
        rw [List.map_append, List.map_congr_left hsrc_old, List.map_singleton, hsrc_new,
          List.append_assoc]
        exact hsrcs
      · rcases List.mem_append.1 hc' with h | h
        · obtain ⟨hgt, hlt, hcopy⟩ := hcsP c' h
          refine ⟨hgt, Nat.lt_of_lt_of_le hlt (Nat.le_trans hx.grows.nodes_le hext₂.nodes_le), ?_⟩
          exact (hcopy.extend ha' hd'.lineage hlt hdx hx.grows (fun _ e => by cases e)
            fun _ _ e => by cases e).extend_older hx.arena hdx.lineage
              (Nat.lt_of_lt_of_le hlt hx.grows.nodes_le) hd₂ hext₂ hgt fun _ _ e => by cases e
        · rw [List.mem_singleton.1 h]
          exact ⟨hx_gt, Nat.lt_of_lt_of_le hx.lt hext₂.nodes_le,
            hcopyx.extend_older hx.arena hdx.lineage hx.lt hd₂ hext₂ hx_gt fun _ _ e => by cases e⟩
    · obtain ⟨haL, hdL, hgL, hextL, cs, hcs, hsrcs, hcsP⟩ := hL
      have hidL : id.val < sL.nodes.size := Nat.lt_of_lt_of_le hid_lt hextL.nodes_le
      have hinlL : (sL.node id).inlining =
          (s.forest.node src).model.map fun name => ⟨name, none, none⟩ := by rw [hcs, hnode₁]
      have hhL : sL.hiddenOf id = none := by
        simp only [State.hiddenOf, hinlL]; cases (s.forest.node src).model <;> rfl
      split
      · rename_i name hmodel
        refine (expand_copies_framed he used haL hdL.lineage hgL hidL
          (by rw [hinlL, hmodel]; rfl) (fun m hm => ?_) ?_).mono (fun _ sE h => ⟨sL, ⟨haL, hdL, hgL, hextL, cs, hcs, hsrcs,
            hcsP⟩, h⟩) fun _ _ h => h
        · obtain ⟨p, hp, hat⟩ := hused m hm
          exact ⟨p, by rw [hcs, hnode₁]; exact hp, hat.descent (hd₁.trans hdL) hl (hpar p hp)⟩
        · have := Source.Forest.mul_unusedNames_lt_copyFuel (f := f) used depth
          omega
      · rename_i hplain
        have hmodel : (s.forest.node src).model = none :=
          Option.eq_none_iff_forall_ne_some.2 fun n e => hplain n e
        have hname : sL.modelName id = none := by simp [State.modelName, hinlL, hmodel]
        have hfeed : sL.feedOf id = none := by simp [State.feedOf, hinlL, hmodel]
        refine Ensures.pure ⟨sL, ⟨haL, hdL, hgL, hextL, cs, hcs, hsrcs, hcsP⟩, Extends.refl _ _ _,
          haL, Inlined.refl hhL, Descent.refl hdL.lineage, hgL,
          ⟨⟨?_, fun k hk => ?_, fun _ n hn => ?_⟩, fun k hk => ?_, fun r hr => ?_⟩⟩
        · rw [hname, hcs, hnode₁, hgL.forest_node, ← hg.forest_node, hmodel]
        · rw [hfeed] at hk; cases hk
        · rw [hname] at hn; cases hn
        · rw [hfeed] at hk; cases hk
        · rw [hhL] at hr; cases hr
  · obtain ⟨sL, ⟨haL, hdL, hgL, hextL, cs, hcs, hsrcs, hcsP⟩, hextE, haE, hinl, hdE, hgE, hlays⟩ := hE
    have hidL : id.val < sL.nodes.size := Nat.lt_of_lt_of_le hid_lt hextL.nodes_le
    have hchildrenE : (sE.node id).children = cs ++ (sE.hiddenOf id).toList := by
      rw [hinl.children, hcs]
    have hsrcE : (sE.node id).source = src := by
      rw [Inlaid.Node.source_eq_of_origin (hdE.origin id hidL), hcs, hnode₁]
    refine ⟨hgE, fun y hy => ?_⟩
    rcases hy.cases_head with rfl | ⟨c, hc, hcy⟩
    · have hlit : sE.literals y = cs := by
        have h := haE.children_eq y
        rw [hchildrenE] at h
        exact (List.append_cancel_right h).symm
      refine ⟨?_, hlays.inlines, hlays.mount⟩
      unfold LitCopies
      rw [hlit, List.map_congr_left fun c h =>
        Inlaid.Node.source_eq_of_origin (hdE.origin c (hcsP c h).2.1), hsrcE]
      simpa using hsrcs
    · rw [hchildrenE] at hc
      rcases List.mem_append.1 hc with h | h
      · obtain ⟨hgt, hlt, hcopy⟩ := hcsP c h
        exact hcopy.extend_older haL hdL.lineage hlt hdE hextE hgt (fun _ _ e => by cases e) y hcy
      · exact hlays.hidden c (Option.mem_toList.1 h) y hcy

end Succ

/-- With fuel enough, the four builders copy the forest and do not fail. -/
theorem build_copies (hf : f.Linked) (fuel : Nat) :
    CreateCopies f fuel ∧ ExpandCopies f fuel ∧ StartCopies f fuel ∧ FillCopies f fuel := by
  induction fuel with
  | zero => exact ⟨create_copies_zero, expand_copies_zero, start_copies_zero, fill_copies_zero⟩
  | succ fuel ih =>
    obtain ⟨hc, he, hs, hfl⟩ := ih
    exact ⟨create_copies_succ hf hc he, expand_copies_succ hs, start_copies_succ hfl,
      fill_copies_succ hf hc⟩

/-- Copying a node of a tree of the forest with the builders' fuel, below a node of the heap or at
the top, makes an exact copy and does not fail. -/
theorem nodeOf_copies (hf : f.Linked) {placement : Placement} {parent : Option InlaidId}
    {src : SourceId} {depth : Nat} (ha : Arena s) (hl : Lineage s) (hg : Ground f s)
    (hpl : placement.isFrozen = false) (hpar : ∀ p, parent = some p → p.val < s.nodes.size)
    (hin : f.InTree src depth) :
    Ensures (nodeOf placement parent src) s
      (fun x s' => Created s s' x placement parent ∧ Descent s s' ∧ (s'.node x).source = src ∧
        Ground f s' ∧ Copied s' f x) fun _ _ => False := by
  unfold nodeOf
  apply Ensures.bind; apply Ensures.get
  refine create_copies_framed (build_copies hf _).1 [] ha hl hg hpl hpar
    (fun _ h => by cases h) hin ?_
  unfold State.buildFuel
  rw [hg.nodes]
  exact Nat.le_of_lt (Source.Forest.copyFuel_nil_lt depth)

/-- Filling the tracker's root with a copy of the root of a tree of the forest, or emptying it,
given the fuel a copy takes. The feeds there were stay as they were. -/
theorem fill_tracker_copies (hf : f.Linked) {g : SubscriberId} {src : Option SourceId} {fuel : Nat}
    (ha : Arena s) (hl : Lineage s) (hg : Ground f s) (hm : (s.feed g).mount = .tracker)
    (hin : ∀ r, src = some r → f.InTree r 0) (hfuel : f.copyFuel [] 0 + 1 ≤ fuel) :
    Ensures (fill fuel g src) s
      (fun r s' => Ground f s' ∧ s'.tracker.root = r ∧ r.map (fun x => (s'.node x).source) = src ∧
        (∀ x, r = some x → Copied s' f x) ∧ ∀ k, k.val < s.feeds.size → s'.feed k = s.feed k)
      fun _ _ => False := by
  obtain ⟨k, rfl⟩ : ∃ k, fuel = k + 1 := ⟨fuel - 1, by omega⟩
  rw [fill]
  apply Ensures.bind; apply Ensures.get
  dsimp only
  split
  · cases src with
    | none =>
      refine Ensures.bind (Ensures.pure ?_)
      refine Ensures.andThen (modifyTracker_spec _ s) fun _ s₂ hs₂ => Ensures.pure ?_
      subst hs₂
      exact ⟨hg.retrack none, rfl, rfl, (fun _ e => by cases e), fun _ _ => rfl⟩
    | some r =>
      refine Ensures.bind (Ensures.map ((create_copies_framed (build_copies hf k).1 [] ha hl hg rfl
        (fun _ e => by cases e) (fun _ h => by cases h) (hin r rfl) (by omega)).mono
          (fun x s₁ h => ?_) fun _ _ h => h))
      obtain ⟨hx, hd₁, hsrc, hg₁, hcopy⟩ := h
      refine Ensures.andThen ((modifyTracker_spec _ s₁).also (modifyTracker_descends hd₁.lineage _))
        fun _ s₂ h₂ => Ensures.pure ?_
      obtain ⟨hs₂, hd₂⟩ := h₂
      subst hs₂
      refine ⟨hg₁.retrack _, rfl, congrArg some hsrc, fun y e => ?_, fun k hk => hx.grows.feed_kept hk⟩
      cases e
      exact hcopy.keep hx.arena hd₁.lineage hx.lt hd₂ (fun _ => rfl) (fun _ => rfl) (fun _ _ => rfl)
        fun _ _ _ _ => rfl
  · rename_i o he
    rw [hm] at he
    cases he

/-- Filling the tracker's root with a copy of the root of a tree of the forest, or emptying it. -/
theorem fillMount_tracker_copies (hf : f.Linked) {g : SubscriberId} {src : Option SourceId}
    (ha : Arena s) (hl : Lineage s) (hg : Ground f s) (hm : (s.feed g).mount = .tracker)
    (hin : ∀ r, src = some r → f.InTree r 0) :
    Ensures (fillMount g src) s
      (fun r s' => Ground f s' ∧ s'.tracker.root = r ∧ r.map (fun x => (s'.node x).source) = src ∧
        ∀ x, r = some x → Copied s' f x) fun _ _ => False := by
  refine fillMount_of_fill ((fill_tracker_copies hf ha hl hg hm hin ?_).mono
    (fun _ _ h => ⟨h.1, h.2.1, h.2.2.1, h.2.2.2.1⟩) fun _ _ h => h)
  unfold State.buildFuel
  rw [hg.nodes]
  exact Source.Forest.copyFuel_nil_lt 0

end Sync

end Inlay
