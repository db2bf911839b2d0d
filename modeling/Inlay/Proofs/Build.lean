import Inlay.Proofs.Stop

namespace Inlay

/-- A model node with the inlined root `h` added as its last child. -/
def Inlaid.Node.attach (m : Inlaid.Node) (h : InlaidId) : Inlaid.Node :=
  { m with children := m.children ++ [h],
           inlining := m.inlining.map fun i => { i with hidden := some h } }

@[simp] theorem Inlaid.Node.children_attach (m : Inlaid.Node) (h : InlaidId) :
    (m.attach h).children = m.children ++ [h] := rfl

@[simp] theorem Inlaid.Node.placement_attach (m : Inlaid.Node) (h : InlaidId) :
    (m.attach h).placement = m.placement := rfl

@[simp] theorem Inlaid.Node.parent_attach (m : Inlaid.Node) (h : InlaidId) :
    (m.attach h).parent = m.parent := rfl

@[simp] theorem Inlaid.Node.source_attach (m : Inlaid.Node) (h : InlaidId) :
    (m.attach h).source = m.source := rfl

theorem Inlaid.Node.feed_attach (m : Inlaid.Node) (h : InlaidId) :
    (m.attach h).inlining.bind (·.feed) = m.inlining.bind (·.feed) := by
  cases hm : m.inlining <;> simp [Inlaid.Node.attach, hm]

theorem Inlaid.Node.hidden_attach (m : Inlaid.Node) (h : InlaidId) :
    (m.attach h).inlining.bind (·.hidden) = m.inlining.map fun _ => h := by
  cases hm : m.inlining <;> simp [Inlaid.Node.attach, hm]

/-- A model node with the feed `g`. -/
def Inlaid.Node.withFeed (m : Inlaid.Node) (g : SubscriberId) : Inlaid.Node :=
  { m with inlining := m.inlining.map fun i => { i with feed := some g } }

@[simp] theorem Inlaid.Node.children_withFeed (m : Inlaid.Node) (g : SubscriberId) :
    (m.withFeed g).children = m.children := rfl

@[simp] theorem Inlaid.Node.placement_withFeed (m : Inlaid.Node) (g : SubscriberId) :
    (m.withFeed g).placement = m.placement := rfl

@[simp] theorem Inlaid.Node.parent_withFeed (m : Inlaid.Node) (g : SubscriberId) :
    (m.withFeed g).parent = m.parent := rfl

@[simp] theorem Inlaid.Node.source_withFeed (m : Inlaid.Node) (g : SubscriberId) :
    (m.withFeed g).source = m.source := rfl

theorem Inlaid.Node.hidden_withFeed (m : Inlaid.Node) (g : SubscriberId) :
    (m.withFeed g).inlining.bind (·.hidden) = m.inlining.bind (·.hidden) := by
  cases hm : m.inlining <;> simp [Inlaid.Node.withFeed, hm]

theorem Inlaid.Node.feed_withFeed (m : Inlaid.Node) (g : SubscriberId) :
    (m.withFeed g).inlining.bind (·.feed) = m.inlining.map fun _ => g := by
  cases hm : m.inlining <;> simp [Inlaid.Node.withFeed, hm]

/-- A model node without its inlined root: the slot is emptied, and the root is dropped from the
children when it is the last one. -/
def Inlaid.Node.detach (m : Inlaid.Node) : Inlaid.Node :=
  match m.inlining with
  | some i =>
    match i.hidden with
    | some h =>
      { m with
        inlining := some { i with hidden := none }
        children := if m.children.getLast? = some h then m.children.dropLast else m.children }
    | none => m
  | none => m

theorem Inlaid.Node.detach_of_hidden_none {m : Inlaid.Node} (h : m.inlining.bind (·.hidden) = none) :
    m.detach = m := by
  unfold Inlaid.Node.detach
  split
  · rename_i i hi
    rw [hi] at h
    simp only [Option.bind_some] at h
    rw [h]
  · rfl

namespace Sync

/-- `s'` adds nodes and feeds to `s` and keeps every node and feed of `s`, except the node `o` and
the feed `f`; a node holds in `s'` the feed it held in `s`, or a new one. -/
structure Extends (s s' : State) (o : Option InlaidId) (f : Option SubscriberId) : Prop where
  steady : Steady s s'
  nodes_le : s.nodes.size ≤ s'.nodes.size
  feeds_le : s.feeds.size ≤ s'.feeds.size
  node : ∀ y, y.val < s.nodes.size → o ≠ some y → s'.node y = s.node y
  feed : ∀ g, g.val < s.feeds.size → f ≠ some g → s'.feed g = s.feed g
  held : ∀ y g, s'.feedOf y = some g → s.feedOf y = some g ∨ s.feeds.size ≤ g.val

/-- Every node below `x` is sound. -/
def Built (s : State) (x : InlaidId) : Prop := ∀ y, Below s x y → Sound s y

/-- Every feed from the `F`th on that still runs and fills the slot of a model node is that node's
feed. -/
def FeedsOwned (s : State) (F : Nat) : Prop :=
  ∀ g o, F ≤ g.val → (s.feed g).active = true → (s.feed g).mount = .owner o →
    s.feedOf o = some g

/-- Every feed opened since `s` runs, holds a subscription, and is the feed of a node below `x`. -/
def Opened (s s' : State) (x : InlaidId) : Prop :=
  ∀ g, s.feeds.size ≤ g.val → g.val < s'.feeds.size →
    (s'.feed g).active = true ∧ (s'.feed g).subscription.isSome ∧
      ∃ m, Below s' x m ∧ s'.feedOf m = some g

/-- Every feed opened since `s` is stopped. -/
def Shut (s s' : State) : Prop := ∀ g, s.feeds.size ≤ g.val → (s'.feed g).active = false

/-- Every feed opened since `s` that still runs is the feed of a node below `x`. -/
def Held (s s' : State) (x : InlaidId) : Prop :=
  ∀ g, s.feeds.size ≤ g.val → (s'.feed g).active = true →
    ∃ m, Below s' x m ∧ s'.feedOf m = some g

/-- What a failed build leaves: the session as it was, new nodes and feeds aside, an arena, and
every new feed stopped. -/
structure Kept (s s' : State) : Prop where
  grows : Extends s s' none none
  arena : Arena s'
  owned : FeedsOwned s' s.feeds.size
  shut : Shut s s'

/-- What a successful `create` leaves: the session as it was, new nodes and feeds aside, and a new
node `x` with the given placement and parent, all of whose subtree is sound. -/
structure Created (s s' : State) (x : InlaidId) (placement : Placement) (parent : Option InlaidId) :
    Prop where
  grows : Extends s s' none none
  arena : Arena s'
  fresh : x.val = s.nodes.size
  lt : x.val < s'.nodes.size
  placed : (s'.node x).placement = placement
  parent : (s'.node x).parent = parent
  built : Built s' x
  owned : FeedsOwned s' s.feeds.size
  opened : Opened s s' x

/-- The model node `o` of `s` got the new inlined root `h` in `s'`, built and placed in its slot. -/
structure Attached (s s' : State) (o h : InlaidId) : Prop where
  node : s'.node o = (s.node o).attach h
  fresh : s.nodes.size ≤ h.val
  placed : (s'.node h).placement = .modelRoot o
  built : Built s' h

/-- What inlining left of the model node `id`: its place, its literal children followed by its
inlined root if there is one, and next to that root the feed that fills it. -/
structure Inlined (s s' : State) (id : InlaidId) : Prop where
  placement : (s'.node id).placement = (s.node id).placement
  parent : (s'.node id).parent = (s.node id).parent
  children : (s'.node id).children = (s.node id).children ++ (s'.hiddenOf id).toList
  hidden : ∀ h, s'.hiddenOf id = some h → (s'.feedOf id).isSome ∧ s.nodes.size ≤ h.val ∧
    (s'.node h).placement = .modelRoot id ∧ Built s' h

/-- `create fuel` builds a sound subtree, or fails leaving nothing reached. -/
def CreateSpec (fuel : Nat) : Prop :=
  ∀ (placement : Placement) (parent : Option InlaidId) (src : SourceId) (s : State),
    Arena s → placement.isFrozen = false → (∀ p, parent = some p → p.val < s.nodes.size) →
    Ensures (create fuel placement parent src) s (fun x s' => Created s s' x placement parent)
      fun _ s' => Kept s s'

/-- `expand fuel` inlines a model into a model node with neither inlined root nor feed. -/
def ExpandSpec (fuel : Nat) : Prop :=
  ∀ (id : InlaidId) (name : String) (s : State), Arena s → id.val < s.nodes.size →
    (s.node id).inlining.isSome → s.hiddenOf id = none → s.feedOf id = none →
    Ensures (expand fuel id name) s
      (fun _ s' => Extends s s' (some id) none ∧ Arena s' ∧ FeedsOwned s' s.feeds.size ∧
        Inlined s s' id ∧ Opened s s' id)
      fun _ s' => Kept s s'

/-- `start fuel` subscribes a feed that fills the empty slot of a model node. -/
def StartSpec (fuel : Nat) : Prop :=
  ∀ (f : SubscriberId) (o : InlaidId) (s : State), Arena s → f.val < s.feeds.size →
    (s.feed f).mount = .owner o → o.val < s.nodes.size → s.hiddenOf o = none →
    Ensures (start fuel f) s
      (fun _ s' => Extends s s' (some o) (some f) ∧ Arena s' ∧ FeedsOwned s' s.feeds.size ∧
        (s'.feed f).active = (s.feed f).active ∧ (s'.feed f).mount = (s.feed f).mount ∧
        (s'.node o = s.node o ∨ ∃ h, Attached s s' o h) ∧ Opened s s' o ∧
        (s'.feed f).subscription.isSome)
      fun _ s' => Extends s s' none (some f) ∧ Arena s' ∧ FeedsOwned s' s.feeds.size ∧ Shut s s'

/-- `fill fuel` fills the empty slot of a model node, or leaves it empty and opens no feed. -/
def FillSpec (fuel : Nat) : Prop :=
  ∀ (f : SubscriberId) (src : Option SourceId) (o : InlaidId) (s : State), Arena s →
    (s.feed f).mount = .owner o → o.val < s.nodes.size → s.hiddenOf o = none →
    Ensures (fill fuel f src) s
      (fun r s' => Extends s s' (some o) none ∧ Arena s' ∧ FeedsOwned s' s.feeds.size ∧
        Opened s s' o ∧ match r with
        | none => s'.node o = s.node o ∧ s'.feeds.size = s.feeds.size
        | some h => Attached s s' o h)
      fun _ s' => Kept s s'

section Frame

variable {s s₁ s₂ s₃ : State} {o o' : Option InlaidId} {f f' : Option SubscriberId}

theorem Extends.refl (s : State) (o : Option InlaidId) (f : Option SubscriberId) :
    Extends s s o f :=
  ⟨Steady.refl s, Nat.le_refl _, Nat.le_refl _, fun _ _ _ => rfl, fun _ _ _ => rfl,
    fun _ _ h => .inl h⟩

/-- An extension that singles out no node keeps every old node. -/
theorem Extends.node_kept (h : Extends s s' none f) {y : InlaidId} (hy : y.val < s.nodes.size) :
    s'.node y = s.node y :=
  h.node y hy (Option.some_ne_none y).symm

/-- An extension that singles out no feed keeps every old feed. -/
theorem Extends.feed_kept (h : Extends s s' o none) {g : SubscriberId} (hg : g.val < s.feeds.size) :
    s'.feed g = s.feed g :=
  h.feed g hg (Option.some_ne_none g).symm

/-- Two extensions in a row: what the second may change of the first's old part, the first may. -/
theorem Extends.trans (h₁ : Extends s₁ s₂ o f) (h₂ : Extends s₂ s₃ o' f')
    (ho : ∀ y, y.val < s₁.nodes.size → o' = some y → o = some y)
    (hf : ∀ g, g.val < s₁.feeds.size → f' = some g → f = some g) : Extends s₁ s₃ o f := by
  refine ⟨h₁.steady.trans h₂.steady, Nat.le_trans h₁.nodes_le h₂.nodes_le,
    Nat.le_trans h₁.feeds_le h₂.feeds_le, fun y hy hne => ?_, fun g hg hne => ?_,
    fun y g hy => ?_⟩
  · rw [h₂.node y (Nat.lt_of_lt_of_le hy h₁.nodes_le) fun e => hne (ho y hy e)]
    exact h₁.node y hy hne
  · rw [h₂.feed g (Nat.lt_of_lt_of_le hg h₁.feeds_le) fun e => hne (hf g hg e)]
    exact h₁.feed g hg hne
  · rcases h₂.held y g hy with h | h
    · exact h₁.held y g h
    · exact .inr (Nat.le_trans h₁.feeds_le h)

/-- An extension that changes no old node changes no more than one that may change `o`. -/
theorem Extends.widen (h : Extends s s' none f) : Extends s s' o f :=
  ⟨h.steady, h.nodes_le, h.feeds_le, fun _ hy _ => h.node_kept hy, h.feed, h.held⟩

/-- A node below `x` exists when `x` does. -/
theorem Below.lt_size (ha : Arena s) {x y : InlaidId} (hx : x.val < s.nodes.size)
    (h : Below s x y) : y.val < s.nodes.size := by
  induction h with
  | refl => exact hx
  | child _ hc _ => exact (ha.child_bound _ _ hc).2

/-- A built subtree stays built while its nodes stay as they are. -/
theorem Built.congr {x : InlaidId} (h : Built s x) (hsame : ∀ y, Below s x y → s'.node y = s.node y) :
    Built s' x := by
  intro y hy
  have hiff : ∀ z, Below s' x z ↔ Below s x z := fun z =>
    below_iff_of_children_eq fun w hw => by rw [hsame w hw]
  have hy' := (hiff y).1 hy
  exact (h y hy').congr (hsame y hy') fun c hc => by rw [hsame c (.child hy' hc)]

/-- A built subtree of `s` stays built in a state that keeps every old node but `o`, when `o` is
not below it. -/
theorem Built.extend {x : InlaidId} (h : Built s x) (ha : Arena s) (hx : x.val < s.nodes.size)
    (hsame : ∀ y, y.val < s.nodes.size → o ≠ some y → s'.node y = s.node y)
    (ho : ∀ y, o = some y → ¬ Below s x y) : Built s' x :=
  h.congr fun y hy => hsame y (hy.lt_size ha hx) fun e => ho y e hy

/-- A built subtree stays built when only a node older than it changes. -/
theorem Built.extend_older {x id : InlaidId} (h : Built s x) (ha : Arena s)
    (hx : x.val < s.nodes.size)
    (hsame : ∀ y, y.val < s.nodes.size → some id ≠ some y → s'.node y = s.node y)
    (hid : id.val < x.val) : Built s' x :=
  h.extend ha hx hsame fun y e hb => by
    cases e
    exact absurd (hb.le ha) (Nat.not_le.2 hid)

/-- No feed runs past the end of the feeds. -/
theorem FeedsOwned.of_size (s : State) : FeedsOwned s s.feeds.size := by
  intro g o hg hact _
  rw [State.feed_of_size_le hg] at hact
  cases hact

theorem FeedsOwned.congr {F : Nat} (h : FeedsOwned s F) (hf : ∀ g, s'.feed g = s.feed g)
    (ho : ∀ y, s'.feedOf y = s.feedOf y) : FeedsOwned s' F := by
  intro g o hg hact hm
  rw [hf] at hact hm
  rw [ho]
  exact h g o hg hact hm

/-- Feeds owned before an extension stay owned when the extension keeps the feed of every model
node it changes, and the feeds it adds are owned. -/
theorem FeedsOwned.extend {F : Nat} (h : FeedsOwned s F) (h' : FeedsOwned s' s.feeds.size)
    (he : Extends s s' o none) (ha : Arena s)
    (ho : ∀ y, o = some y → s'.feedOf y = s.feedOf y ∨ s.feedOf y = none) : FeedsOwned s' F := by
  intro g y hg hact hm
  by_cases hold : g.val < s.feeds.size
  · have hfeed := he.feed_kept hold
    rw [hfeed] at hact hm
    have hy := h g y hg hact hm
    by_cases hoy : o = some y
    · rcases ho y hoy with e | e
      · rw [e]; exact hy
      · rw [e] at hy; cases hy
    · simp only [State.feedOf] at hy ⊢
      rw [he.node y (ha.mount_bound g y hm) hoy]
      exact hy
  · exact h' g y (Nat.le_of_not_lt hold) hact hm

/-- Feeds owned before stopping the feeds of a subtree stay owned: a node that loses its feed
loses a feed that stops. -/
theorem FeedsOwned.stops {F : Nat} {id : InlaidId} (h : FeedsOwned s F) (hs : StopsBelow s s' id) :
    FeedsOwned s' F := by
  intro g o hg hact hm
  rcases hs.feed g with e | ⟨_, _, _, e⟩
  · rw [e] at hm
    have hown := h g o hg (by rw [← e]; exact hact) hm
    rcases hs.feedOf o with e' | e'
    · rw [e']; exact hown
    · rw [hs.dropped o g hown e'] at hact; cases hact
  · rw [e] at hact; cases hact

/-- Reaching more: the children lists met on the way from `top` only grow. -/
theorem Below.of_children_sub {top y : InlaidId}
    (hsub : ∀ z, Below s top z → ∀ c ∈ (s.node z).children, c ∈ (s'.node z).children)
    (h : Below s top y) : Below s' top y := by
  induction h with
  | refl => exact .refl
  | child hb hc ih => exact .child ih (hsub _ hb _ hc)

/-- A node that an extension leaves alone keeps its feed. -/
theorem Extends.feedOf_of_ne {y : InlaidId} {g : SubscriberId} (he : Extends s s' o f)
    (hy : o ≠ some y) (h : s.feedOf y = some g) : s'.feedOf y = some g := by
  by_cases hlt : y.val < s.nodes.size
  · simpa [State.feedOf, he.node y hlt hy] using h
  · rw [State.feedOf_of_size_le (Nat.le_of_not_lt hlt)] at h
    cases h

/-- Below an old node, an extension whose one changed node only gains children reaches all it
reached. -/
theorem Extends.below {x y : InlaidId} (he : Extends s s' o f) (ha : Arena s)
    (hx : x.val < s.nodes.size)
    (ho : ∀ z, o = some z → ∀ c ∈ (s.node z).children, c ∈ (s'.node z).children)
    (h : Below s x y) : Below s' x y :=
  h.of_children_sub fun z hz c hc => by
    by_cases e : o = some z
    · exact ho z e c hc
    · rwa [he.node z (hz.lt_size ha hx) e]

/-- A stretch that opens no feed opens only running ones. -/
theorem Opened.of_size_le {x : InlaidId} (h : s'.feeds.size ≤ s.feeds.size) : Opened s s' x :=
  fun _ hg hg' => absurd (Nat.lt_of_lt_of_le hg' h) (Nat.not_lt.2 hg)

/-- A stretch that opens no feed leaves none running. -/
theorem Shut.of_size_le (h : s'.feeds.size ≤ s.feeds.size) : Shut s s' := fun g hg => by
  rw [State.feed_of_size_le (Nat.le_trans h hg)]
  rfl

/-- Feeds opened in two stretches, the second below a node of the first: every feed held below
`x` at the end of the first stays held there, and the feeds of the first are left alone. -/
theorem Opened.grow {x y : InlaidId} (h₁ : Opened s s₁ x) (h₂ : Opened s₁ s₂ y)
    (hy : Below s₂ x y) (hfeed : ∀ g, g.val < s₁.feeds.size → s₂.feed g = s₁.feed g)
    (hheld : ∀ m g, s₁.feedOf m = some g → s₂.feedOf m = some g)
    (hbelow : ∀ m, Below s₁ x m → Below s₂ x m) : Opened s s₂ x := by
  intro g hg hg₂
  by_cases hold : g.val < s₁.feeds.size
  · obtain ⟨hact, hsub, m, hm, hmg⟩ := h₁ g hg hold
    rw [hfeed g hold]
    exact ⟨hact, hsub, m, hbelow m hm, hheld m g hmg⟩
  · obtain ⟨hact, hsub, m, hm, hmg⟩ := h₂ g (Nat.le_of_not_lt hold) hg₂
    exact ⟨hact, hsub, m, hy.trans hm, hmg⟩

/-- Feeds opened below a node that is then listed among the children of `o`, every other child
list only growing and every feed and every node's feed left alone, are opened below `o`. -/
theorem Opened.under {x o : InlaidId} (h : Opened s s₁ x) (hf : s₂.feeds = s₁.feeds)
    (hfeedOf : ∀ y, s₂.feedOf y = s₁.feedOf y)
    (hsub : ∀ z, ∀ c ∈ (s₁.node z).children, c ∈ (s₂.node z).children)
    (hx : x ∈ (s₂.node o).children) : Opened s s₂ o := by
  intro g hg hg₂
  have hfeed : s₂.feed g = s₁.feed g := by simp [State.feed, hf]
  rw [hf] at hg₂
  obtain ⟨hact, hs, m, hm, hmg⟩ := h g hg hg₂
  rw [hfeed]
  exact ⟨hact, hs, m, (Below.single hx).trans (hm.of_children_sub fun z _ => hsub z),
    by rw [hfeedOf]; exact hmg⟩

/-- Feeds stopped in two stretches stay stopped when the second restarts none of the first. -/
theorem Shut.trans (h₁ : Shut s s₁) (h₂ : Shut s₁ s₂)
    (hfeed : ∀ g, g.val < s₁.feeds.size → (s₂.feed g).active = true → (s₁.feed g).active = true) :
    Shut s s₂ := by
  intro g hg
  by_cases hold : g.val < s₁.feeds.size
  · cases h : (s₂.feed g).active
    · rfl
    · have := hfeed g hold h
      rw [h₁ g hg] at this
      cases this
  · exact h₂ g (Nat.le_of_not_lt hold)

theorem Kept.refl (ha : Arena s) : Kept s s :=
  ⟨Extends.refl s _ _, ha, FeedsOwned.of_size s, Shut.of_size_le (Nat.le_refl _)⟩

/-- The running feeds of a stretch that ends in a failed build: those it opened are still held
below `x`, those the build opened are stopped. -/
theorem Opened.held_kept {x : InlaidId} (h : Opened s s₁ x) (hk : Kept s₁ s₂) (ha : Arena s₁)
    (hx : x.val < s₁.nodes.size) : Held s s₂ x := by
  intro g hg hact
  by_cases hold : g.val < s₁.feeds.size
  · rw [hk.grows.feed_kept hold] at hact
    obtain ⟨-, -, m, hm, hmg⟩ := h g hg hold
    exact ⟨m, hk.grows.below ha hx (by intros; contradiction) hm,
      hk.grows.feedOf_of_ne (Option.some_ne_none m).symm hmg⟩
  · rw [hk.shut g (Nat.le_of_not_lt hold)] at hact
    cases hact

theorem Kept.trans (h₁ : Kept s₁ s₂) (h₂ : Kept s₂ s₃) : Kept s₁ s₃ :=
  ⟨h₁.grows.trans h₂.grows (fun _ _ h => h) fun _ _ h => h, h₂.arena,
    h₁.owned.extend h₂.owned h₂.grows h₁.arena (by intros; contradiction),
    h₁.shut.trans h₂.shut fun g hg h => by rw [← h₂.grows.feed_kept hg]; exact h⟩

end Frame

section Primitives

variable {α : Type} {E : Fault → State → Prop}

theorem addNode_spec (m : Inlaid.Node) (s : State) :
    Ensures (addNode m) s (fun x s' => x = ⟨s.nodes.size⟩ ∧ Steady s s' ∧
      s'.nodes = s.nodes.push m ∧ s'.feeds = s.feeds) E :=
  Ensures.modifyGet ⟨rfl, ⟨rfl, rfl, rfl, rfl, rfl, rfl⟩, rfl, rfl⟩

theorem modifyNode_spec (id : InlaidId) (g : Inlaid.Node → Inlaid.Node) (s : State) :
    Ensures (modifyNode id g) s (fun _ s' => Steady s s' ∧ s'.nodes = s.nodes.modify id.val g ∧
      s'.feeds = s.feeds) E :=
  Ensures.modify ⟨⟨rfl, rfl, rfl, rfl, rfl, rfl⟩, rfl, rfl⟩

theorem addFeed_spec (fd : Feed) (s : State) :
    Ensures (addFeed fd) s (fun k s' => k = ⟨s.feeds.size⟩ ∧ Steady s s' ∧ s'.nodes = s.nodes ∧
      s'.feeds = s.feeds.push fd) E :=
  Ensures.modifyGet ⟨rfl, ⟨rfl, rfl, rfl, rfl, rfl, rfl⟩, rfl, rfl⟩

theorem modifyFeed_spec (f : SubscriberId) (g : Feed → Feed) (s : State) :
    Ensures (modifyFeed f g) s (fun _ s' => Steady s s' ∧ s'.nodes = s.nodes ∧
      s'.feeds = s.feeds.modify f.val g) E :=
  Ensures.modify ⟨⟨rfl, rfl, rfl, rfl, rfl, rfl⟩, rfl, rfl⟩

theorem modifyTree_spec (t : TreeId) (g : Source.Tree → Source.Tree) (s : State) :
    Ensures (modifyForest fun forest => forest.modifyTree t g) s
      (fun _ s' => Steady s s' ∧ s'.nodes = s.nodes ∧ s'.feeds = s.feeds) E :=
  Ensures.modify ⟨⟨rfl, rfl, rfl, rfl, rfl, rfl⟩, rfl, rfl⟩

/-- Subscribing stores the feed among its tree's subscribers and the handle in the feed, and
answers the tree's root. -/
theorem subscribe_spec (f : SubscriberId) (s : State) :
    Ensures (subscribe f) s (fun r s' => r = (s.forest.tree (s.feed f).tree).root ∧
      s' = { s with
        forest := s.forest.modifyTree (s.feed f).tree fun t =>
          { t with subscribers := ((s.forest.tree (s.feed f).tree).subscribers.insert f).2 },
        feeds := s.feeds.modify f.val fun x =>
          { x with subscription := some ((s.forest.tree (s.feed f).tree).subscribers.insert f).1 } })
      E :=
  ⟨rfl, rfl⟩

theorem detachHidden_spec (id : InlaidId) (s : State) :
    Ensures (detachHidden id) s (fun _ s' => Steady s s' ∧
      s'.nodes = s.nodes.modify id.val Inlaid.Node.detach ∧ s'.feeds = s.feeds) E :=
  modifyNode_spec id _ s

theorem stopFeeds_spec (id : InlaidId) (s : State) :
    Ensures (stopFeeds id) s (fun _ s' => StopsBelow s s' id) E := by
  unfold stopFeeds
  apply Ensures.bind; apply Ensures.get
  exact (stopFeedsWithin_spec _ s id).mono (fun _ _ h => h.1) fun _ _ h => h.elim

/-- Stopping the feeds of a subtree of an arena stops every feed a node of the subtree holds. -/
theorem stopFeeds_halts {id : InlaidId} {s : State} (ha : Arena s) :
    Ensures (stopFeeds id) s (fun _ s' => StopsBelow s s' id ∧
      ∀ y g, Below s id y → s.feedOf y = some g → (s'.feed g).active = false) E := by
  unfold stopFeeds
  apply Ensures.bind; apply Ensures.get
  refine (stopFeedsWithin_spec _ s id).mono (fun _ _ h => ⟨h.1, h.2 ha fun y hy => ?_⟩)
    fun _ _ h => h.elim
  rcases hy.cases_head with rfl | ⟨c, hc, hcy⟩
  · omega
  · have := hcy.lt_size ha (ha.child_bound id c hc).2
    omega

end Primitives

section FrameOfPrimitives

variable {s s₁ s₂ : State}

theorem Extends.of_push {m : Inlaid.Node} (hs : Steady s s') (hn : s'.nodes = s.nodes.push m)
    (hf : s'.feeds = s.feeds) (hm : m.inlining.bind (·.feed) = none) : Extends s s' none none := by
  have hnode := State.node_of_push hn
  refine ⟨hs, by simp [hn], by simp [hf], fun y hy _ => ?_, fun g _ _ => by simp [State.feed, hf],
    fun y g hy => .inl ?_⟩
  · rw [hnode, if_neg (Nat.ne_of_lt hy)]
  · simp only [State.feedOf, hnode] at hy ⊢
    split at hy
    · rw [hm] at hy; cases hy
    · exact hy

/-- An extension followed by a change of the node it may change, which keeps that node's feed or
gives it a feed new to the first state. -/
theorem Extends.then_modify {id : InlaidId} {g : Inlaid.Node → Inlaid.Node} {f : Option SubscriberId}
    (he : Extends s s₁ (some id) f) (hs : Steady s₁ s₂) (hn : s₂.nodes = s₁.nodes.modify id.val g)
    (hf : s₂.feeds = s₁.feeds)
    (hheld : ∀ k, (g (s₁.node id)).inlining.bind (·.feed) = some k →
      s.feedOf id = some k ∨ s.feeds.size ≤ k.val) : Extends s s₂ (some id) f := by
  have hnode := State.node_of_modify hn
  have hfeed : ∀ k, s₂.feed k = s₁.feed k := fun k => by simp [State.feed, hf]
  refine ⟨he.steady.trans hs, by simpa [hn] using he.nodes_le, by simpa [hf] using he.feeds_le,
    fun y hy hne => ?_, fun k hk hne => by rw [hfeed]; exact he.feed k hk hne, fun y k hk => ?_⟩
  · rw [hnode, if_neg fun h => hne (congrArg some h.1)]
    exact he.node y hy hne
  · simp only [State.feedOf, hnode] at hk
    split at hk
    · rename_i h
      obtain ⟨rfl, _⟩ := h
      exact hheld k hk
    · exact he.held y k hk

theorem Extends.of_nodes_eq {f : Option SubscriberId} (hs : Steady s s')
    (hnode : ∀ y, s'.node y = s.node y) (hsize : s'.nodes.size = s.nodes.size)
    (hle : s.feeds.size ≤ s'.feeds.size)
    (hf : ∀ g, g.val < s.feeds.size → f ≠ some g → s'.feed g = s.feed g) : Extends s s' none f :=
  ⟨hs, Nat.le_of_eq hsize.symm, hle, fun y _ _ => hnode y, hf, fun y g hy => .inl (by
    simpa [State.feedOf, hnode] using hy)⟩

/-- Stopping the feeds below a new node changes nothing old. -/
theorem Extends.stops {id : InlaidId} (he : Extends s s₁ none none) (ha : Arena s₁)
    (hs : StopsBelow s₁ s₂ id) (hid : s.nodes.size ≤ id.val) : Extends s s₂ none none := by
  refine ⟨he.steady.trans hs.steady, hs.nodes_size ▸ he.nodes_le, hs.feeds_size ▸ he.feeds_le,
    fun y hy _ => ?_, fun g hg _ => ?_, fun y g hy => ?_⟩
  · rcases hs.node y with e | ⟨hb, _⟩
    · rw [e]; exact he.node_kept hy
    · have := hb.le ha
      omega
  · rcases hs.feed g with e | ⟨y, hb, hy, _⟩
    · rw [e]; exact he.feed_kept hg
    · have hy' : s.nodes.size ≤ y.val := Nat.le_trans hid (hb.le ha)
      rcases he.held y g hy with h | h
      · rw [State.feedOf_of_size_le hy'] at h; cases h
      · omega
  · rcases hs.feedOf y with e | e
    · rw [e] at hy; exact he.held y g hy
    · rw [e] at hy; cases hy

theorem Inlined.refl {id : InlaidId} (hh : s.hiddenOf id = none) : Inlined s s id :=
  ⟨rfl, rfl, by simp [hh], fun _ e => by rw [hh] at e; cases e⟩

/-- A sound node without children is a built subtree. -/
theorem Built.leaf {x : InlaidId} (hx : (s.node x).children = []) (hs : Sound s x) : Built s x := by
  intro y hy
  rcases hy.cases_head with rfl | ⟨c, hc, _⟩
  · exact hs
  · rw [hx] at hc; cases hc

/-- Subscribing a feed keeps every node, the arena, and the feed's mount and activity, and leaves
the feed holding a subscription. -/
theorem subscribe_extends {E : Fault → State → Prop} (ha : Arena s) {f : SubscriberId}
    (hfs : f.val < s.feeds.size) :
    Ensures (subscribe f) s (fun r s' => r = (s.forest.tree (s.feed f).tree).root ∧
      Extends s s' none (some f) ∧ Arena s' ∧ s'.nodes = s.nodes ∧
      s'.feeds.size = s.feeds.size ∧ (s'.feed f).active = (s.feed f).active ∧
      (s'.feed f).mount = (s.feed f).mount ∧ (s'.feed f).subscription.isSome) E := by
  refine (subscribe_spec f s).mono (fun r s' ⟨hr, hs'⟩ => ?_) fun _ _ h => h
  have hst : Steady s s' := by subst hs'; exact ⟨rfl, rfl, rfl, rfl, rfl, rfl⟩
  have hn : s'.nodes = s.nodes := by rw [hs']
  have hf := congrArg State.feeds hs'
  dsimp only at hf
  have hnode : ∀ y, s'.node y = s.node y := fun y => by simp [State.node, hn]
  have hsize : s'.nodes.size = s.nodes.size := by rw [hn]
  have hfeed := State.feed_of_modify hf
  have hfeed_f : (s'.feed f).active = (s.feed f).active ∧ (s'.feed f).mount = (s.feed f).mount := by
    rw [hfeed]
    split <;> exact ⟨rfl, rfl⟩
  have hext : Extends s s' none (some f) :=
    Extends.of_nodes_eq hst hnode hsize (by simp [hf]) fun g _ hg => by
      rw [hfeed, if_neg fun h => hg (congrArg some h.1)]
  refine ⟨hr, hext, ha.of_eq hnode hsize hst.forest_nodes fun g o' h => ?_, hn, by simp [hf],
    hfeed_f.1, hfeed_f.2, by rw [hfeed, if_pos ⟨rfl, hfs⟩]; rfl⟩
  rw [hfeed] at h
  split at h
  · exact ha.mount_bound g o' h
  · exact ha.mount_bound g o' h

end FrameOfPrimitives

section Zero

theorem create_zero : CreateSpec 0 := by
  intro placement parent src s ha hpl hpar
  rw [create]
  refine (addNode_spec _ s).mono (fun x s' ⟨hx, hst, hn, hf⟩ => ?_) fun _ _ h => h
  have hnode : s'.node x = ⟨src, parent, [], placement, none⟩ := by
    rw [State.node_of_push hn, hx, if_pos rfl]
  refine ⟨Extends.of_push hst hn hf rfl, Arena.push ha rfl (fun _ => rfl) rfl hpar hn hst.forest_nodes hf,
    by rw [hx], by simp [hn, hx], by rw [hnode], by rw [hnode], Built.leaf (by rw [hnode]) ?_, ?_,
    Opened.of_size_le (Nat.le_of_eq (by rw [hf]))⟩
  · refine ⟨by rw [hnode]; exact hpl, fun c hc => ?_, fun h e => ?_⟩
    · rw [hnode] at hc
      cases hc
    · simp [State.hiddenOf, hnode] at e
  · have := FeedsOwned.of_size s'
    rwa [hf] at this

theorem expand_zero : ExpandSpec 0 := by
  intro id name s ha _ _ hh _
  rw [expand]
  exact Ensures.pure ⟨Extends.refl s _ _, ha, FeedsOwned.of_size s, Inlined.refl hh,
    Opened.of_size_le (Nat.le_refl _)⟩

theorem start_zero : StartSpec 0 := by
  intro f o s ha hfs _ _ _
  rw [start]
  refine Ensures.discard ((subscribe_extends ha hfs).mono
    (fun _ s' ⟨_, hext, ha', hn, hsize_f, hact, hmount, hsub⟩ => ?_) fun _ _ h => h)
  exact ⟨hext.widen, ha', hsize_f ▸ FeedsOwned.of_size s', hact, hmount,
    .inl (by simp [State.node, hn]), Opened.of_size_le (Nat.le_of_eq hsize_f), hsub⟩

theorem fill_zero : FillSpec 0 := by
  intro f src o s ha _ _ _
  rw [fill]
  exact Ensures.pure ⟨Extends.refl s _ _, ha, FeedsOwned.of_size s, Opened.of_size_le (Nat.le_refl _),
    rfl, rfl⟩

end Zero

section Succ

variable {fuel : Nat}

theorem fill_succ (hc : CreateSpec fuel) : FillSpec (fuel + 1) := by
  intro f src o s ha hmount ho hh
  rw [fill]
  apply Ensures.bind; apply Ensures.get
  dsimp only
  split
  · rename_i he; rw [hmount] at he; cases he
  rename_i o' he
  rw [hmount] at he
  cases he
  cases src with
  | none =>
    refine Ensures.andThen (detachHidden_spec o s) fun _ s' h' => Ensures.pure ?_
    obtain ⟨hst, hn, hf⟩ := h'
    have hsame : ∀ y, s'.node y = s.node y := fun y => by
      rw [State.node_of_modify hn]
      split
      · rename_i h; obtain ⟨rfl, _⟩ := h; exact Inlaid.Node.detach_of_hidden_none hh
      · rfl
    have hfeed : ∀ g, s'.feed g = s.feed g := fun g => by simp [State.feed, hf]
    have hsize : s'.nodes.size = s.nodes.size := by simp [hn]
    refine ⟨(Extends.of_nodes_eq hst hsame hsize (by simp [hf]) fun g _ _ => hfeed g).widen,
      ha.of_eq hsame hsize hst.forest_nodes fun g o h => ?_, ?_,
      Opened.of_size_le (Nat.le_of_eq (by rw [hf])), hsame o, by rw [hf]⟩
    · rw [hfeed] at h; exact ha.mount_bound g o h
    · have := (FeedsOwned.of_size s).congr hfeed fun y => by simp [State.feedOf, hsame]
      exact this
  | some src =>
    apply Ensures.bind
    refine Ensures.ofExcept (fun _ _ => ?_) fun _ _ => Kept.refl ha
    refine Ensures.andThen (hc _ _ src s ha rfl fun _ e => by cases e; exact ho) fun x s₁ hx => ?_
    refine Ensures.andThen (modifyNode_spec o _ s₁) fun _ s₂ h₂ => Ensures.pure ?_
    obtain ⟨hst, hn, hf⟩ := h₂
    have ho₁ : s₁.node o = s.node o := hx.grows.node_kept ho
    have hox : o.val < x.val := by rw [hx.fresh]; exact ho
    have hnode := State.node_of_modify hn
    have hnode_o : s₂.node o = (s.node o).attach x := by
      rw [hnode, if_pos ⟨rfl, Nat.lt_of_lt_of_le ho hx.grows.nodes_le⟩, ho₁]
      rfl
    have hother : ∀ y, y ≠ o → s₂.node y = s₁.node y := fun y hy => by
      rw [hnode, if_neg fun h => hy h.1.symm]
    have hfeedOf : ∀ y, s₂.feedOf y = s₁.feedOf y := fun y => by
      by_cases hy : y = o
      · subst hy
        simp only [State.feedOf, hnode_o, Inlaid.Node.feed_attach, ho₁]
      · simp only [State.feedOf, hother y hy]
    have hfeed : ∀ g, s₂.feed g = s₁.feed g := fun g => by simp [State.feed, hf]
    have hext : Extends s₁ s₂ (some o) none := (Extends.refl s₁ _ _).then_modify hst hn hf
      fun k hk => .inl ((Inlaid.Node.feed_attach (s₁.node o) x).symm.trans hk)
    refine ⟨hx.grows.widen.trans hext (fun _ _ h => h) fun _ _ h => h, ?_, ?_, ?_, hnode_o, ?_,
      by rw [hother x (Nat.ne_of_gt hox ∘ congrArg InlaidId.val)]; exact hx.placed, ?_⟩
    · refine hx.arena.modify rfl rfl (fun h => by simp [h]) (fun c hc => ?_)
        ?_ (fun k hk => ?_) hn hst.forest_nodes hf
      · simp only [List.mem_append, List.mem_singleton] at hc
        rcases hc with hc | rfl
        · exact .inl hc
        · exact .inr ⟨hox, hx.lt, hx.parent⟩
      · rw [ho₁]
        refine List.nodup_append.2 ⟨ha.nodup o, by simp, fun c hc d hd => ?_⟩
        rw [List.mem_singleton] at hd
        subst hd
        have := (ha.child_bound o c hc).2
        exact fun e => by rw [e, hx.fresh] at this; exact Nat.lt_irrefl _ this
      · have hk' : ((s₁.node o).attach x).inlining.bind (·.hidden) = some k := hk
        rw [Inlaid.Node.hidden_attach] at hk'
        obtain ⟨_, _, rfl⟩ := Option.map_eq_some_iff.1 hk'
        show ((s₁.node o).attach x).children.getLast? = _
        simp
    · exact hx.owned.congr hfeed hfeedOf
    · refine hx.opened.under hf hfeedOf (fun z c hc => ?_) (by rw [hnode_o]; simp)
      by_cases hz : z = o
      · subst hz
        rw [hnode_o, ← ho₁]
        exact List.mem_append_left _ hc
      · rwa [hother z hz]
    · exact Nat.le_of_eq hx.fresh.symm
    · exact hx.built.extend hx.arena hx.lt hext.node fun y hy hb => by
        cases hy
        exact Nat.lt_irrefl _ (Nat.lt_of_lt_of_le hox (hb.le hx.arena))

theorem start_succ (hfill : FillSpec fuel) : StartSpec (fuel + 1) := by
  intro f o s ha hfs hmount ho hh
  rw [start]
  refine Ensures.andThen (subscribe_extends ha hfs) fun root s₂ h₂ => ?_
  obtain ⟨_, hext, ha₂, hn, hsize_f, hact, hmount₂, hsub⟩ := h₂
  have hnode : ∀ y, s₂.node y = s.node y := fun y => by simp [State.node, hn]
  have hsize : s₂.nodes.size = s.nodes.size := by rw [hn]
  apply Ensures.bind; apply Ensures.get
  split
  · apply Ensures.discard
    have hh₂ : s₂.hiddenOf o = none := by simp only [State.hiddenOf, hnode]; exact hh
    refine (hfill f root o s₂ ha₂ (by rw [hmount₂]; exact hmount) (by rw [hsize]; exact ho)
      hh₂).mono (fun r s₃ h₃ => ?_) fun _ s₃ h =>
        ⟨hext.trans h.grows (fun _ _ h => h) (fun _ _ h => absurd h (Option.some_ne_none _).symm), h.arena,
          hsize_f ▸ h.owned, fun g hg => h.shut g (by rw [hsize_f]; exact hg)⟩
    obtain ⟨hext₃, ha₃, hown₃, hop₃, hr⟩ := h₃
    have hf₃ : s₃.feed f = s₂.feed f :=
      hext₃.feed f (by rw [hsize_f]; exact hfs) (Option.some_ne_none f).symm
    refine ⟨hext.widen.trans hext₃ (fun _ _ h => h) (fun _ _ h => absurd h (Option.some_ne_none _).symm), ha₃,
      hsize_f ▸ hown₃, by rw [hf₃]; exact hact, by rw [hf₃]; exact hmount₂, ?_,
      fun g hg => hop₃ g (by rw [hsize_f]; exact hg), by rw [hf₃]; exact hsub⟩
    cases r with
    | none => exact .inl (hr.1.trans (hnode o))
    | some h =>
      exact .inr ⟨h, by rw [hr.node, hnode], hsize ▸ hr.fresh, hr.placed, hr.built⟩
  · exact Ensures.pure ⟨hext.widen, ha₂, hsize_f ▸ FeedsOwned.of_size s₂, hact, hmount₂,
      .inl (hnode o), Opened.of_size_le (Nat.le_of_eq hsize_f), hsub⟩

/-- Inlining a resolved model into a model node: a new feed for it, started, or stopped again on a
fault. -/
theorem inline_spec (hstart : StartSpec fuel) {id : InlaidId} {s : State} (tree : TreeId)
    (announces : Bool) (ha : Arena s) (hid : id.val < s.nodes.size)
    (hin : (s.node id).inlining.isSome) (hh : s.hiddenOf id = none) (hfeed : s.feedOf id = none) :
    Ensures (do
        let f ← addFeed { mount := .owner id, tree, announcesModel := announces, active := true,
                          subscription := none }
        try start fuel f catch e => do stopFeed f; throw e
        modifyInlining id fun i => { i with feed := some f } : Run Unit) s
      (fun _ s' => Extends s s' (some id) none ∧ Arena s' ∧ FeedsOwned s' s.feeds.size ∧
        Inlined s s' id ∧ Opened s s' id)
      fun _ s' => Kept s s' := by
  refine Ensures.andThen (addFeed_spec _ s) fun g s₁ h₁ => ?_
  obtain ⟨hg, hst₁, hn₁, hf₁⟩ := h₁
  have hnode₁ : ∀ y, s₁.node y = s.node y := fun y => by simp [State.node, hn₁]
  have hsize₁ : s₁.nodes.size = s.nodes.size := by rw [hn₁]
  have hfeed₁ := State.feed_of_push hf₁
  have hg_new : ∀ k : SubscriberId, k.val < s.feeds.size → k ≠ g := fun k hk e => by
    rw [e, hg] at hk; exact Nat.lt_irrefl _ hk
  have hlater : ∀ k : SubscriberId, s.feeds.size ≤ k.val → k.val ≠ g.val →
      s₁.feeds.size ≤ k.val := fun k hk hkg => by
    rw [hf₁, Array.size_push]
    rw [hg] at hkg
    exact Nat.lt_of_le_of_ne hk fun e => hkg e.symm
  have hext₁ : Extends s s₁ none none :=
    Extends.of_nodes_eq hst₁ hnode₁ hsize₁ (by simp [hf₁]) fun k hk _ => by
      rw [hfeed₁, if_neg (Nat.ne_of_lt hk)]
  have ha₁ : Arena s₁ := ha.of_eq hnode₁ hsize₁ hst₁.forest_nodes fun k o h => by
    rw [hfeed₁] at h
    split at h
    · cases h; exact hid
    · exact ha.mount_bound k o h
  have hg_feed : s₁.feed g = ⟨.owner id, tree, announces, true, none⟩ := by
    rw [hfeed₁, if_pos (by rw [hg])]
  apply Ensures.bind
  apply Ensures.tryCatch
  refine (hstart g id s₁ ha₁ (by simp [hf₁, hg]) (by rw [hg_feed]) (by rw [hsize₁]; exact hid)
    (by simp only [State.hiddenOf, hnode₁]; exact hh)).mono (fun _ s₂ h₂ => ?_) fun _ s₂ h₂ => ?_
  · obtain ⟨hext₂, ha₂, hown₂, hact₂, hmount₂, hid₂, hop₂, hsub₂⟩ := h₂
    have hmod : (modifyInlining id fun i => { i with feed := some g } : Run Unit) =
        modifyNode id (·.withFeed g) := rfl
    rw [hmod]
    refine (modifyNode_spec id _ s₂).mono (fun _ s₃ h₃ => ?_) fun _ _ h => h
    obtain ⟨hst₃, hn₃, hf₃⟩ := h₃
    have hnode₃ := State.node_of_modify hn₃
    have hid_lt : id.val < s₂.nodes.size := Nat.lt_of_lt_of_le hid (hsize₁ ▸ hext₂.nodes_le)
    have hid₃ : s₃.node id = (s₂.node id).withFeed g := by rw [hnode₃, if_pos ⟨rfl, hid_lt⟩]
    have hother : ∀ y, y ≠ id → s₃.node y = s₂.node y := fun y hy => by
      rw [hnode₃, if_neg fun h => hy h.1.symm]
    have hfeed₃ : ∀ k, s₃.feed k = s₂.feed k := fun k => by simp [State.feed, hf₃]
    have hid₂_feed : s₂.feedOf id = none ∧ (s₂.node id).inlining.isSome := by
      rcases hid₂ with e | ⟨h, hat⟩
      · simp only [State.feedOf, e, hnode₁]; exact ⟨hfeed, hin⟩
      · simp only [State.feedOf, hat.node, hnode₁, Inlaid.Node.feed_attach]
        exact ⟨hfeed, by simpa [Inlaid.Node.attach] using hin⟩
    have hid₃_feed : s₃.feedOf id = some g := by
      simp only [State.feedOf, hid₃, Inlaid.Node.feed_withFeed]
      obtain ⟨i, hi⟩ := Option.isSome_iff_exists.1 hid₂_feed.2
      rw [hi]; rfl
    have hext₃ : Extends s s₃ (some id) none := by
      refine (hext₁.widen.trans hext₂ (fun _ _ h => h) fun k hk e => ?_).then_modify hst₃ hn₃ hf₃
        fun k hk => .inr ?_
      · cases e; exact absurd rfl (hg_new _ hk)
      · rw [Inlaid.Node.feed_withFeed] at hk
        obtain ⟨_, _, hk⟩ := Option.map_eq_some_iff.1 hk
        exact Nat.le_of_eq (by rw [← hk, hg])
    refine ⟨hext₃, ?_, fun k o hk hact hm => ?_, ?_, fun k hk hk₃ => ?_⟩
    · refine ha₂.modify rfl rfl (fun h => by simp [Inlaid.Node.withFeed, h]) (fun c hc => .inl hc)
        (ha₂.nodup id) (fun k hk => ha₂.hidden_last id k ?_) hn₃ hst₃.forest_nodes hf₃
      have hk' : ((s₂.node id).withFeed g).inlining.bind (·.hidden) = some k := hk
      rwa [Inlaid.Node.hidden_withFeed] at hk'
    · rw [hfeed₃] at hact hm
      by_cases hkg : k = g
      · subst hkg
        rw [hmount₂, hg_feed] at hm
        cases hm
        exact hid₃_feed
      · have hown := hown₂ k o (hlater k hk fun e => hkg (SubscriberId.ext e)) hact hm
        have hne : o ≠ id := fun e => by rw [e, hid₂_feed.1] at hown; cases hown
        simp only [State.feedOf, hother o hne]
        exact hown
    · rcases hid₂ with e | ⟨h, hat⟩
      · have hnode_id : s₃.node id = (s.node id).withFeed g := by rw [hid₃, e, hnode₁]
        have hh₃ : s₃.hiddenOf id = none := by
          simp only [State.hiddenOf, hnode_id, Inlaid.Node.hidden_withFeed]; exact hh
        exact ⟨by rw [hnode_id]; rfl, by rw [hnode_id]; rfl, by simp [hnode_id, hh₃],
          fun _ e' => by rw [hh₃] at e'; cases e'⟩
      · have hnode_id : s₃.node id = ((s.node id).attach h).withFeed g := by
          rw [hid₃, hat.node, hnode₁]
        obtain ⟨i, hi⟩ := Option.isSome_iff_exists.1 hin
        have hh₃ : s₃.hiddenOf id = some h := by
          simp only [State.hiddenOf, hnode_id, Inlaid.Node.hidden_withFeed,
            Inlaid.Node.hidden_attach, hi, Option.map_some]
        have hidh : id.val < h.val := Nat.lt_of_lt_of_le hid (hsize₁ ▸ hat.fresh)
        have hh_lt : h.val < s₂.nodes.size :=
          (ha₂.child_bound id h (by rw [hat.node]; simp)).2
        refine ⟨by rw [hnode_id]; rfl, by rw [hnode_id]; rfl, by simp [hnode_id, hh₃],
          fun h' e' => ?_⟩
        rw [hh₃] at e'
        cases e'
        refine ⟨by simp [State.feedOf, hnode_id, Inlaid.Node.feed_withFeed, Inlaid.Node.attach, hi],
          hsize₁ ▸ hat.fresh,
          by rw [hother h (Nat.ne_of_gt hidh ∘ congrArg InlaidId.val)]; exact hat.placed, ?_⟩
        exact hat.built.extend ha₂ hh_lt (fun y _ hy => hother y fun e => hy (congrArg some e.symm))
          fun y e hb => by
            cases e
            exact Nat.lt_irrefl _ (Nat.lt_of_lt_of_le hidh (hb.le ha₂))
    · rw [hfeed₃]
      rw [hf₃] at hk₃
      by_cases hkg : k = g
      · subst hkg
        exact ⟨by rw [hact₂, hg_feed], hsub₂, id, .refl, hid₃_feed⟩
      · obtain ⟨hact, hsub, m, hm, hmk⟩ := hop₂ k (hlater k hk fun e => hkg (SubscriberId.ext e)) hk₃
        have hne : m ≠ id := fun e => by rw [e, hid₂_feed.1] at hmk; cases hmk
        refine ⟨hact, hsub, m, hm.of_children_sub fun z _ c hc => ?_, ?_⟩
        · by_cases hz : z = id
          · subst hz
            rwa [hid₃, Inlaid.Node.children_withFeed]
          · rwa [hother z hz]
        · simp only [State.feedOf, hother m hne]
          exact hmk
  · obtain ⟨hext₂, ha₂, hown₂, hshut₂⟩ := h₂
    refine Ensures.andThen (stopFeed_spec g s₂) fun _ s₃ h₃ => Ensures.throw ?_
    obtain ⟨hst₃, hn₃, hf₃⟩ := h₃
    have hnode₃ : ∀ y, s₃.node y = s₂.node y := fun y => by simp [State.node, hn₃]
    have hfeed₃ := State.feed_of_modify hf₃
    have hext₃ : Extends s₂ s₃ none (some g) :=
      Extends.of_nodes_eq hst₃ hnode₃ (by rw [hn₃]) (by simp [hf₃]) fun k _ hk => by
        rw [hfeed₃, if_neg fun h => hk (congrArg some h.1)]
    have hkeep : ∀ k : SubscriberId, ¬(g = k ∧ k.val < s₂.feeds.size) → s.feeds.size ≤ k.val →
        s₁.feeds.size ≤ k.val := fun k hkg hk => by
      have hg₂ : g.val < s₂.feeds.size :=
        Nat.lt_of_lt_of_le (by rw [hf₁, hg]; simp) hext₂.feeds_le
      exact hlater k hk fun e => hkg ⟨SubscriberId.ext e.symm, e ▸ hg₂⟩
    refine ⟨(hext₁.trans hext₂ (fun _ _ h => h) fun k hk e => ?_).trans hext₃ (fun _ _ h => h)
      fun k hk e => ?_, ha₂.of_eq hnode₃ (by rw [hn₃]) hst₃.forest_nodes fun k o h => ?_,
      fun k o hk hact hm => ?_, fun k hk => ?_⟩
    · cases e; exact absurd rfl (hg_new _ hk)
    · cases e; exact absurd rfl (hg_new _ hk)
    · rw [hfeed₃] at h
      split at h
      · exact ha₂.mount_bound k o h
      · exact ha₂.mount_bound k o h
    · rw [hfeed₃] at hact hm
      split at hact
      · cases hact
      · rename_i hkg
        rw [if_neg hkg] at hm
        simpa [State.feedOf, hnode₃] using hown₂ k o (hkeep k hkg hk) hact hm
    · rw [hfeed₃]
      split
      · rfl
      · rename_i hkg
        exact hshut₂ k (hkeep k hkg hk)

theorem expand_succ (hstart : StartSpec fuel) : ExpandSpec (fuel + 1) := by
  intro id name s ha hid hin hh hfeed
  rw [expand]
  apply Ensures.bind; apply Ensures.get
  dsimp only
  have hstay : Extends s s (some id) none ∧ Arena s ∧ FeedsOwned s s.feeds.size ∧
      Inlined s s id ∧ Opened s s id :=
    ⟨Extends.refl s _ _, ha, FeedsOwned.of_size s, Inlined.refl hh, Opened.of_size_le (Nat.le_refl _)⟩
  split <;> split
  case h_1.isTrue | h_2.isTrue => exact Ensures.pure hstay
  case h_1.isFalse | h_2.isFalse =>
    cases s.resolve name with
    | none => exact Ensures.pure hstay
    | some r => exact inline_spec hstart r.1 r.2 ha hid hin hh hfeed

theorem create_succ (hc : CreateSpec fuel) (he : ExpandSpec fuel) : CreateSpec (fuel + 1) := by
  intro placement parent src s ha hpl hpar
  rw [create]
  apply Ensures.bind; apply Ensures.get
  dsimp only
  rw [Placement.forChildren_eq_ok hpl]
  apply Ensures.bind
  refine Ensures.ofExcept (fun childPl hcp => ?_) fun _ h => by cases h
  cases hcp
  refine Ensures.andThen (addNode_spec _ s) fun id s₁ hs₁ => ?_
  obtain ⟨hid, hst₁, hn₁, hf₁⟩ := hs₁
  have hid_val : id.val = s.nodes.size := by rw [hid]
  have hext₁ : Extends s s₁ none none :=
    Extends.of_push hst₁ hn₁ hf₁ (by cases (s.forest.node src).model <;> rfl)
  have ha₁ : Arena s₁ := Arena.push ha rfl (fun h => by simp [h])
    (by cases (s.forest.node src).model <;> rfl) hpar hn₁ hst₁.forest_nodes hf₁
  have hid_lt : id.val < s₁.nodes.size := by simp [hn₁, hid_val]
  have hfrom : ∀ {s'}, Extends s₁ s' (some id) none → Extends s s' none none := fun h =>
    hext₁.trans h (fun y hy e => by cases e; omega) fun _ _ h => h
  let Loop : State → Prop := fun s' => Extends s₁ s' (some id) none ∧ Arena s' ∧
    FeedsOwned s' s.feeds.size ∧ Opened s₁ s' id ∧
    ∃ cs, s'.node id = { s₁.node id with children := cs } ∧
      ∀ c ∈ cs, id.val < c.val ∧ (s'.node c).placement = placement.inherited ∧ Built s' c
  apply Ensures.bind
  apply Ensures.tryCatch
  refine Ensures.mono (Q := fun _ sE => ∃ sL, Loop sL ∧ Extends sL sE (some id) none ∧ Arena sE ∧
      FeedsOwned sE sL.feeds.size ∧ Inlined sL sE id ∧ Opened sL sE id)
    (E := fun _ se => Extends s₁ se (some id) none ∧ Arena se ∧ FeedsOwned se s.feeds.size ∧
      Held s₁ se id) ?_
    (fun _ sE hE => Ensures.pure ?_) fun _ se hse => ?_
  · refine Ensures.andThen (Ensures.forIn (I := fun _ t => Loop t) (fun c rest t hI => ?_) _ s₁
      ⟨Extends.refl s₁ _ _, ha₁, by have := FeedsOwned.of_size s₁; rwa [hf₁] at this,
        Opened.of_size_le (Nat.le_refl _), [], by rw [State.node_of_push hn₁, if_pos hid_val],
        (by intros; contradiction)⟩) fun _ sL hL => ?_
    · obtain ⟨hext', ha', hown', hop', cs, hcs, hcsP⟩ := hI
      have hlt' : ∀ c' ∈ cs, c'.val < t.nodes.size := fun c' h =>
        (ha'.child_bound id c' (by rw [hcs]; exact h)).2
      have hid' : id.val < t.nodes.size := Nat.lt_of_lt_of_le hid_lt hext'.nodes_le
      refine Ensures.andThen ((hc _ (some id) c t ha' (Placement.isFrozen_inherited hpl)
        fun _ e => by cases e; exact hid').mono
        (fun _ _ h => h) fun _ se h => ⟨hext'.trans h.grows (by intros; contradiction)
          fun _ _ h => h, h.arena, hown'.extend h.owned h.grows ha' (by intros; contradiction),
          hop'.held_kept h ha' hid'⟩) fun x t₁ hx => ?_
      refine Ensures.andThen (modifyNode_spec id _ t₁) fun _ t₂ ht₂ => Ensures.pure ⟨rfl, ?_⟩
      obtain ⟨hst, hn, hf⟩ := ht₂
      have hnode := State.node_of_modify hn
      have hid₁ : t₁.node id = { s₁.node id with children := cs } := by
        rw [hx.grows.node_kept hid', hcs]
      have hid_lt₁ : id.val < t₁.nodes.size := Nat.lt_of_lt_of_le hid' hx.grows.nodes_le
      have hx_gt : id.val < x.val := by rw [hx.fresh]; exact hid'
      have hother : ∀ y, y ≠ id → t₂.node y = t₁.node y := fun y hy => by
        rw [hnode, if_neg fun h => hy h.1.symm]
      have hext₂ : Extends t₁ t₂ (some id) none :=
        (Extends.refl _ _ _).then_modify hst hn hf fun k hk => .inl hk
      have hfeedOf₂ : ∀ y, t₂.feedOf y = t₁.feedOf y := fun y => by
        by_cases hyid : y = id
        · subst hyid
          simp only [State.feedOf]
          rw [hnode, if_pos ⟨rfl, hid_lt₁⟩]
        · simp only [State.feedOf, hother y hyid]
      have hsub₂ : ∀ z, ∀ c ∈ (t₁.node z).children, c ∈ (t₂.node z).children := fun z c hc => by
        by_cases hz : z = id
        · subst hz
          rw [hnode, if_pos ⟨rfl, hid_lt₁⟩]
          exact List.mem_append_left _ hc
        · rwa [hother z hz]
      refine ⟨(hext'.trans hx.grows.widen (fun _ _ h => h) fun _ _ h => h).trans hext₂
        (fun _ _ h => h) (fun _ _ h => h), ?_, ?_, ?_, cs ++ [x], ?_, fun c' hc' => ?_⟩
      · refine hx.arena.modify rfl rfl (fun h => h) (fun c' hc' => ?_) ?_ (fun k hk => ?_) hn
          hst.forest_nodes hf
        · rcases List.mem_append.1 hc' with h | h
          · exact .inl h
          · rw [List.mem_singleton.1 h]
            exact .inr ⟨hx_gt, hx.lt, hx.parent⟩
        · refine List.nodup_append.2 ⟨hx.arena.nodup id, by simp, fun a ha b hb => ?_⟩
          rw [List.mem_singleton.1 hb]
          rw [hid₁] at ha
          intro e
          have h₁ := hlt' a ha
          have h₂ := hx.fresh
          rw [e] at h₁
          omega
        · have hk' : (t₁.node id).inlining.bind (·.hidden) = some k := hk
          rw [hid₁, State.node_of_push hn₁, if_pos hid_val] at hk'
          cases hm : (s.forest.node src).model <;> simp [hm] at hk'
      · exact (hown'.extend hx.owned hx.grows ha' (by intros; contradiction)).congr
          (fun k => by simp [State.feed, hf]) hfeedOf₂
      · have hx_in : x ∈ (t₂.node id).children := by
          rw [hnode, if_pos ⟨rfl, hid_lt₁⟩]
          simp
        refine hop'.grow (hx.opened.under hf hfeedOf₂ hsub₂ hx_in) .refl (fun g hg => ?_)
          (fun m g hmg => ?_) fun m hm => ?_
        · rw [show t₂.feed g = t₁.feed g by simp [State.feed, hf]]
          exact hx.grows.feed_kept hg
        · rw [hfeedOf₂]
          exact hx.grows.feedOf_of_ne (Option.some_ne_none _).symm hmg
        · exact (hx.grows.below ha' hid' (by intros; contradiction) hm).of_children_sub fun z _ => hsub₂ z
      · rw [hnode, if_pos ⟨rfl, hid_lt₁⟩, hid₁]
      · rcases List.mem_append.1 hc' with h | h
        · obtain ⟨hgt, hpl', hbuilt⟩ := hcsP c' h
          have hne : c' ≠ id := fun e => Nat.lt_irrefl _ (e ▸ hgt)
          refine ⟨hgt, by rw [hother c' hne, hx.grows.node_kept (hlt' c' h)]; exact hpl', ?_⟩
          exact (hbuilt.extend (o := none) ha' (hlt' c' h) (fun y hy _ => hx.grows.node_kept hy)
            (by intros; contradiction)).extend_older hx.arena (Nat.lt_of_lt_of_le (hlt' c' h)
              hx.grows.nodes_le) hext₂.node hgt
        · rw [List.mem_singleton.1 h]
          have hne : x ≠ id := fun e => Nat.lt_irrefl _ (e ▸ hx_gt)
          exact ⟨hx_gt, by rw [hother x hne]; exact hx.placed,
            hx.built.extend_older hx.arena hx.lt hext₂.node hx_gt⟩
    · have hs₁id : s₁.node id = ⟨src, parent, [], placement,
          (s.forest.node src).model.map fun name => ⟨name, none, none⟩⟩ := by
        rw [State.node_of_push hn₁, if_pos hid_val]
      have hextL := hL.1
      have haL := hL.2.1
      obtain ⟨cs, hcs, -⟩ := hL.2.2.2.2
      have hinL : (sL.node id).inlining =
          (s.forest.node src).model.map fun name => ⟨name, none, none⟩ := by rw [hcs, hs₁id]
      have hhL : sL.hiddenOf id = none := by
        simp only [State.hiddenOf, hinL]; cases (s.forest.node src).model <;> rfl
      have hfL : sL.feedOf id = none := by
        simp only [State.feedOf, hinL]; cases (s.forest.node src).model <;> rfl
      have hidL : id.val < sL.nodes.size := Nat.lt_of_lt_of_le hid_lt hextL.nodes_le
      split
      · rename_i name hmodel
        refine (he id name sL haL hidL (by rw [hinL, hmodel]; rfl) hhL hfL).mono
          (fun _ sE h => ⟨sL, hL, h⟩) fun _ se h =>
            ⟨hextL.trans h.grows (by intros; contradiction) fun _ _ h => h, h.arena,
              hL.2.2.1.extend h.owned h.grows haL (by intros; contradiction), hL.2.2.2.1.held_kept h haL hidL⟩
      · exact Ensures.pure ⟨sL, hL, Extends.refl _ _ _, haL, FeedsOwned.of_size sL, Inlined.refl hhL,
          Opened.of_size_le (Nat.le_refl _)⟩
  · obtain ⟨sL, ⟨hextL, haL, hownL, hopL, cs, hcs, hcsP⟩, hextE, haE, hownE, hinl, hopE⟩ := hE
    have hs₁id : s₁.node id = ⟨src, parent, [], placement,
        (s.forest.node src).model.map fun name => ⟨name, none, none⟩⟩ := by
      rw [State.node_of_push hn₁, if_pos hid_val]
    have hidL : id.val < sL.nodes.size := Nat.lt_of_lt_of_le hid_lt hextL.nodes_le
    have hfL : sL.feedOf id = none := by
      simp only [State.feedOf, hcs, hs₁id]; cases (s.forest.node src).model <;> rfl
    have hplace : (sE.node id).placement = placement := by rw [hinl.placement, hcs, hs₁id]
    have hchildren : (sE.node id).children = cs ++ (sE.hiddenOf id).toList := by
      rw [hinl.children, hcs]
    have hcs_lt : ∀ c ∈ cs, c.val < sL.nodes.size := fun c h =>
      (haL.child_bound id c (by rw [hcs]; exact h)).2
    have hsound : Sound sE id := by
      refine ⟨by rw [hplace]; exact hpl, fun c hc => ?_, fun h e => ⟨(hinl.hidden h e).1, ?_⟩⟩
      · rw [hchildren] at hc
        rcases List.mem_append.1 hc with h | h
        · obtain ⟨hgt, hpl', _⟩ := hcsP c h
          have hne : some id ≠ some c := fun e => Nat.lt_irrefl _ (Option.some.inj e ▸ hgt)
          have hnot : sE.hiddenOf id ≠ some c := fun e =>
            Nat.lt_irrefl _ (Nat.lt_of_lt_of_le (hcs_lt c h) (hinl.hidden c e).2.1)
          rw [hextE.node c (hcs_lt c h) hne, hpl', State.childPlacement, if_neg hnot, hplace]
        · have e : sE.hiddenOf id = some c := Option.mem_toList.1 h
          rw [(hinl.hidden c e).2.2.1, State.childPlacement, if_pos e]
      · rw [hchildren, e]
        simp
    have hopened : Opened s₁ sE id := by
      refine hopL.grow hopE .refl (fun g hg => hextE.feed_kept hg) (fun m g hmg => ?_)
        fun m hm => hextE.below haL hidL (fun z e c hc => ?_) hm
      · by_cases hm : m = id
        · rw [hm, hfL] at hmg
          cases hmg
        · exact hextE.feedOf_of_ne (fun e => hm (Option.some.inj e).symm) hmg
      · cases e
        rw [hinl.children]
        exact List.mem_append_left _ hc
    refine ⟨hfrom (hextL.trans hextE (fun _ _ h => h) fun _ _ h => h), haE, hid_val,
      Nat.lt_of_lt_of_le hidL hextE.nodes_le, hplace, by rw [hinl.parent, hcs, hs₁id],
      fun y hy => ?_, hownL.extend hownE hextE haL (fun _ e => by cases e; exact .inr hfL),
      fun g hg => hopened g (by rw [hf₁]; exact hg)⟩
    rcases hy.cases_head with rfl | ⟨c, hc, hcy⟩
    · exact hsound
    · rw [hchildren] at hc
      rcases List.mem_append.1 hc with h | h
      · obtain ⟨hgt, _, hb⟩ := hcsP c h
        exact hb.extend_older haL (hcs_lt c h) hextE.node hgt y hcy
      · exact (hinl.hidden c (Option.mem_toList.1 h)).2.2.2 y hcy
  · obtain ⟨hext_e, ha_e, hown_e, hheld_e⟩ := hse
    refine Ensures.andThen (stopFeeds_halts ha_e) fun _ sf hf' => Ensures.throw ?_
    obtain ⟨hsf, hoff⟩ := hf'
    refine ⟨(hfrom hext_e).stops ha_e hsf (Nat.le_of_eq hid_val.symm), hsf.arena ha_e,
      hown_e.stops hsf, fun g hg => ?_⟩
    cases hact : (se.feed g).active
    · exact hsf.stopped hact
    · obtain ⟨m, hm, hmg⟩ := hheld_e g (by rw [hf₁]; exact hg) hact
      exact hoff m g hm hmg

end Succ

/-- The four builders meet their specifications at every fuel. -/
theorem build_spec (fuel : Nat) :
    CreateSpec fuel ∧ ExpandSpec fuel ∧ StartSpec fuel ∧ FillSpec fuel := by
  induction fuel with
  | zero => exact ⟨create_zero, expand_zero, start_zero, fill_zero⟩
  | succ fuel ih =>
    obtain ⟨hc, he, hs, hf⟩ := ih
    exact ⟨create_succ hc he, expand_succ hs, start_succ hf, fill_succ hc⟩

/-- Copying a source subtree builds a sound inlaid subtree, or fails leaving nothing reached. -/
theorem nodeOf_spec {placement : Placement} (parent : Option InlaidId) (src : SourceId) {s : State}
    (ha : Arena s) (hpl : placement.isFrozen = false)
    (hpar : ∀ p, parent = some p → p.val < s.nodes.size) :
    Ensures (nodeOf placement parent src) s (fun x s' => Created s s' x placement parent)
      fun _ s' => Kept s s' := by
  unfold nodeOf
  apply Ensures.bind; apply Ensures.get
  exact (build_spec _).1 placement parent src s ha hpl hpar

end Sync

end Inlay
