import Inlay.Proofs.Exec

namespace Inlay

attribute [ext] InlaidId SubscriberId

namespace Placement

/-- The model node a placement refers to: the owner of an inlined root or of a node below it. -/
def owner : Placement → Option InlaidId
  | .modelRoot o | .modelChild o => some o
  | _ => none

/-- The placement a node hands to its literal children. -/
def inherited : Placement → Placement
  | .modelRoot o | .modelChild o => .modelChild o
  | p => p

theorem forChildren_eq_ok {p : Placement} (h : p.isFrozen = false) :
    p.forChildren = .ok p.inherited := by
  cases p <;> simp_all [forChildren, inherited, isFrozen]

theorem isFrozen_inherited {p : Placement} (h : p.isFrozen = false) :
    p.inherited.isFrozen = false := by
  cases p <;> simp_all [inherited, isFrozen]

theorem forChildren_of_frozen {p : Placement} (h : p.isFrozen = true) :
    p.forChildren = .error .detachedNode := by
  cases p <;> simp_all [forChildren, isFrozen]

@[simp] theorem owner_inherited (p : Placement) : p.inherited.owner = p.owner := by
  cases p <;> rfl

end Placement

namespace Sync

namespace State

/-- The inlined root of a model node, while its model is inlined. -/
def hiddenOf (s : State) (x : InlaidId) : Option InlaidId := (s.node x).inlining.bind (·.hidden)

/-- The feed that keeps the inlined root of a model node in step with the model's tree. -/
def feedOf (s : State) (x : InlaidId) : Option SubscriberId := (s.node x).inlining.bind (·.feed)

/-- The placement a child takes under its parent: the owner's slot for the inlined root, and the
placement the parent hands down for every other child. -/
def childPlacement (s : State) (p c : InlaidId) : Placement :=
  if s.hiddenOf p = some c then .modelRoot p else (s.node p).placement.inherited

end State

/-- The nodes reached from `top` through children lists, `top` included. -/
inductive Below (s : State) (top : InlaidId) : InlaidId → Prop
  | refl : Below s top top
  | child {p c : InlaidId} : Below s top p → c ∈ (s.node p).children → Below s top c

/-- What holds of every node and feed of the heap, whether the tracker still reaches it or not. -/
structure Arena (s : State) : Prop where
  child_bound : ∀ x c, c ∈ (s.node x).children → x.val < c.val ∧ c.val < s.nodes.size
  child_parent : ∀ x c, c ∈ (s.node x).children → (s.node c).parent = some x
  nodup : ∀ x, (s.node x).children.Nodup
  plain : ∀ x, (s.forest.node (s.node x).source).model = none → (s.node x).inlining = none
  mount_bound : ∀ f o, (s.feed f).mount = .owner o → o.val < s.nodes.size
  hidden_last : ∀ x h, s.hiddenOf x = some h → (s.node x).children.getLast? = some h
  parent_bound : ∀ x p, (s.node x).parent = some p → p.val < s.nodes.size

/-- A node of the live tree is placed as its parent says, is not frozen, and keeps its inlined root
as its last child, next to the feed that fills it. -/
structure Sound (s : State) (x : InlaidId) : Prop where
  not_frozen : (s.node x).placement.isFrozen = false
  placed : ∀ c ∈ (s.node x).children, (s.node c).placement = s.childPlacement x c
  hidden_last : ∀ h, s.hiddenOf x = some h →
    (s.feedOf x).isSome ∧ (s.node x).children.getLast? = some h

/-- A node the root of a present tracker reaches. -/
def Live (s : State) (x : InlaidId) : Prop :=
  s.tracker.present = true ∧ ∃ r, s.tracker.root = some r ∧ Below s r x

/-- The representation invariant of a session: the heap is an arena, the tracker's root is an
orphan placed by the source, the live tree's nodes are sound, and a running feed of a live model
node is that node's feed. -/
structure Wellformed (s : State) : Prop where
  arena : Arena s
  root_lt : ∀ r, s.tracker.root = some r → r.val < s.nodes.size
  root_primary : ∀ r, s.tracker.root = some r → (s.node r).placement = .primary
  root_parent : ∀ r, s.tracker.root = some r → (s.node r).parent = none
  sound : ∀ x, Live s x → Sound s x
  feed_owner : ∀ f o, (s.feed f).active = true → (s.feed f).mount = .owner o → Live s o →
    s.feedOf o = some f

section Below

variable {s s' : State} {top x y : InlaidId}

theorem Below.trans (h₁ : Below s top x) (h₂ : Below s x y) : Below s top y := by
  induction h₂ with
  | refl => exact h₁
  | child _ hc ih => exact .child ih hc

theorem Below.single {p c : InlaidId} (hc : c ∈ (s.node p).children) : Below s p c :=
  .child .refl hc

/-- A node below `top` is `top` or lies below one of its children. -/
theorem Below.cases_head (h : Below s top x) :
    x = top ∨ ∃ c ∈ (s.node top).children, Below s c x := by
  induction h with
  | refl => exact .inl rfl
  | child _ hc ih =>
    rcases ih with rfl | ⟨c', hc', hb⟩
    · exact .inr ⟨_, hc, .refl⟩
    · exact .inr ⟨c', hc', .child hb hc⟩

theorem Below.le (ha : Arena s) (h : Below s top x) : top.val ≤ x.val := by
  induction h with
  | refl => exact Nat.le_refl _
  | child _ hc ih => exact Nat.le_trans ih (Nat.le_of_lt (ha.child_bound _ _ hc).1)

/-- Reaching the same nodes: the children lists met on the way from `top` are the same. -/
theorem Below.of_children_eq (heq : ∀ y, Below s top y → (s'.node y).children = (s.node y).children)
    (h : Below s' top x) : Below s top x := by
  induction h with
  | refl => exact .refl
  | child _ hc ih => exact .child ih (by rwa [← heq _ ih])

theorem below_iff_of_children_eq
    (heq : ∀ y, Below s top y → (s'.node y).children = (s.node y).children) :
    Below s' top x ↔ Below s top x := by
  refine ⟨Below.of_children_eq heq, fun h => ?_⟩
  induction h with
  | refl => exact .refl
  | child hp hc ih => exact .child ih (by rwa [heq _ hp])

/-- In an arena a node below `top` is `top` or has a parent below `top` that lists it. -/
theorem Below.parent_of_ne (ha : Arena s) (h : Below s top x) (hne : x ≠ top) :
    ∃ p, (s.node x).parent = some p ∧ Below s top p ∧ x ∈ (s.node p).children := by
  cases h with
  | refl => exact absurd rfl hne
  | child hp hc => exact ⟨_, ha.child_parent _ _ hc, hp, hc⟩

/-- Two states whose arenas agree on parents: a node reached from `r` in one and from `c` in the
other is reached through `c` from `r`, or `r` lies below `c`. Each node has one parent, so the two
ways up from the node meet. -/
theorem Below.meet (ha : Arena s) (ha' : Arena s')
    (hpar : ∀ z, (s'.node z).parent = (s.node z).parent) {r c : InlaidId}
    (h' : Below s' r x) (h : Below s c x) : Below s' r c ∨ Below s c r := by
  induction h' with
  | refl => exact .inr h
  | @child q y hq hy ih =>
    cases h with
    | refl => exact .inl (.child hq hy)
    | @child w _ hw hyw =>
      have hwq : w = q := by
        have h₁ := ha.child_parent _ _ hyw
        have h₂ := ha'.child_parent _ _ hy
        rw [hpar] at h₂
        exact Option.some.inj (h₁.symm.trans h₂)
      exact ih (hwq ▸ hw)

end Below

end Sync

end Inlay
