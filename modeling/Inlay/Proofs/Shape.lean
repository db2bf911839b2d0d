import Inlay.Proofs.Session

namespace Inlay.Sync

variable {s : State} {x : InlaidId}

theorem InlaidId.ext_val {a b : InlaidId} (h : a.val = b.val) : a = b := by
  cases a; cases b; cases h; rfl

section Subtree

/-- Ids grow down the tree, so the nodes below `r` at most `n` ids further lie in the subtree of
depth `n`. -/
theorem mem_subtreeWithin (ha : Arena s) :
    ∀ (n : Nat) (r x : InlaidId), Below s r x → x.val ≤ r.val + n → x ∈ s.subtreeWithin n r
  | 0, r, x, hb, hle => by
    have hx : x = r := InlaidId.ext_val (Nat.le_antisymm (by omega) (hb.le ha))
    subst hx
    exact List.mem_singleton_self x
  | n + 1, r, x, hb, hle => by
    rw [State.subtreeWithin]
    rcases hb.cases_head with rfl | ⟨c, hc, hcx⟩
    · exact List.mem_cons_self
    · refine List.mem_cons_of_mem _ (List.mem_flatMap.2 ⟨c, hc, ?_⟩)
      have := (ha.child_bound r c hc).1
      exact mem_subtreeWithin ha n c x hcx (by omega)

theorem mem_subtree_of_below (ha : Arena s) {r : InlaidId} (hr : r.val < s.nodes.size)
    (hb : Below s r x) : x ∈ s.subtree r := by
  have := Below.lt_size ha hr hb
  exact mem_subtreeWithin ha _ r x hb (by omega)

end Subtree

section Shape

variable (hw : Wellformed s)
include hw

/-- A node of the live tree is in the tree: not frozen. -/
theorem Live.not_frozen (hx : Live s x) : (s.node x).placement.isFrozen = false :=
  (hw.sound x hx).not_frozen

/-- A node that stands for no model holds no inlined root and no feed. -/
theorem Wellformed.plain (hx : (s.forest.node (s.node x).source).model = none) :
    s.hiddenOf x = none ∧ s.feedOf x = none := by
  have hi := hw.arena.plain x hx
  simp [State.hiddenOf, State.feedOf, hi]

/-- An inlined root of a live node is its last child, placed as the model's root, beside a feed. -/
theorem Live.hidden (hx : Live s x) {h : InlaidId} (hh : s.hiddenOf x = some h) :
    (s.feedOf x).isSome ∧ (s.node x).children.getLast? = some h ∧
      (s.node h).placement = .modelRoot x := by
  obtain ⟨hfeed, hlast⟩ := (hw.sound x hx).hidden_last h hh
  refine ⟨hfeed, hlast, ?_⟩
  rw [(hw.sound x hx).placed h (List.mem_of_getLast? hlast), State.childPlacement, if_pos hh]

/-- The inlined root of a model node, when live, is placed as that model's root. -/
theorem Live.placement_of_hidden (hx : Live s x) {m : InlaidId} (hm : s.hiddenOf m = some x) :
    (s.node x).placement = .modelRoot m :=
  (Live.hidden hw (hx.of_child hw (List.mem_of_getLast? (hw.arena.hidden_last m x hm))) hm).2.2

/-- A live node below no inlined root is placed by the source. -/
theorem Live.placement_primary (hx : Live s x)
    (hno : ∀ y, Below s y x → ∀ m, s.hiddenOf m ≠ some y) : (s.node x).placement = .primary := by
  obtain ⟨hp, r, hr, hb⟩ := hx
  induction hb with
  | refl => exact hw.root_primary r hr
  | @child y c hy hc ih =>
    have hyc : s.hiddenOf y ≠ some c := hno c .refl y
    rw [(hw.sound y ⟨hp, r, hr, hy⟩).placed c hc, State.childPlacement, if_neg hyc,
      ih fun z hz => hno z (.child hz hc)]
    rfl

/-- A live node strictly below an inlined root `h` of `m`, with no inlined root between, is
placed as a child of the model `m`. -/
theorem Live.placement_modelChild (hx : Live s x) {m h : InlaidId} (hm : s.hiddenOf m = some h)
    (hhx : Below s h x) (hne : h ≠ x)
    (hno : ∀ y, Below s h y → Below s y x → y ≠ h → ∀ m', s.hiddenOf m' ≠ some y) :
    (s.node x).placement = .modelChild m := by
  induction hhx with
  | refl => exact absurd rfl hne
  | @child y c hy hc ih =>
    have hylive : Live s y := hx.of_child hw hc
    have hch : c ≠ h := fun e => Below.not_of_child hw.arena hc (e ▸ hy)
    have hyc : s.hiddenOf y ≠ some c := hno c (.child hy hc) .refl hch y
    rw [(hw.sound y hylive).placed c hc, State.childPlacement, if_neg hyc]
    by_cases hyh : h = y
    · subst hyh
      rw [hylive.placement_of_hidden hw hm]
      rfl
    · rw [ih hylive hyh fun z hz hzy => hno z hz (.child hzy hc)]
      rfl

/-- With an inlined root, the literal children are all the children but one, never fewer than
none. -/
theorem Live.literalCount_succ (hx : Live s x) {h : InlaidId} (hh : s.hiddenOf x = some h) :
    s.literalCount x + 1 = (s.node x).children.length := by
  have hpos : 0 < (s.node x).children.length :=
    List.length_pos_of_mem (List.mem_of_getLast? (Live.hidden hw hx hh).2.1)
  rw [State.literalCount_of_hidden hh]
  omega

end Shape

end Inlay.Sync

namespace Inlay.Session

open Sync

variable {S : State} {x : InlaidId}

/-- A node of the live tree is its children's parent: the root holds the tree, so the node is
still reached. -/
theorem parentOf_of_live (hw : Wellformed S.sync) (hx : Live S.sync x) {c : InlaidId}
    (hc : c ∈ (S.sync.node x).children) : S.parentOf c = some x := by
  obtain ⟨hp, r, hr, hb⟩ := hx
  have hreach : x ∈ S.sync.reachable S.holders := by
    refine List.mem_flatMap.2 ⟨r, ?_, mem_subtree_of_below hw.arena (hw.root_lt r hr) hb⟩
    simp [State.holders, hp, hr]
  simp only [State.parentOf, Sync.State.parentAmong, hw.arena.child_parent x c hc, if_pos hreach]

/-- The shape of a node of the live tree. -/
structure LiveShape (S : State) (x : InlaidId) : Prop where
  /-- It is in the tree, not removed. -/
  not_frozen : (S.sync.node x).placement.isFrozen = false
  /-- Its children name it as their parent. -/
  parents : ∀ c ∈ (S.sync.node x).children, S.parentOf c = some x
  /-- A node that stands for no model has no inlined root and no feed. -/
  plain : (S.sync.forest.node (S.sync.node x).source).model = none →
    S.sync.hiddenOf x = none ∧ S.sync.feedOf x = none
  /-- An inlined root has a feed beside it, is the last child, and is placed as the model's root. -/
  hidden : ∀ h, S.sync.hiddenOf x = some h → (S.sync.feedOf x).isSome ∧
    (S.sync.node x).children.getLast? = some h ∧ (S.sync.node h).placement = .modelRoot x
  /-- With an inlined root there is one child more than the literal ones. -/
  literal : ∀ h, S.sync.hiddenOf x = some h →
    S.sync.literalCount x + 1 = (S.sync.node x).children.length
  /-- Below no inlined root, the node is placed by the source. -/
  primary : (∀ y, Below S.sync y x → ∀ m, S.sync.hiddenOf m ≠ some y) →
    (S.sync.node x).placement = .primary
  /-- The inlined root of `m` is placed as `m`'s model root. -/
  model_root : ∀ m, S.sync.hiddenOf m = some x → (S.sync.node x).placement = .modelRoot m
  /-- Strictly below the inlined root of `m`, with none nearer, the node is a child of `m`'s
  model. -/
  model_child : ∀ m h, S.sync.hiddenOf m = some h → Below S.sync h x → h ≠ x →
    (∀ y, Below S.sync h y → Below S.sync y x → y ≠ h → ∀ m', S.sync.hiddenOf m' ≠ some y) →
    (S.sync.node x).placement = .modelChild m

/-- In every state a session reaches, failed steps included, every node the root of a present
tracker reaches has the shape of the live tree. -/
theorem Reachable.liveShape (hS : Reachable S) (hx : Live S.sync x) : LiveShape S x := by
  have hw := hS.valid.wellformed
  exact ⟨hx.not_frozen hw, fun c hc => parentOf_of_live hw hx hc, hw.plain,
    fun h hh => hx.hidden hw hh, fun h hh => hx.literalCount_succ hw hh, hx.placement_primary hw,
    fun m hm => hx.placement_of_hidden hw hm,
    fun m h hm hhx hne hno => hx.placement_modelChild hw hm hhx hne hno⟩

theorem eq_ok_of_isOk {ε α : Type} [Inhabited α] {r : Except ε α} (h : r.isOk = true) :
    r = .ok (r.toOption.getD default) := by
  cases r with
  | error e => cases h
  | ok a => rfl

/-- A source tree whose root holds a model node, inlining a model tree of two nodes. -/
def demo : Script :=
  ⟨.given Settings.standard,
    .rooted (some (.node "root" none [] [.node "m" (some "M") [] []])) ⟨none, none, false⟩ none,
    [("M", .rooted (some (.node "mroot" none [] [.node "leaf" none [] []])) ⟨none, none, false⟩ none)],
    [], .library, true, []⟩

/-- The session of `demo` once a silent listener starts tracking. -/
def demoTracked : State := ((demo.begin.toOption.getD default).step (.listen "l" .silent)).2

theorem demoTracked_reachable : Reachable demoTracked :=
  .step _ (.begin (eq_ok_of_isOk (by decide +kernel)))

/-- The leaf of the inlined model in `demo`, a child of the model below its root, has the shape
of the live tree. -/
theorem demoTracked_liveShape :
    Reachable demoTracked ∧ Live demoTracked.sync ⟨3⟩ ∧ LiveShape demoTracked ⟨3⟩ := by
  have h₁ : (⟨1⟩ : InlaidId) ∈ (demoTracked.sync.node ⟨0⟩).children := by decide +kernel
  have h₂ : (⟨2⟩ : InlaidId) ∈ (demoTracked.sync.node ⟨1⟩).children := by decide +kernel
  have h₃ : (⟨3⟩ : InlaidId) ∈ (demoTracked.sync.node ⟨2⟩).children := by decide +kernel
  have hx : Live demoTracked.sync ⟨3⟩ :=
    ⟨by decide +kernel, ⟨0⟩, by decide +kernel, .child (.child (.child .refl h₁) h₂) h₃⟩
  exact ⟨demoTracked_reachable, hx, Reachable.liveShape demoTracked_reachable hx⟩

end Inlay.Session
