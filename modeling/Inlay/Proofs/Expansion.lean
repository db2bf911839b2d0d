import Inlay.Proofs.Telling
import Inlay.Proofs.Calls

namespace Inlay

/-- A tree of source nodes: an inlaid tree read as the source nodes it stands for. -/
inductive Shape where
  | node (src : SourceId) (children : List Shape)
  deriving Inhabited

namespace Sync

namespace State

/-- The inlaid subtree below `x` as the source nodes it stands for, down to `fuel` levels. -/
def shapeWithin (s : State) : Nat → InlaidId → Shape
  | 0, x => .node (s.node x).source []
  | fuel + 1, x => .node (s.node x).source ((s.node x).children.map (s.shapeWithin fuel))

/-- The root a source node inlines, given the model names used above it: the root of its model's
tree, for a model node whose name is not used above and whose model its resolver knows. -/
def modelRootOf (s : State) (used : List String) (src : SourceId) : Option SourceId :=
  match (s.forest.node src).model with
  | some m => if m ∈ used then none else (s.resolve m).bind fun r => (s.forest.tree r.1).root
  | none => none

/-- The expansion of a source node below model nodes of the names `used`, down to `fuel` levels:
its children, then the root it inlines, each expanded with the node's own model name used too. -/
def expandWithin (s : State) : Nat → List String → SourceId → Shape
  | 0, _, src => .node src []
  | fuel + 1, used, src =>
    let below := used ++ (s.forest.node src).model.toList
    .node src ((s.forest.node src).children.map (s.expandWithin fuel below) ++
      ((s.modelRootOf used src).map (s.expandWithin fuel below)).toList)

/-- The literal children of a node: all its children but the inlined root. -/
def literals (s : State) (x : InlaidId) : List InlaidId :=
  (s.node x).children.take (s.literalCount x)

end State

/-- The nodes reached from `x` through literal children, `x` included. -/
inductive Lit (s : State) (x : InlaidId) : InlaidId → Prop
  | refl : Lit s x x
  | child {y c : InlaidId} : Lit s x y → c ∈ s.literals y → Lit s x c

/-- The region of the feed `k`: the nodes reached through literal children from the root of its
mount. -/
def Governs (s : State) (k : SubscriberId) (y : InlaidId) : Prop :=
  ∃ r, s.mountRoot (s.feed k) = some r ∧ Lit s r y

/-- The literal children of `y` stand for the children of its source node in the forest `f`. -/
def LitCopies (s : State) (f : Source.Forest) (y : InlaidId) : Prop :=
  (s.literals y).map (fun c => (s.node c).source) = (f.node (s.node y).source).children

/-- The mount of the feed `k` holds a node for the root of the feed's tree in the forest `f`, and
none when that tree has no root. -/
def MountCopies (s : State) (f : Source.Forest) (k : SubscriberId) : Prop :=
  (s.mountRoot (s.feed k)).map (fun r => (s.node r).source) = (f.tree (s.feed k).tree).root

/-- A model node of name `m` is above `x`. -/
def NameAbove (s : State) (x : InlaidId) (m : String) : Prop :=
  ∃ a, Above s a x ∧ s.modelName a = some m

/-- A node is a model node of its source node's model, and holds a feed exactly when the cycle
guard lets it through and its resolver knows its model; the feed follows that model's tree, and
asks the tree which model it serves when the resolver says so. -/
structure Inlines (s : State) (y : InlaidId) : Prop where
  named : s.modelName y = (s.forest.node (s.node y).source).model
  fed : ∀ k, s.feedOf y = some k → Guarded s y ∧ ∃ m, s.modelName y = some m ∧
    s.resolve m = some ((s.feed k).tree, (s.feed k).announcesModel)
  unfed : s.feedOf y = none → ∀ m, s.modelName y = some m → Guarded s y → s.resolve m = none

/-- The live inlaid tree is in sync with the forests `V` give the feeds: every running feed holds
the root of its tree and every region lists the source children of its nodes, as that feed's
forest has them, and every live node holds a feed exactly when it inlines a model. -/
structure InSync (s : State) (V : SubscriberId → Source.Forest) : Prop where
  mount : ∀ k, (s.feed k).active = true → MountCopies s (V k) k
  literal : ∀ k y, (s.feed k).active = true → Governs s k y → LitCopies s (V k) y
  inlines : ∀ y, Live s y → Inlines s y

variable {s : State} {x y c : InlaidId}

section Literals

theorem State.literalCount_eq (s : State) (x : InlaidId) :
    s.literalCount x = (s.node x).children.length - if (s.hiddenOf x).isSome then 1 else 0 := by
  simp only [State.literalCount, State.hiddenOf]
  split <;> rename_i h <;> simp [h]

/-- A node's children are its literal children, then its inlined root. -/
theorem Arena.children_eq (ha : Arena s) (x : InlaidId) :
    (s.node x).children = s.literals x ++ (s.hiddenOf x).toList := by
  rw [State.literals, State.literalCount_eq]
  cases hh : s.hiddenOf x with
  | none => simp
  | some h =>
    obtain ⟨init, hinit⟩ := List.getLast?_eq_some_iff.1 (ha.hidden_last x h hh)
    simp [hinit]

theorem State.mem_children_of_literal (h : c ∈ s.literals x) : c ∈ (s.node x).children :=
  List.mem_of_mem_take h

/-- Literal children are the children but the inlined root. -/
theorem Arena.mem_literals (ha : Arena s) :
    c ∈ s.literals x ↔ c ∈ (s.node x).children ∧ s.hiddenOf x ≠ some c := by
  have hnd := ha.nodup x
  rw [ha.children_eq x] at hnd ⊢
  constructor
  · intro hc
    refine ⟨List.mem_append_left _ hc, fun e => ?_⟩
    rw [e] at hnd
    exact List.disjoint_of_nodup_append hnd hc (List.mem_singleton_self c)
  · rintro ⟨hc, hne⟩
    rcases List.mem_append.1 hc with h | h
    · exact h
    · exact absurd (Option.mem_toList.1 h) hne

theorem Lit.toBelow (h : Lit s x y) : Below s x y := by
  induction h with
  | refl => exact .refl
  | child _ hc ih => exact .child ih (State.mem_children_of_literal hc)

theorem Lit.trans {z : InlaidId} (h₁ : Lit s x y) (h₂ : Lit s y z) : Lit s x z := by
  induction h₂ with
  | refl => exact h₁
  | child _ hc ih => exact .child ih hc

end Literals

section Names

/-- The model names above a child: its parent's, and those above its parent. -/
theorem Arena.nameAbove_child (ha : Arena s) (hc : c ∈ (s.node x).children) (m : String) :
    NameAbove s c m ↔ s.modelName x = some m ∨ NameAbove s x m := by
  have hp := ha.child_parent x c hc
  constructor
  · rintro ⟨a, hac, ham⟩
    cases hac with
    | parent h =>
      rw [hp] at h
      cases h
      exact .inl ham
    | up h hab =>
      rw [hp] at h
      cases h
      exact .inr ⟨a, hab, ham⟩
  · rintro (h | ⟨a, hax, ham⟩)
    · exact ⟨x, .parent hp, h⟩
    · exact ⟨a, .up hp hax, ham⟩

/-- The cycle guard lets a model node through exactly when no node above it has its name. -/
theorem guarded_iff {m : String} (hm : s.modelName x = some m) :
    Guarded s x ↔ ¬ NameAbove s x m := by
  constructor
  · rintro hg ⟨a, ha, ham⟩
    exact hg a ha (ham.trans hm.symm)
  · intro h a ha e
    exact h ⟨a, ha, e.trans hm⟩

/-- A node that is no model node has no inlined root. -/
theorem State.hiddenOf_eq_none_of_modelName (h : s.modelName x = none) : s.hiddenOf x = none := by
  simp only [State.modelName, Option.map_eq_none_iff] at h
  simp [State.hiddenOf, h]

end Names

section Regions

/-- The root of the mount a model node's feed fills is the node's inlined root. -/
theorem Books.mountRoot_of_feedOf (hb : Books s) {k : SubscriberId} (h : s.feedOf x = some k) :
    s.mountRoot (s.feed k) = s.hiddenOf x :=
  State.mountRoot_owner (hb.holder x k h)

/-- A live node without a feed has no inlined root. -/
theorem Live.hiddenOf_eq_none (hw : Wellformed s) (hx : Live s x) (h : s.feedOf x = none) :
    s.hiddenOf x = none := by
  cases hh : s.hiddenOf x with
  | none => rfl
  | some r =>
    have := ((hw.sound x hx).hidden_last r hh).1
    rw [h] at this
    cases this

/-- Every live node lies in the region of a running feed: the tracker's, or the feed of the model
node below whose inlined root it lies, with only literal children in between. -/
theorem Live.governed (hw : Wellformed s) (hl : Ledger s) (hx : Live s x) :
    ∃ k, (s.feed k).active = true ∧ Governs s k x := by
  obtain ⟨hp, r, hr, hb⟩ := hx
  induction hb with
  | refl =>
    obtain ⟨k, hk⟩ := Option.ne_none_iff_exists'.1 fun e => by rw [hl.idle e] at hr; cases hr
    obtain ⟨-, hact, hmount, -⟩ := hl.tracking k hk
    exact ⟨k, hact, r, by rw [State.mountRoot_tracker hmount, hr], .refl⟩
  | @child p c hbp hc ih =>
    obtain ⟨k, hact, q, hq, hlit⟩ := ih
    by_cases hhid : s.hiddenOf p = some c
    · have hlive : Live s p := ⟨hp, r, hr, hbp⟩
      obtain ⟨k', hk'⟩ := Option.isSome_iff_exists.1 ((hw.sound p hlive).hidden_last c hhid).1
      exact ⟨k', hl.live_active p k' hlive hk', c, by rw [hl.books.mountRoot_of_feedOf hk', hhid],
        .refl⟩
    · exact ⟨k, hact, q, hq, .child hlit (hw.arena.mem_literals.2 ⟨hc, hhid⟩)⟩

end Regions

section Expansion

/-- The inlined root of a live node of a tree in sync with the session's own forest stands for the
root the node's source node inlines, below the model names above the node. -/
theorem InSync.hiddenOf_source (hw : Wellformed s) (hl : Ledger s)
    (hm : InSync s fun _ => s.forest) (hx : Live s x) {used : List String}
    (hused : ∀ m, m ∈ used ↔ NameAbove s x m) :
    (s.hiddenOf x).map (fun h => (s.node h).source) = s.modelRootOf used (s.node x).source := by
  have hinl := hm.inlines x hx
  unfold State.modelRootOf
  cases hmod : (s.forest.node (s.node x).source).model with
  | none =>
    rw [State.hiddenOf_eq_none_of_modelName (hinl.named.trans hmod)]
    rfl
  | some m =>
    have hname : s.modelName x = some m := hinl.named.trans hmod
    dsimp only
    have hunfed : s.feedOf x = none → (s.hiddenOf x).map (fun h => (s.node h).source) = none :=
      fun h => by rw [hx.hiddenOf_eq_none hw h]; rfl
    by_cases hu : m ∈ used
    · rw [if_pos hu]
      refine hunfed (Option.eq_none_iff_forall_ne_some.2 fun k hk => ?_)
      exact (guarded_iff hname).1 (hinl.fed k hk).1 ((hused m).1 hu)
    · rw [if_neg hu]
      have hguard : Guarded s x := (guarded_iff hname).2 fun h => hu ((hused m).2 h)
      cases hr : s.resolve m with
      | none =>
        refine hunfed (Option.eq_none_iff_forall_ne_some.2 fun k hk => ?_)
        obtain ⟨-, m', hm', hr'⟩ := hinl.fed k hk
        rw [hname] at hm'
        cases hm'
        rw [hr] at hr'
        cases hr'
      | some r =>
        obtain ⟨k, hk⟩ := Option.ne_none_iff_exists'.1 fun h => by
          rw [hinl.unfed h m hname hguard] at hr
          cases hr
        obtain ⟨-, m', hm', hr'⟩ := hinl.fed k hk
        rw [hname] at hm'
        cases hm'
        rw [hr] at hr'
        cases hr'
        have hcopy := hm.mount k (hl.live_active x k hx hk)
        rw [MountCopies, hl.books.mountRoot_of_feedOf hk] at hcopy
        exact hcopy

/-- A live node of a tree in sync with the session's own forest is, down to every depth, the
expansion of its source node below the model names above it. -/
theorem InSync.shapeWithin_eq (hw : Wellformed s) (hl : Ledger s)
    (hm : InSync s fun _ => s.forest) :
    ∀ (fuel : Nat) (x : InlaidId) (used : List String), Live s x →
      (∀ m, m ∈ used ↔ NameAbove s x m) →
      s.shapeWithin fuel x = s.expandWithin fuel used (s.node x).source := by
  intro fuel
  induction fuel with
  | zero => intro x used _ _; rfl
  | succ fuel ih =>
    intro x used hx hused
    have ha := hw.arena
    have hchild : ∀ c ∈ (s.node x).children, s.shapeWithin fuel c = s.expandWithin fuel
        (used ++ (s.forest.node (s.node x).source).model.toList) (s.node c).source := by
      intro c hc
      refine ih c _ (hx.child hc) fun m => ?_
      rw [ha.nameAbove_child hc, List.mem_append, hused, ← (hm.inlines x hx).named,
        Option.mem_toList, or_comm]
    obtain ⟨k, hk, hgov⟩ := hx.governed hw hl
    have hlit : (s.literals x).map (fun c => (s.node c).source) =
        (s.forest.node (s.node x).source).children := hm.literal k x hk hgov
    rw [State.shapeWithin, State.expandWithin, ha.children_eq x, List.map_append,
      ← hlit, ← hm.hiddenOf_source hw hl hx hused, List.map_map, Option.map_map]
    congr 2
    · exact List.map_congr_left fun c hc => hchild c (State.mem_children_of_literal hc)
    · cases hh : s.hiddenOf x with
      | none => rfl
      | some h =>
        have hmem : h ∈ (s.node x).children := by rw [ha.children_eq x, hh]; simp
        simp [hchild h hmem]

end Expansion

end Sync

end Inlay
