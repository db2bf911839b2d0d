import Inlay.Proofs.Track

namespace Inlay.Sync

/-- The subscriptions of a session, booked on both sides. -/
structure Books (s : State) : Prop where
  booked : ∀ T h g, (s.forest.tree T).subscribers.get? h = some g ↔
    (s.feed g).subscription = some h ∧ (s.feed g).tree = T
  wf : ∀ T, (s.forest.tree T).subscribers.Wf
  stopped : ∀ g, (s.feed g).active = false → (s.feed g).subscription = none
  holder : ∀ m g, s.feedOf m = some g → (s.feed g).mount = .owner m
  trees : ∀ g, g.val < s.feeds.size → (s.feed g).tree.val < s.forest.trees.size
  resolves : ∀ name T b, s.resolve name = some (T, b) → T.val < s.forest.trees.size

section Reading

variable {s : State}

theorem TreeId.ext_val {a b : TreeId} (h : a.val = b.val) : a = b := by
  cases a; cases b; cases h; rfl

theorem tree_of_size_le {T : TreeId} (hT : s.forest.trees.size ≤ T.val) :
    s.forest.tree T = default := by
  rw [Source.Forest.tree, Array.getD_eq_getD_getElem?, Array.getElem?_eq_none hT]
  rfl

/-- A table that names a feed belongs to a tree of the forest. -/
theorem lt_size_of_get? {T : TreeId} {h : Handle} {g : SubscriberId}
    (hg : (s.forest.tree T).subscribers.get? h = some g) : T.val < s.forest.trees.size := by
  refine Nat.lt_of_not_le fun hT => ?_
  rw [tree_of_size_le hT] at hg
  simp [default, Slots.empty, Slots.get?] at hg

namespace Books

/-- The subscribers of a tree are the feeds subscribed to it. -/
theorem mem_values (hb : Books s) (T : TreeId) (g : SubscriberId) :
    g ∈ (s.forest.tree T).subscribers.values ↔
      (s.feed g).subscription.isSome ∧ (s.feed g).tree = T := by
  rw [Slots.mem_values]
  constructor
  · rintro ⟨h, hh⟩
    obtain ⟨hs, ht⟩ := (hb.booked T h g).1 hh
    exact ⟨by rw [hs]; rfl, ht⟩
  · rintro ⟨hs, ht⟩
    obtain ⟨h, hh⟩ := Option.isSome_iff_exists.1 hs
    exact ⟨h, (hb.booked T h g).2 ⟨hh, ht⟩⟩

/-- No feed is listed twice among the subscribers of a tree: it holds one handle. -/
theorem nodup_values (hb : Books s) (T : TreeId) :
    (s.forest.tree T).subscribers.values.Nodup :=
  Slots.nodup_values fun h₁ h₂ g e₁ e₂ => by
    obtain ⟨hs₁, -⟩ := (hb.booked T h₁ g).1 e₁
    obtain ⟨hs₂, -⟩ := (hb.booked T h₂ g).1 e₂
    rw [hs₁] at hs₂
    exact Option.some.inj hs₂

/-- A subscribed feed runs. -/
theorem active_of_subscribed (hb : Books s) {g : SubscriberId}
    (hg : (s.feed g).subscription.isSome) : (s.feed g).active = true := by
  cases ha : (s.feed g).active
  · rw [hb.stopped g ha] at hg
    cases hg
  · rfl

/-- A feed held by a node is a feed of the heap. -/
theorem lt_size_of_feedOf (hb : Books s) {m : InlaidId} {g : SubscriberId}
    (hm : s.feedOf m = some g) : g.val < s.feeds.size := by
  refine Nat.lt_of_not_le fun hg => ?_
  have := hb.holder m g hm
  rw [State.feed_of_size_le hg] at this
  cases this

end Books

end Reading

section Keeping

variable {s s' : State} {E : Fault → State → Prop}

/-- The books hold after a change that leaves every feed and every subscriber table alone, adds
trees only with empty tables, resolves model names to trees of the forest only, and gives a node
no feed but one that fills it. -/
theorem Books.grow (hb : Books s)
    (hsub : ∀ T, (s'.forest.tree T).subscribers = (s.forest.tree T).subscribers)
    (hf : s'.feeds = s.feeds) (hsize : s.forest.trees.size ≤ s'.forest.trees.size)
    (hres : ∀ name T b, s'.resolve name = some (T, b) → T.val < s'.forest.trees.size)
    (hheld : ∀ m g, s'.feedOf m = some g → (s.feed g).mount = .owner m) : Books s' := by
  have hfeed : ∀ g, s'.feed g = s.feed g := fun g => by simp [State.feed, hf]
  refine ⟨fun T h g => ?_, fun T => ?_, fun g => ?_, fun m g hm => ?_, fun g hg => ?_, hres⟩
  · rw [hsub, hfeed]; exact hb.booked T h g
  · rw [hsub]; exact hb.wf T
  · rw [hfeed]; exact hb.stopped g
  · rw [hfeed]; exact hheld m g hm
  · rw [hfeed]; rw [hf] at hg; exact Nat.lt_of_lt_of_le (hb.trees g hg) hsize

/-- The books hold after a change that leaves every feed, every subscriber table, the trees and
the resolution of model names alone, and gives a node no feed but one that fills it. -/
theorem Books.frame (hb : Books s)
    (hsub : ∀ T, (s'.forest.tree T).subscribers = (s.forest.tree T).subscribers)
    (hf : s'.feeds = s.feeds) (hsize : s'.forest.trees.size = s.forest.trees.size)
    (hres : s'.resolve = s.resolve)
    (hheld : ∀ m g, s'.feedOf m = some g → (s.feed g).mount = .owner m) : Books s' :=
  hb.grow hsub hf (Nat.le_of_eq hsize.symm) (fun name T b hT => by
    rw [hres] at hT
    rw [hsize]
    exact hb.resolves name T b hT) hheld

/-- A change of nodes alone keeps the books when every feed a node holds fills that node. -/
theorem Books.of_nodes (hb : Books s) (hst : Steady s s') (hforest : s'.forest = s.forest)
    (hf : s'.feeds = s.feeds) (hheld : ∀ m g, s'.feedOf m = some g → (s.feed g).mount = .owner m) :
    Books s' :=
  hb.frame (fun T => by rw [hforest]) hf (by rw [hforest])
    (by funext name; simp [State.resolve, hst.library, hst.resolver]) hheld

/-- A new feed that holds no subscription and follows a tree of the forest keeps the books. -/
theorem Books.push (hb : Books s) {fd : Feed} (hst : Steady s s') (hforest : s'.forest = s.forest)
    (hn : s'.nodes = s.nodes) (hf : s'.feeds = s.feeds.push fd) (hfd : fd.subscription = none)
    (htree : fd.tree.val < s.forest.trees.size) : Books s' := by
  have hfeed := State.feed_of_push hf
  have hold : ∀ g, s'.feed g = s.feed g ∨ (g.val = s.feeds.size ∧ s'.feed g = fd ∧
      (s.feed g).subscription = none) := fun g => by
    rw [hfeed]
    split
    · rename_i hg
      exact .inr ⟨hg, rfl, by rw [State.feed_of_size_le (Nat.le_of_eq hg.symm)]; rfl⟩
    · exact .inl rfl
  have hres : s'.resolve = s.resolve := by
    funext name; simp [State.resolve, hst.library, hst.resolver]
  refine ⟨fun T h g => ?_, fun T => ?_, fun g => ?_, fun m g hm => ?_, fun g hg => ?_,
    fun name T b hT => ?_⟩
  · rw [hforest]
    rcases hold g with e | ⟨-, e, hnone⟩
    · rw [e]; exact hb.booked T h g
    · rw [e, hfd, hb.booked T h g, hnone]
      simp
  · rw [hforest]; exact hb.wf T
  · rcases hold g with e | ⟨-, e, -⟩ <;> rw [e]
    · exact hb.stopped g
    · intro; exact hfd
  · have hm' : s.feedOf m = some g := by simpa [State.feedOf, State.node, hn] using hm
    have hg := hb.lt_size_of_feedOf hm'
    rw [hfeed, if_neg (Nat.ne_of_lt hg)]
    exact hb.holder m g hm'
  · rw [hforest, hfeed]
    rw [hf, Array.size_push] at hg
    split
    · exact htree
    · exact hb.trees g (by omega)
  · rw [hres] at hT; rw [hforest]; exact hb.resolves name T b hT

end Keeping

section Subscribing

variable {s s' : State} {E : Fault → State → Prop}

/-- Changing one tree of the forest changes the table of that tree only. -/
theorem subscribers_modifyTree {f : Source.Forest} {T₀ : TreeId} {g : Source.Tree → Source.Tree}
    (hT₀ : T₀.val < f.trees.size) (T : TreeId) :
    ((f.modifyTree T₀ g).tree T).subscribers =
      if T = T₀ then (g (f.tree T₀)).subscribers else (f.tree T).subscribers := by
  simp only [Source.Forest.tree, Source.Forest.modifyTree, getD_modify]
  by_cases hT : T = T₀
  · subst hT
    simp [hT₀]
  · have : T₀.val ≠ T.val := fun e => hT (TreeId.ext_val e.symm)
    simp [this, hT]

/-- Subscribing a running feed that holds no subscription keeps the books; the feed then holds
one. -/
theorem Books.subscribe (hb : Books s) {f : SubscriberId} (hf : f.val < s.feeds.size)
    (hact : (s.feed f).active = true) (hnone : (s.feed f).subscription = none) :
    Ensures (subscribe f) s (fun _ s' => Books s' ∧ (s'.feed f).subscription.isSome) E := by
  refine (subscribe_spec f s).mono (fun _ s' hpost => ?_) fun _ _ h => h
  obtain ⟨_, hs'⟩ := hpost
  generalize hT₀ : (s.feed f).tree = T₀ at hs'
  generalize htbl : (s.forest.tree T₀).subscribers = tbl at hs'
  generalize hins : tbl.insert f = ins at hs'
  obtain ⟨hn, tbl'⟩ := ins
  have hT₀lt : T₀.val < s.forest.trees.size := hT₀ ▸ hb.trees f hf
  have hwf : tbl.Wf := htbl ▸ hb.wf T₀
  have hsub : ∀ T, (s'.forest.tree T).subscribers =
      if T = T₀ then tbl' else (s.forest.tree T).subscribers := fun T => by
    subst hs'
    exact subscribers_modifyTree hT₀lt T
  have hfs : s'.feeds = s.feeds.modify f.val fun x => { x with subscription := some hn } := by
    rw [hs']
  have hself : s'.feed f = { s.feed f with subscription := some hn } := by
    rw [State.feed_of_modify hfs, if_pos ⟨rfl, hf⟩]
  have hother : ∀ g, g ≠ f → s'.feed g = s.feed g := fun g hg => by
    rw [State.feed_of_modify hfs, if_neg fun e => hg e.1.symm]
  have hget : ∀ h, tbl'.get? h = if h = hn then some f else tbl.get? h := fun h => by
    have := Slots.get?_insert hwf f h
    rw [hins] at this
    exact this
  have hfree : ∀ T h, (s.forest.tree T).subscribers.get? h ≠ some f := fun T h e => by
    have := ((hb.booked T h f).1 e).1
    rw [hnone] at this
    cases this
  have hnew : tbl.get? hn = none := by
    have := Slots.get?_insert_handle hwf f
    rw [hins] at this
    exact this
  have hres : s'.resolve = s.resolve := by
    funext name; simp [State.resolve, hs']
  have hsize : s'.forest.trees.size = s.forest.trees.size := by
    rw [hs']; simp [Source.Forest.modifyTree]
  have hnodes : s'.nodes = s.nodes := by rw [hs']
  refine ⟨⟨fun T h g => ?_, fun T => ?_, fun g => ?_, fun m g hm => ?_, fun g hg => ?_,
    fun name T b hT => ?_⟩, by rw [hself]; rfl⟩
  · rw [hsub]
    by_cases hg : g = f
    · subst hg
      rw [hself]
      show _ ↔ some hn = some h ∧ (s.feed g).tree = T
      by_cases hT : T = T₀
      · rw [if_pos hT, hget, hT₀, hT]
        by_cases hh : h = hn
        · subst hh; simp
        · rw [if_neg hh, ← htbl]
          exact ⟨fun e => absurd e (hfree _ _), fun e => absurd (Option.some.inj e.1).symm hh⟩
      · rw [if_neg hT, hT₀]
        exact ⟨fun e => absurd e (hfree _ _), fun e => (hT e.2.symm).elim⟩
    · rw [hother g hg]
      by_cases hT : T = T₀
      · subst hT
        rw [if_pos rfl, hget]
        by_cases hh : h = hn
        · subst hh
          rw [if_pos rfl, ← hb.booked, htbl, hnew]
          exact ⟨fun e => absurd (Option.some.inj e).symm hg, (by intros; contradiction)⟩
        · rw [if_neg hh, ← htbl]
          exact hb.booked _ h g
      · rw [if_neg hT]
        exact hb.booked T h g
  · rw [hsub]
    split
    · have := hwf.insert f
      rw [hins] at this
      exact this
    · exact hb.wf T
  · by_cases hg : g = f
    · subst hg
      rw [hself]
      intro e
      exact absurd (hact.symm.trans e) Bool.noConfusion
    · rw [hother g hg]
      exact hb.stopped g
  · have hm' : s.feedOf m = some g := by simpa [State.feedOf, State.node, hnodes] using hm
    by_cases hg : g = f
    · subst hg
      rw [hself]
      exact hb.holder m g hm'
    · rw [hother g hg]
      exact hb.holder m g hm'
  · rw [hfs, Array.size_modify] at hg
    rw [hsize]
    by_cases hg' : g = f
    · subst hg'
      rw [hself]
      exact hb.trees g hf
    · rw [hother g hg']
      exact hb.trees g hg
  · rw [hres] at hT; rw [hsize]; exact hb.resolves name T b hT

/-- Stopping a feed that holds a handle, and dropping the handle from its tree's table, keeps the
books. -/
theorem Books.unsubscribe (hb : Books s) {f : SubscriberId} {h : Handle}
    (hsome : (s.feed f).subscription = some h) :
    Books { s with
      feeds := s.feeds.modify f.val Feed.halt,
      forest := s.forest.modifyTree (s.feed f).tree fun t =>
        match t.subscribers.remove h with
        | some (_, subscribers) => { t with subscribers := subscribers }
        | none => t } := by
  generalize hs' : ({ s with
      feeds := s.feeds.modify f.val Feed.halt,
      forest := s.forest.modifyTree (s.feed f).tree fun t =>
        match t.subscribers.remove h with
        | some (_, subscribers) => { t with subscribers := subscribers }
        | none => t } : State) = s'
  generalize hT₀ : (s.feed f).tree = T₀ at hs'
  have hget : (s.forest.tree T₀).subscribers.get? h = some f := (hb.booked T₀ h f).2 ⟨hsome, hT₀⟩
  have hT₀lt : T₀.val < s.forest.trees.size := lt_size_of_get? hget
  generalize htbl : (s.forest.tree T₀).subscribers = tbl at hget
  obtain ⟨tbl', hrem⟩ : ∃ tbl', tbl.remove h = some (f, tbl') :=
    ⟨_, by rw [Slots.remove_eq, hget]; rfl⟩
  have hwf : tbl.Wf := htbl ▸ hb.wf T₀
  have hsub : ∀ T, (s'.forest.tree T).subscribers =
      if T = T₀ then tbl' else (s.forest.tree T).subscribers := fun T => by
    subst hs'
    simp only [subscribers_modifyTree hT₀lt]
    rw [htbl, hrem]
  have hfs : s'.feeds = s.feeds.modify f.val Feed.halt := by rw [← hs']
  have hother : ∀ g, g ≠ f → s'.feed g = s.feed g := fun g hg => by
    rw [State.feed_of_halt hfs, if_neg fun e => hg e.symm]
  have hself : s'.feed f = (s.feed f).halt := by rw [State.feed_of_halt hfs, if_pos rfl]
  have hres : s'.resolve = s.resolve := by
    funext name; simp [State.resolve, ← hs']
  have hsize : s'.forest.trees.size = s.forest.trees.size := by
    rw [← hs']; simp [Source.Forest.modifyTree]
  have hnodes : s'.nodes = s.nodes := by rw [← hs']
  have hslot : ∀ h' g, tbl.get? h' = some g → h'.slot = h.slot → g = f := fun h' g e he => by
    have e₁ := Slots.get?_eq_some_iff.1 e
    have e₂ := Slots.get?_eq_some_iff.1 hget
    rw [he, e₂] at e₁
    simp only [Option.some.injEq, Prod.mk.injEq] at e₁
    exact e₁.2.symm
  refine ⟨fun T h' g => ?_, fun T => ?_, fun g => ?_, fun m g hm => ?_, fun g hg => ?_,
    fun name T b hT => ?_⟩
  · rw [hsub]
    by_cases hg : g = f
    · subst hg
      rw [hself]
      simp only [Feed.halt, reduceCtorEq, false_and, iff_false]
      intro e
      split at e
      · rw [Slots.get?_remove hrem] at e
        split at e
        · cases e
        · rename_i he
          obtain ⟨e', _⟩ := (hb.booked T₀ h' g).1 (htbl ▸ e)
          rw [hsome] at e'
          cases e'
          exact he rfl
      · rename_i hT
        obtain ⟨-, e'⟩ := (hb.booked T h' g).1 e
        exact hT (e'.symm.trans hT₀)
    · rw [hother g hg]
      by_cases hT : T = T₀
      · subst hT
        rw [if_pos rfl, Slots.get?_remove hrem, ← hb.booked, htbl]
        split
        · rename_i he
          exact ⟨(by intros; contradiction), fun e => absurd (hslot h' g e he) hg⟩
        · exact Iff.rfl
      · rw [if_neg hT]
        exact hb.booked T h' g
  · rw [hsub]
    split
    · exact hwf.remove hrem
    · exact hb.wf T
  · by_cases hg : g = f
    · subst hg; intro; rw [hself]; rfl
    · rw [hother g hg]; exact hb.stopped g
  · have hm' : s.feedOf m = some g := by simpa [State.feedOf, State.node, hnodes] using hm
    by_cases hg : g = f
    · subst hg; rw [hself]; exact hb.holder m g hm'
    · rw [hother g hg]; exact hb.holder m g hm'
  · rw [hfs, Array.size_modify] at hg
    rw [hsize]
    by_cases hg' : g = f
    · subst hg'; rw [hself]; exact hb.trees g hg
    · rw [hother g hg']; exact hb.trees g hg
  · rw [hres] at hT; rw [hsize]; exact hb.resolves name T b hT

/-- Stopping a feed that holds no handle keeps the books. -/
theorem Books.halt (hb : Books s) {f : SubscriberId} (hnone : (s.feed f).subscription = none) :
    Books { s with feeds := s.feeds.modify f.val Feed.halt } := by
  have hfs : ∀ g, State.feed { s with feeds := s.feeds.modify f.val Feed.halt } g =
      if f = g then (s.feed g).halt else s.feed g := State.feed_of_halt rfl
  refine ⟨fun T h g => ?_, fun T => hb.wf T, fun g => ?_, fun m g hm => ?_, fun g hg => ?_,
    hb.resolves⟩
  · show _ ↔ (State.feed _ g).subscription = some h ∧ (State.feed _ g).tree = T
    rw [hfs]
    split
    · rename_i hg
      subst hg
      rw [hb.booked, hnone]
      simp [Feed.halt]
    · exact hb.booked T h g
  · rw [hfs]
    split
    · intro; rfl
    · exact hb.stopped g
  · rw [hfs]
    split <;> exact hb.holder m g hm
  · rw [hfs]
    split
    · exact hb.trees g (by simpa using hg)
    · exact hb.trees g (by simpa using hg)

/-- Stopping a feed keeps the books: its tree's table drops the handle it held. -/
theorem stopFeed_books (hb : Books s) (f : SubscriberId) :
    Ensures (stopFeed f) s (fun _ s' => Books s') E := by
  unfold stopFeed
  apply Ensures.bind; apply Ensures.get
  apply Ensures.bind; apply Ensures.modify
  split
  · rename_i h hsome
    exact Ensures.modify (hb.unsubscribe hsome)
  · rename_i hnone
    exact Ensures.pure (hb.halt hnone)

end Subscribing

section Building

variable {s s' s₁ s₂ s₃ : State}

/-- The books kept from `s` on: they hold, every feed of `s` is still there, filling what it
filled, and so is every tree. -/
structure Booked (s s' : State) : Prop where
  books : Books s'
  feeds_le : s.feeds.size ≤ s'.feeds.size
  mount : ∀ g, g.val < s.feeds.size → (s'.feed g).mount = (s.feed g).mount
  trees_le : s.forest.trees.size ≤ s'.forest.trees.size

theorem Booked.refl (hb : Books s) : Booked s s :=
  ⟨hb, Nat.le_refl _, fun _ _ => rfl, Nat.le_refl _⟩

theorem Booked.trans (h₁ : Booked s₁ s₂) (h₂ : Booked s₂ s₃) : Booked s₁ s₃ :=
  ⟨h₂.books, Nat.le_trans h₁.feeds_le h₂.feeds_le, fun g hg => by
    rw [h₂.mount g (Nat.lt_of_lt_of_le hg h₁.feeds_le), h₁.mount g hg],
    Nat.le_trans h₁.trees_le h₂.trees_le⟩

instance : Trans Booked Booked Booked := ⟨Booked.trans⟩

theorem Booked.of_feeds_eq (hb : Books s') (hf : s'.feeds = s.feeds)
    (ht : s'.forest.trees.size = s.forest.trees.size) : Booked s s' :=
  ⟨hb, Nat.le_of_eq (by rw [hf]), fun g _ => by simp [State.feed, hf], Nat.le_of_eq ht.symm⟩

/-- A change of one feed that keeps its mount. -/
theorem Booked.of_modify (hb : Books s') {f : SubscriberId} {g : Feed → Feed}
    (hf : s'.feeds = s.feeds.modify f.val g) (hg : ∀ fd, (g fd).mount = fd.mount)
    (ht : s'.forest.trees.size = s.forest.trees.size) : Booked s s' := by
  refine ⟨hb, Nat.le_of_eq (by rw [hf, Array.size_modify]), fun k _ => ?_, Nat.le_of_eq ht.symm⟩
  rw [State.feed_of_modify hf]
  split
  · exact hg _
  · rfl

theorem Inlaid.Node.feed_detach (m : Inlaid.Node) :
    m.detach.inlining.bind (·.feed) = m.inlining.bind (·.feed) := by
  cases hm : m.inlining with
  | none => simp [Inlaid.Node.detach, hm]
  | some i => cases hh : i.hidden <;> simp [Inlaid.Node.detach, hm, hh]

/-- Changing one node keeps the books when the node's feed afterwards, if any, fills it. -/
theorem modifyNode_booked (hb : Books s) (id : InlaidId) {g : Inlaid.Node → Inlaid.Node}
    (hheld : ∀ k, (g (s.node id)).inlining.bind (·.feed) = some k → (s.feed k).mount = .owner id) :
    Within Booked (modifyNode id g) s := by
  have hnode : ∀ y, State.node { s with nodes := s.nodes.modify id.val g } y =
      if id = y ∧ y.val < s.nodes.size then g (s.node y) else s.node y := State.node_of_modify rfl
  refine Ensures.modify (Booked.of_feeds_eq (hb.of_nodes ⟨rfl, rfl, rfl, rfl, rfl, rfl⟩ rfl rfl
    fun m k hm => ?_) rfl rfl)
  simp only [State.feedOf, hnode] at hm
  split at hm
  · rename_i h
    obtain ⟨rfl, _⟩ := h
    exact hheld k hm
  · exact hb.holder m k hm

/-- Changing one node keeps the books when the node keeps its feed. -/
theorem modifyNode_booked_keep (hb : Books s) (id : InlaidId) {g : Inlaid.Node → Inlaid.Node}
    (hkeep : ∀ m, (g m).inlining.bind (·.feed) = m.inlining.bind (·.feed)) :
    Within Booked (modifyNode id g) s :=
  modifyNode_booked hb id fun k hk => hb.holder id k ((hkeep _).symm.trans hk)

/-- A new node without a feed keeps the books. -/
theorem addNode_booked (hb : Books s) {m : Inlaid.Node} (hm : m.inlining.bind (·.feed) = none) :
    Within Booked (addNode m) s := by
  have hnode : ∀ y, State.node { s with nodes := s.nodes.push m } y =
      if y.val = s.nodes.size then m else s.node y := State.node_of_push rfl
  refine Ensures.modifyGet (Booked.of_feeds_eq (hb.of_nodes ⟨rfl, rfl, rfl, rfl, rfl, rfl⟩ rfl rfl
    fun y k hy => ?_) rfl rfl)
  simp only [State.feedOf, hnode] at hy
  split at hy
  · rw [hm] at hy
    cases hy
  · exact hb.holder y k hy

/-- A new feed without a subscription, following a tree of the forest, keeps the books. -/
theorem addFeed_booked (hb : Books s) {fd : Feed} (hfd : fd.subscription = none)
    (htree : fd.tree.val < s.forest.trees.size) :
    Ensures (addFeed fd) s (fun k s' => Booked s s' ∧ k.val = s.feeds.size ∧
      k.val < s'.feeds.size ∧ s'.feed k = fd) fun _ => Booked s := by
  have hfeed : ∀ k, State.feed { s with feeds := s.feeds.push fd } k =
      if k.val = s.feeds.size then fd else s.feed k := State.feed_of_push rfl
  refine Ensures.modifyGet ⟨⟨hb.push ⟨rfl, rfl, rfl, rfl, rfl, rfl⟩ rfl rfl rfl hfd htree,
    by simp, fun g hg => ?_, Nat.le_refl _⟩, rfl, by simp, by rw [hfeed, if_pos rfl]⟩
  rw [hfeed, if_neg (Nat.ne_of_lt hg)]

/-- Subscribing a running feed that holds no subscription keeps the books. -/
theorem subscribe_booked (hb : Books s) {f : SubscriberId} (hf : f.val < s.feeds.size)
    (hact : (s.feed f).active = true) (hnone : (s.feed f).subscription = none) :
    Within Booked (subscribe f) s :=
  ((hb.subscribe (E := fun _ => Booked s) hf hact hnone).and
    (subscribe_spec (E := fun _ _ => True) f s)).mono
    (fun _ _ ⟨⟨hb', _⟩, _, hs'⟩ => by
      have hf := congrArg State.feeds hs'
      dsimp only at hf
      exact Booked.of_modify hb' hf (fun _ => rfl) (by rw [hs']; simp [Source.Forest.modifyTree]))
    fun _ _ h => h.1

/-- Stopping a feed leaves every tree in place. -/
theorem stopFeed_trees (f : SubscriberId) (s : State) :
    Ensures (stopFeed f) s (fun _ s' => s'.forest.trees.size = s.forest.trees.size)
      fun _ _ => True := by
  unfold stopFeed
  apply Ensures.bind; apply Ensures.get
  apply Ensures.bind; apply Ensures.modify
  split
  · exact Ensures.modify (by simp [Source.Forest.modifyTree])
  · exact Ensures.pure rfl

/-- Stopping a feed keeps the books. -/
theorem stopFeed_booked (hb : Books s) (f : SubscriberId) : Within Booked (stopFeed f) s :=
  (((stopFeed_books (E := fun _ => Booked s) hb f).and (stopFeed_spec (E := fun _ _ => True) f s)).and
    (stopFeed_trees f s)).mono
    (fun _ _ ⟨⟨hb', _, _, hf⟩, ht⟩ => Booked.of_modify hb' hf (fun _ => rfl) ht) fun _ _ h => h.1.1

/-- Taking the feed out of a node keeps the books. -/
theorem takeFeed_booked (hb : Books s) (id : InlaidId) : Within Booked (takeFeed id) s := by
  unfold takeFeed
  refine Within.get ?_
  split
  · rename_i i hi
    refine Within.seq (modifyNode_booked hb id fun k hk => ?_) fun _ s' h =>
      Within.pure (Booked.refl h.books) _
    rw [hi] at hk
    cases hk
  · exact Within.pure (Booked.refl hb) _

/-- Changing the tracker keeps the books. -/
theorem modifyTracker_booked (hb : Books s) (g : Tracker → Tracker) :
    Within Booked (modifyTracker g) s :=
  Ensures.modify (Booked.of_feeds_eq (hb.frame (fun _ => rfl) rfl rfl rfl hb.holder) rfl rfl)

/-- Stopping the feeds of a subtree keeps the books. -/
theorem stopFeedsWithin_booked (fuel : Nat) :
    ∀ (s : State) (id : InlaidId), Books s → Within Booked (stopFeedsWithin fuel id) s := by
  induction fuel with
  | zero => exact fun s _ hb => Within.pure (Booked.refl hb) _
  | succ fuel ih =>
    intro s id hb
    unfold stopFeedsWithin
    refine Within.seq (takeFeed_booked hb id) fun r s₁ h₁ => ?_
    have hloop : ∀ t, Books t → Within Booked (do
        let t' ← get
        forIn (t'.node id).children PUnit.unit fun c _ => do
          stopFeedsWithin fuel c
          pure (ForInStep.yield PUnit.unit)
        pure () : Run Unit) t := fun t ht =>
      Within.get (Within.seq (Within.forIn_rounds (Booked.refl ht) (fun c _ t' h => Within.seq
        (ih t' c h.books) fun _ t'' h'' => Within.pure (Booked.refl h''.books) _) _ _)
        fun _ t' h => Within.pure (Booked.refl h.books) _)
    rcases r with _ | f <;> dsimp only
    · exact hloop s₁ h₁.books
    · exact Within.seq (stopFeed_booked h₁.books f) fun _ s₂ h₂ => hloop s₂ h₂.books

theorem stopFeeds_booked (hb : Books s) (id : InlaidId) : Within Booked (stopFeeds id) s :=
  Within.get (stopFeedsWithin_booked _ s id hb)

/-- Removing a subtree keeps the books. -/
theorem removeWithin_booked (fuel : Nat) :
    ∀ (s : State) (id : InlaidId), Books s → Within Booked (removeWithin fuel id) s := by
  induction fuel with
  | zero => exact fun s _ hb => Within.pure (Booked.refl hb) _
  | succ fuel ih =>
    intro s id hb
    unfold removeWithin
    refine Within.get (Within.seq (Ensures.ofExcept (fun _ _ => Booked.refl hb)
      fun _ _ => Booked.refl hb) fun _ s₁ h₁ => ?_)
    refine Within.seq (modifyNode_booked_keep h₁.books id fun _ => rfl) fun _ s₂ h₂ => ?_
    refine Within.get (Within.seq (Within.forIn_rounds (Booked.refl h₂.books)
      (fun c _ t h => Within.seq (ih t c h.books) fun _ t' h' =>
        Within.pure (Booked.refl h'.books) _) _ _) fun _ s₃ h₃ => ?_)
    refine Within.seq (takeFeed_booked h₃.books id) fun r s₄ h₄ => ?_
    rcases r with _ | f <;> dsimp only
    · exact Within.pure (Booked.refl h₄.books) _
    · exact Within.seq (stopFeed_booked h₄.books f) fun _ s₅ h₅ =>
        modifyNode_booked_keep h₅.books id fun m => by cases m.inlining <;> rfl

theorem remove_booked (hb : Books s) (id : InlaidId) : Within Booked (remove id) s :=
  Within.get (removeWithin_booked _ s id hb)

/-- `create fuel` keeps the books. -/
def CreateBooked (fuel : Nat) : Prop :=
  ∀ (placement : Placement) (parent : Option InlaidId) (src : SourceId) (s : State), Books s →
    Within Booked (create fuel placement parent src) s

/-- `expand fuel` keeps the books. -/
def ExpandBooked (fuel : Nat) : Prop :=
  ∀ (id : InlaidId) (name : String) (s : State), Books s → Within Booked (expand fuel id name) s

/-- `start fuel` keeps the books when it subscribes a running feed that holds no subscription. -/
def StartBooked (fuel : Nat) : Prop :=
  ∀ (f : SubscriberId) (s : State), Books s → f.val < s.feeds.size → (s.feed f).active = true →
    (s.feed f).subscription = none → Within Booked (start fuel f) s

/-- `fill fuel` keeps the books. -/
def FillBooked (fuel : Nat) : Prop :=
  ∀ (f : SubscriberId) (src : Option SourceId) (s : State), Books s → Within Booked (fill fuel f src) s

variable {fuel : Nat}

theorem create_booked_succ (hc : CreateBooked fuel) (he : ExpandBooked fuel) :
    CreateBooked (fuel + 1) := by
  intro placement parent src s hb
  rw [create]
  refine Within.get ?_
  dsimp only
  refine Within.seq (Ensures.ofExcept (fun _ _ => Booked.refl hb) fun _ _ => Booked.refl hb)
    fun _ s₁ h₁ => Within.seq (addNode_booked h₁.books ?_) fun id s₂ h₂ => ?_
  · cases (s.forest.node src).model <;> rfl
  refine Within.seq (Within.tryCatch ?_ fun e s₃ h₃ => Within.seq (stopFeeds_booked h₃.books id)
    fun _ s₄ h₄ => Within.throw (Booked.refl h₄.books) e) fun _ s₃ h₃ =>
      Within.pure (Booked.refl h₃.books) _
  refine Within.seq (Within.forIn_rounds (Booked.refl h₂.books) (fun c _ t h => ?_) _ _)
    fun _ t h => ?_
  · exact Within.seq (hc _ _ c t h.books) fun child t₁ h₁ => Within.seq
      (modifyNode_booked_keep h₁.books id fun _ => rfl) fun _ t₂ h₂ =>
        Within.pure (Booked.refl h₂.books) _
  · split
    · exact he id _ t h.books
    · exact Within.pure (Booked.refl h.books) _

theorem expand_booked_succ (hs : StartBooked fuel) : ExpandBooked (fuel + 1) := by
  intro id name s hb
  rw [expand]
  refine Within.get ?_
  dsimp only
  split <;> split
  case h_1.isTrue | h_2.isTrue => exact Within.pure (Booked.refl hb) _
  case h_1.isFalse | h_2.isFalse =>
    rcases hres : s.resolve name with _ | ⟨tree, announces⟩
    · exact Within.pure (Booked.refl hb) _
    refine Ensures.andThen (addFeed_booked hb rfl (hb.resolves name tree announces hres))
      fun g s₁ hs₁ => ?_
    obtain ⟨h₁, _, hg₁, hgf⟩ := hs₁
    refine (Within.seq (Within.tryCatch (hs g s₁ h₁.books hg₁ (by rw [hgf]) (by rw [hgf]))
      fun e s₂ h₂ => Within.seq (stopFeed_booked h₂.books g) fun _ s₃ h₃ =>
        Within.throw (Booked.refl h₃.books) e) fun _ s₂ h₂ =>
          modifyNode_booked h₂.books id fun k hk => ?_).imp fun _ h => h₁.trans h
    have hk' : ((s₂.node id).withFeed g).inlining.bind (·.feed) = some k := hk
    rw [Inlaid.Node.feed_withFeed] at hk'
    obtain ⟨_, _, rfl⟩ := Option.map_eq_some_iff.1 hk'
    rw [h₂.mount _ hg₁, hgf]

theorem start_booked_succ (hf : FillBooked fuel) : StartBooked (fuel + 1) := by
  intro f s hb hfs hact hnone
  rw [start]
  refine Within.seq (subscribe_booked hb hfs hact hnone) fun root s₁ h₁ => Within.get ?_
  split
  · exact Within.discard (hf f root s₁ h₁.books)
  · exact Within.pure (Booked.refl h₁.books) _

theorem fill_booked_succ (hc : CreateBooked fuel) : FillBooked (fuel + 1) := by
  intro f src s hb
  rw [fill]
  refine Within.get ?_
  dsimp only
  split
  · cases src <;> refine Within.seq ?_ fun root s₁ h₁ => Within.seq (modifyTracker_booked h₁.books _)
      fun _ s₂ h₂ => Within.pure (Booked.refl h₂.books) _
    · exact Within.pure (Booked.refl hb) _
    · exact Within.map (hc _ _ _ s hb)
  · cases src with
    | some src =>
      refine Within.seq (Ensures.ofExcept (fun _ _ => Booked.refl hb) fun _ _ => Booked.refl hb)
        fun _ s₁ h₁ => Within.seq (hc _ _ src s₁ h₁.books) fun hidden s₂ h₂ => Within.seq
          (modifyNode_booked_keep h₂.books _ fun m => Inlaid.Node.feed_attach m hidden)
          fun _ s₃ h₃ => Within.pure (Booked.refl h₃.books) _
    | none =>
      exact Within.seq (modifyNode_booked_keep hb _ Inlaid.Node.feed_detach) fun _ s₁ h₁ =>
        Within.pure (Booked.refl h₁.books) _

/-- The four builders keep the books at every fuel. -/
theorem build_booked (fuel : Nat) :
    CreateBooked fuel ∧ ExpandBooked fuel ∧ StartBooked fuel ∧ FillBooked fuel := by
  induction fuel with
  | zero =>
    refine ⟨fun placement parent src s hb => ?_, fun _ _ s hb => Within.pure (Booked.refl hb) _,
      fun f s hb hfs hact hnone => ?_, fun _ _ s hb => Within.pure (Booked.refl hb) _⟩
    · rw [create]
      exact addNode_booked hb rfl
    · rw [start]
      exact Within.discard (subscribe_booked hb hfs hact hnone)
  | succ fuel ih =>
    obtain ⟨hc, he, hs, hf⟩ := ih
    exact ⟨create_booked_succ hc he, expand_booked_succ hs, start_booked_succ hf,
      fill_booked_succ hc⟩

theorem nodeOf_booked (hb : Books s) (placement : Placement) (parent : Option InlaidId)
    (src : SourceId) : Within Booked (nodeOf placement parent src) s :=
  Within.get ((build_booked _).1 placement parent src s hb)

theorem fillMount_booked (hb : Books s) (f : SubscriberId) (src : Option SourceId) :
    Within Booked (fillMount f src) s :=
  Within.get ((build_booked _).2.2.2 f src s hb)

end Building

end Inlay.Sync
