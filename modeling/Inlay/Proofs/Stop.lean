import Inlay.Proofs.Heap

namespace Inlay

/-- A node that has lost its feed. -/
def Inlaid.Node.dropFeed (m : Inlaid.Node) : Inlaid.Node :=
  { m with inlining := m.inlining.map fun i => { i with feed := none } }

/-- A stopped feed: it ignores events and holds no subscription. -/
def Feed.halt (f : Feed) : Feed := { f with active := false, subscription := none }

@[simp] theorem Inlaid.Node.dropFeed_dropFeed (m : Inlaid.Node) :
    m.dropFeed.dropFeed = m.dropFeed := by
  simp [Inlaid.Node.dropFeed, Option.map_map, Function.comp_def]

theorem Inlaid.Node.dropFeed_of_inlining_none {m : Inlaid.Node} (h : m.inlining = none) :
    m.dropFeed = m := by
  cases m
  simp_all [Inlaid.Node.dropFeed]

@[simp] theorem Inlaid.Node.children_dropFeed (m : Inlaid.Node) :
    m.dropFeed.children = m.children := rfl

theorem Inlaid.Node.hidden_dropFeed (m : Inlaid.Node) :
    m.dropFeed.inlining.bind (·.hidden) = m.inlining.bind (·.hidden) := by
  cases hm : m.inlining <;> simp [Inlaid.Node.dropFeed, hm]

theorem Inlaid.Node.feed_dropFeed (m : Inlaid.Node) : m.dropFeed.inlining.bind (·.feed) = none := by
  cases hm : m.inlining <;> simp [Inlaid.Node.dropFeed, hm]

@[simp] theorem Feed.halt_halt (f : Feed) : f.halt.halt = f.halt := rfl

@[simp] theorem Feed.halt_default : (default : Feed).halt = default := rfl

namespace Sync

/-- The parts of a session that building and stopping leave alone: the tracker, the listeners and
journal, the library and resolver, and the source nodes. -/
structure Steady (s s' : State) : Prop where
  tracker : s'.tracker = s.tracker
  listeners : s'.listeners = s.listeners
  journal : s'.journal = s.journal
  library : s'.library = s.library
  resolver : s'.resolver = s.resolver
  forest_nodes : s'.forest.nodes = s.forest.nodes

theorem Steady.refl (s : State) : Steady s s := ⟨rfl, rfl, rfl, rfl, rfl, rfl⟩

theorem Steady.trans {s₁ s₂ s₃ : State} (h₁ : Steady s₁ s₂) (h₂ : Steady s₂ s₃) :
    Steady s₁ s₃ :=
  ⟨h₂.tracker.trans h₁.tracker, h₂.listeners.trans h₁.listeners, h₂.journal.trans h₁.journal,
    h₂.library.trans h₁.library, h₂.resolver.trans h₁.resolver,
    h₂.forest_nodes.trans h₁.forest_nodes⟩

variable {E : Fault → State → Prop}

/-- Stopping a feed, read back: also a feed beyond the heap reads as stopped. -/
theorem State.feed_of_halt {s s' : State} {f : SubscriberId}
    (h : s'.feeds = s.feeds.modify f.val Feed.halt) (g : SubscriberId) :
    s'.feed g = if f = g then (s.feed g).halt else s.feed g := by
  rw [State.feed_of_modify h]
  by_cases hfg : f = g
  · subst hfg
    by_cases hlt : f.val < s.feeds.size
    · simp [hlt]
    · simp [hlt, State.feed_of_size_le (Nat.le_of_not_lt hlt)]
  · simp [hfg]

theorem stopFeed_spec (f : SubscriberId) (s : State) :
    Ensures (stopFeed f) s (fun _ s' => Steady s s' ∧ s'.nodes = s.nodes ∧
      s'.feeds = s.feeds.modify f.val Feed.halt) E := by
  unfold stopFeed
  apply Ensures.bind; apply Ensures.get
  apply Ensures.bind; apply Ensures.modify
  split
  · exact Ensures.modify ⟨⟨rfl, rfl, rfl, rfl, rfl, rfl⟩, rfl, rfl⟩
  · exact Ensures.pure ⟨⟨rfl, rfl, rfl, rfl, rfl, rfl⟩, rfl, rfl⟩

theorem takeFeed_spec (id : InlaidId) (s : State) :
    Ensures (takeFeed id) s (fun r s' => r = s.feedOf id ∧ Steady s s' ∧
      s'.nodes = s.nodes.modify id.val Inlaid.Node.dropFeed ∧ s'.feeds = s.feeds) E := by
  unfold takeFeed
  apply Ensures.bind; apply Ensures.get
  split
  · rename_i i hi
    apply Ensures.bind; apply Ensures.modify
    refine Ensures.pure ⟨by simp [State.feedOf, hi], ⟨rfl, rfl, rfl, rfl, rfl, rfl⟩, rfl, rfl⟩
  · rename_i hi
    refine Ensures.pure ⟨by simp [State.feedOf, hi], ⟨rfl, rfl, rfl, rfl, rfl, rfl⟩, ?_, rfl⟩
    show s.nodes = _
    apply Array.ext
    · simp
    · intro i h₁ h₂
      rw [Array.getElem_modify]
      split
      · rename_i hid
        subst hid
        have hnode : s.nodes[id.val] = s.node id := by
          simp [State.node, Array.getD_eq_getD_getElem?, Array.getElem?_eq_getElem h₁]
        rw [hnode, Inlaid.Node.dropFeed_of_inlining_none hi]
      · rfl

section Halting

variable {s s' : State} {id : InlaidId}

/-- `s'` is `s` with some nodes below `id` stripped of their feeds and those feeds stopped. -/
structure StopsBelow (s s' : State) (id : InlaidId) : Prop where
  steady : Steady s s'
  nodes_size : s'.nodes.size = s.nodes.size
  feeds_size : s'.feeds.size = s.feeds.size
  node : ∀ x, s'.node x = s.node x ∨ (Below s id x ∧ s'.node x = (s.node x).dropFeed)
  feed : ∀ g, s'.feed g = s.feed g ∨
    (∃ y, Below s id y ∧ s.feedOf y = some g ∧ s'.feed g = (s.feed g).halt)
  /-- A node loses its feed only when that feed stops. -/
  dropped : ∀ x g, s.feedOf x = some g → s'.feedOf x = none → (s'.feed g).active = false

theorem StopsBelow.refl (s : State) (id : InlaidId) : StopsBelow s s id :=
  ⟨Steady.refl s, rfl, rfl, fun _ => .inl rfl, fun _ => .inl rfl, fun _ _ h h' => by
    rw [h'] at h; cases h⟩

theorem StopsBelow.children (h : StopsBelow s s' id) (x : InlaidId) :
    (s'.node x).children = (s.node x).children := by
  rcases h.node x with hx | ⟨_, hx⟩ <;> rw [hx]
  rfl

theorem StopsBelow.below_iff (h : StopsBelow s s' id) {top x : InlaidId} :
    Below s' top x ↔ Below s top x :=
  below_iff_of_children_eq fun y _ => h.children y

theorem StopsBelow.feedOf (h : StopsBelow s s' id) (x : InlaidId) :
    s'.feedOf x = s.feedOf x ∨ s'.feedOf x = none := by
  rcases h.node x with hx | ⟨_, hx⟩
  · exact .inl (by simp [State.feedOf, hx])
  · refine .inr ?_
    simp only [State.feedOf, hx, Inlaid.Node.dropFeed]
    cases (s.node x).inlining <;> rfl

theorem StopsBelow.arena (h : StopsBelow s s' id) (ha : Arena s) : Arena s' := by
  have hmount : ∀ g, (s'.feed g).mount = (s.feed g).mount := fun g => by
    rcases h.feed g with hg | ⟨_, _, _, hg⟩ <;> rw [hg]
    rfl
  have hsize := h.nodes_size
  refine ⟨fun x c hc => ?_, fun x c hc => ?_, fun x => ?_, fun x hx => ?_, fun g o hg => ?_,
    fun x k hk => ?_, fun x p hp => ?_⟩
  · rw [h.children] at hc
    rw [hsize]
    exact ha.child_bound x c hc
  · rw [h.children] at hc
    rcases h.node c with e | ⟨_, e⟩ <;> rw [e]
    · exact ha.child_parent x c hc
    · exact ha.child_parent x c hc
  · rw [h.children]
    exact ha.nodup x
  · have hsrc : s'.forest.node = s.forest.node := by
      funext y; simp [Source.Forest.node, h.steady.forest_nodes]
    rcases h.node x with e | ⟨_, e⟩
    · rw [e, hsrc] at hx
      rw [e]
      exact ha.plain x hx
    · rw [hsrc, e] at hx
      rw [e, Inlaid.Node.dropFeed, ha.plain x hx, Option.map_none]
  · rw [hmount] at hg
    rw [hsize]
    exact ha.mount_bound g o hg
  · rw [h.children]
    apply ha.hidden_last x k
    rcases h.node x with e | ⟨_, e⟩
    · simpa [State.hiddenOf, e] using hk
    · simpa [State.hiddenOf, e, Inlaid.Node.hidden_dropFeed] using hk
  · rw [hsize]
    rcases h.node x with e | ⟨_, e⟩ <;> rw [e] at hp
    · exact ha.parent_bound x p hp
    · exact ha.parent_bound x p hp

theorem StopsBelow.trans {s₁ s₂ s₃ : State} {a b : InlaidId} (h₁ : StopsBelow s₁ s₂ a)
    (h₂ : StopsBelow s₂ s₃ b) (hab : Below s₁ a b) : StopsBelow s₁ s₃ a := by
  refine ⟨h₁.steady.trans h₂.steady, h₂.nodes_size.trans h₁.nodes_size,
    h₂.feeds_size.trans h₁.feeds_size, fun x => ?_, fun g => ?_, fun x g hg h₃ => ?_⟩
  · rcases h₂.node x with e₂ | ⟨hb, e₂⟩
    · rw [e₂]; exact h₁.node x
    · rw [h₁.below_iff] at hb
      refine .inr ⟨hab.trans hb, ?_⟩
      rw [e₂]
      rcases h₁.node x with e₁ | ⟨_, e₁⟩ <;> rw [e₁]
      simp
  · rcases h₂.feed g with e₂ | ⟨y, hb, hy, e₂⟩
    · rw [e₂]; exact h₁.feed g
    · rw [h₁.below_iff] at hb
      refine .inr ⟨y, hab.trans hb, ?_, ?_⟩
      · rcases h₁.feedOf y with e | e
        · rw [← e]; exact hy
        · rw [e] at hy; cases hy
      · rw [e₂]
        rcases h₁.feed g with e₁ | ⟨_, _, _, e₁⟩ <;> rw [e₁]
        simp
  · rcases h₁.feedOf x with e | e
    · exact h₂.dropped x g (by rw [e]; exact hg) h₃
    · have h₂g := h₁.dropped x g hg e
      rcases h₂.feed g with e₂ | ⟨_, _, _, e₂⟩ <;> rw [e₂]
      · exact h₂g
      · rfl

end Halting

/-- A stopped feed stays stopped. -/
theorem StopsBelow.stopped {s s' : State} {id : InlaidId} (h : StopsBelow s s' id) {g : SubscriberId}
    (hg : (s.feed g).active = false) : (s'.feed g).active = false := by
  rcases h.feed g with e | ⟨_, _, _, e⟩ <;> rw [e]
  · exact hg
  · rfl

/-- Stopping the feeds of a subtree never fails, and only strips nodes below it of their feeds
and stops those feeds; with fuel for the depth of the subtree, it stops every feed that a node of
the subtree holds. -/
theorem stopFeedsWithin_spec (fuel : Nat) :
    ∀ (s : State) (id : InlaidId),
      Ensures (stopFeedsWithin fuel id) s (fun _ s' => StopsBelow s s' id ∧
        (Arena s → (∀ y, Below s id y → y.val < id.val + fuel) →
          ∀ y g, Below s id y → s.feedOf y = some g → (s'.feed g).active = false))
        (fun _ _ => False) := by
  induction fuel with
  | zero =>
    intro s id
    exact Ensures.pure ⟨StopsBelow.refl s id, fun _ hdepth => absurd (hdepth id .refl)
      (Nat.lt_irrefl _)⟩
  | succ fuel ih =>
    intro s id
    unfold stopFeedsWithin
    refine Ensures.andThen (takeFeed_spec id s) fun r s₁ h₁ => ?_
    obtain ⟨hr, hst₁, hn₁, hf₁⟩ := h₁
    have hnode₁ := State.node_of_modify hn₁
    have hfeed₁ : ∀ g, s₁.feed g = s.feed g := fun g => by simp [State.feed, hf₁]
    have hnode_ok : ∀ x, s₁.node x = s.node x ∨ (Below s id x ∧ s₁.node x = (s.node x).dropFeed) :=
      fun x => by
        rw [hnode₁]
        split
        · rename_i h; obtain ⟨rfl, _⟩ := h; exact .inr ⟨.refl, rfl⟩
        · exact .inl rfl
    have hfeedOf₁ : ∀ x, x ≠ id → s₁.feedOf x = s.feedOf x := fun x hx => by
      simp only [State.feedOf, hnode₁, if_neg fun h : id = x ∧ _ => hx h.1.symm]
    let Done : List InlaidId → State → Prop := fun rest t => StopsBelow s t id ∧
      rest ⊆ (s.node id).children ∧ (Arena s → (∀ y, Below s id y → y.val < id.val + (fuel + 1)) →
        ∀ y g, Below s id y → s.feedOf y = some g →
          (y = id ∨ ∃ c ∈ (s.node id).children, c ∉ rest ∧ Below s c y) →
            (t.feed g).active = false)
    have hloop : ∀ s₂, Done (s.node id).children s₂ → Ensures (forIn (s₂.node id).children
        PUnit.unit fun c _ => do stopFeedsWithin fuel c; Pure.pure (ForInStep.yield PUnit.unit)) s₂
        (fun _ s' => StopsBelow s s' id ∧ (Arena s →
          (∀ y, Below s id y → y.val < id.val + (fuel + 1)) →
            ∀ y g, Below s id y → s.feedOf y = some g → (s'.feed g).active = false))
        fun _ _ => False := by
      intro s₂ hdone₂
      rw [hdone₂.1.children id]
      have hcover : ∀ y, Below s id y →
          y = id ∨ ∃ c ∈ (s.node id).children, c ∉ ([] : List InlaidId) ∧ Below s c y :=
        fun y hy => by
          rcases hy.cases_head with rfl | ⟨c, hc, hcy⟩
          · exact .inl rfl
          · exact .inr ⟨c, hc, List.not_mem_nil, hcy⟩
      refine (Ensures.forIn (I := Done) (fun c rest t hI => ?_) _ s₂ hdone₂).mono
        (fun _ _ hI => ⟨hI.1, fun ha hdepth y g hy hg =>
          hI.2.2 ha hdepth y g hy hg (hcover y hy)⟩) (fun _ _ h => h)
      obtain ⟨h, hsub, hdone⟩ := hI
      have hc : c ∈ (s.node id).children := hsub List.mem_cons_self
      refine Ensures.andThen (ih t c) fun _ t' hc' => ?_
      obtain ⟨h', hall⟩ := hc'
      refine Ensures.pure ⟨rfl, h.trans h' (Below.single hc), fun x hx => hsub (.tail _ hx),
        fun ha hdepth y g hy hg hwhere => ?_⟩
      by_cases hnew : ∃ c' ∈ (s.node id).children, c' ∉ c :: rest ∧ Below s c' y
      · exact h'.stopped (hdone ha hdepth y g hy hg (.inr hnew))
      · rcases hwhere with rfl | ⟨c', hc', hc'rest, hcy⟩
        · exact h'.stopped (hdone ha hdepth y g hy hg (.inl rfl))
        have hcc : c' = c := by
          by_cases hne : c' = c
          · exact hne
          · exact absurd ⟨c', hc', fun hm => (List.mem_cons.1 hm).elim hne hc'rest, hcy⟩ hnew
        subst hcc
        have hat : Arena t := h.arena ha
        have hlt : id.val < c'.val := (ha.child_bound id c' hc).1
        have hdepth' : ∀ z, Below t c' z → z.val < c'.val + fuel := fun z hz => by
          have := hdepth z ((Below.single hc).trans (h.below_iff.1 hz))
          omega
        rcases h.feedOf y with e | e
        · exact hall hat hdepth' y g (h.below_iff.2 hcy) (by rw [e]; exact hg)
        · exact h'.stopped (h.dropped y g hg e)
    rcases r with _ | f <;> dsimp only
    · have hstop₁ : StopsBelow s s₁ id := by
        refine ⟨hst₁, by simp [hn₁], by simp [hf₁], hnode_ok, fun g => .inl (hfeed₁ g),
          fun x g hg h₁ => ?_⟩
        by_cases hx : x = id
        · subst hx; rw [← hr] at hg; cases hg
        · rw [hfeedOf₁ x hx, hg] at h₁; cases h₁
      apply Ensures.bind; apply Ensures.get
      refine Ensures.andThen (hloop s₁ ⟨hstop₁, List.Subset.refl _, fun _ _ y g _ hg hwhere => ?_⟩)
        fun _ _ h => Ensures.pure h
      rcases hwhere with rfl | ⟨c, _, hc, _⟩
      · rw [← hr] at hg; cases hg
      · exact absurd hc (by simp_all)
    · refine Ensures.andThen (stopFeed_spec f s₁) fun _ s₂ h₂ => ?_
      obtain ⟨hst₂, hn₂, hfs₂⟩ := h₂
      have hsame₂ : ∀ x, s₂.node x = s₁.node x := fun x => by simp [State.node, hn₂]
      have hstop₂ : StopsBelow s s₂ id := by
        refine ⟨hst₁.trans hst₂, by rw [hn₂]; simp [hn₁],
          by rw [hfs₂, Array.size_modify]; simp [hf₁],
          fun x => by rw [hsame₂]; exact hnode_ok x, fun g => ?_, fun x g hg h₂ => ?_⟩
        · rw [State.feed_of_modify hfs₂]
          split
          · rename_i h
            obtain ⟨rfl, _⟩ := h
            exact .inr ⟨id, .refl, hr.symm, by rw [hfeed₁]⟩
          · rw [hfeed₁]
            exact .inl rfl
        · by_cases hx : x = id
          · subst hx
            rw [← hr] at hg
            cases hg
            rw [State.feed_of_halt hfs₂, if_pos rfl]
            rfl
          · rw [show s₂.feedOf x = s₁.feedOf x by simp [State.feedOf, hsame₂], hfeedOf₁ x hx,
              hg] at h₂
            cases h₂
      apply Ensures.bind; apply Ensures.get
      refine Ensures.andThen (hloop s₂ ⟨hstop₂, List.Subset.refl _, fun _ _ y g _ hg hwhere => ?_⟩)
        fun _ _ h => Ensures.pure h
      rcases hwhere with rfl | ⟨c, _, hc, _⟩
      · rw [← hr] at hg
        cases hg
        rw [State.feed_of_halt hfs₂, if_pos rfl]
        rfl
      · exact absurd hc (by simp_all)

end Sync

end Inlay
