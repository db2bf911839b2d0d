import Inlay.Proofs.Events

namespace Inlay.Sync

variable {s s' s₁ s₂ s₃ : State} {f : Source.Forest}

section Rooted

/-- What following an event keeps of the source side: the forest's nodes, every tree's root and
served model, the resolver and the library, the tracker's presence, and the tree of every feed. -/
structure Rooted (s s' : State) : Prop where
  forest_nodes : s'.forest.nodes = s.forest.nodes
  trees : ∀ T, (s'.forest.tree T).root = (s.forest.tree T).root ∧
    (s'.forest.tree T).serving = (s.forest.tree T).serving
  resolver : s'.resolver = s.resolver
  library : s'.library = s.library
  present : s'.tracker.present = s.tracker.present
  feeds_le : s.feeds.size ≤ s'.feeds.size
  follows : ∀ g, g.val < s.feeds.size → (s'.feed g).tree = (s.feed g).tree

theorem Rooted.refl (s : State) : Rooted s s :=
  ⟨rfl, fun _ => ⟨rfl, rfl⟩, rfl, rfl, rfl, Nat.le_refl _, fun _ _ => rfl⟩

theorem Rooted.trans (h₁ : Rooted s₁ s₂) (h₂ : Rooted s₂ s₃) : Rooted s₁ s₃ :=
  ⟨h₂.forest_nodes.trans h₁.forest_nodes,
    fun T => ⟨(h₂.trees T).1.trans (h₁.trees T).1, (h₂.trees T).2.trans (h₁.trees T).2⟩,
    h₂.resolver.trans h₁.resolver, h₂.library.trans h₁.library, h₂.present.trans h₁.present,
    Nat.le_trans h₁.feeds_le h₂.feeds_le,
    fun g hg => (h₂.follows g (Nat.lt_of_lt_of_le hg h₁.feeds_le)).trans (h₁.follows g hg)⟩

instance : Trans Rooted Rooted Rooted := ⟨Rooted.trans⟩

/-- A change of the heap, the tracker's root, feed or listeners, the listeners or the journal. -/
theorem Rooted.of_eq (hforest : s'.forest = s.forest) (hres : s'.resolver = s.resolver)
    (hlib : s'.library = s.library) (hpres : s'.tracker.present = s.tracker.present)
    (hfeeds : s'.feeds = s.feeds) : Rooted s s' :=
  ⟨by rw [hforest], fun T => by rw [hforest]; exact ⟨rfl, rfl⟩, hres, hlib, hpres,
    Nat.le_of_eq (by rw [hfeeds]), fun g _ => by simp only [State.feed, hfeeds]⟩

theorem Rooted.resolve (h : Rooted s s') (m : String) : s'.resolve m = s.resolve m := by
  simp only [State.resolve, h.resolver, h.library]

theorem Rooted.forest_node (h : Rooted s s') (u : SourceId) : s'.forest.node u = s.forest.node u := by
  simp only [Source.Forest.node, h.forest_nodes]

/-- The ground of a forest reads only what a rooted change keeps. -/
theorem Ground.rooted (hg : Ground f s) (h : Rooted s s') : Ground f s' :=
  ⟨h.forest_nodes.trans hg.nodes, fun T => (h.trees T).1.trans (hg.roots T),
    by rw [h.present]; exact hg.present, fun m T hm => by
      rw [(h.trees T).2]
      exact hg.serves m T (by rwa [h.resolve] at hm)⟩

theorem modifyNode_rooted (id : InlaidId) (g : Inlaid.Node → Inlaid.Node) :
    Within Rooted (modifyNode id g) s :=
  Ensures.modify (Rooted.of_eq rfl rfl rfl rfl rfl)

theorem modifyTracker_rooted {g : Tracker → Tracker} (hg : (g s.tracker).present = s.tracker.present) :
    Within Rooted (modifyTracker g) s :=
  Ensures.modify (Rooted.of_eq rfl rfl rfl hg rfl)

theorem takeFeed_rooted (id : InlaidId) : Within Rooted (takeFeed id) s := by
  unfold takeFeed
  refine Within.get ?_
  split
  · exact Within.seq (modifyNode_rooted id _) fun _ s' _ => Within.pure (Rooted.refl s') _
  · exact Within.pure (Rooted.refl s) _

/-- Stopping a feed keeps its tree, and takes it out of that tree's table only. -/
theorem stopFeed_rooted (g : SubscriberId) : Within Rooted (stopFeed g) s := by
  unfold stopFeed
  refine Within.get (Within.seq (Ensures.modify ⟨rfl, fun _ => ⟨rfl, rfl⟩, rfl, rfl, rfl,
    Nat.le_of_eq (Array.size_modify ..).symm, fun k _ => ?_⟩) fun _ s₁ _ => ?_)
  · simp only [State.feed, getD_modify]
    split <;> rfl
  · split
    · refine Ensures.modify ⟨rfl, fun T => ?_, rfl, rfl, rfl, Nat.le_refl _, fun _ _ => rfl⟩
      rw [Source.Forest.tree_modifyTree]
      split
      · split <;> exact ⟨rfl, rfl⟩
      · exact ⟨rfl, rfl⟩
    · exact Within.pure (Rooted.refl s₁) _

theorem stopFeedsWithin_rooted (fuel : Nat) :
    ∀ (s : State) (id : InlaidId), Within Rooted (stopFeedsWithin fuel id) s := by
  induction fuel with
  | zero => exact fun s _ => Within.pure (Rooted.refl s) _
  | succ fuel ih =>
    intro s id
    unfold stopFeedsWithin
    refine Within.seq (takeFeed_rooted id) fun r s₁ _ => ?_
    have hloop : ∀ t, Within Rooted (do
        let t' ← get
        forIn (t'.node id).children PUnit.unit fun c _ => do
          stopFeedsWithin fuel c
          pure (ForInStep.yield PUnit.unit)
        pure () : Run Unit) t := fun t =>
      Within.get (Within.seq (Within.forIn_rounds (Rooted.refl t) (fun c _ t' _ => Within.seq
        (ih t' c) fun _ t'' _ => Within.pure (Rooted.refl t'') _) _ _)
        fun _ t' _ => Within.pure (Rooted.refl t') _)
    rcases r with _ | g <;> dsimp only
    · exact hloop s₁
    · exact Within.seq (stopFeed_rooted g) fun _ s₂ _ => hloop s₂

theorem stopFeeds_rooted (id : InlaidId) : Within Rooted (stopFeeds id) s :=
  Within.get (stopFeedsWithin_rooted _ s id)

theorem removeWithin_rooted (fuel : Nat) :
    ∀ (s : State) (id : InlaidId), Within Rooted (removeWithin fuel id) s := by
  induction fuel with
  | zero => exact fun s _ => Within.pure (Rooted.refl s) _
  | succ fuel ih =>
    intro s id
    unfold removeWithin
    refine Within.get (Within.seq (Ensures.ofExcept (fun _ _ => Rooted.refl s)
      fun _ _ => Rooted.refl s) fun _ s₁ _ => ?_)
    refine Within.seq (modifyNode_rooted id _) fun _ s₂ _ => ?_
    refine Within.get (Within.seq (Within.forIn_rounds (Rooted.refl s₂)
      (fun c _ t _ => Within.seq (ih t c) fun _ t' _ => Within.pure (Rooted.refl t') _) _ _)
      fun _ s₃ _ => ?_)
    refine Within.seq (takeFeed_rooted id) fun r s₄ _ => ?_
    rcases r with _ | g <;> dsimp only
    · exact Within.pure (Rooted.refl s₄) _
    · exact Within.seq (stopFeed_rooted g) fun _ _ _ => modifyNode_rooted id _

theorem remove_rooted (id : InlaidId) : Within Rooted (remove id) s :=
  Within.get (removeWithin_rooted _ s id)

theorem stopTracking_rooted : Within Rooted stopTracking s := by
  unfold stopTracking
  refine Within.get ?_
  dsimp only
  refine Within.seq (modifyTracker_rooted rfl) fun _ s₁ _ => ?_
  refine Within.seq (Within.tryCatch ?_ fun e s' _ => Within.pure (Rooted.refl s') _)
    fun frozen s₂ _ => Within.get ?_
  · split
    · exact Within.seq (remove_rooted _) fun _ s' _ => Within.pure (Rooted.refl s') _
    · exact Within.pure (Rooted.refl s₁) _
  have hjoin := fun s₃ => stopTracking_rest_within (Rooted.refl s₃) (fun {_ t₂} _ => Rooted.refl t₂)
    (fun _ _ _ => stopFeeds_rooted _) frozen s.tracker.root
  split
  · exact Within.seq (modifyTracker_rooted rfl) fun _ _ _ =>
      Within.seq (stopFeed_rooted _) fun _ s₄ _ => hjoin s₄
  · exact hjoin s₂

end Rooted

section Hushed

/-- A change that keeps the tracker's feed. -/
abbrev SameFeed (s s' : State) : Prop := s'.tracker.feed = s.tracker.feed

theorem SameFeed.trans (h₁ : SameFeed s₁ s₂) (h₂ : SameFeed s₂ s₃) : SameFeed s₁ s₃ :=
  Eq.trans h₂ h₁

instance : Trans SameFeed SameFeed SameFeed := ⟨SameFeed.trans⟩

theorem Steady.sameFeed (h : Steady s s') : SameFeed s s' := by
  unfold SameFeed
  rw [h.tracker]

/-- Stopping the tracker leaves it with no feed, however the freeze ends. -/
theorem stopTracking_unfeeds :
    Ensures stopTracking s (fun _ s' => s'.tracker.feed = none) fun _ s' => s'.tracker.feed = none := by
  unfold stopTracking
  refine Ensures.bind (Ensures.get ?_)
  dsimp only
  have hrest := fun t frozen => stopTracking_rest_within (R := SameFeed) (t := t) rfl (fun _ => rfl)
    (fun _ r _ => (stopFeeds_spec (E := fun _ _ => False) r _).mono (fun _ _ h => h.steady.sameFeed)
      fun _ _ h => h.elim) frozen s.tracker.root
  refine Ensures.andThen (P := fun _ s₁ => SameFeed s s₁) (Ensures.modify rfl) fun _ s₁ h₁ => ?_
  refine Ensures.andThen (P := fun _ s₂ => SameFeed s s₂) (Ensures.tryCatch ?_) fun frozen s₂ h₂ => ?_
  · split
    · refine Ensures.andThen ((remove_trims _ s₁).mono (fun _ _ h => h₁.trans h.steady.sameFeed)
        fun _ _ h => Ensures.pure (h₁.trans h.steady.sameFeed)) fun _ _ h => Ensures.pure h
    · exact Ensures.pure h₁
  refine Ensures.bind (Ensures.get ?_)
  split
  · refine Ensures.andThen (P := fun _ s₃ => s₃.tracker.feed = none) (Ensures.modify rfl)
      fun _ s₃ h₃ => ?_
    refine Ensures.andThen (P := fun _ s₄ => s₄.tracker.feed = none)
      ((stopFeed_spec (E := fun _ _ => False) _ s₃).mono (fun _ _ h => Eq.trans h.1.sameFeed h₃)
        fun _ _ h => h.elim) fun _ s₄ h₄ => ?_
    exact (hrest s₄ frozen).mono (fun _ _ h => Eq.trans h h₄) fun _ _ h => Eq.trans h h₄
  · rename_i hnone
    have hnone' : s₂.tracker.feed = none := by
      cases h : s₂.tracker.feed with
      | none => rfl
      | some g => exact (hnone g h).elim
    exact (hrest s₂ frozen).mono (fun _ _ h => Eq.trans h hnone') fun _ _ h => Eq.trans h hnone'

/-- What telling the listeners keeps: the source side, and either the heap, the feeds and the
tracker's root and feed, or only that the tracker follows nothing any more. -/
structure Hushed (s s' : State) : Prop where
  rooted : Rooted s s'
  calm : (s'.nodes = s.nodes ∧ s'.feeds = s.feeds ∧ s'.tracker.root = s.tracker.root ∧
    s'.tracker.feed = s.tracker.feed) ∨ s'.tracker.feed = none

theorem Hushed.refl (s : State) : Hushed s s := ⟨Rooted.refl s, .inl ⟨rfl, rfl, rfl, rfl⟩⟩

theorem Hushed.trans (h₁ : Hushed s₁ s₂) (h₂ : Hushed s₂ s₃) : Hushed s₁ s₃ := by
  refine ⟨h₁.rooted.trans h₂.rooted, ?_⟩
  rcases h₂.calm with ⟨hn, hf, hr, hfe⟩ | h
  · rcases h₁.calm with ⟨hn', hf', hr', hfe'⟩ | h'
    · exact .inl ⟨hn.trans hn', hf.trans hf', hr.trans hr', hfe.trans hfe'⟩
    · exact .inr (hfe.trans h')
  · exact .inr h

instance : Trans Hushed Hushed Hushed := ⟨Hushed.trans⟩

/-- A change of the listeners, the journal or the tracker's listener slots. -/
theorem Hushed.of_eq (hforest : s'.forest = s.forest) (hres : s'.resolver = s.resolver)
    (hlib : s'.library = s.library) (hn : s'.nodes = s.nodes) (hf : s'.feeds = s.feeds)
    (hroot : s'.tracker.root = s.tracker.root) (hfeed : s'.tracker.feed = s.tracker.feed)
    (hpres : s'.tracker.present = s.tracker.present) : Hushed s s' :=
  ⟨Rooted.of_eq hforest hres hlib hpres hf, .inl ⟨hn, hf, hroot, hfeed⟩⟩

/-- Unregistering a listener keeps the heap, or stops the tracker. -/
theorem removeListener_hushed (h : Handle) : Within Hushed (removeListener h) s := by
  unfold removeListener
  refine Within.get ?_
  split
  · exact Within.pure (Hushed.refl s) _
  · refine Within.seq (Ensures.modify (Hushed.of_eq rfl rfl rfl rfl rfl rfl rfl rfl))
      fun _ s₁ _ => ?_
    dsimp only
    split
    · exact Within.seq ((stopTracking_rooted.and stopTracking_unfeeds).mono
        (fun _ _ h => ⟨h.1, .inr h.2⟩) fun _ _ h => ⟨h.1, .inr h.2⟩) fun _ s₂ _ =>
          Within.pure (Hushed.refl s₂) _
    · exact Within.pure (Hushed.refl s₁) _

/-- A listener hearing of a change writes it down or keeps it, and may leave. -/
theorem hear_hushed (lid : ListenerId) (change : Change) (node : InlaidId) :
    Within Hushed (hear lid change node) s := by
  unfold hear
  refine Within.get ?_
  split
  · dsimp only
    refine Within.seq (Ensures.modify (Hushed.of_eq rfl rfl rfl rfl rfl rfl rfl rfl))
      fun _ s₁ _ => ?_
    split
    · refine Within.seq (Ensures.modify (Hushed.of_eq rfl rfl rfl rfl rfl rfl rfl rfl))
        fun _ s₂ _ => ?_
      refine Within.seq (Within.tryCatch ?_ fun _ s₃ _ => Within.pure (Hushed.refl s₃) _)
        fun _ s₃ _ => Ensures.modify (Hushed.of_eq rfl rfl rfl rfl rfl rfl rfl rfl)
      split
      · exact Within.map (removeListener_hushed _)
      · exact Within.pure (Hushed.refl s₂) _
    · exact Within.pure (Hushed.refl s₁) _
  · exact Ensures.modify (Hushed.of_eq rfl rfl rfl rfl rfl rfl rfl rfl)
  · exact Within.pure (Hushed.refl s) _

/-- Telling every listener of a change keeps the heap, or stops the tracker. -/
theorem notify_hushed (change : Change) (node : InlaidId) : Within Hushed (notify change node) s := by
  unfold notify
  refine Within.get ?_
  split
  · exact Within.seq (Within.forIn (Hushed.refl s) (fun lid _ _ => hear_hushed lid change node) _)
      fun _ s' _ => Within.pure (Hushed.refl s') _
  · exact Within.pure (Hushed.refl s) _

end Hushed

section InSync

variable {V : SubscriberId → Source.Forest} {a x : InlaidId}

theorem Above.of_parents (hp : ∀ y, (s'.node y).parent = (s.node y).parent) (h : Above s' a x) :
    Above s a x := by
  induction h with
  | parent h => exact .parent (by rwa [hp] at h)
  | up h _ ih => exact .up (by rwa [hp] at h) ih

/-- The guard reads the heap only. -/
theorem guarded_congr (hnode : ∀ y, s'.node y = s.node y) : Guarded s' x ↔ Guarded s x := by
  have hname : ∀ y, s'.modelName y = s.modelName y := fun y => by
    simp only [State.modelName, hnode]
  constructor
  · intro hg a ha
    rw [← hname, ← hname]
    exact hg a (Above.of_parents (fun y => by rw [hnode]) ha)
  · intro hg a ha
    rw [hname, hname]
    exact hg a (Above.of_parents (fun y => by rw [hnode]) ha)

/-- Being in sync reads the heap, the feeds, the tracker's root and presence, the resolver and the
models of the forest, and nothing else. -/
theorem InSync.congr (h : InSync s V) (hn : s'.nodes = s.nodes) (hf : s'.feeds = s.feeds)
    (hroot : s'.tracker.root = s.tracker.root) (hpres : s'.tracker.present = s.tracker.present)
    (hres : ∀ m, s'.resolve m = s.resolve m)
    (hmodel : ∀ u, (s'.forest.node u).model = (s.forest.node u).model) : InSync s' V := by
  have hnode : ∀ y, s'.node y = s.node y := fun y => by simp only [State.node, hn]
  have hfeed : ∀ g, s'.feed g = s.feed g := fun g => by simp only [State.feed, hf]
  have hmount : ∀ g, s'.mountRoot (s'.feed g) = s.mountRoot (s.feed g) := fun g => by
    simp only [State.mountRoot, hfeed, hroot, hnode]
  have hlive : ∀ y, Live s' y → Live s y := fun y hy => by
    obtain ⟨hp, r, hr, hb⟩ := hy
    exact ⟨by rwa [hpres] at hp, r, by rwa [hroot] at hr,
      (below_iff_of_children_eq fun z _ => by rw [hnode]).1 hb⟩
  refine InSync.of_feedCopies (fun g hg => ?_) fun y hy => ?_
  · rw [hfeed] at hg
    exact (h.feedCopies hg).keep (hmount g) (by rw [hfeed]) (fun z _ => State.literals_congr (hnode z))
      fun z _ => by rw [hnode]
  · exact (h.inlines y (hlive y hy)).keep (by rw [hnode]) (by simp only [State.modelName, hnode])
      (by simp only [State.feedOf, hnode]) (guarded_congr hnode) hres (hmodel _)
      fun k _ => by rw [hfeed]; exact ⟨rfl, rfl⟩

/-- With no feed on the tracker there is nothing to copy. -/
theorem InSync.of_quiet (hl : Ledger s) (hfeed : s.tracker.feed = none) : InSync s V := by
  refine ⟨fun k hk => ?_, fun k _ hk _ => ?_, fun y hy => ?_⟩
  · rw [hl.quiet hfeed k] at hk; cases hk
  · rw [hl.quiet hfeed k] at hk; cases hk
  · obtain ⟨-, r, hr, -⟩ := hy
    rw [hl.idle hfeed] at hr
    cases hr

/-- After telling the listeners the tree stays in sync, or the tracker follows nothing. -/
theorem Hushed.follow (h : Hushed s s') (hm : InSync s V) :
    s'.tracker.feed = none ∨ InSync s' V := by
  rcases h.calm with ⟨hn, hf, hroot, -⟩ | hnone
  · exact .inr (hm.congr hn hf hroot h.rooted.present h.rooted.resolve
      fun u => by rw [h.rooted.forest_node])
  · exact .inl hnone

end InSync

section Updates

variable {V : SubscriberId → Source.Forest} {k g : SubscriberId} {x m y : InlaidId}

/-- The feeds of `s` stay, each following the tree it followed. -/
structure KeepsFeeds (s s' : State) : Prop where
  feeds_le : s.feeds.size ≤ s'.feeds.size
  tree : ∀ g, g.val < s.feeds.size → (s'.feed g).tree = (s.feed g).tree

theorem KeepsFeeds.refl (s : State) : KeepsFeeds s s := ⟨Nat.le_refl _, fun _ _ => rfl⟩

theorem KeepsFeeds.trans (h₁ : KeepsFeeds s₁ s₂) (h₂ : KeepsFeeds s₂ s₃) : KeepsFeeds s₁ s₃ :=
  ⟨Nat.le_trans h₁.feeds_le h₂.feeds_le,
    fun g hg => (h₂.tree g (Nat.lt_of_lt_of_le hg h₁.feeds_le)).trans (h₁.tree g hg)⟩

theorem Rooted.keepsFeeds (h : Rooted s s') : KeepsFeeds s s' := ⟨h.feeds_le, h.follows⟩

/-- After the feed `k` followed an event into the forest `f`: the feeds stay with their trees, the
ground of `f` stands, and the tracker follows nothing or the tree is in sync, `k` copying `f`. -/
def Followed (f : Source.Forest) (V : SubscriberId → Source.Forest) (k : SubscriberId)
    (s s' : State) : Prop :=
  KeepsFeeds s s' ∧ Ground f s' ∧ (s'.tracker.feed = none ∨ InSync s' (Function.update V k f))

/-- Telling the listeners of an edit keeps what the edit did. -/
theorem notify_followed (hk : KeepsFeeds s s₁) (hg : Ground f s₁)
    (hm : InSync s₁ (Function.update V k f)) (change : Change) (node : InlaidId) :
    Ensures (notify change node) s₁ (fun _ s₂ => Followed f V k s s₂) fun _ _ => False :=
  ((notify_total change node s₁).and (notify_hushed change node)).mono
    (fun _ _ h => ⟨hk.trans h.2.rooted.keepsFeeds, hg.rooted h.2.rooted, h.2.follow hm⟩)
    fun _ _ h => h.1.elim

/-- A node's feed is a feed of the session: that feed's mount names the node. -/
theorem Books.feed_lt (hb : Books s) (h : s.feedOf m = some g) : g.val < s.feeds.size := by
  by_contra hge
  have hmount := hb.holder m g h
  rw [State.feed_of_size_le (Nat.le_of_not_lt hge)] at hmount
  cases hmount

/-- A feed held by a node of a copied subtree copies its tree. -/
theorem Copied.feedCopies (ha : Arena s) (h : Copied s f x) (hm : Below s x m)
    (hg : s.feedOf m = some g) : FeedCopies s f g := by
  obtain ⟨hmount, hroot⟩ := (h m hm).mount g hg
  refine ⟨?_, fun y hy => ?_⟩
  · unfold MountCopies
    rw [State.mountRoot_owner hmount]
    exact hroot
  · obtain ⟨r, hr, hy⟩ := hy
    rw [State.mountRoot_owner hmount] at hr
    have hrm : r ∈ (s.node m).children := List.mem_of_getLast? (ha.hidden_last m r hr)
    exact (h y (hm.trans ((Below.single hrm).trans hy.toBelow))).literal

/-- The tree is in sync after the feed `k` followed an event into the forest `f`: the other feeds
of `s` that still run keep their copies, and `k` and the feeds opened since copy `f`. -/
theorem InSync.update (hm : InSync s V) (hfresh : ∀ g, s.feeds.size ≤ g.val → V g = f)
    (hrun : ∀ g, g.val < s.feeds.size → (s'.feed g).active = true → (s.feed g).active = true)
    (hold : ∀ g, g ≠ k → g.val < s.feeds.size → (s'.feed g).active = true →
      FeedCopies s (V g) g → FeedCopies s' (V g) g)
    (hnew : ∀ g, s.feeds.size ≤ g.val → (s'.feed g).active = true → FeedCopies s' f g)
    (hk : (s'.feed k).active = true → FeedCopies s' f k)
    (hin : ∀ y, Live s' y → Inlines s' y) : InSync s' (Function.update V k f) := by
  refine InSync.of_feedCopies (fun g hg => ?_) hin
  by_cases hgk : g = k
  · subst hgk
    rw [Function.update_self]
    exact hk hg
  rw [Function.update_of_ne hgk]
  by_cases hlt : g.val < s.feeds.size
  · exact hold g hgk hlt hg (hm.feedCopies (hrun g hlt hg))
  · rw [hfresh g (Nat.le_of_not_lt hlt)]
    exact hnew g (Nat.le_of_not_lt hlt) hg

/-- An old node keeps what it inlines across a change that keeps every origin, the ground of one
forest and the resolver, and the node's source node and feed, and the tree that feed follows and
asks. -/
theorem Inlines.follow (h : Inlines s y) (hli : Lineage s) (hd : Descent s s')
    (hy : y.val < s.nodes.size) (hg : Ground f s) (hg' : Ground f s')
    (hres : ∀ m, s'.resolve m = s.resolve m) (hsrc : (s'.node y).source = (s.node y).source)
    (hfeedOf : s'.feedOf y = s.feedOf y)
    (htree : ∀ k, s.feedOf y = some k → (s'.feed k).tree = (s.feed k).tree ∧
      (s'.feed k).announcesModel = (s.feed k).announcesModel) : Inlines s' y :=
  h.keep hsrc (hd.modelName hy) hfeedOf (hd.guarded_iff hli hy) hres
    (by rw [hg'.forest_node, hg.forest_node]) htree

end Updates

end Inlay.Sync
