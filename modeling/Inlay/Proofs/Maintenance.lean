import Inlay.Proofs.Propagation

namespace Inlay.Sync

variable {s s' : State} {f : Source.Forest}

section Starting

/-- A copy reads nothing of the tracker. -/
theorem Copied.retrack {x : InlaidId} (h : Copied s f x) (t : Tracker) :
    Copied { s with tracker := t } f x := by
  intro y hy
  have hc := h y ((below_iff_of_children_eq fun _ _ => by rfl).1 hy)
  exact ⟨hc.literal, hc.inlines.keep rfl rfl rfl (guarded_congr fun _ => rfl) (fun _ => rfl) rfl
    fun _ _ => ⟨rfl, rfl⟩, hc.mount⟩

/-- A live tree copied from `f` throughout, whose tracker's feed holds the root of its tree in `f`,
is in sync with `f`: every other running feed fills a node of the copy. -/
theorem InSync.of_copied (hw : Wellformed s) (hl : Ledger s)
    (hcp : ∀ x, s.tracker.root = some x → Copied s f x)
    (hmount : ∀ g, s.tracker.feed = some g → MountCopies s f g) : InSync s fun _ => f := by
  refine InSync.of_feedCopies (fun g hg => ?_) fun y hy => ?_
  · cases hmg : (s.feed g).mount with
    | tracker =>
      refine ⟨hmount g (hl.tracker_feed g hg hmg), fun z hz => ?_⟩
      obtain ⟨r, hr, hlit⟩ := hz
      rw [State.mountRoot_tracker hmg] at hr
      exact (hcp r hr z hlit.toBelow).literal
    | owner o =>
      have ho := hl.owner_live g o hg hmg
      have ⟨_, r, hr, hb⟩ := ho
      exact (hcp r hr).feedCopies hw.arena hb (hw.feed_owner g o hg hmg ho)
  · obtain ⟨-, r, hr, hb⟩ := hy
    exact (hcp r hr y hb).inlines

/-- Starting the tracker never fails: its new feed subscribes to the source tree and copies the
tree's root in `f` into the tracker's empty root. -/
theorem startTracking_copies (hf : f.Linked) (hw : Wellformed s) (hli : Lineage s)
    (hg : Ground f s) :
    Ensures startTracking s
      (fun _ s' => Ground f s' ∧ (∀ x, s'.tracker.root = some x → Copied s' f x) ∧
        ∀ g, s'.tracker.feed = some g → MountCopies s' f g) fun _ _ => False := by
  unfold startTracking
  refine Ensures.bind (Ensures.get ?_)
  refine Ensures.andThen
    (((addFeed_spec _ s).also (addFeed_descends hli fun _ h => by cases h)).also
      (Ensures.modifyGet (Q := fun _ s₁ => s₁.forest = s.forest) (E := fun _ _ => False) rfl))
    fun g s₁ h₁ => ?_
  obtain ⟨⟨⟨hgid, hst₁, hn₁, hfs₁⟩, hd₁⟩, hforest₁⟩ := h₁
  have ha₁ : Arena s₁ := (Holds.of_addFeed hw hst₁ hn₁ hfs₁ rfl).wellformed.arena
  have hg₁ : Ground f s₁ := hg.of_heap hst₁ hforest₁
  have hmount₁ : (s₁.feed g).mount = .tracker := by
    rw [State.feed_of_push hfs₁, if_pos (by rw [hgid])]
  have hglt : g.val < s₁.feeds.size := by
    rw [hfs₁, Array.size_push, hgid]
    exact Nat.lt_succ_self _
  refine Ensures.bind (Ensures.tryCatch ?_)
  unfold startFeed
  refine Ensures.bind (Ensures.get ?_)
  obtain ⟨k, hk⟩ := State.buildFuel_succ s₁
  have hfuel : f.copyFuel [] 0 + 1 ≤ k := by
    have := f.copyFuel_nil_add_two_le 0
    have e : s₁.buildFuel = (f.nodes.size + 4) * (f.nodes.size + 4) := by
      unfold State.buildFuel
      rw [hg₁.nodes]
    omega
  rw [hk, start]
  refine Ensures.andThen
    (((subscribe_extends ha₁ hglt).also (subscribe_descends hd₁.lineage g)).also
      (subscribe_ground hg₁ g)) fun root s₂ h₂ => ?_
  obtain ⟨⟨⟨-, -, ha₂, -, hsize₂, -, hmount₂, -⟩, hd₂⟩, hroot, hg₂, htree₂, -⟩ := h₂
  have hmount₂' : (s₂.feed g).mount = .tracker := by rw [hmount₂, hmount₁]
  refine Ensures.bind (Ensures.get ?_)
  rw [if_pos hg₂.present]
  refine Ensures.discard ((fill_tracker_copies hf ha₂ hd₂.lineage hg₂ hmount₂'
    (fun r e => Source.Forest.InTree.root hf (hroot.symm.trans e)) hfuel).mono
      (fun r s₃ h₃ => ?_) fun _ _ h => h.elim)
  obtain ⟨hg₃, hroot₃, hsrc₃, hcp₃, hkept₃⟩ := h₃
  have hfeed₃ : s₃.feed g = s₂.feed g := hkept₃ g (by rw [hsize₂]; exact hglt)
  refine (modifyTracker_spec _ s₃).mono (fun _ s₄ hs₄ => ?_) fun _ _ h => h
  subst hs₄
  refine ⟨⟨hg₃.nodes, hg₃.roots, hg₃.present, hg₃.serves⟩,
    fun x hx => (hcp₃ x (hroot₃ ▸ hx)).retrack _, fun g' hg' => ?_⟩
  cases hg'
  have hfeed₄ : ({ s₃ with tracker := { s₃.tracker with feed := some g } } : State).feed g =
      s₂.feed g := hfeed₃
  unfold MountCopies
  rw [hfeed₄, State.mountRoot_tracker hmount₂', htree₂, ← hroot, ← hsrc₃, hroot₃]
  rfl

/-- Starting the tracker from a synced state, where it follows nothing, never fails and leaves the
state synced. -/
theorem startTracking_synced (h : Synced s) (hfeed : s.tracker.feed = none) :
    Ensures startTracking s (fun _ => Synced) fun _ _ => False := by
  refine (((startTracking_copies h.linked h.wellformed h.lineage h.ground).and
    (startTracking_audit h.wellformed h.ledger hfeed h.ground.present)).and
      (startTracking_descends h.lineage)).mono (fun _ s' h' => ?_) fun _ _ h' => h'.1.1
  obtain ⟨⟨⟨hg, hcp, hmount⟩, ha, -⟩, hd⟩ := h'
  exact
    { linked := hg.linked h.linked
      ground := Ground.own hg
      sync := .inr ((InSync.of_copied ha.holds.wellformed ha.ledger hcp hmount).of_ground hg)
      wellformed := ha.holds.wellformed
      ledger := ha.ledger
      lineage := hd.lineage }

end Starting

section Listeners

/-- Being synced reads the listeners only through the ledger: a change of the listeners, or of the
journal, that keeps the heap invariants keeps it. -/
theorem Synced.relist (h : Synced s) (hw : Wellformed s') (hl : Ledger s') (hli : Lineage s')
    (hn : s'.nodes = s.nodes) (hf : s'.feeds = s.feeds) (hforest : s'.forest = s.forest)
    (hlib : s'.library = s.library) (hres : s'.resolver = s.resolver)
    (htr : s'.tracker = { s.tracker with listeners := s'.tracker.listeners }) : Synced s' := by
  have hresolve : ∀ m, s'.resolve m = s.resolve m := fun m => by
    simp only [State.resolve, hres, hlib]
  have hroot : s'.tracker.root = s.tracker.root := by rw [htr]
  have hpres : s'.tracker.present = s.tracker.present := by rw [htr]
  have hfeed : s'.tracker.feed = s.tracker.feed := by rw [htr]
  refine
    { linked := by rw [hforest]; exact h.linked
      ground := ⟨rfl, fun _ => rfl, by rw [hpres]; exact h.ground.present, fun m T hT => ?_⟩
      sync := ?_
      wellformed := hw
      ledger := hl
      lineage := hli }
  · rw [hforest]
    exact h.ground.serves m T (by rwa [← hresolve])
  · rw [hfeed, hforest]
    exact h.sync.imp_right fun hm => hm.congr hn hf hroot hpres hresolve fun u => by rw [hforest]

/-- A step begins with a clean journal, which being synced does not read. -/
theorem Synced.clear (h : Synced s) : Synced { s with journal := #[] } := by
  have hh : Heeds s { s with journal := #[] } :=
    Heeds.of_same h.wellformed h.ledger rfl rfl rfl rfl rfl rfl h.ledger.records
  have hd : Descent s { s with journal := #[] } := h.lineage.same rfl rfl (.refl _)
  exact h.relist hh.1.holds.wellformed hh.1.ledger hd.lineage rfl rfl rfl rfl rfl rfl

/-- Rewriting one listener keeps the state synced while what it records stays on settled nodes. -/
theorem modifyListener_synced (h : Synced s) (lid : ListenerId) (g : Listener → Listener)
    (hg : ∀ r ∈ (g (s.listener lid)).records, Settled s r.node) {E : Fault → State → Prop} :
    Ensures (modifyListener lid g) s (fun _ => Synced) E := by
  have hh := modifyListener_heeds (E := E) h.wellformed h.ledger lid g hg
  have hd := modifyListener_descends h.lineage lid g
  exact Ensures.modify
    (h.relist hh.1.holds.wellformed hh.1.ledger hd.lineage rfl rfl rfl rfl rfl rfl)

/-- Registering a listener that keeps no records never fails and keeps the state synced: the first
listener starts the tracker, which builds a copy of the source tree; a later one changes nothing a
copy reads. -/
theorem addListenerNamed_synced (h : Synced s) (hlis : Listening s) {l : Listener}
    (hrec : l.records = []) :
    Ensures (addListenerNamed l) s (fun _ => Synced) fun _ _ => False := by
  unfold addListenerNamed
  refine Ensures.andThen (((addListenerObject_heeds h.wellformed h.ledger hrec).also
    (addListenerObject_descends h.lineage l)).also
    (Ensures.modifyGet (Q := fun _ s₁ => s₁.library = s.library ∧ s₁.resolver = s.resolver)
      (E := fun _ _ => False) ⟨rfl, rfl⟩)) fun lid s₁ h₁ => ?_
  obtain ⟨⟨⟨-, hh₁, htr₁, hn₁, hf₁, hfo₁⟩, hd₁⟩, hlib₁, hres₁⟩ := h₁
  have hs₁ : Synced s₁ := h.relist hh₁.1.holds.wellformed hh₁.1.ledger hd₁.lineage hn₁ hf₁ hfo₁
    hlib₁ hres₁ (by rw [htr₁])
  refine Ensures.bind (Ensures.get ?_)
  rcases hins : s₁.tracker.listeners.insert lid with ⟨hd, L⟩
  dsimp only
  have hwf : L.Wf := by
    have := hs₁.ledger.listeners.insert lid
    rwa [hins] at this
  have hcount : L.count = s.tracker.listeners.count + 1 := by
    have := Slots.count_insert hs₁.ledger.listeners lid
    rwa [hins, htr₁] at this
  refine Ensures.andThen ((modifyTracker_spec _ s₁).also (modifyTracker_descends hs₁.lineage _))
    fun _ s₂ h₂ => ?_
  obtain ⟨hs₂, hd₂⟩ := h₂
  have ha₂ : Audit s₁ s₂ := by
    rw [hs₂]
    refine Audit.relist hs₁.wellformed hs₁.ledger hwf fun h' hr => ?_
    have := hr.insert hs₁.ledger.listeners lid
    rwa [hins] at this
  have hsync₂ : Synced s₂ := hs₁.relist ha₂.holds.wellformed ha₂.ledger hd₂.lineage
    (by rw [hs₂]) (by rw [hs₂]) (by rw [hs₂]) (by rw [hs₂]) (by rw [hs₂]) (by rw [hs₂])
  refine Ensures.ifThen (P := Synced) (fun hone => ?_) (fun _ => hsync₂) fun s₃ hs₃ => ?_
  · have hzero : s.tracker.listeners.count = 0 := by omega
    have hfeed : s₂.tracker.feed = none := by
      have hnone : s.tracker.feed = none := by
        cases hg : s.tracker.feed with
        | none => rfl
        | some g =>
          have := (hlis h.ground.present).1 (by rw [hg]; rfl)
          omega
      rw [hs₂]
      show s₁.tracker.feed = none
      rw [htr₁, hnone]
    exact Ensures.tryCatch ((startTracking_synced hsync₂ hfeed).mono (fun _ _ h' => h')
      fun _ _ h' => h'.elim)
  · refine Ensures.andThen
      (modifyListener_synced (E := fun _ _ => False) hs₃ lid _ fun r hr => ?_)
      fun _ _ hs₄ => Ensures.pure hs₄
    split at hr
    · cases hr
    · exact hs₃.ledger.records lid r hr

end Listeners

section Planting

variable {k : SubscriberId} {y : InlaidId}

/-- A node a running feed governs, in a tree in sync with a forest whose trees hang together,
stands for a node of that forest: its region copies the feed's tree from the root down. -/
theorem InSync.source_lt (hm : InSync s fun _ => f) (hf : f.Linked)
    (hk : (s.feed k).active = true) (hy : Governs s k y) :
    (s.node y).source.val < f.nodes.size := by
  obtain ⟨r, hr, hlit⟩ := hy
  have hR : (f.tree (s.feed k).tree).root = some (s.node r).source := by
    have := hm.mount k hk
    unfold MountCopies at this
    rw [hr] at this
    exact this.symm
  have hlits : ∀ z, Lit s r z → LitCopies s f z := fun z hz => hm.literal k z hk ⟨r, hr, hz⟩
  exact hf.lt_size_of_below hR (Lit.source_below hlits hlit)

/-- Planting nodes keeps the tree in sync: a copy reads the forest only at nodes of its trees, which
planting leaves as they were. -/
theorem InSync.grow (hw : Wellformed s) (hl : Ledger s) (hm : InSync s fun _ => s.forest)
    (hf : s.forest.Linked) {forest : Source.Forest} (hg : s.forest.Grows forest) :
    InSync { s with forest := forest } fun _ => forest := by
  have htrees : ∀ T, forest.tree T = s.forest.tree T := Source.Forest.tree_of_trees_eq hg.trees
  have hsrc : ∀ k y, (s.feed k).active = true → Governs s k y →
      forest.node (s.node y).source = s.forest.node (s.node y).source :=
    fun k y hk hy => hg.node _ (hm.source_lt hf hk hy)
  refine InSync.of_feedCopies (fun g hg' => ?_) fun y hy => ?_
  · have hc : FeedCopies s forest g := by
      refine ⟨?_, fun z hz => ?_⟩
      · unfold MountCopies
        rw [htrees]
        exact hm.mount g hg'
      · unfold LitCopies
        rw [hsrc g z hg' hz]
        exact hm.literal g z hg' hz
    exact hc.keep rfl rfl (fun _ _ => rfl) fun _ _ => rfl
  · have hy' : Live s y := (live_iff_of_children_eq (fun _ => by rfl) (by rfl) (by rfl)).1 hy
    obtain ⟨k, hk, hgov⟩ := hy'.governed hw hl
    exact (hm.inlines y hy').keep rfl rfl rfl (guarded_congr fun _ => rfl) (fun _ => rfl)
      (by show (forest.node _).model = _; rw [hsrc k y hk hgov]) fun _ _ => ⟨rfl, rfl⟩

/-- Planting nodes into the forest, which keeps the trees and their links, keeps the state
synced. -/
theorem Synced.grow (h : Synced s) {forest : Source.Forest} (hg : s.forest.Grows forest)
    (hf : forest.Linked) (hmod : s.forest.KeepsModels forest) :
    Synced { s with forest := forest } := by
  have ha := Audit.of_forest h.wellformed h.ledger hmod (.of_trees_eq hg.trees)
  have hd : Descent s { s with forest := forest } := h.lineage.frame rfl (fun _ _ h => .inl h) hmod
  exact
    { linked := hf
      ground := ⟨rfl, fun _ => rfl, h.ground.present, fun m T hT => by
        rw [Source.Forest.tree_of_trees_eq hg.trees]
        exact h.ground.serves m T hT⟩
      sync := h.sync.imp_right fun hm => hm.grow h.wellformed h.ledger h.linked hg
      wellformed := ha.holds.wellformed
      ledger := ha.ledger
      lineage := hd.lineage }

end Planting

section Expansion

variable {k : SubscriberId}

/-- A synced tree whose tracker follows its source through the feed `k` is, to every depth, the
expansion of the source tree's root below no model name: the tracker's root, which has nothing above
it, stands for that root. -/
theorem Synced.root_shape_eq (h : Synced s) (hm : InSync s fun _ => s.forest)
    (hfeed : s.tracker.feed = some k) (fuel : Nat) :
    s.tracker.root.map (s.shapeWithin fuel) =
      (s.forest.tree s.tracker.source).root.map (s.expandWithin fuel []) := by
  obtain ⟨hp, hact, hmount, htree⟩ := h.ledger.tracking k hfeed
  have hmc := hm.mount k hact
  unfold MountCopies at hmc
  rw [State.mountRoot_tracker hmount, htree] at hmc
  rw [← hmc]
  cases hr : s.tracker.root with
  | none => rfl
  | some x =>
    have hused : ∀ m, m ∈ ([] : List String) ↔ NameAbove s x m := fun m => by
      refine ⟨fun hm => absurd hm List.not_mem_nil, ?_⟩
      rintro ⟨a, ha, -⟩
      have hpar := h.wellformed.root_parent x hr
      cases ha with
      | parent e => rw [hpar] at e; cases e
      | up e _ => rw [hpar] at e; cases e
    simp only [Option.map_some]
    rw [hm.shapeWithin_eq h.wellformed h.ledger fuel x [] ⟨hp, x, hr, .refl⟩ hused]

end Expansion

end Inlay.Sync

namespace Inlay.Session

open Sync

variable {S S₀ : State}

section Setup

/-- What the setup keeps: the trees hang together. -/
def Links (_ S' : State) : Prop := S'.sync.forest.Linked

instance : Trans Links Links Links := ⟨fun _ h => h⟩

/-- Planting a node spec plants its draft into the forest and answers the new node; a spec that
cannot be read changes nothing. -/
theorem plantSpec_spec (spec : NodeSpec) :
    Ensures (plantSpec spec) S (fun src S' => ∃ d : Source.Draft,
      S' = { S with sync := { S.sync with forest := (S.sync.forest.plant d).2 } } ∧
        src = (S.sync.forest.plant d).1) fun _ S' => S' = S := by
  unfold plantSpec
  refine Ensures.bind (Ensures.get ?_)
  refine Ensures.andThen (orFail_spec _ _ S) fun d S₁ h₁ => ?_
  obtain ⟨rfl, -⟩ := h₁
  exact Ensures.bind (Ensures.set (Ensures.pure ⟨d, rfl, rfl⟩))

/-- Creating a tree keeps the trees linked: its root, if any, is planted fresh and adopted as
placing a root in the new tree would. -/
theorem createTree_links (hl : S.sync.forest.Linked) (spec : TreeSpec) :
    Within Links (createTree spec) S := by
  unfold createTree
  refine Within.get ?_
  extract_lets session addRooted
  have hrooted : ∀ x S₁, S₁.sync.forest.Linked ∧
      (∀ r, x.2.2 = some r → Source.Forest.Loose S₁.sync.forest r) →
      Within Links (addRooted x) S₁ := by
    rintro ⟨settings, serving, root⟩ S₁ ⟨h₁, hroot⟩
    dsimp only [addRooted]
    refine Within.get (Within.seq (Ensures.set ?_) fun _ S₂ h₂ => Within.pure h₂ _)
    show Source.Forest.Linked _
    cases root with
    | none => exact h₁.addTree rfl
    | some r =>
      exact (h₁.addTree rfl).placeRoot ((hroot r rfl).addTree rfl)
        (Source.Forest.placeRoot_addTree rfl r)
  have hread : ∀ {α : Type} {x : Act α} {P : α → State → Prop},
      Ensures x S P (fun _ S' => S' = S) → Ensures x S P fun _ S' => Links S S' :=
    fun h => h.mono (fun _ _ h' => h') fun _ _ h' => by rw [h']; exact hl
  split
  · exact Ensures.andThen (Ensures.pure ⟨hl, fun _ e => by cases e⟩) hrooted
  · dsimp only
    split
    · refine Ensures.andThen (hread (Ensures.map ((plantSpec_spec _).mono (fun src S₁ h₁ => ?_)
        fun _ _ h' => h'))) fun root S₁ h₁ => Ensures.andThen (Ensures.pure h₁) hrooted
      obtain ⟨d, rfl, rfl⟩ := h₁
      obtain ⟨hl₁, -, hid, -⟩ := Source.Forest.plant_spec _ hl d
      exact ⟨hl₁, fun r e => by cases e; exact hid⟩
    · exact Ensures.andThen (Ensures.pure (Q := fun root S₁ => S₁.sync.forest.Linked ∧
        ∀ r, root = some r → Source.Forest.Loose S₁.sync.forest r) ⟨hl, fun _ e => by cases e⟩)
        fun root S₁ h₁ => Ensures.andThen (Ensures.pure h₁) hrooted
  · dsimp only
    refine Ensures.andThen (hread (orFail_spec _ _ S)) fun d S₁ h₁ => ?_
    obtain ⟨rfl, -⟩ := h₁
    obtain ⟨hl₁, -, hid, -⟩ := Source.Forest.plant_spec _ hl d
    exact Ensures.bind (Ensures.get (Ensures.bind (Ensures.set (Ensures.andThen
      (Ensures.pure ⟨hl₁, fun r e => by cases e; exact hid⟩) hrooted))))

/-- Entering a tree into the library changes which model it serves, not its root. -/
theorem enterModel_links (hl : S.sync.forest.Linked) (name : String) (t : TreeId) :
    Within Links (enterModel name t) S := by
  unfold enterModel
  refine Within.get (Ensures.set ?_)
  exact hl.congr (fun _ => rfl) (fun _ => rfl) (fun _ => rfl)
    (fun T => by rw [Source.Forest.tree_modifyTree]; split <;> rfl) rfl

/-- The setup keeps the trees linked, and ends with a tracker that is there and follows nothing. -/
theorem prepare_links (hl : S.sync.forest.Linked) (script : Script) :
    Ensures (prepare script) S (fun _ S' => S'.sync.forest.Linked ∧
      S'.sync.tracker.present = true ∧ S'.sync.tracker.feed = none) fun _ _ => True := by
  unfold prepare
  refine Ensures.andThen ((createTree_links hl _).mono (fun _ _ h => h) fun _ _ _ => trivial)
    fun source S₁ h₁ => ?_
  refine Ensures.andThen ((Within.get (Ensures.set h₁) : Within Links (labelTree _ source) S₁).mono
    (fun _ _ h => h) fun _ _ _ => trivial) fun _ S₂ h₂ => ?_
  refine Ensures.andThen ((Within.forIn_rounds h₂ (fun ⟨name, spec⟩ _ S₃ h₃ =>
    Within.seq (createTree_links h₃ spec) fun t S₄ h₄ =>
      Within.seq (enterModel_links h₄ name t) fun _ S₅ h₅ =>
        Within.seq (Within.get (Ensures.set h₅)) fun _ S₆ h₆ =>
          Within.pure h₆ _) _ _).mono (fun _ _ h => h) fun _ _ _ => trivial) fun _ S₃ h₃ => ?_
  refine Ensures.andThen ((Within.forIn_rounds h₃ (fun ⟨label, spec⟩ _ S₄ h₄ =>
    Within.seq (createTree_links h₄ spec) fun t S₅ h₅ =>
      Within.seq (Within.get (Ensures.set h₅)) fun _ S₆ h₆ =>
        Within.pure h₆ _) _ _).mono (fun _ _ h => h) fun _ _ _ => trivial) fun _ S₄ h₄ => ?_
  extract_lets track
  have htrack : ∀ resolver, Ensures (track resolver) S₄ (fun _ S' => S'.sync.forest.Linked ∧
      S'.sync.tracker.present = true ∧ S'.sync.tracker.feed = none) fun _ _ => True :=
    fun _ => Ensures.bind (Ensures.get (Ensures.set ⟨h₄, rfl, rfl⟩))
  split
  · exact Ensures.bind (Ensures.pure (htrack _))
  all_goals
    refine Ensures.bind (Ensures.map ((treeNamed_spec _ S₄).mono (fun _ _ h => ?_)
      fun _ _ _ => trivial))
    rw [h.1]
    exact htrack _

end Setup

section Steps

/-- The steps the live tree is maintained through: registering a listener, and the edits of a
source tree, each through the tree's own checks. -/
inductive Step.Edit : Step → Prop
  | listen (label : String) (kind : ListenerKind) : Step.Edit (.listen label kind)
  | setRoot (tree : String) (node : NodeSpec) : Step.Edit (.setRoot tree node)
  | clearRoot (tree : String) : Step.Edit (.clearRoot tree)
  | addChild (tree : String) (parent : List Nat) (index : Nat) (node : NodeSpec) :
      Step.Edit (.addChild tree parent index node)
  | removeChild (tree : String) (address : List Nat) : Step.Edit (.removeChild tree address)
  | setPayload (tree : String) (address : List Nat) (payload : Toml.Table) :
      Step.Edit (.setPayload tree address payload)

/-- What a step keeps, answering or failing: the trees stay synced. -/
def StaysSynced (_ S' : State) : Prop := Synced S'.sync

instance : Trans StaysSynced StaysSynced StaysSynced := ⟨fun _ h => h⟩

/-- An operation on the trees that keeps them synced, answering or failing, keeps the session's
trees synced. -/
theorem sync_stays {α : Type} {r : Sync.Run α}
    (h : Ensures r S.sync (fun _ => Synced) fun _ => Synced) : Within StaysSynced (sync r) S :=
  sync_within (R := fun _ s => Synced s) h fun _ h' => h'

/-- Planting a node spec keeps the trees synced and plants a loose node. -/
theorem plantSpec_synced (h : Synced S.sync) (spec : NodeSpec) :
    Ensures (plantSpec spec) S
      (fun src S' => Synced S'.sync ∧ Source.Forest.Loose S'.sync.forest src)
      fun _ S' => StaysSynced S S' := by
  refine (plantSpec_spec spec).mono (fun src S' h' => ?_) fun _ _ h' => by rw [h']; exact h
  obtain ⟨d, rfl, rfl⟩ := h'
  obtain ⟨hl, hg, hid, -⟩ := Source.Forest.plant_spec _ h.linked d
  exact ⟨h.grow hg hl (Source.Forest.keepsModels_plant _ _), hid⟩

/-- Registering a listener and the edits of a source tree keep the trees synced, answering or
failing. -/
theorem runStep_stays (h : Synced S.sync) (hlis : Listening S.sync) {st : Step} (hst : st.Edit) :
    Within StaysSynced (runStep st) S := by
  cases hst with
  | listen label kind =>
    unfold runStep
    refine Within.after_read h (requireTracker_spec S) fun _ _ => ?_
    refine Within.seq (sync_stays ((addListenerNamed_synced h hlis ?_).mono (fun _ _ h' => h')
      fun _ _ h' => h'.elim)) fun _ S₁ h₁ =>
        Within.seq (Ensures.modify h₁) fun _ S₂ h₂ => Within.pure h₂ _
    cases kind <;> rfl
  | setRoot tree node =>
    unfold runStep
    refine Within.after_read h (treeNamed_spec tree S) fun t _ => ?_
    refine Ensures.andThen (plantSpec_synced h node) fun src S₁ h₁ => ?_
    exact Within.seq (sync_stays ((setRoot_synced h₁.1 h₁.2 t).mono (fun _ _ h' => h')
      fun _ _ h' => by rw [h']; exact h₁.1)) fun _ S₂ h₂ => Within.get (Within.pure h₂ _)
  | clearRoot tree =>
    unfold runStep
    refine Within.after_read h (treeNamed_spec tree S) fun t _ => ?_
    exact Within.seq (sync_stays ((clearRoot_synced h t).mono (fun _ _ h' => h')
      fun _ _ h' => by rw [h']; exact h)) fun _ S₂ h₂ => Within.get (Within.pure h₂ _)
  | addChild tree parent index node =>
    unfold runStep
    refine Within.after_read h (treeNamed_spec tree S) fun t _ => ?_
    refine Ensures.andThen (plantSpec_synced h node) fun src S₁ h₁ => ?_
    exact Within.seq (sync_stays ((addSourceChild_synced h₁.1 h₁.2 t parent index).mono
      (fun _ _ h' => h') fun _ _ h' => by rw [h']; exact h₁.1)) fun _ S₂ h₂ =>
        Within.get (Within.pure h₂ _)
  | removeChild tree address =>
    unfold runStep
    refine Within.after_read h (treeNamed_spec tree S) fun t _ => ?_
    exact Within.seq (sync_stays ((removeSourceChild_synced h t address).mono (fun _ _ h' => h')
      fun _ _ h' => by rw [h']; exact h)) fun _ S₂ h₂ => Within.get (Within.pure h₂ _)
  | setPayload tree address payload =>
    unfold runStep
    refine Within.after_read h (treeNamed_spec tree S) fun t _ => ?_
    exact Within.seq (sync_stays ((setPayload_synced h t address payload).mono (fun _ _ h' => h')
      fun _ _ h' => by rw [h']; exact h)) fun _ S₂ h₂ => Within.pure h₂ _

/-- Such a step from a reachable synced state leaves the trees synced, answering or failing. -/
theorem Reachable.step_synced (hS : Reachable S) (h : Synced S.sync) {st : Step} (hst : st.Edit) :
    Synced (S.step st).2.sync :=
  Ensures.always (runStep_stays (S := { S with sync := { S.sync with journal := #[] } }) h.clear
    hS.accounted.listening hst)

end Steps

section Runs

/-- The states a session reaches from `S₀` by registering listeners and editing source trees. -/
inductive Edited (S₀ : State) : State → Prop
  | refl : Edited S₀ S₀
  | step {S : State} {st : Step} : Edited S₀ S → st.Edit → Edited S₀ (S.step st).2

theorem Edited.reachable (h₀ : Reachable S₀) (h : Edited S₀ S) : Reachable S := by
  induction h with
  | refl => exact h₀
  | step _ _ ih => exact .step _ ih

/-- Along a run of listens and edits from a synced state, the trees stay synced. -/
theorem Edited.synced (h₀ : Reachable S₀) (hs : Synced S₀.sync) (h : Edited S₀ S) :
    Synced S.sync := by
  induction h with
  | refl => exact hs
  | step hE hst ih => exact (hE.reachable h₀).step_synced ih hst

/-- The setup of a script, where every tree the resolver serves a model from serves that model or
none, leaves the trees synced: they hang together, and the tracker follows nothing yet. -/
theorem Script.begin_synced {script : Script} (h : script.begin = .ok S)
    (hserve : ∀ m T, S.sync.resolve m = some (T, true) →
      (S.sync.forest.tree T).serving = none ∨ (S.sync.forest.tree T).serving = some m) :
    Synced S.sync := by
  have hS := Script.begin_accounted h
  have hli := Script.begin_lineage h
  have hp : S.sync.forest.Linked ∧ S.sync.tracker.present = true ∧
      S.sync.tracker.feed = none := by
    unfold Script.begin at h
    split at h
    · cases h
    · rename_i settings _
      dsimp only at h
      split at h
      · cases h
      · rename_i s hs
        have hexec : exec (prepare _) (State.fresh settings) = (.ok (), s) := hs
        have hprep := (prepare_links (S := State.fresh settings) Source.Forest.linked_empty
          { script with models := script.models.mergeSort fun a b => decide (a.1 ≤ b.1) }).ok_of
            hexec
        cases h
        exact hprep
  exact
    { linked := hp.1
      ground := ⟨rfl, fun _ => rfl, hp.2.1, hserve⟩
      sync := .inl hp.2.2
      wellformed := hS.wellformed
      ledger := hS.ledger
      lineage := hli }

/-- Incremental maintenance agrees with a fresh expansion. From the setup of a script whose resolved
trees serve the model asked for or none, along every run that registers listeners and edits source
trees, the tracker follows nothing, or the live tree is, to every depth, the expansion of the
source tree's root below no model name, as the forest and the resolver have them now. -/
theorem Edited.live_eq_expansion {script : Script} (h₀ : script.begin = .ok S₀)
    (hserve : ∀ m T, S₀.sync.resolve m = some (T, true) →
      (S₀.sync.forest.tree T).serving = none ∨ (S₀.sync.forest.tree T).serving = some m)
    (h : Edited S₀ S) :
    S.sync.tracker.feed = none ∨ ∀ fuel, S.sync.tracker.root.map (S.sync.shapeWithin fuel) =
      (S.sync.forest.tree S.sync.tracker.source).root.map (S.sync.expandWithin fuel []) := by
  have hs := h.synced (.begin h₀) (Script.begin_synced h₀ hserve)
  cases hfeed : S.sync.tracker.feed with
  | none => exact .inl rfl
  | some k =>
    refine .inr fun fuel => hs.root_shape_eq ?_ hfeed fuel
    rcases hs.sync with hnone | hm
    · rw [hfeed] at hnone
      cases hnone
    · exact hm

/-- The session of `demo` once a silent listener tracks it and the source root gets a new first
child. -/
def demoEdited : State :=
  (demoTracked.step (.addChild "source" [] 0 (.node "new" none [] []))).2

/-- The trees of `demo` the library resolves serve the model they are asked for. -/
theorem demo_serves : ∀ m T, (demo.begin.toOption.getD default).sync.resolve m = some (T, true) →
    ((demo.begin.toOption.getD default).sync.forest.tree T).serving = none ∨
      ((demo.begin.toOption.getD default).sync.forest.tree T).serving = some m := by
  intro m T hT
  have hres : (demo.begin.toOption.getD default).sync.resolver = .library := by decide +kernel
  have hlib : (demo.begin.toOption.getD default).sync.library = [("M", ⟨1⟩)] := by decide +kernel
  have hserving : ((demo.begin.toOption.getD default).sync.forest.tree ⟨1⟩).serving = some "M" := by
    decide +kernel
  simp only [State.resolve, hres, hlib, List.lookup_cons, List.lookup_nil] at hT
  by_cases hm : m = "M"
  · subst hm
    simp only [beq_self_eq_true, Option.map_some, Option.some.injEq, Prod.mk.injEq] at hT
    rw [← hT.1]
    exact .inr hserving
  · have hne : (m == "M") = false := by simpa using hm
    rw [hne] at hT
    cases hT

theorem demoEdited_live_eq_expansion :
    demoEdited.sync.tracker.feed = none ∨ ∀ fuel,
      demoEdited.sync.tracker.root.map (demoEdited.sync.shapeWithin fuel) =
        (demoEdited.sync.forest.tree demoEdited.sync.tracker.source).root.map
          (demoEdited.sync.expandWithin fuel []) :=
  Edited.live_eq_expansion (eq_ok_of_isOk (by decide +kernel)) demo_serves
    (.step (.step .refl (.listen "l" .silent)) (.addChild "source" [] 0 _))

end Runs

end Inlay.Session
