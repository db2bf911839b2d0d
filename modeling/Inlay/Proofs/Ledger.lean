import Inlay.Proofs.Books

namespace Inlay

/-- The notifications a listener keeps. -/
def Listener.records : Listener → List Record
  | .recorder records => records
  | _ => []

@[simp] theorem Listener.records_journal (label : String) (leave : Bool) (h : Option Handle)
    (left : Bool) : (Listener.journal label leave h left).records = [] := rfl

@[simp] theorem Listener.records_recorder (records : List Record) :
    (Listener.recorder records).records = records := rfl

@[simp] theorem Listener.records_silent : Listener.silent.records = [] := rfl

namespace Sync

/-- A removed node: it and everything below it frozen. -/
def Dead (s : State) (n : InlaidId) : Prop :=
  ∀ y, Below s n y → (s.node y).placement.isFrozen = true

/-- A node that may be handed out: in the live tree, or removed with its subtree. -/
def Settled (s : State) (n : InlaidId) : Prop := Live s n ∨ Dead s n

/-- The subscription ledger of a session between operations. -/
structure Ledger (s : State) : Prop where
  books : Books s
  subscribed : ∀ g, (s.feed g).active = true → (s.feed g).subscription.isSome
  owner_live : ∀ g o, (s.feed g).active = true → (s.feed g).mount = .owner o → Live s o
  live_active : ∀ m g, Live s m → s.feedOf m = some g → (s.feed g).active = true
  tracker_feed : ∀ g, (s.feed g).active = true → (s.feed g).mount = .tracker →
    s.tracker.feed = some g
  tracking : ∀ g, s.tracker.feed = some g → s.tracker.present = true ∧
    (s.feed g).active = true ∧ (s.feed g).mount = .tracker ∧ (s.feed g).tree = s.tracker.source
  idle : s.tracker.feed = none → s.tracker.root = none
  records : ∀ lid, ∀ r ∈ (s.listener lid).records, Settled s r.node
  listeners : s.tracker.listeners.Wf
  source : s.tracker.source.val < s.forest.trees.size

/-- A present tracker follows its source exactly while it has listeners. -/
def Listening (s : State) : Prop :=
  s.tracker.present = true → (s.tracker.feed.isSome ↔ 0 < s.tracker.listeners.count)

/-- What an operation keeps: the invariant and the ledger; every feed stays, a stopped one
stopped; a settled node stays settled, and a retired listener handle retired. -/
structure Audit (s s' : State) : Prop where
  holds : Holds s s'
  ledger : Ledger s'
  feeds_le : s.feeds.size ≤ s'.feeds.size
  stopped : ∀ g, g.val < s.feeds.size → (s.feed g).active = false → (s'.feed g).active = false
  settled : ∀ n, Settled s n → Settled s' n
  retired : ∀ h, s.tracker.listeners.Retired h → s'.tracker.listeners.Retired h

/-- What an operation that may add or drop listeners keeps: the audit, and tracking while
listened to. -/
def Heeds (s s' : State) : Prop := Audit s s' ∧ (Listening s → Listening s')

section Reading

variable {s : State}

theorem Live.not_dead (hw : Wellformed s) {x : InlaidId} (hx : Live s x) : ¬ Dead s x :=
  fun hd => by
    have := (hw.sound x hx).not_frozen
    rw [hd x .refl] at this
    cases this

theorem Live.below {x y : InlaidId} (hx : Live s x) (hy : Below s x y) : Live s y := by
  obtain ⟨hp, r, hr, hb⟩ := hx
  exact ⟨hp, r, hr, hb.trans hy⟩

theorem Dead.below {x y : InlaidId} (hx : Dead s x) (hy : Below s x y) : Dead s y :=
  fun z hz => hx z (hy.trans hz)

/-- Below a settled node every node is settled. -/
theorem Settled.below {x y : InlaidId} (hx : Settled s x) (hy : Below s x y) : Settled s y :=
  hx.imp (·.below hy) (·.below hy)

/-- Only a feed of the heap runs. -/
theorem State.lt_size_of_active {g : SubscriberId} (hg : (s.feed g).active = true) :
    g.val < s.feeds.size :=
  Nat.lt_of_not_le fun h => by
    rw [State.feed_of_size_le h] at hg
    cases hg

namespace Ledger

variable (hl : Ledger s)
include hl

/-- A feed runs exactly while it holds a subscription. -/
theorem active_iff {g : SubscriberId} :
    (s.feed g).active = true ↔ (s.feed g).subscription.isSome :=
  ⟨hl.subscribed g, hl.books.active_of_subscribed⟩

/-- Each feed fills one model node at most. -/
theorem feedOf_inj {m m' : InlaidId} {g : SubscriberId} (hm : s.feedOf m = some g)
    (hm' : s.feedOf m' = some g) : m = m' := by
  have h := (hl.books.holder m g hm).symm.trans (hl.books.holder m' g hm')
  cases h
  rfl

/-- Without a feed the tracker has no live tree and no feed runs. -/
theorem quiet (hfeed : s.tracker.feed = none) (g : SubscriberId) : (s.feed g).active = false := by
  cases hact : (s.feed g).active
  · rfl
  · cases hm : (s.feed g).mount with
    | tracker => rw [hl.tracker_feed g hact hm] at hfeed; cases hfeed
    | owner o =>
      obtain ⟨-, r, hr, -⟩ := hl.owner_live g o hact hm
      rw [hl.idle hfeed] at hr
      cases hr

/-- The subscribers of a tree: the tracker's feed, while the tracker follows the tree, and the
feeds of the live model nodes that resolved to it. -/
theorem mem_subscribers (hw : Wellformed s) (T : TreeId) (g : SubscriberId) :
    g ∈ (s.forest.tree T).subscribers.values ↔
      (s.tracker.feed = some g ∧ T = s.tracker.source) ∨
        ∃ m, Live s m ∧ s.feedOf m = some g ∧ (s.feed g).tree = T := by
  rw [hl.books.mem_values, ← hl.active_iff]
  constructor
  · rintro ⟨hact, rfl⟩
    cases hm : (s.feed g).mount with
    | tracker =>
      have hf := hl.tracker_feed g hact hm
      exact .inl ⟨hf, (hl.tracking g hf).2.2.2⟩
    | owner o =>
      have ho := hl.owner_live g o hact hm
      exact .inr ⟨o, ho, hw.feed_owner g o hact hm ho, rfl⟩
  · rintro (⟨hf, rfl⟩ | ⟨m, hm, hmg, rfl⟩)
    · exact ⟨(hl.tracking g hf).2.1, (hl.tracking g hf).2.2.2⟩
    · exact ⟨hl.live_active m g hm hmg, rfl⟩

/-- A tree has no subscriber while the tracker has no feed. -/
theorem values_eq_nil (hfeed : s.tracker.feed = none) (T : TreeId) :
    (s.forest.tree T).subscribers.values = [] := by
  refine List.eq_nil_iff_forall_not_mem.2 fun g hg => ?_
  have hact := hl.books.active_of_subscribed ((hl.books.mem_values T g).1 hg).1
  rw [hl.quiet hfeed g] at hact
  cases hact

end Ledger

end Reading

section Keeping

variable {s s' s₁ s₂ s₃ : State}

/-- The live tree depends on the children lists, the root and the tracker's presence only. -/
theorem live_iff_of_children_eq (hc : ∀ y, (s'.node y).children = (s.node y).children)
    (hroot : s'.tracker.root = s.tracker.root) (hpresent : s'.tracker.present = s.tracker.present)
    {x : InlaidId} : Live s' x ↔ Live s x := by
  simp only [Live, hroot, hpresent, below_iff_of_children_eq fun y _ => hc y]

/-- Whether a node is settled depends on the nodes, the root and the tracker's presence only. -/
theorem settled_iff_of_nodes (hnode : ∀ y, s'.node y = s.node y)
    (hroot : s'.tracker.root = s.tracker.root) (hpresent : s'.tracker.present = s.tracker.present)
    {n : InlaidId} : Settled s' n ↔ Settled s n := by
  have hbelow : ∀ x y, Below s' x y ↔ Below s x y := fun _ _ =>
    below_iff_of_children_eq fun z _ => by rw [hnode z]
  simp only [Settled, Dead, Live, hnode, hroot, hpresent, hbelow]

/-- A node is dead once every node that was below it is frozen and their children lists only
shrank. -/
theorem Dead.of_below {n : InlaidId}
    (hfrozen : ∀ y, Below s n y → (s'.node y).placement.isFrozen = true)
    (hchildren : ∀ y, Below s n y → ∀ c ∈ (s'.node y).children, c ∈ (s.node y).children) :
    Dead s' n := by
  have hbelow : ∀ y, Below s' n y → Below s n y := by
    intro y hy
    induction hy with
    | refl => exact .refl
    | child _ hc ih => exact .child ih (hchildren _ ih _ hc)
  exact fun y hy => hfrozen y (hbelow y hy)

/-- A dead node stays dead while frozen nodes stay frozen and their children lists only
shrink. -/
theorem Dead.keep {n : InlaidId} (hd : Dead s n)
    (hfrozen : ∀ y, (s.node y).placement.isFrozen = true → (s'.node y).placement.isFrozen = true)
    (hchildren : ∀ y, (s.node y).placement.isFrozen = true →
      ∀ c ∈ (s'.node y).children, c ∈ (s.node y).children) : Dead s' n :=
  Dead.of_below (fun y hy => hfrozen y (hd y hy)) fun y hy => hchildren y (hd y hy)

theorem Keeps.frozen_of {y : InlaidId} (hk : Keeps s s') (hy : (s.node y).placement.isFrozen = true) :
    (s'.node y).placement.isFrozen = true := by
  cases hpl : (s.node y).placement with
  | frozen i p => rw [hk.frozen y i p hpl]; rfl
  | primary | modelRoot | modelChild => rw [hpl] at hy; cases hy

/-- A new node holds a new feed, if any. -/
theorem Extends.feed_fresh {o : Option InlaidId} {f : Option SubscriberId} (he : Extends s s' o f)
    {y : InlaidId} {g : SubscriberId} (hy : s.nodes.size ≤ y.val) (hyg : s'.feedOf y = some g) :
    s.feeds.size ≤ g.val := by
  obtain hold | hle := he.held y g hyg
  · rw [State.feedOf, State.node_of_size_le hy] at hold
    cases hold
  · exact hle

/-- The ledger reads the forest, the library and the resolver only through the books and the
number of trees. -/
theorem Ledger.of_books (hl : Ledger s) (hb : Books s') (hnodes : s'.nodes = s.nodes)
    (hfeeds : s'.feeds = s.feeds) (htracker : s'.tracker = s.tracker)
    (hrec : ∀ lid, ∀ r ∈ (s'.listener lid).records, Settled s r.node)
    (htrees : s.forest.trees.size ≤ s'.forest.trees.size) : Ledger s' := by
  have hnode : ∀ y, s'.node y = s.node y := fun y => by simp [State.node, hnodes]
  have hfeed : ∀ g, s'.feed g = s.feed g := fun g => by simp [State.feed, hfeeds]
  have hfeedOf : ∀ y, s'.feedOf y = s.feedOf y := fun y => by simp [State.feedOf, hnode]
  have hlive : ∀ x, Live s' x ↔ Live s x := fun x =>
    live_iff_of_children_eq (fun y => by rw [hnode]) (by rw [htracker]) (by rw [htracker])
  have hsettled : ∀ n, Settled s' n ↔ Settled s n := fun n =>
    settled_iff_of_nodes hnode (by rw [htracker]) (by rw [htracker])
  refine ⟨hb,
    fun g => by rw [hfeed]; exact hl.subscribed g,
    fun g o => by rw [hfeed, hlive]; exact hl.owner_live g o,
    fun m g => by rw [hlive, hfeedOf, hfeed]; exact hl.live_active m g,
    fun g => by rw [hfeed, htracker]; exact hl.tracker_feed g,
    fun g => by rw [hfeed, htracker]; exact hl.tracking g,
    by rw [htracker]; exact hl.idle,
    fun lid r hr => (hsettled _).2 (hrec lid r hr),
    by rw [htracker]; exact hl.listeners, ?_⟩
  rw [htracker]
  exact Nat.lt_of_lt_of_le hl.source htrees

/-- The ledger depends on the trees, the resolution of model names, the nodes, the feeds, the
tracker and the records of the listeners, nothing else. -/
theorem Ledger.congr (hl : Ledger s) (hforest : s'.forest = s.forest)
    (hlibrary : s'.library = s.library) (hresolver : s'.resolver = s.resolver)
    (hnodes : s'.nodes = s.nodes) (hfeeds : s'.feeds = s.feeds) (htracker : s'.tracker = s.tracker)
    (hrec : ∀ lid, ∀ r ∈ (s'.listener lid).records, Settled s r.node) : Ledger s' := by
  have hfeedOf : ∀ y, s'.feedOf y = s.feedOf y := fun y => by
    simp [State.feedOf, State.node, hnodes]
  have hres : s'.resolve = s.resolve := by
    funext name
    simp [State.resolve, hlibrary, hresolver]
  exact hl.of_books (hl.books.frame (fun T => by rw [hforest]) hfeeds (by rw [hforest]) hres
      fun m g hm => hl.books.holder m g (by rwa [← hfeedOf])) hnodes hfeeds htracker hrec
    (Nat.le_of_eq (by rw [hforest]))

/-- Grafting a freshly built subtree below `x` onto the live tree keeps the ledger: every feed of
the old state stays as it was, the old live nodes keep their feeds, and every feed opened since
runs for a node below a live node `o`. -/
theorem Ledger.graft (hl : Ledger s) (hb : Books s') {x o : InlaidId}
    (hlive : ∀ y, Live s' y ↔ Live s y ∨ Below s' x y)
    (hfeeds : ∀ g, g.val < s.feeds.size → s'.feed g = s.feed g) (hopened : Opened s s' o)
    (ho : Live s' o)
    (hkept : ∀ y g, Live s y → s'.feedOf y = some g → s.feedOf y = some g)
    (hfresh : ∀ y g, Below s' x y → s'.feedOf y = some g → s.feeds.size ≤ g.val)
    (hfeed : s'.tracker.feed = s.tracker.feed) (hpresent : s'.tracker.present = s.tracker.present)
    (hsource : s'.tracker.source = s.tracker.source) (hidle : s'.tracker.feed = none → s'.tracker.root = none)
    (hrec : ∀ lid, ∀ r ∈ (s'.listener lid).records, Settled s' r.node)
    (hwf : s'.tracker.listeners.Wf) (htrees : s.forest.trees.size ≤ s'.forest.trees.size) :
    Ledger s' := by
  have hcases : ∀ g, (s'.feed g).active = true → (g.val < s.feeds.size ∧ s'.feed g = s.feed g) ∨
      ((s'.feed g).subscription.isSome ∧ ∃ m, Below s' o m ∧ s'.feedOf m = some g) := by
    intro g hg
    by_cases hlt : g.val < s.feeds.size
    · exact .inl ⟨hlt, hfeeds g hlt⟩
    · obtain ⟨-, hsub, hm⟩ := hopened g (Nat.le_of_not_lt hlt) (State.lt_size_of_active hg)
      exact .inr ⟨hsub, hm⟩
  refine ⟨hb, fun g hg => ?_, fun g o' hg hm => ?_, fun m g hm hmg => ?_, fun g hg hm => ?_,
    fun g hg => ?_, hidle, hrec, hwf, by rw [hsource]; exact Nat.lt_of_lt_of_le hl.source htrees⟩
  · rcases hcases g hg with ⟨-, e⟩ | ⟨hsub, -⟩
    · rw [e] at hg ⊢
      exact hl.subscribed g hg
    · exact hsub
  · rcases hcases g hg with ⟨-, e⟩ | ⟨-, m, hxm, hmg⟩
    · rw [e] at hg hm
      exact (hlive o').2 (.inl (hl.owner_live g o' hg hm))
    · rw [hb.holder m g hmg] at hm
      obtain rfl : m = o' := Mount.owner.inj hm
      exact ho.below hxm
  · rcases (hlive m).1 hm with hm | hxm
    · have hg := hkept m g hm hmg
      rw [hfeeds g (hl.books.lt_size_of_feedOf hg)]
      exact hl.live_active m g hm hg
    · exact (hopened g (hfresh m g hxm hmg) (hb.lt_size_of_feedOf hmg)).1
  · rcases hcases g hg with ⟨-, e⟩ | ⟨-, m, -, hmg⟩
    · rw [e] at hg hm
      rw [hfeed]
      exact hl.tracker_feed g hg hm
    · rw [hb.holder m g hmg] at hm
      cases hm
  · rw [hfeed] at hg
    obtain ⟨hp, hact, hm, htree⟩ := hl.tracking g hg
    have e := hfeeds g (State.lt_size_of_active hact)
    exact ⟨by rw [hpresent]; exact hp, by rw [e]; exact hact, by rw [e]; exact hm,
      by rw [e, hsource]; exact htree⟩

theorem Audit.refl (hw : Wellformed s) (hl : Ledger s) : Audit s s :=
  ⟨.refl hw, hl, Nat.le_refl _, fun _ _ h => h, fun _ h => h, fun _ h => h⟩

theorem Audit.trans (h₁ : Audit s₁ s₂) (h₂ : Audit s₂ s₃) : Audit s₁ s₃ :=
  ⟨h₁.holds.trans h₂.holds, h₂.ledger, Nat.le_trans h₁.feeds_le h₂.feeds_le,
    fun g hg h => h₂.stopped g (Nat.lt_of_lt_of_le hg h₁.feeds_le) (h₁.stopped g hg h),
    fun n h => h₂.settled n (h₁.settled n h), fun h hr => h₂.retired h (h₁.retired h hr)⟩

instance : Trans Audit Audit Audit := ⟨Audit.trans⟩

theorem Heeds.refl (hw : Wellformed s) (hl : Ledger s) : Heeds s s := ⟨.refl hw hl, id⟩

theorem Heeds.trans (h₁ : Heeds s₁ s₂) (h₂ : Heeds s₂ s₃) : Heeds s₁ s₃ :=
  ⟨h₁.1.trans h₂.1, h₂.2 ∘ h₁.2⟩

instance : Trans Heeds Heeds Heeds := ⟨Heeds.trans⟩

/-- A change that leaves the trees, the nodes, the feeds and the tracker alone, and gives the
listeners only settled nodes to keep, is audited. -/
theorem Audit.of_same (hw : Wellformed s) (hl : Ledger s) (hforest : s'.forest = s.forest)
    (hlibrary : s'.library = s.library) (hresolver : s'.resolver = s.resolver)
    (hnodes : s'.nodes = s.nodes) (hfeeds : s'.feeds = s.feeds) (htracker : s'.tracker = s.tracker)
    (hrec : ∀ lid, ∀ r ∈ (s'.listener lid).records, Settled s r.node) : Audit s s' := by
  have hnode : ∀ y, s'.node y = s.node y := fun y => by simp [State.node, hnodes]
  have hsettled : ∀ n, Settled s' n ↔ Settled s n := fun n =>
    settled_iff_of_nodes hnode (by rw [htracker]) (by rw [htracker])
  refine ⟨Holds.of_forest hw hnodes hfeeds (by rw [htracker]) (by rw [htracker])
      (by rw [hforest]; exact .refl _),
    hl.congr hforest hlibrary hresolver hnodes hfeeds htracker hrec,
    Nat.le_of_eq (by rw [hfeeds]), fun g _ h => by simpa [State.feed, hfeeds] using h,
    fun n h => (hsettled n).2 h, fun h hr => by rwa [htracker]⟩

theorem Heeds.of_same (hw : Wellformed s) (hl : Ledger s) (hforest : s'.forest = s.forest)
    (hlibrary : s'.library = s.library) (hresolver : s'.resolver = s.resolver)
    (hnodes : s'.nodes = s.nodes) (hfeeds : s'.feeds = s.feeds) (htracker : s'.tracker = s.tracker)
    (hrec : ∀ lid, ∀ r ∈ (s'.listener lid).records, Settled s r.node) : Heeds s s' :=
  ⟨.of_same hw hl hforest hlibrary hresolver hnodes hfeeds htracker hrec, fun h hp => by
    rw [htracker] at hp ⊢
    exact h hp⟩

end Keeping

end Sync

end Inlay
