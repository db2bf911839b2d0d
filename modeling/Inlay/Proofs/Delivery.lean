import Inlay.Proofs.Lifecycle

namespace Inlay

section Lists

variable {α : Type}

/-- An element other than the one at an index stays after that index is erased. -/
theorem mem_eraseIdx_of_ne {l : List α} {i : Nat} {a d : α} (ha : a ∈ l) (hne : a ≠ l.getD i d) :
    a ∈ l.eraseIdx i := by
  obtain ⟨j, hj, rfl⟩ := List.mem_iff_getElem.1 ha
  refine List.mem_eraseIdx_iff_getElem.2 ⟨j, hj, fun e => hne ?_, rfl⟩
  subst e
  rw [List.getD_eq_getElem?_getD, List.getElem?_eq_getElem hj, Option.getD_some]

end Lists

namespace Sync

variable {s s' s₁ s₂ : State}

section Heeding

theorem Heeds.wellformed (h : Heeds s s') : Wellformed s' := h.1.holds.wellformed

theorem Heeds.ledger (h : Heeds s s') : Ledger s' := h.1.ledger

/-- An audited change that keeps the tracker's feed, its presence and its listener slots keeps it
listening. -/
theorem Audit.heeds (h : Audit s s') (hfeed : s'.tracker.feed = s.tracker.feed)
    (hpresent : s'.tracker.present = s.tracker.present)
    (hslots : s'.tracker.listeners = s.tracker.listeners) : Heeds s s' := by
  refine ⟨h, fun hlis hp => ?_⟩
  rw [hfeed, hslots]
  exact hlis (by rwa [hpresent] at hp)

/-- An audited change that leaves the tracker as it was heeds the listeners. -/
theorem Audit.heeds_of_tracker (h : Audit s s') (htracker : s'.tracker = s.tracker) : Heeds s s' :=
  h.heeds (by rw [htracker]) (by rw [htracker]) (by rw [htracker])

/-- Telling the listeners of a change of a settled node. -/
theorem notify_within (hw : Wellformed s) (hl : Ledger s) (change : Change) {node : InlaidId}
    (hn : Settled s node) : Within Heeds (notify change node) s :=
  (notify_heeds hw hl change hn).mono (fun _ _ h => h) fun _ _ h => h.elim

theorem Within.heeds_pure {α β : Type} {x : Run α} (h : Within Heeds x s) (b : β) :
    Within Heeds (x >>= fun _ => Pure.pure b) s :=
  Within.seq h fun _ _ h => Within.pure (Heeds.refl h.wellformed h.ledger) _

end Heeding

section Liveness

variable (hw : Wellformed s)
include hw

/-- Listing a new child `x` under a live node `p`, every other old node keeping its children, adds
the subtree below `x` to the live tree. -/
theorem live_iff_of_grafted {p x : InlaidId} (hp : Live s p)
    (hroot : s'.tracker.root = s.tracker.root) (hpresent : s'.tracker.present = s.tracker.present)
    (hold : ∀ y, y.val < s.nodes.size → y ≠ p → (s'.node y).children = (s.node y).children)
    (hp_children : ∀ c, c ∈ (s'.node p).children ↔ c ∈ (s.node p).children ∨ c = x)
    (y : InlaidId) : Live s' y ↔ Live s y ∨ Below s' x y := by
  have hkeep : ∀ y, Live s y → Live s' y := fun y hy =>
    hy.of_children_sub hroot hpresent fun z hz c hc => by
      by_cases hzp : z = p
      · subst hzp
        exact (hp_children c).2 (.inl hc)
      · rw [hold z (hz.lt_size hw) hzp]
        exact hc
  constructor
  · intro hy
    obtain ⟨hpr, r, hr, hb⟩ := hy
    rw [hroot] at hr
    rw [hpresent] at hpr
    obtain ⟨hb', -⟩ | hxy := Below.of_grafted hw hold (fun c hc => (hp_children c).1 hc) hr hb
    · exact .inl ⟨hpr, r, hr, hb'⟩
    · exact .inr hxy
  · intro hy
    obtain hy | hxy := hy
    · exact hkeep y hy
    · exact ((hkeep p hp).child ((hp_children x).2 (.inr rfl))).below hxy

/-- Cutting the child `c` off `p`, every node outside its subtree keeping its children, takes the
subtree below `c` out of the live tree. -/
theorem live_iff_of_pruned {p c : InlaidId} (hc : c ∈ (s.node p).children)
    (hroot : s'.tracker.root = s.tracker.root) (hpresent : s'.tracker.present = s.tracker.present)
    (hkeep : ∀ y, ¬ Below s c y → y ≠ p → (s'.node y).children = (s.node y).children)
    (hp_children : ∀ d, d ∈ (s'.node p).children ↔ d ∈ (s.node p).children ∧ d ≠ c)
    (y : InlaidId) : Live s' y ↔ Live s y ∧ ¬ Below s c y := by
  constructor
  · intro hy
    obtain ⟨hpr, r, hr, hb⟩ := hy
    rw [hroot] at hr
    rw [hpresent] at hpr
    obtain ⟨hb', hyc⟩ := Below.of_pruned hw hc hkeep (fun d hd => (hp_children d).1 hd) hr hb
    exact ⟨⟨hpr, r, hr, hb'⟩, hyc⟩
  · intro hy
    obtain ⟨⟨hpr, r, hr, hb⟩, hyc⟩ := hy
    refine ⟨by rw [hpresent]; exact hpr, r, by rw [hroot]; exact hr, ?_⟩
    induction hb with
    | refl => exact .refl
    | @child z d _ hd ih =>
      have hzc : ¬ Below s c z := fun h => hyc (.child h hd)
      refine .child (ih hzc) ?_
      by_cases hzp : z = p
      · subst hzp
        exact (hp_children d).2 ⟨hd, fun e => hyc (e ▸ .refl)⟩
      · rw [hkeep z hzc hzp]
        exact hd

/-- A change that keeps the children of every old node, the root and the tracker's presence keeps
the live tree. -/
theorem live_iff_of_grown
    (hnode : ∀ y, y.val < s.nodes.size → (s'.node y).children = (s.node y).children)
    (hroot : s'.tracker.root = s.tracker.root) (hpresent : s'.tracker.present = s.tracker.present)
    (y : InlaidId) : Live s' y ↔ Live s y := by
  constructor
  · intro hy
    obtain ⟨hpr, r, hr, hb⟩ := hy
    rw [hroot] at hr
    rw [hpresent] at hpr
    have hold : ∀ z, Below s' r z → Below s r z ∧ z.val < s.nodes.size := by
      intro z hz
      induction hz with
      | refl => exact ⟨.refl, hw.root_lt r hr⟩
      | child _ hc ih =>
        obtain ⟨hb', hlt⟩ := ih
        rw [hnode _ hlt] at hc
        exact ⟨.child hb' hc, (hw.arena.child_bound _ _ hc).2⟩
    exact ⟨hpr, r, hr, (hold y hb).1⟩
  · intro hy
    exact hy.of_children_sub hroot hpresent fun z hz c hc => by
      rw [hnode z (hz.lt_size hw)]
      exact hc

end Liveness

section Settling

/-- A node stays settled while live nodes stay live and frozen nodes stay as they were. -/
theorem Settled.of_frozen_kept {n : InlaidId} (hn : Settled s n)
    (hlive : ∀ y, Live s y → Live s' y)
    (hfrozen : ∀ y, (s.node y).placement.isFrozen = true → s'.node y = s.node y) : Settled s' n :=
  hn.imp (hlive n) fun hd => hd.keep (fun y hy => by rw [hfrozen y hy]; exact hy)
    fun y hy c hc => by rwa [hfrozen y hy] at hc

/-- A node below a dead node holds no running feed: the owner of a running feed is live. -/
theorem Ledger.stopped_of_dead (hl : Ledger s) (hw : Wellformed s) {y : InlaidId}
    {g : SubscriberId} (hd : Dead s y) (hyg : s.feedOf y = some g) : (s.feed g).active = false := by
  cases hact : (s.feed g).active
  · rfl
  · exact absurd hd ((hl.owner_live g y hact (hl.books.holder y g hyg)).not_dead hw)

/-- The subtree below `c` is retired: trimmed, every node of it frozen, and the feeds of its nodes
stopped. -/
structure Retires (s s' : State) (c : InlaidId) : Prop where
  trims : Trims s s' c
  frozen : ∀ y, Below s c y → (s'.node y).placement.isFrozen = true
  stopped : ∀ y g, Below s c y → s.feedOf y = some g → (s'.feed g).active = false

/-- Trimming a dead subtree retires it: it was frozen, and its feeds were stopped already. -/
theorem Retires.of_dead (hw : Wellformed s) (hl : Ledger s) {c : InlaidId} (hd : Dead s c)
    (ht : Trims s s' c) : Retires s s' c := by
  refine ⟨ht, fun y hy => (Keeps.of_trims ht).frozen_of (hd y hy), fun y g hy hyg => ?_⟩
  rcases ht.feed g with e | ⟨-, -, -, e⟩ <;> rw [e]
  · exact hl.stopped_of_dead hw (hd.below hy) hyg
  · rfl

/-- After a subtree is retired and cut off, with children lists only shrinking and frozen nodes
staying frozen, a settled node stays settled: live outside the subtree, dead inside. -/
theorem Settled.of_retired {c n : InlaidId} (hn : Settled s n) (hr : Retires s s₁ c)
    (hlive : ∀ y, Live s y → ¬ Below s c y → Live s₂ y)
    (hfrozen : ∀ y, (s₁.node y).placement.isFrozen = true → (s₂.node y).placement.isFrozen = true)
    (hchildren : ∀ y, ∀ d ∈ (s₂.node y).children, d ∈ (s₁.node y).children) : Settled s₂ n := by
  have hshrink : ∀ y, ∀ d ∈ (s₂.node y).children, d ∈ (s.node y).children := fun y d hd => by
    rw [← hr.trims.children y]
    exact hchildren y d hd
  obtain hn | hn := hn
  · by_cases hcn : Below s c n
    · exact .inr (Dead.of_below (fun y hy => hfrozen y (hr.frozen y (hcn.trans hy)))
        fun y _ => hshrink y)
    · exact .inl (hlive n hn hcn)
  · exact .inr (hn.keep (fun y hy => hfrozen y ((Keeps.of_trims hr.trims).frozen_of hy))
      fun y _ => hshrink y)

end Settling

section Ledgers

/-- Cutting the subtree below `c` off the live tree keeps the ledger: the feeds of its nodes stop,
every other feed stays as it was, and the live nodes keep their feeds. -/
theorem Ledger.prune (hl : Ledger s) (hw : Wellformed s) (hb : Books s') {c : InlaidId}
    (hlive : ∀ y, Live s' y ↔ Live s y ∧ ¬ Below s c y)
    (hstop : ∀ y g, Below s c y → s.feedOf y = some g → (s'.feed g).active = false)
    (hkeep : ∀ g, (∀ y, Below s c y → s.feedOf y ≠ some g) → s'.feed g = s.feed g)
    (hfeedOf : ∀ y, Live s' y → s'.feedOf y = s.feedOf y)
    (hfeed : s'.tracker.feed = s.tracker.feed) (hpresent : s'.tracker.present = s.tracker.present)
    (hsource : s'.tracker.source = s.tracker.source)
    (hidle : s'.tracker.feed = none → s'.tracker.root = none)
    (hrec : ∀ lid, ∀ r ∈ (s'.listener lid).records, Settled s' r.node)
    (hwf : s'.tracker.listeners.Wf) (htrees : s.forest.trees.size ≤ s'.forest.trees.size) :
    Ledger s' := by
  have hrun : ∀ g, (s'.feed g).active = true → s'.feed g = s.feed g := by
    intro g hg
    refine hkeep g fun y hy hyg => ?_
    rw [hstop y g hy hyg] at hg
    cases hg
  refine ⟨hb, fun g hg => ?_, fun g o hg hm => ?_, fun m g hm hmg => ?_, fun g hg hm => ?_,
    fun g hg => ?_, hidle, hrec, hwf, by rw [hsource]; exact Nat.lt_of_lt_of_le hl.source htrees⟩
  · have e := hrun g hg
    rw [e] at hg ⊢
    exact hl.subscribed g hg
  · have e := hrun g hg
    rw [e] at hg hm
    have ho := hl.owner_live g o hg hm
    refine (hlive o).2 ⟨ho, fun hco => ?_⟩
    have hstopped := hstop o g hco (hw.feed_owner g o hg hm ho)
    rw [e, hg] at hstopped
    cases hstopped
  · obtain ⟨hm', hmc⟩ := (hlive m).1 hm
    rw [hfeedOf m hm] at hmg
    rw [hkeep g fun y hy hyg => hmc (hl.feedOf_inj hyg hmg ▸ hy)]
    exact hl.live_active m g hm' hmg
  · have e := hrun g hg
    rw [e] at hg hm
    rw [hfeed]
    exact hl.tracker_feed g hg hm
  · rw [hfeed] at hg
    obtain ⟨hp, hact, hm, htree⟩ := hl.tracking g hg
    have e : s'.feed g = s.feed g := hkeep g fun y _ hyg => by
      rw [hl.books.holder y g hyg] at hm
      cases hm
    rw [e, hpresent, hsource]
    exact ⟨hp, hact, hm, htree⟩

/-- A change that only adds nodes and stopped feeds, and leaves every old node and feed, the
tracker and the listeners alone, keeps the ledger. -/
theorem Ledger.of_grown (hl : Ledger s) (hw : Wellformed s) (hb : Books s')
    (hnode : ∀ y, y.val < s.nodes.size → s'.node y = s.node y)
    (hfeed : ∀ g, g.val < s.feeds.size → s'.feed g = s.feed g)
    (hshut : ∀ g, s.feeds.size ≤ g.val → (s'.feed g).active = false)
    (htracker : s'.tracker = s.tracker) (hlisteners : s'.listeners = s.listeners)
    (htrees : s.forest.trees.size ≤ s'.forest.trees.size) : Ledger s' := by
  have hlive : ∀ y, Live s' y ↔ Live s y := live_iff_of_grown hw (fun y hy => by rw [hnode y hy])
    (by rw [htracker]) (by rw [htracker])
  have hrun : ∀ g, (s'.feed g).active = true → s'.feed g = s.feed g := fun g hg =>
    hfeed g (Nat.lt_of_not_le fun hle => by rw [hshut g hle] at hg; cases hg)
  have hrec : ∀ lid, s'.listener lid = s.listener lid := fun lid => by
    simp [State.listener, hlisteners]
  refine ⟨hb, fun g hg => ?_, fun g o hg hm => ?_, fun m g hm hmg => ?_, fun g hg hm => ?_,
    fun g hg => ?_, by rw [htracker]; exact hl.idle, fun lid r hr => ?_,
    by rw [htracker]; exact hl.listeners, by rw [htracker]; exact Nat.lt_of_lt_of_le hl.source htrees⟩
  · have e := hrun g hg
    rw [e] at hg ⊢
    exact hl.subscribed g hg
  · have e := hrun g hg
    rw [e] at hg hm
    exact (hlive o).2 (hl.owner_live g o hg hm)
  · have hm' := (hlive m).1 hm
    have hmg' : s.feedOf m = some g := by
      rwa [State.feedOf, hnode m (hm'.lt_size hw)] at hmg
    rw [hfeed g (hl.books.lt_size_of_feedOf hmg')]
    exact hl.live_active m g hm' hmg'
  · have e := hrun g hg
    rw [e] at hg hm
    rw [htracker]
    exact hl.tracker_feed g hg hm
  · rw [htracker] at hg
    obtain ⟨hp, hact, hm, htree⟩ := hl.tracking g hg
    rw [htracker, hfeed g (State.lt_size_of_active hact)]
    exact ⟨hp, hact, hm, htree⟩
  · rw [hrec] at hr
    exact (hl.records lid r hr).imp (hlive _).2 fun hd => hd.of_grown hnode

end Ledgers

section Audits

/-- A change that keeps the ledger, only adds to the live tree, leaves every old feed and every
frozen node as it was and keeps the listener slots is audited. -/
theorem Audit.of_growth (hholds : Holds s s') (hl' : Ledger s') (hle : s.feeds.size ≤ s'.feeds.size)
    (hfeeds : ∀ g, g.val < s.feeds.size → s'.feed g = s.feed g) (hlive : ∀ y, Live s y → Live s' y)
    (hfrozen : ∀ y, (s.node y).placement.isFrozen = true → s'.node y = s.node y)
    (hslots : s'.tracker.listeners = s.tracker.listeners) : Audit s s' :=
  ⟨hholds, hl', hle, fun g hg h => by rw [hfeeds g hg]; exact h,
    fun _ hn => hn.of_frozen_kept hlive hfrozen, fun _ hr => by rw [hslots]; exact hr⟩

/-- A failed build is audited: it leaves the live tree as it was, and stops every feed it
opened. -/
theorem Audit.of_kept (hw : Wellformed s) (hl : Ledger s) (hk : Kept s s') (hb : Booked s s') :
    Audit s s' := by
  have hnode : ∀ y, y.val < s.nodes.size → s'.node y = s.node y := fun y hy =>
    hk.grows.node_kept hy
  have htracker := hk.grows.steady.tracker
  have hfeeds : ∀ g, g.val < s.feeds.size → s'.feed g = s.feed g := fun g hg =>
    hk.grows.feed_kept hg
  refine Audit.of_growth (Holds.of_kept hw hk) (hl.of_grown hw hb.books hnode hfeeds hk.shut
      htracker hk.grows.steady.listeners hb.trees_le) hb.feeds_le hfeeds (fun y hy => ?_)
    (fun y hy => hnode y (State.lt_size_of_frozen hy)) (by rw [htracker])
  exact (live_iff_of_grown hw (fun y hy => by rw [hnode y hy]) (by rw [htracker])
    (by rw [htracker]) y).2 hy

/-- A retired subtree cut off the live tree is audited, when what is left keeps its feeds and the
tracker keeps its feed, presence, source and listeners. -/
theorem Audit.of_retired (hw : Wellformed s) (hl : Ledger s) {c : InlaidId} (hr : Retires s s₁ c)
    (hholds : Holds s s₂) (hb : Booked s s₂) (hfeeds : s₂.feeds = s₁.feeds)
    (hlive : ∀ y, Live s₂ y ↔ Live s y ∧ ¬ Below s c y)
    (hfrozen : ∀ y, (s₁.node y).placement.isFrozen = true → (s₂.node y).placement.isFrozen = true)
    (hchildren : ∀ y, ∀ d ∈ (s₂.node y).children, d ∈ (s₁.node y).children)
    (hfeedOf : ∀ y, Live s₂ y → s₂.feedOf y = s.feedOf y)
    (hfeed : s₂.tracker.feed = s.tracker.feed) (hpresent : s₂.tracker.present = s.tracker.present)
    (hsource : s₂.tracker.source = s.tracker.source)
    (hidle : s₂.tracker.feed = none → s₂.tracker.root = none)
    (hslots : s₂.tracker.listeners = s.tracker.listeners) (hlisteners : s₂.listeners = s.listeners) :
    Audit s s₂ := by
  have hfeed₂ : ∀ g, s₂.feed g = s₁.feed g := fun g => by simp [State.feed, hfeeds]
  have hsettled : ∀ n, Settled s n → Settled s₂ n := fun n hn =>
    hn.of_retired hr (fun y hy hyc => (hlive y).2 ⟨hy, hyc⟩) hfrozen hchildren
  have hrec : ∀ lid, s₂.listener lid = s.listener lid := fun lid => by
    simp [State.listener, hlisteners]
  refine ⟨hholds, hl.prune hw hb.books hlive (fun y g hy hyg => by rw [hfeed₂]; exact hr.stopped y g hy hyg)
      (fun g hg => ?_) hfeedOf hfeed hpresent hsource hidle
      (fun lid r h => hsettled _ (hl.records lid r (by rwa [hrec] at h)))
      (by rw [hslots]; exact hl.listeners) hb.trees_le,
    hb.feeds_le, fun g _ h => ?_, hsettled, fun h hr' => by rw [hslots]; exact hr'⟩
  · rw [hfeed₂]
    rcases hr.trims.feed g with e | ⟨y, hy, hyg, -⟩
    · exact e
    · exact absurd hyg (hg y hy)
  · rw [hfeed₂]
    rcases hr.trims.feed g with e | ⟨-, -, -, e⟩ <;> rw [e]
    · exact h
    · rfl

/-- A dead subtree retired in place, off the live tree, is audited. -/
theorem Audit.of_retired_dead (hw : Wellformed s) (hl : Ledger s) {p c : InlaidId}
    (hc : c ∈ (s.node p).children) (hd : Dead s c) (hr : Retires s s' c) (hb : Booked s s') :
    Audit s s' := by
  have htracker := hr.trims.steady.tracker
  have hout : ∀ y, Live s y → ¬ Below s c y := fun y hy hcy => hy.not_dead hw (hd.below hcy)
  have hlive : ∀ y, Live s' y ↔ Live s y ∧ ¬ Below s c y := fun y => by
    rw [live_iff_of_children_eq (fun z => hr.trims.children z) (by rw [htracker])
      (by rw [htracker])]
    exact ⟨fun h => ⟨h, hout y h⟩, fun h => h.1⟩
  refine Audit.of_retired hw hl hr (Holds.of_trims_dead hw hc hr.trims fun h => hout c h .refl) hb
    rfl hlive (fun _ h => h) (fun _ _ h => h) (fun y hy => ?_) (by rw [htracker])
    (by rw [htracker]) (by rw [htracker]) (by rw [htracker]; exact hl.idle) (by rw [htracker])
    hr.trims.steady.listeners
  have hyc := ((hlive y).1 hy).2
  simp only [State.feedOf, (hr.trims.node y).resolve_right fun h => hyc h.1]

/-- Listing a freshly built subtree among the literal children of a live node is audited, and
the new node is live. -/
theorem Audit.of_inserted (hw : Wellformed s) (hl : Ledger s) {p x : InlaidId} {pl : Placement}
    {index : Nat} (hp : Live s p) (hpl : (s.node p).placement.forChildren = .ok pl)
    (hi : index ≤ s.literalCount p) (hc : Created s s₁ x pl (some p)) (hst : Steady s₁ s₂)
    (hn : s₂.nodes = s₁.nodes.modify p.val
      fun m => { m with children := m.children.insertIdx index x })
    (hf : s₂.feeds = s₁.feeds) (hb : Booked s s₂) : Audit s s₂ ∧ Live s₂ x := by
  have hp_lt := hp.lt_size hw
  have hholds := Holds.of_inserted hw hp_lt hpl hi hc hst hn hf
  have hnode := State.node_of_modify hn
  have hp₁ : s₁.node p = s.node p := hc.grows.node_kept hp_lt
  have hp₂ : s₂.node p = { s.node p with children := (s.node p).children.insertIdx index x } := by
    rw [hnode, if_pos ⟨rfl, Nat.lt_of_lt_of_le hp_lt hc.grows.nodes_le⟩, hp₁]
  have hother : ∀ y, y ≠ p → s₂.node y = s₁.node y := fun y hy => by
    rw [hnode, if_neg fun h => hy h.1.symm]
  have hold : ∀ y, y.val < s.nodes.size → y ≠ p → s₂.node y = s.node y := fun y hy hyp => by
    rw [hother y hyp, hc.grows.node_kept hy]
  have hlen : index ≤ (s.node p).children.length := Nat.le_trans hi (State.literalCount_le s p)
  have htracker : s₂.tracker = s.tracker := by rw [hst.tracker, hc.grows.steady.tracker]
  have hlive : ∀ y, Live s₂ y ↔ Live s y ∨ Below s₂ x y :=
    live_iff_of_grafted hw hp (by rw [htracker]) (by rw [htracker])
      (fun y hy hyp => by rw [hold y hy hyp]) fun c => by
        rw [hp₂]
        exact (List.mem_insertIdx hlen).trans or_comm
  have hfeedOf : ∀ y, s₂.feedOf y = s₁.feedOf y := fun y => by
    by_cases hyp : y = p
    · subst hyp
      simp [State.feedOf, hp₂, hp₁]
    · simp only [State.feedOf, hother y hyp]
  have hfeeds : ∀ g, g.val < s.feeds.size → s₂.feed g = s.feed g := fun g hg => by
    rw [show s₂.feed g = s₁.feed g by simp [State.feed, hf]]
    exact hc.grows.feed_kept hg
  have hsub : ∀ z, ∀ c ∈ (s₁.node z).children, c ∈ (s₂.node z).children := fun z c hc' => by
    by_cases hzp : z = p
    · subst hzp
      rw [hp₁] at hc'
      rw [hp₂]
      exact (List.mem_insertIdx hlen).2 (.inr hc')
    · rw [hother z hzp]
      exact hc'
  have hx : x ∈ (s₂.node p).children := by
    rw [hp₂]
    exact (List.mem_insertIdx hlen).2 (.inl rfl)
  have hfrozen : ∀ y, (s.node y).placement.isFrozen = true → s₂.node y = s.node y := fun y hy =>
    hold y (State.lt_size_of_frozen hy) fun e => by
      subst e
      rw [(hw.sound y hp).not_frozen] at hy
      cases hy
  have hgrow : ∀ y, Live s y → Live s₂ y := fun y hy => (hlive y).2 (.inl hy)
  have hl₂ : Ledger s₂ := by
    refine hl.graft hb.books hlive hfeeds (hc.opened.under hf hfeedOf hsub hx) (hgrow p hp)
      (fun y g hy hyg => ?_) (fun y g hy hyg => ?_) (by rw [htracker]) (by rw [htracker])
      (by rw [htracker]) (by rw [htracker]; exact hl.idle)
      (fun lid r hr => (hl.records lid r ?_).of_frozen_kept hgrow hfrozen)
      (by rw [htracker]; exact hl.listeners) hb.trees_le
    · rwa [hfeedOf, State.feedOf, hc.grows.node_kept (hy.lt_size hw)] at hyg
    · rw [hfeedOf] at hyg
      exact hc.grows.feed_fresh (hc.fresh ▸ hy.le hholds.wellformed.arena) hyg
    · simpa [State.listener, hst.listeners, hc.grows.steady.listeners] using hr
  exact ⟨Audit.of_growth hholds hl₂ hb.feeds_le hfeeds hgrow hfrozen (by rw [htracker]),
    (hlive x).2 (.inr .refl)⟩

/-- Taking a retired literal child out of its parent's list is audited. -/
theorem Audit.of_erased (hw : Wellformed s) (hl : Ledger s) {p : InlaidId} {index : Nat}
    (hi : index < s.literalCount p) (hr : Retires s s₁ ((s.node p).children.getD index default))
    (hst : Steady s₁ s₂)
    (hn : s₂.nodes = s₁.nodes.modify p.val
      fun m => { m with children := m.children.eraseIdx index })
    (hf : s₂.feeds = s₁.feeds) (hb : Booked s s₂) : Audit s s₂ := by
  have hc := State.getD_mem_children hi
  have hlen : index < (s.node p).children.length :=
    Nat.lt_of_lt_of_le hi (State.literalCount_le s p)
  have hnode := State.node_of_modify hn
  have hp₁ : s₁.node p = s.node p :=
    (hr.trims.node p).resolve_right fun h => Below.not_of_child hw.arena hc h.1
  have hp_lt : p.val < s₁.nodes.size := by
    rw [hr.trims.nodes_size]
    exact Nat.lt_trans (hw.arena.child_bound p _ hc).1 (hw.arena.child_bound p _ hc).2
  have hp₂ : s₂.node p = { s.node p with children := (s.node p).children.eraseIdx index } := by
    rw [hnode, if_pos ⟨rfl, hp_lt⟩, hp₁]
  have hother : ∀ y, y ≠ p → s₂.node y = s₁.node y := fun y hy => by
    rw [hnode, if_neg fun h => hy h.1.symm]
  have htracker : s₂.tracker = s.tracker := by rw [hst.tracker, hr.trims.steady.tracker]
  have hkids : ∀ d, d ∈ (s₂.node p).children ↔
      d ∈ (s.node p).children ∧ d ≠ (s.node p).children.getD index default := fun d => by
    rw [hp₂]
    exact ⟨fun h => ⟨List.mem_of_mem_eraseIdx h,
      fun e => getD_not_mem_eraseIdx (hw.arena.nodup p) hlen (e ▸ h)⟩,
      fun h => mem_eraseIdx_of_ne h.1 h.2⟩
  have hlive := live_iff_of_pruned hw hc (by rw [htracker]) (by rw [htracker])
    (fun y _ hyp => by rw [hother y hyp, hr.trims.children]) hkids
  refine Audit.of_retired hw hl hr (Holds.of_erased hw hi hr.trims hst hn hf) hb hf hlive
    (fun y hy => ?_) (fun y d hd => ?_) (fun y hy => ?_) (by rw [htracker]) (by rw [htracker])
    (by rw [htracker]) (by rw [htracker]; exact hl.idle) (by rw [htracker])
    (by rw [hst.listeners, hr.trims.steady.listeners])
  · by_cases hyp : y = p
    · subst hyp
      rw [hp₁] at hy
      rw [hp₂]
      exact hy
    · rw [hother y hyp]
      exact hy
  · by_cases hyp : y = p
    · subst hyp
      rw [hp₁]
      exact ((hkids d).1 hd).1
    · rw [hother y hyp] at hd
      exact hd
  · have hy₁ : s₁.node y = s.node y :=
      (hr.trims.node y).resolve_right fun h => ((hlive y).1 hy).2 h.1
    by_cases hyp : y = p
    · subst hyp
      simp [State.feedOf, hp₂]
    · simp only [State.feedOf, hother y hyp, hy₁]

end Audits

section Edits

/-- Removing a settled node retires its subtree. It fails only off the live tree, where the
subtree was dead and is retired all the same. -/
theorem remove_retires (hw : Wellformed s) (hl : Ledger s) {c : InlaidId} (hc : Settled s c) :
    Ensures (remove c) s (fun _ s' => Retires s s' c) fun _ s' => Retires s s' c ∧ Dead s c := by
  obtain hlive | hdead := hc
  · obtain ⟨hp, r, hr, hb⟩ := hlive
    refine ((remove_spec (hw.standing hp hr) hw.arena hb).also (remove_trims c s)).mono
      (fun _ s' h => ⟨h.2, fun y hy => ?_, fun y g hy hyg => ?_⟩) fun _ _ h => h.elim
    · obtain ⟨i, q, -, -, e⟩ := h.1.inside y hy
      rw [e, Inlaid.Node.placement_retire]
      rfl
    · rw [h.1.feed_stop g y hy hyg]
      rfl
  · exact (remove_trims c s).mono (fun _ _ ht => Retires.of_dead hw hl hdead ht)
      fun _ _ ht => ⟨Retires.of_dead hw hl hdead ht, hdead⟩

/-- Adding a child below a settled node: below a dead node it fails untouched, below a live one
the new subtree is grafted and announced. -/
theorem addChild_heeds (hw : Wellformed s) (hl : Ledger s) {p : InlaidId} (hp : Settled s p)
    (index : Nat) (src : SourceId) : Within Heeds (addChild p index src) s := by
  unfold addChild
  refine Within.get ?_
  dsimp only
  split
  · exact Ensures.bind (Ensures.throw (Heeds.refl hw hl))
  · refine Ensures.bind (Ensures.ofExcept (fun pl hpl => ?_) fun _ _ => Heeds.refl hw hl)
    have hnf := Placement.forChildren_ok hpl
    have hlive : Live s p := hp.resolve_right fun hd => by
      have := hnf.1
      rw [hd p .refl] at this
      cases this
    have hp_lt := hlive.lt_size hw
    refine Ensures.andThen (((nodeOf_spec (some p) src hw.arena
      (by rw [hnf.2]; exact Placement.isFrozen_inherited hnf.1) fun _ e => by cases e; exact hp_lt).and
        (nodeOf_booked hl.books _ _ _)).mono (fun _ _ h => h) fun _ s₁ h => ?_) fun x s₁ h₁ => ?_
    · have hk := Audit.of_kept hw hl h.1 h.2
      have htracker := h.1.grows.steady.tracker
      exact hk.heeds_of_tracker htracker
    · obtain ⟨hc, hb₁⟩ := h₁
      refine Ensures.andThen ((modifyNode_spec (E := fun _ s' => Heeds s s') p _ s₁).also
          (modifyNode_booked_keep hb₁.books p fun _ => rfl)) fun _ s₂ h₂ => ?_
      obtain ⟨⟨hst, hn, hf⟩, hb₂⟩ := h₂
      obtain ⟨ha, hx⟩ := Audit.of_inserted hw hl hlive hpl (by omega) hc hst hn hf (hb₁.trans hb₂)
      have htracker : s₂.tracker = s.tracker := by rw [hst.tracker, hc.grows.steady.tracker]
      have hheeds := ha.heeds_of_tracker htracker
      exact ((notify_within ha.holds.wellformed ha.ledger .added (.inl hx)).heeds_pure x).imp
        fun _ h => hheeds.trans h

/-- Removing a literal child of a settled node retires its subtree, takes it out and announces it,
dead. -/
theorem removeChild_heeds (hw : Wellformed s) (hl : Ledger s) {p : InlaidId} (hp : Settled s p)
    (index : Nat) : Within Heeds (removeChild p index) s := by
  unfold removeChild
  refine Within.after_read (Heeds.refl hw hl) (literalChild_spec p index s) fun c hc => ?_
  obtain ⟨hi, rfl⟩ := hc
  have hmem := State.getD_mem_children hi
  have hcs := hp.below (Below.single hmem)
  refine Ensures.andThen (((remove_retires hw hl hcs).and (remove_booked hl.books _)).mono
    (fun _ _ h => h) fun _ s₁ h => ?_) fun _ s₁ h₁ => ?_
  · obtain ⟨⟨hr, hd⟩, hb⟩ := h
    have htracker := hr.trims.steady.tracker
    exact (Audit.of_retired_dead hw hl hmem hd hr hb).heeds_of_tracker htracker
  · obtain ⟨hr, hb₁⟩ := h₁
    refine Ensures.andThen ((modifyNode_spec (E := fun _ s' => Heeds s s') p _ s₁).also
        (modifyNode_booked_keep hb₁.books p fun _ => rfl)) fun _ s₂ h₂ => ?_
    obtain ⟨⟨hst, hn, hf⟩, hb₂⟩ := h₂
    have ha := Audit.of_erased hw hl hi hr hst hn hf (hb₁.trans hb₂)
    have htracker : s₂.tracker = s.tracker := by rw [hst.tracker, hr.trims.steady.tracker]
    have hheeds := ha.heeds_of_tracker htracker
    exact ((notify_within ha.holds.wellformed ha.ledger .removed (ha.settled _ hcs)).heeds_pure _).imp
      fun _ h => hheeds.trans h

theorem childChanged_heeds (hw : Wellformed s) (hl : Ledger s) {p : InlaidId} (hp : Settled s p)
    (index : Nat) : Within Heeds (childChanged p index) s := by
  unfold childChanged
  refine Within.after_read (Heeds.refl hw hl) (literalChild_spec p index s) fun c hc => ?_
  obtain ⟨hi, rfl⟩ := hc
  exact (notify_within hw hl _ (hp.below (Below.single (State.getD_mem_children hi)))).heeds_pure _

theorem addChildAt_heeds (hw : Wellformed s) (hl : Ledger s) {id : InlaidId} (hid : Settled s id)
    (address : List Nat) (src : SourceId) : Within Heeds (addChildAt id address src) s := by
  unfold addChildAt
  exact Within.after_read (Heeds.refl hw hl) (navigate_spec id address s) fun ⟨_, index⟩ hb =>
    addChild_heeds hw hl (hid.below hb) index src

theorem removeChildAt_heeds (hw : Wellformed s) (hl : Ledger s) {id : InlaidId}
    (hid : Settled s id) (address : List Nat) : Within Heeds (removeChildAt id address) s := by
  unfold removeChildAt
  exact Within.after_read (Heeds.refl hw hl) (navigate_spec id address s) fun ⟨_, index⟩ hb =>
    removeChild_heeds hw hl (hid.below hb) index

theorem childChangedAt_heeds (hw : Wellformed s) (hl : Ledger s) {id : InlaidId}
    (hid : Settled s id) (address : List Nat) : Within Heeds (childChangedAt id address) s := by
  unfold childChangedAt
  exact Within.after_read (Heeds.refl hw hl) (navigate_spec id address s) fun ⟨_, index⟩ hb =>
    childChanged_heeds hw hl (hid.below hb) index

end Edits

section Mounts

variable {f : SubscriberId}

/-- The root of a running feed's mount is live. -/
theorem Ledger.mountRoot_live (hl : Ledger s) (hw : Wellformed s) {r : InlaidId}
    (hact : (s.feed f).active = true) (hpresent : s.tracker.present = true)
    (hr : s.mountRoot (s.feed f) = some r) : Live s r := by
  cases hm : (s.feed f).mount with
  | tracker =>
    rw [State.mountRoot_tracker hm] at hr
    exact ⟨hpresent, r, hr, .refl⟩
  | owner o =>
    rw [State.mountRoot_owner hm] at hr
    exact (hl.owner_live f o hact hm).child (List.mem_of_getLast? (hw.arena.hidden_last o r hr))

/-- Attaching a freshly built inlined root to the empty slot of the live model node a running feed
fills is audited, and the new root is live. -/
theorem Audit.of_attached (hw : Wellformed s) (hl : Ledger s) {o h : InlaidId}
    (hm : (s.feed f).mount = .owner o) (hact : (s.feed f).active = true)
    (hh : s.hiddenOf o = none) (hext : Extends s s' (some o) none) (ha : Arena s')
    (hown : FeedsOwned s' s.feeds.size) (hop : Opened s s' o) (hat : Attached s s' o h)
    (hb : Booked s s') : Audit s s' ∧ Live s' h := by
  have ho : Live s o := hl.owner_live f o hact hm
  have hholds := Holds.of_attached hw hm hact hh hext ha hown hat
  have htracker := hext.steady.tracker
  have hother : ∀ y, y.val < s.nodes.size → y ≠ o → s'.node y = s.node y := fun y hy hyo =>
    hext.node y hy fun e => hyo (Option.some.inj e).symm
  have hlive : ∀ y, Live s' y ↔ Live s y ∨ Below s' h y :=
    live_iff_of_grafted hw ho (by rw [htracker]) (by rw [htracker])
      (fun y hy hyo => by rw [hother y hy hyo]) fun c => by
        rw [hat.node, Inlaid.Node.children_attach, List.mem_append, List.mem_singleton]
  have hfeeds : ∀ g, g.val < s.feeds.size → s'.feed g = s.feed g := fun g hg =>
    hext.feed_kept hg
  have hfeedOf : ∀ y, Live s y → s'.feedOf y = s.feedOf y := fun y hy => by
    by_cases hyo : y = o
    · subst hyo
      simp only [State.feedOf, hat.node]
      exact Inlaid.Node.feed_attach _ _
    · simp only [State.feedOf, hother y (hy.lt_size hw) hyo]
  have hfrozen : ∀ y, (s.node y).placement.isFrozen = true → s'.node y = s.node y := fun y hy =>
    hother y (State.lt_size_of_frozen hy) fun e => by
      subst e
      rw [(hw.sound y ho).not_frozen] at hy
      cases hy
  have hgrow : ∀ y, Live s y → Live s' y := fun y hy => (hlive y).2 (.inl hy)
  have hl' : Ledger s' := by
    refine hl.graft hb.books hlive hfeeds hop (hgrow o ho) (fun y g hy hyg => ?_)
      (fun y g hy => hext.feed_fresh (Nat.le_trans hat.fresh (hy.le ha))) (by rw [htracker])
      (by rw [htracker]) (by rw [htracker]) (by rw [htracker]; exact hl.idle)
      (fun lid r hr => (hl.records lid r ?_).of_frozen_kept hgrow hfrozen)
      (by rw [htracker]; exact hl.listeners) hb.trees_le
    · rwa [hfeedOf y hy] at hyg
    · simpa [State.listener, hext.steady.listeners] using hr
  exact ⟨Audit.of_growth hholds hl' hb.feeds_le hfeeds hgrow hfrozen (by rw [htracker]),
    (hlive h).2 (.inr .refl)⟩

/-- Emptying the slot of a model node once its inlined root is retired is audited. -/
theorem Audit.of_detached (hw : Wellformed s) (hl : Ledger s) {o r : InlaidId}
    (hh : s.hiddenOf o = some r) (hr : Retires s s₁ r) (hst : Steady s₁ s₂)
    (hn : s₂.nodes = s₁.nodes.modify o.val Inlaid.Node.detach) (hf : s₂.feeds = s₁.feeds)
    (hb : Booked s s₂) : Audit s s₂ := by
  have hlast := hw.arena.hidden_last o r hh
  obtain ⟨ys, hys⟩ := List.getLast?_eq_some_iff.1 hlast
  have hnodup : (ys ++ [r]).Nodup := hys ▸ hw.arena.nodup o
  have hdet := Inlaid.Node.detach_eq hh hlast
  have hc : r ∈ (s.node o).children := List.mem_of_getLast? hlast
  have hnode := State.node_of_modify hn
  have ho₁ : s₁.node o = s.node o :=
    (hr.trims.node o).resolve_right fun h => Below.not_of_child hw.arena hc h.1
  have ho_lt : o.val < s₁.nodes.size := by
    rw [hr.trims.nodes_size]
    exact Nat.lt_trans (hw.arena.child_bound o r hc).1 (hw.arena.child_bound o r hc).2
  have ho₂ : s₂.node o = (s.node o).detach := by rw [hnode, if_pos ⟨rfl, ho_lt⟩, ho₁]
  have hother : ∀ y, y ≠ o → s₂.node y = s₁.node y := fun y hy => by
    rw [hnode, if_neg fun h => hy h.1.symm]
  have htracker : s₂.tracker = s.tracker := by rw [hst.tracker, hr.trims.steady.tracker]
  have hkids : ∀ d, d ∈ (s₂.node o).children ↔ d ∈ (s.node o).children ∧ d ≠ r := fun d => by
    simp only [ho₂, hdet, hys, List.dropLast_concat, List.mem_append, List.mem_singleton]
    constructor
    · intro hd
      exact ⟨.inl hd, fun e => (List.nodup_append.1 hnodup).2.2 d hd r (List.mem_singleton_self r) e⟩
    · intro hd
      obtain ⟨hd | hd, hne⟩ := hd
      · exact hd
      · exact absurd hd hne
  have hlive := live_iff_of_pruned hw hc (by rw [htracker]) (by rw [htracker])
    (fun y _ hyo => by rw [hother y hyo, hr.trims.children]) hkids
  refine Audit.of_retired hw hl hr (Holds.of_detached hw hh hr.trims hst hn hf) hb hf hlive
    (fun y hy => ?_) (fun y d hd => ?_) (fun y hy => ?_) (by rw [htracker]) (by rw [htracker])
    (by rw [htracker]) (by rw [htracker]; exact hl.idle) (by rw [htracker])
    (by rw [hst.listeners, hr.trims.steady.listeners])
  · by_cases hyo : y = o
    · subst hyo
      rw [ho₁] at hy
      rw [ho₂, hdet]
      exact hy
    · rw [hother y hyo]
      exact hy
  · by_cases hyo : y = o
    · subst hyo
      rw [ho₁]
      exact ((hkids d).1 hd).1
    · rw [hother y hyo] at hd
      exact hd
  · have hy₁ : s₁.node y = s.node y :=
      (hr.trims.node y).resolve_right fun h => ((hlive y).1 hy).2 h.1
    by_cases hyo : y = o
    · subst hyo
      simp only [State.feedOf, ho₂]
      exact Inlaid.Node.feed_detach _
    · simp only [State.feedOf, hother y hyo, hy₁]

/-- Filling the empty mount of a running feed: the tracker's slot gets a new root planted, a model
node's slot a new inlined root attached, both live, or nothing at all; a failed build changes
nothing live. -/
theorem fillMount_heeds (hw : Wellformed s) (hl : Ledger s) (hact : (s.feed f).active = true)
    (hpresent : s.tracker.present = true) (hr : s.mountRoot (s.feed f) = none)
    (src : Option SourceId) :
    Ensures (fillMount f src) s (fun r s' => Heeds s s' ∧ ∀ x, r = some x → Live s' x)
      fun _ s' => Heeds s s' := by
  have hkept : ∀ s', Kept s s' → Booked s s' → Heeds s s' := fun s' hk hb => by
    have htracker := hk.grows.steady.tracker
    exact (Audit.of_kept hw hl hk hb).heeds_of_tracker htracker
  cases hm : (s.feed f).mount with
  | tracker =>
    have hroot : s.tracker.root = none := by rwa [State.mountRoot_tracker hm] at hr
    have hspec := fillMount_of_fill (fill_tracker_spec hw.arena hm hroot _ src)
    refine (hspec.and (fillMount_booked hl.books f src)).mono (fun r s' h => ?_)
      fun _ s' h => hkept s' h.1 h.2
    obtain ⟨hr', hb⟩ := h
    cases r with
    | none =>
      subst hr'
      exact ⟨Heeds.refl hw hl, (by intros; contradiction)⟩
    | some x =>
      obtain ⟨s₁, hc, rfl⟩ := hr'
      have htracker := hc.grows.steady.tracker
      have hl' := Ledger.plant hl hpresent (by rw [hl.tracker_feed f hact hm]; rfl) hroot hc rfl rfl
        rfl hb.trees_le hb.books (by rw [htracker])
      have ha := Audit.of_growth (Holds.of_planted hw hc) hl' hb.feeds_le
        (fun g hg => hc.grows.feed_kept hg)
        (fun y hy => absurd hroot (by obtain ⟨-, q, hq, -⟩ := hy; rw [hq]; exact Option.some_ne_none q))
        (fun y hy => hc.grows.node_kept (State.lt_size_of_frozen hy)) (by rw [← htracker])
      refine ⟨ha.heeds (by rw [← htracker]) (by rw [← htracker]) (by rw [← htracker]),
        fun y hy => ?_⟩
      cases hy
      exact ⟨by rw [← hpresent, ← htracker], x, rfl, .refl⟩
  | owner o =>
    have hh : s.hiddenOf o = none := by rwa [State.mountRoot_owner hm] at hr
    have hspec := fillMount_of_fill ((build_spec _).2.2.2 f src o s hw.arena hm
      (hw.arena.mount_bound f o hm) hh)
    refine (hspec.and (fillMount_booked hl.books f src)).mono (fun r s' h => ?_)
      fun _ s' h => hkept s' h.1 h.2
    obtain ⟨⟨hext, ha, hown, hop, hr'⟩, hb⟩ := h
    cases r with
    | none =>
      exact ⟨hkept s' ⟨hext.of_same hr'.1, ha, hown, Shut.of_size_le (Nat.le_of_eq hr'.2)⟩ hb,
        (by intros; contradiction)⟩
    | some x =>
      have htracker := hext.steady.tracker
      obtain ⟨haudit, hx⟩ := Audit.of_attached hw hl hm hact hh hext ha hown hop hr' hb
      refine ⟨haudit.heeds_of_tracker htracker,
        fun y hy => ?_⟩
      cases hy
      exact hx

/-- Removing the root of a running feed's mount retires it, empties the slot and announces the
removed root, dead. -/
theorem removeRoot_heeds (hw : Wellformed s) (hl : Ledger s) {r : InlaidId}
    (hact : (s.feed f).active = true) (hpresent : s.tracker.present = true)
    (hr : s.mountRoot (s.feed f) = some r) :
    Within Heeds (do remove r; discard (fillMount f none); notify .removed r) s := by
  have hlive := hl.mountRoot_live hw hact hpresent hr
  refine Ensures.andThen (((remove_retires hw hl (.inl hlive)).and (remove_booked hl.books r)).mono
    (fun _ _ h => h) fun _ _ h => absurd h.1.2 (hlive.not_dead hw)) fun _ s₁ h₁ => ?_
  obtain ⟨hret, hb₁⟩ := h₁
  have htracker₁ := hret.trims.steady.tracker
  have hm₁ : (s₁.feed f).mount = (s.feed f).mount := hret.trims.feed_mount f
  have hnotify : ∀ s₂, Audit s s₂ → s₂.tracker.feed = s.tracker.feed →
      s₂.tracker.present = s.tracker.present → s₂.tracker.listeners = s.tracker.listeners →
      Ensures (notify .removed r) s₂ (fun _ => Heeds s) fun _ => Heeds s := fun s₂ ha hf hp hls =>
    (notify_within ha.holds.wellformed ha.ledger .removed (ha.settled r (.inl hlive))).imp
      fun _ h => (ha.heeds hf hp hls).trans h
  cases hm : (s.feed f).mount with
  | tracker =>
    rw [State.mountRoot_tracker hm] at hr
    rw [hm] at hm₁
    refine Ensures.andThen (P := fun _ s₂ => s₂ = { s₁ with tracker := { s₁.tracker with root := none } })
      (Ensures.discard ((fillMount_none_tracker hm₁).mono (fun _ _ h => h.2) fun _ _ h => h))
      fun _ s₂ hs₂ => ?_
    subst hs₂
    have ha₁ := hret.trims.arena hw.arena
    have hholds : Holds s { s₁ with tracker := { s₁.tracker with root := none } } :=
      Holds.of_root_none (ha₁.of_eq (fun _ => rfl) rfl rfl fun g o h => ha₁.mount_bound g o h) rfl
        ((Keeps.of_trims hret.trims).trans (.of_placement (Nat.le_refl _) fun _ => rfl))
    have hlive₂ : ∀ y, Live { s₁ with tracker := { s₁.tracker with root := none } } y ↔
        Live s y ∧ ¬ Below s r y := by
      intro y
      constructor
      · intro hy
        obtain ⟨-, q, hq, -⟩ := hy
        cases hq
      · intro hy
        obtain ⟨⟨-, q, hq, hb⟩, hyr⟩ := hy
        rw [hr] at hq
        cases hq
        exact absurd hb hyr
    refine hnotify _ (Audit.of_retired hw hl hret hholds
      (hb₁.trans (Booked.of_tracker hb₁.books fun t => { t with root := none })) rfl hlive₂
      (fun _ h => h) (fun _ _ h => h) (fun y hy => absurd hy fun h => ((hlive₂ y).1 h).2 ?_)
      (by rw [htracker₁]) (by rw [htracker₁]) (by rw [htracker₁]) (fun _ => rfl) (by rw [← htracker₁])
      hret.trims.steady.listeners) (by rw [← htracker₁]) (by rw [← htracker₁]) (by rw [← htracker₁])
    obtain ⟨-, q, hq, hb⟩ := ((hlive₂ y).1 hy).1
    rw [hr] at hq
    cases hq
    exact hb
  | owner o =>
    rw [State.mountRoot_owner hm] at hr
    rw [hm] at hm₁
    refine Ensures.andThen (P := fun _ s₂ => (Steady s₁ s₂ ∧
        s₂.nodes = s₁.nodes.modify o.val Inlaid.Node.detach ∧ s₂.feeds = s₁.feeds) ∧ Booked s₁ s₂)
      (Ensures.discard (((fillMount_none_owner hm₁).and (fillMount_booked hb₁.books f none)).mono
        (fun _ _ h => ⟨h.1.2, h.2⟩) fun _ _ h => h.1)) fun _ s₂ h₂ => ?_
    obtain ⟨⟨hst, hn, hf⟩, hb₂⟩ := h₂
    have htracker : s₂.tracker = s.tracker := by rw [hst.tracker, htracker₁]
    exact hnotify s₂ (Audit.of_detached hw hl hr hret hst hn hf (hb₁.trans hb₂)) (by rw [htracker])
      (by rw [htracker]) (by rw [htracker])

end Mounts

section Events

/-- A stopped feed, or one whose tracker is gone, ignores every event: it answers and changes
nothing. -/
theorem onEvent_ignored {f : SubscriberId} (e : Source.Event)
    (h : (s.feed f).active = false ∨ s.tracker.present = false) : exec (onEvent f e) s = (.ok (), s) := by
  unfold onEvent
  rw [exec_bind, exec_get]
  dsimp only
  rw [if_pos (by obtain h | h := h <;> simp [h])]
  rfl

/-- Following any event of its tree keeps the ledger, whatever the feed: a running one edits the
live tree below the root of its mount, or replaces that root. -/
theorem onEvent_heeds (hw : Wellformed s) (hl : Ledger s) (f : SubscriberId) (e : Source.Event) :
    Within Heeds (onEvent f e) s := by
  unfold onEvent
  refine Within.get ?_
  dsimp only
  split
  · exact Within.pure (Heeds.refl hw hl) _
  rename_i hon
  have hact : (s.feed f).active = true := by revert hon; cases (s.feed f).active <;> simp
  have hpresent : s.tracker.present = true := by revert hon; cases s.tracker.present <;> simp
  have hroot : ∀ r, s.mountRoot (s.feed f) = some r → Settled s r := fun r hr =>
    .inl (hl.mountRoot_live hw hact hpresent hr)
  split
  · split
    · exact Ensures.bind (Ensures.throw (Heeds.refl hw hl))
    · rename_i hnone
      refine Ensures.andThen (fillMount_heeds hw hl hact hpresent
        (Option.not_isSome_iff_eq_none.1 hnone) _) fun r s' h => ?_
      obtain ⟨hh, hx⟩ := h
      cases r with
      | none => exact Ensures.pure hh
      | some x =>
        exact (notify_within hh.wellformed hh.ledger .added (.inl (hx x rfl))).imp
          fun _ h => hh.trans h
  · split
    · rename_i r hr
      exact Within.discard (addChildAt_heeds hw hl (hroot r hr) _ _)
    · exact Within.throw (Heeds.refl hw hl) _
  · split
    · rename_i r hr
      split
      · exact removeRoot_heeds hw hl hact hpresent hr
      · exact Within.discard (removeChildAt_heeds hw hl (hroot r hr) _)
    · exact Within.throw (Heeds.refl hw hl) _
  · split
    · rename_i r hr
      split
      · exact notify_within hw hl _ (hroot r hr)
      · exact Within.discard (childChangedAt_heeds hw hl (hroot r hr) _)
    · exact Within.throw (Heeds.refl hw hl) _

/-- Delivering an event to the subscribers of a tree keeps the ledger, however many of them run
and whatever stops them on the way. -/
theorem deliver_heeds (hw : Wellformed s) (hl : Ledger s) (t : TreeId) (e : Source.Event) :
    Within Heeds (deliver t e) s := by
  unfold deliver
  exact Within.get (Within.seq (Within.forIn (Heeds.refl hw hl)
    (fun f _ h => onEvent_heeds h.wellformed h.ledger f e) _) fun _ _ h =>
      Within.pure (Heeds.refl h.wellformed h.ledger) _)

end Events

section Forest

/-- The books read the forest only through its trees' subscriber tables and their number. -/
theorem Books.of_forest (hb : Books s) {forest : Source.Forest}
    (hk : s.forest.KeepsTables forest) : Books { s with forest := forest } :=
  hb.grow hk.2 rfl hk.1 (fun name T b hT => Nat.lt_of_lt_of_le (hb.resolves name T b hT) hk.1)
    hb.holder

/-- The ledger reads the forest only through its trees' subscriber tables and their number. -/
theorem Ledger.of_forest (hl : Ledger s) {forest : Source.Forest}
    (hk : s.forest.KeepsTables forest) : Ledger { s with forest := forest } :=
  hl.of_books (hl.books.of_forest hk) rfl rfl rfl hl.records hk.1

/-- An edit of the forest that keeps every model and every subscriber table is audited. -/
theorem Audit.of_forest (hw : Wellformed s) (hl : Ledger s) {forest : Source.Forest}
    (hm : s.forest.KeepsModels forest) (hk : s.forest.KeepsTables forest) :
    Audit s { s with forest := forest } :=
  ⟨Holds.of_forest hw rfl rfl rfl rfl hm, hl.of_forest hk, Nat.le_refl _, fun _ _ h => h,
    fun _ h => (settled_iff_of_nodes (fun _ => by rfl) (by rfl) (by rfl)).2 h, fun _ h => h⟩

/-- A new library resolves a name, through the library, to a tree it resolved to before or to a
tree of the forest. -/
theorem resolve_of_library {library : List (String × TreeId)}
    (hlib : ∀ n T, library.lookup n = some T →
      s.library.lookup n = some T ∨ T.val < s.forest.trees.size)
    {name : String} {T : TreeId} {b : Bool}
    (h : ({ s with library := library } : State).resolve name = some (T, b)) :
    s.resolve name = some (T, b) ∨ T.val < s.forest.trees.size := by
  unfold State.resolve at h ⊢
  dsimp only at h
  split at h
  · obtain ⟨T', hT', he⟩ := Option.map_eq_some_iff.1 h
    cases he
    rcases hlib name T hT' with hold | hnew
    · exact .inl (by rw [hold]; rfl)
    · exact .inr hnew
  · exact .inl h
  · exact .inl h

/-- The books hold of any library whose trees are trees the library named before or trees of the
forest. -/
theorem Books.of_library (hb : Books s) {library : List (String × TreeId)}
    (hlib : ∀ n T, library.lookup n = some T →
      s.library.lookup n = some T ∨ T.val < s.forest.trees.size) :
    Books { s with library := library } :=
  hb.grow (fun _ => rfl) rfl (Nat.le_refl _)
    (fun name T b h => (resolve_of_library hlib h).elim (hb.resolves name T b) id) hb.holder

/-- The ledger holds of any library whose trees are trees the library named before or trees of
the forest. -/
theorem Ledger.of_library (hl : Ledger s) {library : List (String × TreeId)}
    (hlib : ∀ n T, library.lookup n = some T →
      s.library.lookup n = some T ∨ T.val < s.forest.trees.size) :
    Ledger { s with library := library } :=
  hl.of_books (hl.books.of_library hlib) rfl rfl rfl hl.records (Nat.le_refl _)

/-- A change of the library to trees it named before or trees of the forest is audited. -/
theorem Audit.of_library (hw : Wellformed s) (hl : Ledger s) {library : List (String × TreeId)}
    (hlib : ∀ n T, library.lookup n = some T →
      s.library.lookup n = some T ∨ T.val < s.forest.trees.size) :
    Audit s { s with library := library } :=
  ⟨Holds.of_forest hw rfl rfl rfl rfl (.refl _), hl.of_library hlib, Nat.le_refl _, fun _ _ h => h,
    fun _ h => (settled_iff_of_nodes (fun _ => by rfl) (by rfl) (by rfl)).2 h, fun _ h => h⟩

theorem setForest_heeds (hw : Wellformed s) (hl : Ledger s) {forest : Source.Forest}
    (hm : s.forest.KeepsModels forest) (hk : s.forest.KeepsTables forest) :
    Within Heeds (setForest forest) s :=
  Ensures.modify ((Audit.of_forest hw hl hm hk).heeds rfl rfl rfl)

theorem setRoot_heeds (hw : Wellformed s) (hl : Ledger s) (t : TreeId) (src : SourceId) :
    Within Heeds (setRoot t src) s := by
  unfold setRoot
  refine Within.get (Ensures.bind (Ensures.ofExcept (fun forest h => ?_)
    fun _ _ => Heeds.refl hw hl))
  exact Within.seq (setForest_heeds hw hl (Source.Forest.keepsModels_placeRoot h)
    (Source.Forest.keepsTables_placeRoot h)) fun _ _ h =>
      (deliver_heeds h.wellformed h.ledger t _).heeds_pure _

theorem clearRoot_heeds (hw : Wellformed s) (hl : Ledger s) (t : TreeId) :
    Within Heeds (clearRoot t) s := by
  unfold clearRoot
  refine Within.get (Ensures.bind (Ensures.ofExcept (fun ⟨_, forest⟩ h => ?_)
    fun _ _ => Heeds.refl hw hl))
  exact Within.seq (setForest_heeds hw hl (Source.Forest.keepsModels_takeRoot h)
    (Source.Forest.keepsTables_takeRoot h)) fun _ _ h =>
      (deliver_heeds h.wellformed h.ledger t _).heeds_pure _

theorem addSourceChild_heeds (hw : Wellformed s) (hl : Ledger s) (t : TreeId) (parent : List Nat)
    (index : Nat) (src : SourceId) : Within Heeds (addSourceChild t parent index src) s := by
  unfold addSourceChild
  refine Within.get (Ensures.bind (Ensures.ofExcept (fun forest h => ?_)
    fun _ _ => Heeds.refl hw hl))
  exact Within.seq (setForest_heeds hw hl (Source.Forest.keepsModels_insertChild h)
    (Source.Forest.keepsTables_insertChild h)) fun _ _ h =>
      (deliver_heeds h.wellformed h.ledger t _).heeds_pure _

theorem removeSourceChild_heeds (hw : Wellformed s) (hl : Ledger s) (t : TreeId)
    (address : List Nat) : Within Heeds (removeSourceChild t address) s := by
  unfold removeSourceChild
  refine Within.get (Ensures.bind (Ensures.ofExcept (fun ⟨_, forest⟩ h => ?_)
    fun _ _ => Heeds.refl hw hl))
  exact Within.seq (setForest_heeds hw hl (Source.Forest.keepsModels_detachChild h)
    (Source.Forest.keepsTables_detachChild h)) fun _ _ h =>
      (deliver_heeds h.wellformed h.ledger t _).heeds_pure _

theorem setPayload_heeds (hw : Wellformed s) (hl : Ledger s) (t : TreeId) (address : List Nat)
    (payload : Toml.Table) : Within Heeds (setPayload t address payload) s := by
  unfold setPayload
  refine Within.get (Ensures.bind (Ensures.ofExcept (fun forest h => ?_)
    fun _ _ => Heeds.refl hw hl))
  exact Within.seq (setForest_heeds hw hl (Source.Forest.keepsModels_replacePayload h)
    (Source.Forest.keepsTables_replacePayload h)) fun _ _ h => deliver_heeds h.wellformed h.ledger t _

end Forest

end Sync

end Inlay
