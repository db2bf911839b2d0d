import Inlay.Proofs.Ledger
import Inlay.Proofs.Edit

namespace Inlay.Sync

section Stopping

variable {s s' s₁ s₂ : State}

theorem Standing.of_nodes {top : InlaidId} (hs : Standing s top) (hn : s'.nodes = s.nodes) :
    Standing s' top := by
  have hnode : ∀ y, s'.node y = s.node y := fun y => by simp [State.node, hn]
  have hbelow : ∀ y, Below s' top y ↔ Below s top y := fun y =>
    below_iff_of_children_eq fun z _ => by rw [hnode z]
  exact ⟨by rw [hn]; exact hs.top_lt, by rw [hnode]; exact hs.primary, fun y hy =>
    (hs.sound y ((hbelow y).1 hy)).congr (hnode y) fun c _ => by rw [hnode]⟩

/-- Without a root every settled node is dead. -/
theorem Settled.dead {n : InlaidId} (hroot : s.tracker.root = none) (h : Settled s n) : Dead s n :=
  h.resolve_left fun ⟨_, r, hr, _⟩ => by
    rw [hroot] at hr
    cases hr

/-- Only a node of the heap is frozen: a node beyond it reads as a primary one. -/
theorem State.lt_size_of_frozen {y : InlaidId} (hy : (s.node y).placement.isFrozen = true) :
    y.val < s.nodes.size :=
  Nat.lt_of_not_le fun h => by
    rw [State.node_of_size_le h] at hy
    cases hy

/-- A dead node stays dead while the nodes of the heap stay as they were. -/
theorem Dead.of_grown {n : InlaidId} (hd : Dead s n)
    (hnode : ∀ y, y.val < s.nodes.size → s'.node y = s.node y) : Dead s' n :=
  hd.keep (fun y hy => by rw [hnode y (State.lt_size_of_frozen hy)]; exact hy)
    fun y hy c hc => by rwa [hnode y (State.lt_size_of_frozen hy)] at hc

/-- A retired region's feeds stop; every other feed stays as it was. -/
theorem Removes.feed_cases {s₀ : State} {R : InlaidId → Prop} (h : Removes s₀ s₁ s₂ R)
    (g : SubscriberId) : s₂.feed g = s₁.feed g ∨ s₂.feed g = (s₁.feed g).halt := by
  by_cases hg : ∃ y, R y ∧ s₀.feedOf y = some g
  · obtain ⟨y, hy, hyg⟩ := hg
    exact .inr (h.feed_stop g y hy hyg)
  · exact .inl (h.feed_keep g fun y hy hyg => hg ⟨y, hy, hyg⟩)

namespace Ledger

variable (hl : Ledger s)
include hl

/-- A tracker with a root has a feed, and is there. -/
theorem present_of_root {r : InlaidId} (hr : s.tracker.root = some r) :
    s.tracker.present = true := by
  cases hf : s.tracker.feed with
  | none => rw [hl.idle hf] at hr; cases hr
  | some g => exact (hl.tracking g hf).1

/-- A running feed is the tracker's, or the feed of a live model node. -/
theorem active_cases (hw : Wellformed s) {g : SubscriberId} (hg : (s.feed g).active = true) :
    s.tracker.feed = some g ∨ ∃ o, Live s o ∧ s.feedOf o = some g := by
  cases hm : (s.feed g).mount with
  | tracker => exact .inl (hl.tracker_feed g hg hm)
  | owner o =>
    have ho := hl.owner_live g o hg hm
    exact .inr ⟨o, ho, hw.feed_owner g o hg hm ho⟩

end Ledger

/-- A state where no feed runs and the tracker has neither feed nor root keeps the ledger once
its books hold and every record names a settled node. -/
theorem Ledger.of_quiet (hb : Books s) (hfeed : s.tracker.feed = none)
    (hroot : s.tracker.root = none) (hquiet : ∀ g, (s.feed g).active = false)
    (hrec : ∀ lid, ∀ r ∈ (s.listener lid).records, Settled s r.node)
    (hwf : s.tracker.listeners.Wf) (hsrc : s.tracker.source.val < s.forest.trees.size) :
    Ledger s := by
  have hoff : ∀ g, (s.feed g).active = true → False := fun g hg => by
    rw [hquiet g] at hg
    cases hg
  refine ⟨hb, fun g hg => (hoff g hg).elim, fun g _ hg => (hoff g hg).elim,
    fun m g ⟨_, r, hr, _⟩ => ?_, fun g hg => (hoff g hg).elim, fun g hg => ?_, fun _ => hroot,
    hrec, hwf, hsrc⟩
  · rw [hroot] at hr
    cases hr
  · rw [hfeed] at hg
    cases hg

/-- What stopping leaves: no root and no feed, every feed stopped and every settled node dead,
with the books kept. -/
structure Halted (s s' : State) : Prop where
  booked : Booked s s'
  root : s'.tracker.root = none
  feed : s'.tracker.feed = none
  quiet : ∀ g, (s'.feed g).active = false
  dead : ∀ x, Settled s x → Dead s' x

/-- Stopping after the live tree is retired: the tracker's feed, if any, stops last. -/
theorem Halted.of_removes (hw : Wellformed s) (hl : Ledger s) (hn₁ : s₁.nodes = s.nodes)
    (hf₁ : s₁.feeds = s.feeds) (hrem : Removes s₁ s₁ s₂ (Live s)) (hb : Booked s s')
    (hnodes : s'.nodes = s₂.nodes)
    (htracker : s'.tracker = { s.tracker with root := none, feed := none })
    (hfeed : ∀ g, s'.feed g = if s.tracker.feed = some g then (s₂.feed g).halt else s₂.feed g) :
    Halted s s' := by
  have hnode₁ : ∀ y, s₁.node y = s.node y := fun y => by simp [State.node, hn₁]
  have hfeed₁ : ∀ g, s₁.feed g = s.feed g := fun g => by simp [State.feed, hf₁]
  have hnode : ∀ y, s'.node y = s₂.node y := fun y => by simp [State.node, hnodes]
  have hchildren : ∀ y, (s'.node y).children = (s.node y).children := fun y => by
    by_cases hy : Live s y
    · obtain ⟨i, p, -, -, e⟩ := hrem.inside y hy
      rw [hnode, e, Inlaid.Node.children_retire, hnode₁]
    · rw [hnode, hrem.outside y hy, hnode₁]
  have hfrozen : ∀ y, Live s y ∨ (s.node y).placement.isFrozen = true →
      (s'.node y).placement.isFrozen = true := fun y hy => by
    by_cases hl : Live s y
    · obtain ⟨i, p, -, -, e⟩ := hrem.inside y hl
      rw [hnode, e, Inlaid.Node.placement_retire]
      rfl
    · rw [hnode, hrem.outside y hl, hnode₁]
      exact hy.resolve_left hl
  have hbelow : ∀ x y, Below s' x y ↔ Below s x y := fun _ _ =>
    below_iff_of_children_eq fun z _ => hchildren z
  refine ⟨hb, by rw [htracker], by rw [htracker], fun g => ?_, fun x hx y hy => ?_⟩
  · have hstop : (s₂.feed g).active = true → s.tracker.feed = some g := fun hg₂ => by
      have hg : (s.feed g).active = true := by
        rcases hrem.feed_cases g with e | e <;> rw [e, hfeed₁] at hg₂
        · exact hg₂
        · cases hg₂
      rcases hl.active_cases hw hg with hg' | ⟨o, ho, hog⟩
      · exact hg'
      · rw [hrem.feed_stop g o ho (by rw [State.feedOf, hnode₁]; exact hog)] at hg₂
        cases hg₂
    rw [hfeed g]
    split
    · rfl
    · rename_i hne
      cases hg₂ : (s₂.feed g).active
      · rfl
      · exact absurd (hstop hg₂) hne
  · rw [hbelow] at hy
    rcases hx with hx | hx
    · exact hfrozen y (.inl (hx.below hy))
    · exact hfrozen y (.inr (hx y hy))

/-- A stopped tracker keeps the ledger as long as its listeners, their records and its source
stay. -/
theorem Halted.ledger (hl : Ledger s) (hh : Halted s s') (hlisteners : s'.listeners = s.listeners)
    (htl : s'.tracker.listeners = s.tracker.listeners)
    (hsrc : s'.tracker.source = s.tracker.source) : Ledger s' := by
  have hrec : ∀ lid, s'.listener lid = s.listener lid := fun lid => by
    simp [State.listener, hlisteners]
  refine .of_quiet hh.booked.books hh.feed hh.root hh.quiet (fun lid r hr => ?_) ?_ ?_
  · rw [hrec] at hr
    exact .inr (hh.dead _ (hl.records lid r hr))
  · rw [htl]
    exact hl.listeners
  · rw [hsrc]
    exact Nat.lt_of_lt_of_le hl.source hh.booked.trees_le

/-- A stop is audited as long as the listeners, their records and the source stay. -/
theorem Halted.audit (hl : Ledger s) (hh : Halted s s') (hholds : Holds s s')
    (hlisteners : s'.listeners = s.listeners) (htl : s'.tracker.listeners = s.tracker.listeners)
    (hsrc : s'.tracker.source = s.tracker.source) : Audit s s' :=
  ⟨hholds, hh.ledger hl hlisteners htl hsrc, hh.booked.feeds_le, fun g _ _ => hh.quiet g,
    fun n hn => .inr (hh.dead n hn), fun h hr => by rw [htl]; exact hr⟩

/-- A stop stays one when the tracker changes but for its root and feed. -/
theorem Halted.retrack (hh : Halted s s') {g : Tracker → Tracker}
    (hroot : (g s'.tracker).root = s'.tracker.root) (hfeed : (g s'.tracker).feed = s'.tracker.feed) :
    Halted s { s' with tracker := g s'.tracker } :=
  ⟨hh.booked.trans (Booked.of_feeds_eq (hh.booked.books.frame (fun _ => rfl) rfl rfl rfl
    hh.booked.books.holder) rfl rfl), by rw [hroot, hh.root], by rw [hfeed, hh.feed], hh.quiet,
    fun x hx => Dead.of_grown (hh.dead x hx) fun _ _ => rfl⟩

theorem modifyTracker_spec {E : Fault → State → Prop} (g : Tracker → Tracker) (s : State) :
    Ensures (modifyTracker g) s (fun _ s' => s' = { s with tracker := g s.tracker }) E :=
  Ensures.modify rfl

/-- Stopping the tracker never fails: it retires the live tree and stops every feed, and leaves
the rest of the tracker and the listeners as they were. -/
theorem stopTracking_halts (hw : Wellformed s) (hl : Ledger s) :
    Ensures stopTracking s (fun _ s' => Halted s s' ∧
      s'.tracker = { s.tracker with root := none, feed := none } ∧ s'.listeners = s.listeners)
      fun _ _ => False := by
  unfold stopTracking
  refine Ensures.bind (Ensures.get ?_)
  dsimp only
  refine Ensures.andThen ((modifyTracker_spec _ s).also (modifyTracker_booked hl.books _))
    fun _ s₁ hpost₁ => ?_
  obtain ⟨hs₁, hb₁⟩ := hpost₁
  have hn₁ : s₁.nodes = s.nodes := by rw [hs₁]
  have hf₁ : s₁.feeds = s.feeds := by rw [hs₁]
  refine Ensures.andThen (P := fun frozen s₂ => frozen = none ∧ Booked s s₂ ∧
    Removes s₁ s₁ s₂ (Live s)) (Ensures.tryCatch ?_) fun frozen s₂ hpost₂ => ?_
  · split
    · rename_i r hr
      have hs : Standing s₁ r := (hw.standing (hl.present_of_root hr) hr).of_nodes hn₁
      have ha : Arena s₁ := by
        subst hs₁
        exact hw.arena.of_eq (fun _ => rfl) rfl rfl hw.arena.mount_bound
      refine Ensures.andThen (((remove_spec hs ha .refl).and (remove_booked hb₁.books r)).mono
        (fun _ _ h => h) fun _ _ h => h.1.elim) fun _ s₂ hs₂ =>
          Ensures.pure ⟨rfl, hb₁.trans hs₂.2, hs₂.1.congr fun y => ?_⟩
      have hbelow : Below s₁ r y ↔ Below s r y :=
        below_iff_of_children_eq fun z _ => by rw [hs₁]; rfl
      simp only [Live, hl.present_of_root hr, hr, hbelow, true_and, Option.some.injEq,
        exists_eq_left']
    · rename_i hnone
      exact Ensures.pure ⟨rfl, hb₁, Removes.refl s₁ s₁ fun y hy => by
        obtain ⟨_, r, hr, _⟩ := hy
        exact hnone r hr⟩
  obtain ⟨hfrozen, hb₂, hrem⟩ := hpost₂
  subst hfrozen
  have htr₂ : s₂.tracker = s₁.tracker := hrem.steady.tracker
  have hls₂ : s₂.listeners = s₁.listeners := hrem.steady.listeners
  refine Ensures.bind (Ensures.get ?_)
  split
  · rename_i f hf
    have hf' : s.tracker.feed = some f := by rw [← hf, htr₂, hs₁]
    refine Ensures.andThen ((modifyTracker_spec _ s₂).also (modifyTracker_booked hb₂.books _))
      fun _ s₃ hpost₃ => ?_
    obtain ⟨hs₃, hb₃⟩ := hpost₃
    refine Ensures.andThen ((stopFeed_spec f s₃).also (stopFeed_booked hb₃.books f))
      fun _ s₄ hpost₄ => Ensures.pure ?_
    obtain ⟨⟨hst₄, hn₄, hf₄⟩, hb₄⟩ := hpost₄
    have htr₄ : s₄.tracker = { s.tracker with root := none, feed := none } := by
      rw [hst₄.tracker, hs₃, htr₂, hs₁]
    refine ⟨Halted.of_removes hw hl hn₁ hf₁ hrem (hb₂.trans (hb₃.trans hb₄)) (by rw [hn₄, hs₃])
      htr₄ fun g => ?_, htr₄, by rw [hst₄.listeners, hs₃, hls₂, hs₁]⟩
    rw [State.feed_of_halt hf₄, hf']
    have h₃ : s₃.feed g = s₂.feed g := by rw [hs₃]; rfl
    by_cases hfg : f = g
    · subst hfg
      simp [h₃]
    · simp [hfg, h₃]
  · rename_i hnone
    have hnone' : s.tracker.feed = none := by
      cases h : s.tracker.feed with
      | none => rfl
      | some f => exact (hnone f (by rw [htr₂, hs₁, h])).elim
    have htr : s₂.tracker = { s.tracker with root := none, feed := none } := by
      rw [htr₂, hs₁]
      simp [hnone']
    exact Ensures.pure ⟨Halted.of_removes hw hl hn₁ hf₁ hrem hb₂ rfl htr fun g => by simp [hnone'],
      htr, by rw [hls₂, hs₁]⟩

/-- Stopping the tracker never fails and is audited. -/
theorem stopTracking_audit (hw : Wellformed s) (hl : Ledger s) :
    Ensures stopTracking s (fun _ s' => Audit s s' ∧ Halted s s' ∧
      s'.tracker = { s.tracker with root := none, feed := none }) fun _ _ => False :=
  ((stopTracking_safe hw).and (stopTracking_halts hw hl)).mono
    (fun _ _ ⟨hholds, hh, htr, hls⟩ =>
      ⟨hh.audit hl hholds hls (by rw [htr]) (by rw [htr]), hh, htr⟩)
    fun _ _ h => h.2

/-- A stop that follows a change keeping every settled node settled halts from before it. -/
theorem Halted.of_pre (hb : Booked s s₁) (hs : ∀ x, Settled s x → Settled s₁ x)
    (hh : Halted s₁ s') : Halted s s' :=
  ⟨hb.trans hh.booked, hh.root, hh.feed, hh.quiet, fun x hx => hh.dead x (hs x hx)⟩

end Stopping

section Listeners

variable {s : State}

/-- Registering or unregistering a listener keeps the ledger while the table stays well
formed. -/
theorem Ledger.relist (hl : Ledger s) {L : Slots ListenerId} (hL : L.Wf) :
    Ledger { s with tracker := { s.tracker with listeners := L } } := by
  have hlive : ∀ x, Live { s with tracker := { s.tracker with listeners := L } } x ↔ Live s x :=
    fun _ => live_iff_of_children_eq (fun _ => by rfl) (by rfl) (by rfl)
  have hsettled : ∀ n,
      Settled { s with tracker := { s.tracker with listeners := L } } n ↔ Settled s n :=
    fun _ => settled_iff_of_nodes (fun _ => by rfl) (by rfl) (by rfl)
  exact ⟨hl.books.frame (fun _ => rfl) rfl rfl rfl hl.books.holder, hl.subscribed,
    fun g o hg hm => (hlive o).2 (hl.owner_live g o hg hm),
    fun m g hm => hl.live_active m g ((hlive m).1 hm), hl.tracker_feed, hl.tracking, hl.idle,
    fun lid r hr => (hsettled _).2 (hl.records lid r hr), hL, hl.source⟩

/-- A change of the listener table alone is audited when it keeps retired handles retired. -/
theorem Audit.relist (hw : Wellformed s) (hl : Ledger s) {L : Slots ListenerId} (hL : L.Wf)
    (hret : ∀ h, s.tracker.listeners.Retired h → L.Retired h) :
    Audit s { s with tracker := { s.tracker with listeners := L } } :=
  ⟨Holds.of_forest hw rfl rfl rfl rfl (.refl _), hl.relist hL, Nat.le_refl _, fun _ _ h => h,
    fun _ h => (settled_iff_of_nodes (fun _ => by rfl) (by rfl) (by rfl)).2 h, hret⟩

/-- Unregistering answers whether the handle named a listener, and never fails. The handle
leaves the table; when that empties it tracking stops, and otherwise the inlaid tree, the feeds
and the tracker's feed and root stay. -/
theorem removeListener_spec (hw : Wellformed s) (hl : Ledger s) (h : Handle) :
    Ensures (removeListener h) s (fun b s' => b = (s.tracker.listeners.get? h).isSome ∧
      Heeds s s' ∧
      s'.tracker.listeners = ((s.tracker.listeners.remove h).map (·.2)).getD s.tracker.listeners ∧
      (b = true → s'.tracker.listeners.count = 0 → Halted s s') ∧
      ((b = true → s'.tracker.listeners.count ≠ 0) → s'.nodes = s.nodes ∧ s'.feeds = s.feeds ∧
        s'.tracker.feed = s.tracker.feed ∧ s'.tracker.root = s.tracker.root))
      fun _ _ => False := by
  unfold removeListener
  refine Ensures.bind (Ensures.get ?_)
  split
  · rename_i hnone
    have hget : s.tracker.listeners.get? h = none := by
      rw [Slots.remove_eq, Option.map_eq_none_iff] at hnone
      exact hnone
    exact Ensures.pure ⟨by rw [hget]; rfl, Heeds.refl hw hl, by rw [hnone]; rfl, (by intros; contradiction),
      fun _ => ⟨rfl, rfl, rfl, rfl⟩⟩
  · rename_i lid L hrem
    have hget := Slots.get?_of_remove hrem
    have hcount := Slots.count_remove hrem
    refine Ensures.andThen (modifyTracker_spec _ s) fun _ s₁ hs₁ => ?_
    have ha₁ : Audit s s₁ := by
      rw [hs₁]
      exact Audit.relist hw hl (hl.listeners.remove hrem) fun h' hr => hr.remove hrem
    have hb₁ : Booked s s₁ := Booked.of_feeds_eq ha₁.ledger.books (by rw [hs₁]) (by rw [hs₁])
    have htl₁ : s₁.tracker.listeners = L := by rw [hs₁]
    have hp₁ : s₁.tracker.present = s.tracker.present := by rw [hs₁]
    dsimp only
    split
    · rename_i hzero
      refine Ensures.andThen ((stopTracking_audit ha₁.holds.wellformed ha₁.ledger).mono
        (fun _ _ h => h) fun _ _ h => h) fun _ s₂ ⟨ha₂, hh₂, htr₂⟩ => Ensures.pure ?_
      have htl₂ : s₂.tracker.listeners = L := by rw [htr₂, htl₁]
      refine ⟨by rw [hget]; rfl, ⟨ha₁.trans ha₂, fun _ hp => ?_⟩, by rw [htl₂, hrem]; rfl,
        fun _ _ => Halted.of_pre hb₁ ha₁.settled hh₂, fun hne => absurd (by rw [htl₂]; exact hzero)
          (hne rfl)⟩
      rw [htl₂, hh₂.feed, hzero]
      simp
    · rename_i hzero
      refine Ensures.pure ⟨by rw [hget]; rfl, ⟨ha₁, fun hls hp => ?_⟩, by rw [htl₁, hrem]; rfl,
        fun _ h => absurd (by rw [← htl₁]; exact h) hzero, fun _ => ⟨by rw [hs₁], by rw [hs₁],
          by rw [hs₁], by rw [hs₁]⟩⟩
      rw [hp₁] at hp
      have hf : s₁.tracker.feed = s.tracker.feed := by rw [hs₁]
      rw [hf, htl₁, hls hp, hcount]
      omega

end Listeners

section Hearing

variable {s : State} {E : Fault → State → Prop}

/-- Writing a notice is audited. -/
theorem note_heeds (hw : Wellformed s) (hl : Ledger s) (n : Notice) :
    Ensures (note n) s (fun _ s' => Heeds s s') E :=
  Ensures.modify (Heeds.of_same hw hl rfl rfl rfl rfl rfl rfl fun lid r hr => hl.records lid r hr)

/-- Changing a listener is audited when its records name settled nodes. -/
theorem modifyListener_heeds (hw : Wellformed s) (hl : Ledger s) (lid : ListenerId)
    (g : Listener → Listener) (hg : ∀ r ∈ (g (s.listener lid)).records, Settled s r.node) :
    Ensures (modifyListener lid g) s (fun _ s' => Heeds s s') E := by
  refine Ensures.modify (Heeds.of_same hw hl rfl rfl rfl rfl rfl rfl fun lid' r hr => ?_)
  simp only [State.listener, getD_modify] at hr
  split at hr
  · rename_i h
    obtain ⟨e, -⟩ := h
    have e' : lid = lid' := by cases lid; cases lid'; cases e; rfl
    subst e'
    exact hg r hr
  · exact hl.records lid' r hr

/-- A listener hears of a change of a settled node: it never fails, and is audited; a journal
listener that leaves on hearing unregisters itself here. -/
theorem hear_heeds (hw : Wellformed s) (hl : Ledger s) (lid : ListenerId) (change : Change)
    {node : InlaidId} (hn : Settled s node) :
    Ensures (hear lid change node) s (fun _ s' => Heeds s s') fun _ _ => False := by
  unfold hear
  refine Ensures.bind (Ensures.get ?_)
  split
  · dsimp only
    refine Ensures.andThen (note_heeds hw hl _) fun _ s₁ h₁ => ?_
    have hw₁ := h₁.1.holds.wellformed
    split
    · refine Ensures.andThen (modifyListener_heeds hw₁ h₁.1.ledger _ _ (by simp)) fun _ s₂ h₂ => ?_
      have hw₂ := h₂.1.holds.wellformed
      refine Ensures.andThen (P := fun _ s₃ => Heeds s s₃) (Ensures.tryCatch ?_)
        fun _ s₃ h₃ => (note_heeds h₃.1.holds.wellformed h₃.1.ledger _).mono
          (fun _ _ h => h₃.trans h) fun _ _ h => h
      split
      · exact Ensures.map ((removeListener_spec hw₂ h₂.1.ledger _).mono
          (fun _ _ h => (h₁.trans h₂).trans h.2.1) fun _ _ h => h.elim)
      · exact Ensures.pure (h₁.trans h₂)
    · exact Ensures.pure h₁
  · rename_i records heq
    refine modifyListener_heeds hw hl _ _ fun r hr => ?_
    rw [Listener.records_recorder, List.mem_append, List.mem_singleton] at hr
    rcases hr with hr | rfl
    · exact hl.records lid r (by rw [heq]; exact hr)
    · exact hn
  · exact Ensures.pure (Heeds.refl hw hl)

/-- Telling the listeners of a change of a settled node never fails, and is audited. -/
theorem notify_heeds (hw : Wellformed s) (hl : Ledger s) (change : Change) {node : InlaidId}
    (hn : Settled s node) :
    Ensures (notify change node) s (fun _ s' => Heeds s s') fun _ _ => False := by
  unfold notify
  refine Ensures.bind (Ensures.get ?_)
  split
  · refine Ensures.andThen (Ensures.forIn (I := fun _ s' => Heeds s s') (fun lid _ s₁ h₁ =>
      Ensures.andThen (hear_heeds h₁.1.holds.wellformed h₁.1.ledger lid change (h₁.1.settled _ hn))
        fun _ _ h₂ => Ensures.pure ⟨rfl, h₁.trans h₂⟩) _ s (Heeds.refl hw hl))
      fun _ _ h => Ensures.pure h
  · exact Ensures.pure (Heeds.refl hw hl)

end Hearing

section Starting

variable {s s' : State}

/-- A state with no root yet, whose only running feed is the tracker's, subscribed to the
source, keeps the ledger. -/
theorem Ledger.of_lone_feed (hb : Books s) {f : SubscriberId} (hfeed : s.tracker.feed = some f)
    (hroot : s.tracker.root = none) (hp : s.tracker.present = true)
    (hact : (s.feed f).active = true) (hsub : (s.feed f).subscription.isSome)
    (hm : (s.feed f).mount = .tracker) (htree : (s.feed f).tree = s.tracker.source)
    (hquiet : ∀ g, g ≠ f → (s.feed g).active = false)
    (hrec : ∀ lid, ∀ r ∈ (s.listener lid).records, Settled s r.node)
    (hwf : s.tracker.listeners.Wf) (hsrc : s.tracker.source.val < s.forest.trees.size) :
    Ledger s := by
  have hone : ∀ g, (s.feed g).active = true → g = f := fun g hg => by
    by_cases hne : g = f
    · exact hne
    · rw [hquiet g hne] at hg
      cases hg
  refine ⟨hb, fun g hg => ?_, fun g o hg hmo => ?_, fun m g ⟨_, r, hr, _⟩ => ?_, fun g hg _ => ?_,
    fun g hg => ?_, fun h => ?_, hrec, hwf, hsrc⟩
  · rw [hone g hg]
    exact hsub
  · rw [hone g hg, hm] at hmo
    cases hmo
  · rw [hroot] at hr
    cases hr
  · rw [hone g hg, hfeed]
  · rw [hfeed] at hg
    cases hg
    exact ⟨hp, hact, hm, htree⟩
  · rw [hfeed] at h
    cases h

/-- Filling the tracker's empty slot plants a freshly built tree there, or leaves the state as it
was; a failed build is kept apart. -/
theorem fill_tracker_spec (ha : Arena s) {f : SubscriberId} (hm : (s.feed f).mount = .tracker)
    (hroot : s.tracker.root = none) : ∀ (fuel : Nat) (src : Option SourceId),
    Ensures (fill fuel f src) s (fun r s' => match r with
      | none => s' = s
      | some x => ∃ s₁, Created s s₁ x .primary none ∧
          s' = { s₁ with tracker := { s₁.tracker with root := some x } })
      fun _ s' => Kept s s'
  | 0, _ => by
    rw [fill]
    exact Ensures.pure rfl
  | k + 1, src => by
    rw [fill]
    refine Ensures.bind (Ensures.get ?_)
    dsimp only
    rw [hm]
    dsimp only
    cases src with
    | none =>
      refine Ensures.bind (Ensures.pure (Ensures.bind (Ensures.modify (Ensures.pure ?_))))
      show { s with tracker := { s.tracker with root := none } } = s
      rw [← hroot]
    | some src =>
      refine Ensures.andThen
        (P := fun root s' => ∃ x, root = some x ∧ Created s s' x .primary none) (Ensures.map
        (((build_spec k).1 .primary none src s ha rfl (by intros; contradiction)).mono
          (fun x s' h => ⟨x, rfl, h⟩) fun _ _ h => h)) fun root s₁ hc => ?_
      obtain ⟨x, rfl, hc⟩ := hc
      exact Ensures.bind (Ensures.modify (Ensures.pure ⟨s₁, hc, rfl⟩))

/-- Planting a freshly built tree as the root of a tracker that has a feed but no root keeps the
ledger. The tree is built from `s`, which agrees with the ledger's state `s₀` on nodes, feeds and
listeners. -/
theorem Ledger.plant {s₀ s₁ : State} {x : InlaidId} (hl : Ledger s₀)
    (hp : s₀.tracker.present = true) (hfeed : s₀.tracker.feed.isSome)
    (hroot : s₀.tracker.root = none) (hc : Created s s₁ x .primary none) (hn : s₀.nodes = s.nodes)
    (hf : s₀.feeds = s.feeds) (hls : s₀.listeners = s.listeners)
    (htrees : s₀.forest.trees.size ≤ s'.forest.trees.size) (hb : Books s')
    (hs' : s' = { s₁ with tracker := { s₀.tracker with root := some x } }) : Ledger s' := by
  subst hs'
  have hbelow : ∀ a b, Below { s₁ with tracker := { s₀.tracker with root := some x } } a b ↔
      Below s₁ a b := fun _ _ => below_iff_of_children_eq fun _ _ => by rfl
  have hnode₀ : ∀ y, s₀.node y = s.node y := fun y => by simp [State.node, hn]
  have hfeed₀ : ∀ g, s₀.feed g = s.feed g := fun g => by simp [State.feed, hf]
  have hnone : ∀ y, ¬ Live s₀ y := fun y hy => by
    obtain ⟨_, r, hr, _⟩ := hy
    rw [hroot] at hr
    cases hr
  have hnew : ∀ y g, Below s₁ x y → s₁.feedOf y = some g → s.feeds.size ≤ g.val := fun y _ hy =>
    hc.grows.feed_fresh (hc.fresh ▸ hy.le hc.arena)
  have hlive : ∀ y, Live { s₁ with tracker := { s₀.tracker with root := some x } } y ↔
      Live s₀ y ∨ Below { s₁ with tracker := { s₀.tracker with root := some x } } x y := by
    intro y
    constructor
    · rintro ⟨-, r, hr, hy⟩
      cases hr
      exact .inr hy
    · rintro (hy | hy)
      · exact absurd hy (hnone y)
      · exact ⟨hp, x, rfl, hy⟩
  refine hl.graft hb hlive (fun g hg => ?_) (fun g hg hg' => ?_) ((hlive x).2 (.inr .refl))
    (fun y _ hy => absurd hy (hnone y))
    (fun y g hy hyg => by rw [hf]; exact hnew y g ((hbelow x y).1 hy) hyg) rfl rfl rfl
    (fun h => by rw [show s₀.tracker.feed = none from h] at hfeed; cases hfeed)
    (fun lid r hr => .inr ?_) hl.listeners htrees
  · rw [hfeed₀]
    exact hc.grows.feed_kept (by rw [← hf]; exact hg)
  · rw [hf] at hg
    obtain ⟨hact, hsub, m, hm, hmg⟩ := hc.opened g hg hg'
    exact ⟨hact, hsub, m, (hbelow x m).2 hm, hmg⟩
  · have hd : Dead s₀ r.node := (hl.records lid r (by simpa [State.listener, hls,
      hc.grows.steady.listeners] using hr)).resolve_left (hnone _)
    refine Dead.of_grown hd fun y hy => ?_
    rw [hn] at hy
    show s₁.node y = s₀.node y
    rw [hnode₀, hc.grows.node_kept hy]

/-- Changing the tracker alone keeps the books. -/
theorem Booked.of_tracker (hb : Books s) (g : Tracker → Tracker) :
    Booked s { s with tracker := g s.tracker } :=
  Booked.of_feeds_eq (hb.frame (fun _ => rfl) rfl rfl rfl hb.holder) rfl rfl

/-- A tracker started afresh from `s`: it runs a feed, the rest of the tracker is as it was,
every feed of `s` stays as it was, every dead node stays dead, and every live node is new. -/
structure Restarted (s s' : State) : Prop where
  booked : Booked s s'
  tracking : s'.tracker.feed.isSome
  tracker : s'.tracker = { s.tracker with feed := s'.tracker.feed, root := s'.tracker.root }
  feeds : ∀ g, g.val < s.feeds.size → s'.feed g = s.feed g
  dead : ∀ n, Dead s n → Dead s' n
  fresh : ∀ x, Live s' x → s.nodes.size ≤ x.val

/-- Starting to track from a stopped tracker that is there. On success the ledger holds of a
restarted tracker; on a fault the tracker is stopped as it was, and every feed opened is stopped
again. -/
theorem startTracking_ledger (hw : Wellformed s) (hl : Ledger s) (hfeed : s.tracker.feed = none)
    (hp : s.tracker.present = true) :
    Ensures startTracking s (fun _ s' => Ledger s' ∧ Restarted s s')
      fun _ s' => Halted s s' ∧ s'.tracker = s.tracker ∧ s'.listeners = s.listeners := by
  have hroot : s.tracker.root = none := hl.idle hfeed
  have hdead : ∀ n, Settled s n → Dead s n := fun _ hn => hn.dead hroot
  unfold startTracking
  refine Ensures.bind (Ensures.get ?_)
  refine Ensures.andThen ((addFeed_spec _ s).also (addFeed_booked hl.books rfl hl.source))
    fun f s₁ hs₁ => ?_
  obtain ⟨⟨hf, hst₁, hn₁, hfs₁⟩, hb₁, _, hflt₁, hfd₁⟩ := hs₁
  have ha₁ : Arena s₁ := (Holds.of_addFeed hw hst₁ hn₁ hfs₁ rfl).wellformed.arena
  refine Ensures.bind (Ensures.tryCatch ?_)
  unfold startFeed
  refine Ensures.bind (Ensures.get ?_)
  obtain ⟨k, hk⟩ := State.buildFuel_succ s₁
  rw [hk, start]
  refine Ensures.andThen ((subscribe_spec f s₁).also ((subscribe_extends (E := fun _ _ => True) ha₁ hflt₁).also
    (subscribe_booked hb₁.books hflt₁ (by rw [hfd₁]) (by rw [hfd₁]))))
    fun root s₂ hpost₂ => ?_
  obtain ⟨⟨_, hs₂⟩, ⟨_, hext₂, ha₂, hn₂, hfs₂, hact₂, hm₂, hsub₂⟩, hb₂⟩ := hpost₂
  have htr₂ : s₂.tracker = s.tracker := by rw [hext₂.steady.tracker, hst₁.tracker]
  have hls₂ : s₂.listeners = s.listeners := by rw [hext₂.steady.listeners, hst₁.listeners]
  have htree₂ : (s₂.feed f).tree = s.tracker.source := by
    have e := congrArg State.feeds hs₂
    dsimp only at e
    rw [State.feed_of_modify e]
    split <;> rw [hfd₁]
  have hnode₂ : ∀ y, y.val < s.nodes.size → s₂.node y = s.node y := fun y hy => by
    rw [hext₂.node_kept (by rw [hn₁]; exact hy)]
    simp [State.node, hn₁]
  have hold₂ : ∀ g, g.val < s.feeds.size → s₂.feed g = s.feed g := fun g hg => by
    have hgf : some f ≠ some g := fun e => by
      cases e
      rw [hf] at hg
      exact Nat.lt_irrefl _ hg
    rw [hext₂.feed g (by rw [hfs₁, Array.size_push]; omega) hgf, State.feed_of_push hfs₁,
      if_neg (Nat.ne_of_lt hg)]
  have hquiet₂ : ∀ g, g ≠ f → (s₂.feed g).active = false := fun g hgf => by
    by_cases hg : g.val < s.feeds.size
    · rw [hold₂ g hg]
      exact hl.quiet hfeed g
    · have hle : s₂.feeds.size ≤ g.val := by
        rw [hfs₂, hfs₁, Array.size_push]
        refine Nat.lt_of_le_of_ne (Nat.le_of_not_lt hg) fun e => hgf ?_
        rw [hf]
        exact SubscriberId.ext e.symm
      rw [State.feed_of_size_le hle]
      rfl
  refine Ensures.bind (Ensures.get ?_)
  rw [if_pos (by rw [htr₂]; exact hp)]
  refine Ensures.discard ((((fill_tracker_spec ha₂ (by rw [hm₂, hfd₁]) (by rw [htr₂]; exact hroot)
    k root).and ((build_booked k).2.2.2 f root s₂ hb₂.books))).mono
    (fun r s₃ hpost₃ => ?_) fun e s₃ hfail₃ => ?_)
  · obtain ⟨h₃, hb₃⟩ := hpost₃
    have hsize₂ : s₂.nodes.size = s.nodes.size := by rw [hn₂, hn₁]
    have hP₀ : Ledger { s₂ with tracker := { s₂.tracker with feed := some f } } := by
      refine Ledger.of_lone_feed (hb₂.books.frame (fun _ => rfl) rfl rfl rfl hb₂.books.holder) rfl
        (by show s₂.tracker.root = none; rw [htr₂, hroot])
        (by show s₂.tracker.present = true; rw [htr₂, hp])
        (by show (s₂.feed f).active = true; rw [hact₂, hfd₁]) hsub₂
        (by show (s₂.feed f).mount = _; rw [hm₂, hfd₁])
        (by show (s₂.feed f).tree = s₂.tracker.source; rw [htree₂, htr₂]) hquiet₂
        (fun lid r hr => .inr (Dead.of_grown (hdead _ (hl.records lid r (by
          simpa [State.listener, hls₂] using hr))) hnode₂))
        (by show s₂.tracker.listeners.Wf; rw [htr₂]; exact hl.listeners)
        (by show s₂.tracker.source.val < s₂.forest.trees.size
            rw [htr₂]; exact Nat.lt_of_lt_of_le hl.source (hb₁.trans hb₂).trees_le)
    cases r with
    | none =>
      rw [h₃]
      refine Ensures.modify ⟨hP₀, ⟨hb₁.trans (hb₂.trans (Booked.of_tracker hb₂.books
        fun t => { t with feed := some f })), rfl,
        by show { s₂.tracker with feed := some f } = _; rw [htr₂], hold₂,
        fun n hn => Dead.of_grown hn hnode₂, fun x hx => ?_⟩⟩
      obtain ⟨_, r, hr, _⟩ := hx
      have hr' : s₂.tracker.root = some r := hr
      rw [htr₂, hroot] at hr'
      cases hr'
    | some x =>
      obtain ⟨s₃, hc, rfl⟩ := h₃
      have htr₃ : s₃.tracker = s₂.tracker := hc.grows.steady.tracker
      have hnode₃ : ∀ y, y.val < s.nodes.size → s₃.node y = s.node y := fun y hy => by
        rw [hc.grows.node_kept (by rw [hsize₂]; exact hy), hnode₂ y hy]
      have hb₅ := hb₃.trans (Booked.of_tracker hb₃.books fun t => { t with feed := some f })
      refine Ensures.modify ⟨Ledger.plant hP₀ (by show s₂.tracker.present = true; rw [htr₂, hp])
        rfl (by show s₂.tracker.root = none; rw [htr₂, hroot]) hc rfl rfl rfl hb₅.trees_le hb₅.books
        (by rw [htr₃]), ⟨hb₁.trans (hb₂.trans hb₅), rfl, by rw [htr₃, htr₂],
          fun g hg => ?_, fun n hn => Dead.of_grown hn hnode₃, fun y hy₀ => ?_⟩⟩
      · show s₃.feed g = s.feed g
        rw [hc.grows.feed_kept (Nat.lt_of_lt_of_le hg (hb₁.trans hb₂).feeds_le), hold₂ g hg]
      · obtain ⟨_, r, hr, hy⟩ := hy₀
        cases hr
        have hy' : Below s₃ x y := (below_iff_of_children_eq fun _ _ => by rfl).1 hy
        rw [← hsize₂, ← hc.fresh]
        exact hy'.le hc.arena
  · obtain ⟨hk₃, hb₃⟩ := hfail₃
    refine Ensures.andThen ((stopFeed_spec f s₃).also (stopFeed_booked hb₃.books f))
      fun _ s₄ hs₄ => ?_
    obtain ⟨⟨hst₄, hn₄, hf₄⟩, hb₄⟩ := hs₄
    have htr₄ : s₄.tracker = s.tracker := by rw [hst₄.tracker, hk₃.grows.steady.tracker, htr₂]
    refine Ensures.bind (Ensures.get ?_)
    split
    · rename_i r hr
      rw [htr₄, hroot] at hr
      cases hr
    refine Ensures.throw ⟨⟨hb₁.trans (hb₂.trans (hb₃.trans hb₄)), by rw [htr₄, hroot],
      by rw [htr₄, hfeed], fun g => ?_, fun n hn => Dead.of_grown (hdead n hn) fun y hy => ?_⟩, htr₄,
      by rw [hst₄.listeners, hk₃.grows.steady.listeners, hls₂]⟩
    · rw [State.feed_of_halt hf₄]
      split
      · rfl
      · rename_i hfg
        by_cases hg : g.val < s₂.feeds.size
        · rw [hk₃.grows.feed_kept hg]
          exact hquiet₂ g fun e => hfg e.symm
        · exact hk₃.shut g (Nat.le_of_not_lt hg)
    · show s₄.node y = s.node y
      have hy₂ : y.val < s₂.nodes.size := by rw [hn₂, hn₁]; exact hy
      have e₄ : s₄.node y = s₃.node y := by simp [State.node, hn₄]
      rw [e₄, hk₃.grows.node_kept hy₂, hnode₂ y hy]

/-- Starting to track from a stopped tracker that is there is audited: it restarts the tracker,
or fails with the tracker stopped as it was. -/
theorem startTracking_audit (hw : Wellformed s) (hl : Ledger s) (hfeed : s.tracker.feed = none)
    (hp : s.tracker.present = true) :
    Ensures startTracking s (fun _ s' => Audit s s' ∧ Restarted s s')
      fun _ s' => Audit s s' ∧ Halted s s' ∧ s'.tracker = s.tracker :=
  ((startTracking_safe hw).and (startTracking_ledger hw hl hfeed hp)).mono
    (fun _ _ ⟨hholds, hl', hr⟩ => ⟨⟨hholds, hl', hr.booked.feeds_le,
      fun g hg hoff => by rw [hr.feeds g hg]; exact hoff,
      fun n hn => .inr (hr.dead n (hn.dead (hl.idle hfeed))),
      fun h hret => by rw [hr.tracker]; exact hret⟩, hr⟩)
    fun _ _ ⟨hholds, hh, htr, hls⟩ => ⟨hh.audit hl hholds hls (by rw [htr]) (by rw [htr]), hh, htr⟩

end Starting

section Registering

variable {s : State}

/-- Adding a listener object that keeps no records is audited, and hands out the next id. -/
theorem addListenerObject_heeds {E : Fault → State → Prop} (hw : Wellformed s) (hl : Ledger s)
    {l : Listener} (hrec : l.records = []) :
    Ensures (addListenerObject l) s (fun lid s' => lid = ⟨s.listeners.size⟩ ∧ Heeds s s' ∧
      s'.tracker = s.tracker ∧ s'.nodes = s.nodes ∧ s'.feeds = s.feeds ∧ s'.forest = s.forest) E := by
  refine Ensures.modifyGet ⟨rfl, Heeds.of_same hw hl rfl rfl rfl rfl rfl rfl fun lid r hr => ?_,
    rfl, rfl, rfl, rfl⟩
  simp only [State.listener, getD_push] at hr
  split at hr
  · rw [hrec] at hr
    cases hr
  · exact hl.records lid r hr

/-- Registering a listener that keeps no records, while the tracker is there. It is audited and
keeps the tracker following its source exactly while listened to. The listener gets the next id
and the handle that inserting it hands out; the first listener starts tracking on a tree all of
whose nodes are new, and a later one changes neither the tree nor the feeds. If starting fails,
the listener is unregistered again and nothing runs. -/
theorem addListenerNamed_spec (hw : Wellformed s) (hl : Ledger s) (hlis : Listening s)
    (hp : s.tracker.present = true) {l : Listener} (hrec : l.records = []) :
    Ensures (addListenerNamed l) s
      (fun r s' => Heeds s s' ∧ r.2 = ⟨s.listeners.size⟩ ∧
        s.tracker.listeners.insert r.2 = (r.1, s'.tracker.listeners) ∧
        (s.tracker.listeners.count = 0 →
          s'.tracker.feed.isSome ∧ ∀ x, Live s' x → s.nodes.size ≤ x.val) ∧
        (s.tracker.listeners.count ≠ 0 → s'.nodes = s.nodes ∧ s'.feeds = s.feeds ∧
          s'.tracker.feed = s.tracker.feed ∧ s'.tracker.root = s.tracker.root))
      fun _ s' => Heeds s s' ∧ s.tracker.listeners.count = 0 ∧ Halted s s' ∧
        s'.tracker.listeners.count = 0 := by
  unfold addListenerNamed
  refine Ensures.andThen (addListenerObject_heeds hw hl hrec)
    fun lid s₁ hs₁ => ?_
  obtain ⟨hlid, h₁, htr₁, hn₁, hf₁, hfo₁⟩ := hs₁
  refine Ensures.bind (Ensures.get ?_)
  rcases hins : s₁.tracker.listeners.insert lid with ⟨h, L⟩
  dsimp only
  have hins' : s.tracker.listeners.insert lid = (h, L) := by rw [← htr₁, hins]
  have hwf : L.Wf := by
    have := hl.listeners.insert lid
    rwa [hins'] at this
  have hcount : L.count = s.tracker.listeners.count + 1 := by
    have := Slots.count_insert hl.listeners lid
    rwa [hins'] at this
  refine Ensures.andThen (modifyTracker_spec _ s₁) fun _ s₂ hs₂ => ?_
  have ha₂ : Audit s₁ s₂ := by
    rw [hs₂]
    refine Audit.relist h₁.1.holds.wellformed h₁.1.ledger hwf fun h' hr => ?_
    have := hr.insert (by rw [htr₁]; exact hl.listeners) lid
    rwa [hins] at this
  have htr₂ : s₂.tracker = { s.tracker with listeners := L } := by rw [hs₂, htr₁]
  have hp₂ : s₂.tracker.present = true := by rw [htr₂]; exact hp
  have hfeed₂ : s₂.tracker.feed = s.tracker.feed := by rw [htr₂]
  have hL₂ : s₂.tracker.listeners = L := by rw [htr₂]
  refine Ensures.ifThen (P := fun s₃ => Heeds s s₃ ∧ s₃.tracker.listeners = L ∧
      (s.tracker.listeners.count = 0 →
        s₃.tracker.feed.isSome ∧ ∀ x, Live s₃ x → s.nodes.size ≤ x.val) ∧
      (s.tracker.listeners.count ≠ 0 → s₃.nodes = s.nodes ∧ s₃.feeds = s.feeds ∧
        s₃.tracker.feed = s.tracker.feed ∧ s₃.tracker.root = s.tracker.root))
    (fun hone => ?_) (fun hone => ?_) fun s₃ hs₃ => ?_
  · have hzero : s.tracker.listeners.count = 0 := by omega
    have hfeed : s.tracker.feed = none := by
      cases hf : s.tracker.feed with
      | none => rfl
      | some g =>
        have := (hlis hp).1 (by rw [hf]; rfl)
        omega
    have hb₂ : Booked s s₂ := (Booked.of_feeds_eq h₁.1.ledger.books hf₁ (by rw [hfo₁])).trans
      (by rw [hs₂]; exact Booked.of_tracker h₁.1.ledger.books fun t => { t with listeners := L })
    refine Ensures.tryCatch ((startTracking_audit ha₂.holds.wellformed ha₂.ledger
      (by rw [hfeed₂, hfeed]) hp₂).mono (fun _ s₃ hpost₃ => ?_)
      fun e s₃ hfail₃ => ?_)
    · obtain ⟨ha₃, hr₃⟩ := hpost₃
      have hL₃ : s₃.tracker.listeners = L := by rw [hr₃.tracker, hL₂]
      refine ⟨⟨h₁.1.trans (ha₂.trans ha₃), fun _ hp₃ => ?_⟩, hL₃,
        fun _ => ⟨hr₃.tracking, fun x hx => ?_⟩, fun h0 => absurd hzero h0⟩
      · rw [hL₃, hcount, hzero]
        exact ⟨fun _ => Nat.one_pos, fun _ => hr₃.tracking⟩
      · have := hr₃.fresh x hx
        rwa [show s₂.nodes = s.nodes by rw [hs₂, hn₁]] at this
    · obtain ⟨ha₃, hh₃, htr₃⟩ := hfail₃
      obtain ⟨rest, hrest⟩ := Slots.remove_insert (hl.listeners) lid
      rw [hins'] at hrest
      dsimp only at hrest
      have hrest₃ : s₃.tracker.listeners.remove h = some (lid, rest) := by rw [htr₃, hL₂, hrest]
      have hzero' : rest.count = 0 := by
        have := Slots.count_remove hrest
        omega
      refine Ensures.andThen (modifyTracker_spec _ s₃) fun _ s₄ hs₄ => Ensures.throw ?_
      have hw₃ := ha₃.holds.wellformed
      have ha₄ : Audit s₃ s₄ := by
        rw [hs₄, hrest₃]
        exact Audit.relist hw₃ ha₃.ledger (ha₃.ledger.listeners.remove hrest₃)
          fun h' hr => hr.remove hrest₃
      have hh₄ : Halted s s₄ := by
        rw [hs₄, hrest₃]
        exact (Halted.of_pre hb₂ (fun x hx => ha₂.settled x (h₁.1.settled x hx)) hh₃).retrack
          (g := fun t => { t with listeners := rest }) rfl rfl
      have htl₄ : s₄.tracker.listeners = rest := by rw [hs₄, hrest₃]
      refine ⟨⟨h₁.1.trans (ha₂.trans (ha₃.trans ha₄)), fun _ _ => ?_⟩, hzero, hh₄, by rw [htl₄, hzero']⟩
      rw [hh₄.feed, htl₄, hzero']
      exact ⟨(by intros; contradiction), (by intros; contradiction)⟩
  · have hne : s.tracker.listeners.count ≠ 0 := by omega
    refine ⟨⟨h₁.1.trans ha₂, fun hls hp' => ?_⟩, hL₂, fun h0 => absurd h0 hne,
      fun _ => ⟨by rw [hs₂, hn₁], by rw [hs₂, hf₁], by rw [hfeed₂], by rw [htr₂]⟩⟩
    rw [hfeed₂, hL₂, hcount]
    exact ⟨fun _ => Nat.succ_pos _, fun _ => (hls hp).2 (Nat.pos_of_ne_zero hne)⟩
  · obtain ⟨h₃, hL₃, hstart, hkeep⟩ := hs₃
    refine Ensures.bind (Ensures.modify (Ensures.pure ?_))
    refine ⟨h₃.trans ?_, hlid, by rw [← hL₃] at hins'; exact hins', fun h0 => ?_, hkeep⟩
    · refine modifyListener_heeds (E := fun _ _ => False) h₃.1.holds.wellformed h₃.1.ledger lid _
        fun r hr => ?_
      split at hr
      · cases hr
      · exact h₃.1.ledger.records lid r hr
    · obtain ⟨hsome, hfresh⟩ := hstart h0
      exact ⟨hsome, fun x hx => hfresh x ((live_iff_of_children_eq (fun _ => by rfl) (by rfl) (by rfl)).1 hx)⟩

/-- A tracker without a feed is stopped already. -/
theorem Halted.of_idle (hl : Ledger s) (hfeed : s.tracker.feed = none) : Halted s s :=
  ⟨.refl hl.books, hl.idle hfeed, hfeed, hl.quiet hfeed, fun _ hx => hx.dead (hl.idle hfeed)⟩

/-- Dropping the tracker never fails: it stops tracking if it was, is gone from then on, and is
audited. -/
theorem dropTracker_spec (hw : Wellformed s) (hl : Ledger s) :
    Ensures dropTracker s (fun _ s' => Heeds s s' ∧ Halted s s' ∧ s'.tracker.present = false ∧
      s'.tracker.listeners = s.tracker.listeners) fun _ _ => False := by
  unfold dropTracker
  refine Ensures.bind (Ensures.get ?_)
  refine Ensures.ifThen (P := fun s₁ => Audit s s₁ ∧ Halted s s₁ ∧ s₁.listeners = s.listeners ∧
      s₁.tracker = { s.tracker with root := none, feed := none }) (fun _ => ?_) (fun hnone => ?_)
    fun s₁ hs₁ => ?_
  · refine Ensures.tryCatch ((stopTracking_halts hw hl).also (stopTracking_audit hw hl)
      |>.mono (fun _ s₁ h => ?_) fun _ _ h => h.elim)
    obtain ⟨⟨hh₁, htr₁, hls₁⟩, ha₁, _⟩ := h
    exact ⟨ha₁, hh₁, hls₁, htr₁⟩
  · have hfeed : s.tracker.feed = none := by
      cases hf : s.tracker.feed with
      | none => rfl
      | some g => rw [hf] at hnone; exact absurd rfl hnone
    refine ⟨Audit.refl hw hl, Halted.of_idle hl hfeed, rfl, ?_⟩
    rw [← hfeed, ← hl.idle hfeed]
  · obtain ⟨ha₁, hh₁, hls₁, htr₁⟩ := hs₁
    have hholds : Holds s₁ { s₁ with tracker := { s₁.tracker with present := false } } :=
      modifyTracker_absent (g := fun t => { t with present := false }) ha₁.holds.wellformed rfl rfl
    have hh₂ := hh₁.retrack (g := fun t => { t with present := false }) rfl rfl
    exact Ensures.modify ⟨⟨hh₂.audit hl (ha₁.holds.trans hholds) hls₁ (by rw [htr₁]) (by rw [htr₁]),
      fun _ hp => absurd hp (by simp)⟩, hh₂, rfl, by rw [htr₁]⟩

end Registering

end Inlay.Sync
