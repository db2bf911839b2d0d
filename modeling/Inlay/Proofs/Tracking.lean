import Inlay.Proofs.Accounting

namespace Inlay.Session

open Sync

variable {S S' : State}

section Tracking

/-- A tracker with no listener, or gone, has no feed. -/
theorem Accounted.feed_none_of_idle (hS : Accounted S)
    (h : S.sync.tracker.present = false ∨ S.sync.tracker.listeners.count = 0) :
    S.sync.tracker.feed = none := by
  cases hf : S.sync.tracker.feed with
  | none => rfl
  | some g =>
    have hp := (hS.ledger.tracking g hf).1
    obtain h | h := h
    · rw [hp] at h
      cases h
    · have hpos := (hS.listening hp).1 (by rw [hf]; rfl)
      omega

/-- The session reports tracking exactly while the tracker is there with a feed. -/
theorem Accounted.tracking_iff_feed (hS : Accounted S) :
    S.snapshot.tracking = true ↔ S.sync.tracker.feed.isSome := by
  simp only [State.snapshot, Bool.and_eq_true, and_iff_right_iff_imp]
  intro h
  obtain ⟨g, hg⟩ := Option.isSome_iff_exists.1 h
  exact (hS.ledger.tracking g hg).1

/-- The tracker tracks exactly while it has listeners. -/
theorem Accounted.tracking_iff (hS : Accounted S) :
    S.snapshot.tracking = true ↔ 0 < S.snapshot.listeners := by
  simp only [State.snapshot]
  cases hp : S.sync.tracker.present
  · simp
  · simpa using hS.listening hp

/-- The tracker tracks exactly while its feed is subscribed to its source. -/
theorem Accounted.tracking_iff_subscribed (hS : Accounted S) :
    S.snapshot.tracking = true ↔ ∃ g, S.sync.tracker.feed = some g ∧
      g ∈ (S.sync.forest.tree S.sync.tracker.source).subscribers.values := by
  rw [hS.tracking_iff_feed, Option.isSome_iff_exists]
  constructor
  · rintro ⟨g, hg⟩
    exact ⟨g, hg, (hS.ledger.mem_subscribers hS.wellformed _ g).2 (.inl ⟨hg, rfl⟩)⟩
  · rintro ⟨g, hg, -⟩
    exact ⟨g, hg⟩

/-- A feed of the tracker that some tree lists is the tracker's feed, on its source. -/
theorem Accounted.subscribed_tracker_feed (hS : Accounted S) {T : TreeId} {g : SubscriberId}
    (hm : (S.sync.feed g).mount = .tracker)
    (hg : g ∈ (S.sync.forest.tree T).subscribers.values) :
    S.sync.tracker.feed = some g ∧ T = S.sync.tracker.source := by
  obtain h | ⟨m, -, hmg, -⟩ := (hS.ledger.mem_subscribers hS.wellformed T g).1 hg
  · exact h
  · rw [hS.ledger.books.holder m g hmg] at hm
    cases hm

/-- A tracker that does not track has no root. -/
theorem Accounted.root_none (hS : Accounted S) (h : S.snapshot.tracking = false) :
    S.sync.tracker.root = none := by
  refine hS.ledger.idle (Option.not_isSome_iff_eq_none.1 fun hf => ?_)
  rw [← hS.tracking_iff_feed] at hf
  rw [hf] at h
  cases h

end Tracking

section Subscriptions

/-- No subscription leaks and none is doubled. In every state a session reaches, a tree's
subscribers are exactly the tracker's feed, while it tracks that tree as its source, and the feed
of each live model node whose name resolved to the tree; each is listed once and fills one node. A
stopped feed stays stopped and subscribed nowhere in every later state. A tracker with no listener
left, or gone, holds no subscription at all. -/
theorem Reachable.subscriptions_exact (hS : Reachable S) :
    (∀ T g, g ∈ (S.sync.forest.tree T).subscribers.values ↔
      (S.sync.tracker.feed = some g ∧ T = S.sync.tracker.source) ∨
        ∃ m, Live S.sync m ∧ S.sync.feedOf m = some g ∧ (S.sync.feed g).tree = T) ∧
    (∀ T, (S.sync.forest.tree T).subscribers.values.Nodup) ∧
    (∀ m m' g, S.sync.feedOf m = some g → S.sync.feedOf m' = some g → m = m') ∧
    (∀ S' g, Follows S S' → g.val < S.sync.feeds.size → (S.sync.feed g).active = false →
      (S'.sync.feed g).active = false ∧ ∀ T, g ∉ (S'.sync.forest.tree T).subscribers.values) ∧
    (S.sync.tracker.present = false ∨ S.sync.tracker.listeners.count = 0 →
      ∀ T, (S.sync.forest.tree T).subscribers.values = []) := by
  have hA := hS.accounted
  refine ⟨hA.ledger.mem_subscribers hA.wellformed, hA.ledger.books.nodup_values,
    fun m m' g => hA.ledger.feedOf_inj, fun S' g hF hg hoff => ?_,
    fun h => hA.ledger.values_eq_nil (hA.feed_none_of_idle h)⟩
  have ha := (hF.accounts hA).heeds.1
  have hoff' := ha.stopped g hg hoff
  refine ⟨hoff', fun T hT => ?_⟩
  have hsub := ((ha.ledger.books.mem_values T g).1 hT).1
  rw [ha.ledger.books.stopped g hoff'] at hsub
  cases hsub

/-- In `demo`, once tracking: the subscriptions of every tree are those of the tracker and of the
live model nodes. -/
theorem demoTracked_subscriptions :
    Reachable demoTracked ∧
    (∀ T g, g ∈ (demoTracked.sync.forest.tree T).subscribers.values ↔
      (demoTracked.sync.tracker.feed = some g ∧ T = demoTracked.sync.tracker.source) ∨
        ∃ m, Live demoTracked.sync m ∧ demoTracked.sync.feedOf m = some g ∧
          (demoTracked.sync.feed g).tree = T) ∧
    (∀ T, (demoTracked.sync.forest.tree T).subscribers.values.Nodup) ∧
    (∀ m m' g, demoTracked.sync.feedOf m = some g → demoTracked.sync.feedOf m' = some g → m = m') ∧
    (∀ S' g, Follows demoTracked S' → g.val < demoTracked.sync.feeds.size →
      (demoTracked.sync.feed g).active = false →
      (S'.sync.feed g).active = false ∧ ∀ T, g ∉ (S'.sync.forest.tree T).subscribers.values) ∧
    (demoTracked.sync.tracker.present = false ∨ demoTracked.sync.tracker.listeners.count = 0 →
      ∀ T, (demoTracked.sync.forest.tree T).subscribers.values = []) :=
  ⟨demoTracked_reachable, Reachable.subscriptions_exact demoTracked_reachable⟩

end Subscriptions

section Lifecycle

/-- What registering a listener does: the listener takes the handle that inserting it hands out,
and the tracker tracks; the first listener starts it on a tree of new nodes, a later one leaves
the tree, the feeds, and the tracker's feed and root as they were. -/
structure Registers (s : Sync.State) (r : Handle × ListenerId) (s' : Sync.State) : Prop where
  inserted : s.tracker.listeners.insert r.2 = (r.1, s'.tracker.listeners)
  tracking : s'.tracker.feed.isSome
  fresh : s.tracker.listeners.count = 0 → ∀ x, Live s' x → s.nodes.size ≤ x.val
  kept : s.tracker.listeners.count ≠ 0 → s'.nodes = s.nodes ∧ s'.feeds = s.feeds ∧
    s'.tracker.feed = s.tracker.feed ∧ s'.tracker.root = s.tracker.root

/-- What a failed registration leaves: only the first listener can fail, by failing to start, and
it is unregistered again, with no feed and no subscription left. -/
structure Unregisters (s s' : Sync.State) : Prop where
  first : s.tracker.listeners.count = 0
  count : s'.tracker.listeners.count = 0
  feed : s'.tracker.feed = none
  unsubscribed : ∀ T, (s'.forest.tree T).subscribers.values = []

/-- What removing a listener by a handle does: it answers whether the handle names a listener. A
named one is taken out and its handle retired, and when it was the last one tracking stops, with
every node of the live tree frozen below; any other removal leaves the tree, the feeds, and the
tracker's feed and root as they were, and an unknown handle the listeners too. -/
structure Deregisters (s : Sync.State) (h : Handle) (b : Bool) (s' : Sync.State) : Prop where
  answer : b = (s.tracker.listeners.get? h).isSome
  removed : b = true → s'.tracker.listeners.count + 1 = s.tracker.listeners.count ∧
    s'.tracker.listeners.Retired h
  unknown : b = false → s'.tracker.listeners = s.tracker.listeners
  stops : b = true → s'.tracker.listeners.count = 0 →
    s'.tracker.feed = none ∧ s'.tracker.root = none ∧ ∀ x, Live s x → Dead s' x
  kept : (b = true → s'.tracker.listeners.count ≠ 0) → s'.nodes = s.nodes ∧ s'.feeds = s.feeds ∧
    s'.tracker.feed = s.tracker.feed ∧ s'.tracker.root = s.tracker.root

/-- Registering a listener that keeps no records while the tracker is there. -/
theorem addListener_registers (hS : Accounted S) (hp : S.sync.tracker.present = true)
    {l : Listener} (hrec : l.records = []) :
    Ensures (addListenerNamed l) S.sync (Registers S.sync) fun _ => Unregisters S.sync := by
  refine (addListenerNamed_spec hS.wellformed hS.ledger hS.listening hp hrec).mono
    (fun r s' ⟨_, _, hins, hfirst, hlater⟩ => ⟨hins, ?_, fun h => (hfirst h).2, hlater⟩)
    fun _ s' ⟨hh, hzero, hhalt, hzero'⟩ => ⟨hzero, hzero', hhalt.feed,
      hh.ledger.values_eq_nil hhalt.feed⟩
  by_cases h0 : S.sync.tracker.listeners.count = 0
  · exact (hfirst h0).1
  · rw [(hlater h0).2.2.1]
    exact (hS.listening hp).2 (Nat.pos_of_ne_zero h0)

/-- Removing a listener never fails. -/
theorem removeListener_deregisters (hS : Accounted S) (h : Handle) :
    Ensures (removeListener h) S.sync (Deregisters S.sync h) fun _ _ => False := by
  refine (removeListener_spec hS.wellformed hS.ledger h).mono
    (fun b s' ⟨hb, _, hls, hlast, hrest⟩ => ⟨hb, fun hbt => ?_, fun hbf => ?_,
      fun hbt h0 => ⟨(hlast hbt h0).feed, (hlast hbt h0).root,
        fun x hx => (hlast hbt h0).dead x (.inl hx)⟩, hrest⟩) fun _ _ h => h
  · obtain ⟨a, ha⟩ := Option.isSome_iff_exists.1 (hb.symm.trans hbt)
    obtain ⟨t, hrem⟩ : ∃ t, S.sync.tracker.listeners.remove h = some (a, t) :=
      ⟨_, by rw [Slots.remove_eq, ha]; rfl⟩
    rw [hls, hrem]
    exact ⟨(Slots.count_remove hrem).symm, Slots.retired_of_remove hS.ledger.listeners hrem⟩
  · have hnone : S.sync.tracker.listeners.get? h = none := by
      cases hg : S.sync.tracker.listeners.get? h with
      | none => rfl
      | some a =>
        rw [hg] at hb
        rw [hb] at hbf
        cases hbf
    rw [hls, Slots.remove_eq, hnone]
    rfl

/-- The tracker's lifecycle. In every state a session reaches, the tracker tracks exactly while it
has listeners; its feed is subscribed to its source exactly while it tracks, and a feed of the
tracker that a tree lists is its current one; a tracker that does not track has no root.
Registering a listener starts tracking exactly on the first one, on a tree that shares no node
with earlier ones, and a failed start unregisters it again with nothing subscribed. Removing a
listener answers `true` exactly for a registered handle, and stops tracking exactly on the last
one, freezing the tree. A stopped feed, or one whose tracker is gone, ignores every event, and a
retired handle never names a listener again. -/
theorem tracker_lifecycle :
    (∀ S, Reachable S →
      (S.snapshot.tracking = true ↔ 0 < S.snapshot.listeners) ∧
      (S.snapshot.tracking = true ↔ ∃ g, S.sync.tracker.feed = some g ∧
        g ∈ (S.sync.forest.tree S.sync.tracker.source).subscribers.values) ∧
      (∀ T g, (S.sync.feed g).mount = .tracker → g ∈ (S.sync.forest.tree T).subscribers.values →
        S.sync.tracker.feed = some g) ∧
      (S.snapshot.tracking = false → S.sync.tracker.root = none)) ∧
    (∀ S (l : Listener), Reachable S → S.sync.tracker.present = true → l.records = [] →
      Ensures (addListenerNamed l) S.sync (Registers S.sync) fun _ => Unregisters S.sync) ∧
    (∀ S h, Reachable S →
      Ensures (removeListener h) S.sync (Deregisters S.sync h) fun _ _ => False) ∧
    (∀ (s : Sync.State) f e, (s.feed f).active = false ∨ s.tracker.present = false →
      exec (onEvent f e) s = (.ok (), s)) ∧
    (∀ S S' h, Reachable S → Follows S S' → S.sync.tracker.listeners.Retired h →
      S'.sync.tracker.listeners.get? h = none) := by
  refine ⟨fun S hS => ?_, fun S l hS hp hrec => addListener_registers hS.accounted hp hrec,
    fun S h hS => removeListener_deregisters hS.accounted h, fun s f e h => onEvent_ignored e h,
    fun S S' h hS hF hr => ((hF.accounts hS.accounted).heeds.1.retired h hr).2⟩
  have hA := hS.accounted
  exact ⟨hA.tracking_iff, hA.tracking_iff_subscribed,
    fun T g hm hg => (hA.subscribed_tracker_feed hm hg).1, hA.root_none⟩

/-- In `demo`, once its listener registered: the tracker tracks with one listener, and removing
that listener by its handle is a removal of the last one. -/
theorem demo_lifecycle :
    Reachable demoTracked ∧ demoTracked.snapshot.tracking = true ∧
      0 < demoTracked.snapshot.listeners ∧
      Ensures (removeListener ⟨0, 0⟩) demoTracked.sync (Deregisters demoTracked.sync ⟨0, 0⟩)
        fun _ _ => False := by
  have htracking : demoTracked.snapshot.tracking = true := by decide +kernel
  exact ⟨demoTracked_reachable, htracking,
    ((tracker_lifecycle.1 _ demoTracked_reachable).1.1 htracking),
    tracker_lifecycle.2.2.1 _ _ demoTracked_reachable⟩

end Lifecycle

end Inlay.Session
