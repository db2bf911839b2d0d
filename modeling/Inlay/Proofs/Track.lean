import Inlay.Proofs.Forest

namespace Inlay.Sync

/-- Running `p` from `s` ends, answering or failing, in a state that `R` relates to `s`. -/
abbrev Within {σ ε α : Type} (R : σ → σ → Prop) (p : ExceptT ε (StateM σ) α) (s : σ) : Prop :=
  Ensures p s (fun _ => R s) fun _ => R s

/-- Running `p` from `s` keeps the invariant and every frozen node, whether it answers or fails. -/
abbrev Safe {α : Type} (p : Run α) (s : State) : Prop := Within Holds p s

/-- What an operation keeps while the tracker has no root: the invariant, the frozen nodes, and
no root. -/
def Unrooted (s s' : State) : Prop := Holds s s' ∧ s'.tracker.root = none

section Within

variable {σ ε : Type} {R : σ → σ → Prop} {α β : Type} {s : σ}

theorem Within.pure (h : R s s) (a : α) : Within R (pure a : ExceptT ε (StateM σ) α) s :=
  Ensures.pure h

theorem Within.throw (h : R s s) (e : ε) : Within R (throw e : ExceptT ε (StateM σ) α) s :=
  Ensures.throw h

theorem Within.get {f : σ → ExceptT ε (StateM σ) α} (h : Within R (f s) s) :
    Within R (get >>= f) s :=
  Ensures.bind (Ensures.get h)

theorem Within.discard {x : ExceptT ε (StateM σ) α} (h : Within R x s) : Within R (discard x) s :=
  Ensures.discard h

theorem Within.map {x : ExceptT ε (StateM σ) α} {f : α → β} (h : Within R x s) :
    Within R (f <$> x) s :=
  Ensures.map h

/-- What `R` gives from `s`, seen from an earlier state `s₀`. -/
theorem Within.imp {R' : σ → σ → Prop} {s₀ : σ} {p : ExceptT ε (StateM σ) α} (h : Within R p s)
    (himp : ∀ s', R s s' → R' s₀ s') : Ensures p s (fun _ => R' s₀) fun _ => R' s₀ :=
  h.mono (fun _ s' h => himp s' h) fun _ s' h => himp s' h

theorem Within.weaken {R' : σ → σ → Prop} {p : ExceptT ε (StateM σ) α} (h : Within R p s)
    (himp : ∀ s', R s s' → R' s s') : Within R' p s :=
  h.imp himp

/-- A step that only reads the state, followed by one within `R`, is within `R`. -/
theorem Within.after_read {x : ExceptT ε (StateM σ) α} {f : α → ExceptT ε (StateM σ) β}
    {P : α → Prop} (hrefl : R s s)
    (hx : Ensures x s (fun a s' => s' = s ∧ P a) fun _ s' => s' = s)
    (hf : ∀ a, P a → Within R (f a) s) : Within R (x >>= f) s :=
  Ensures.andThen (hx.mono (fun _ _ h => h) fun _ _ h => by rw [h]; exact hrefl)
    fun a _ ⟨hs, ha⟩ => by subst hs; exact hf a ha

variable [Trans R R R]

theorem Within.seq {x : ExceptT ε (StateM σ) α} {f : α → ExceptT ε (StateM σ) β}
    (hx : Within R x s)
    (hf : ∀ a s', R s s' → Within R (f a) s') : Within R (x >>= f) s :=
  Ensures.bind (hx.mono (fun a s' h => (hf a s' h).imp fun _ h' => Trans.trans h h') fun _ _ h => h)

theorem Within.tryCatch {x : ExceptT ε (StateM σ) α} {h : ε → ExceptT ε (StateM σ) α}
    (hx : Within R x s)
    (hh : ∀ e s', R s s' → Within R (h e) s') : Within R (tryCatch x h) s :=
  Ensures.tryCatch (hx.mono (fun _ _ h => h) fun e s' h =>
    (hh e s' h).imp fun _ h' => Trans.trans h h')

/-- An `if` with no `else` in a `do` block, followed by the rest `k`. -/
theorem Within.ifThen {c : Prop} [Decidable c] {x : ExceptT ε (StateM σ) PUnit}
    {k : PUnit → ExceptT ε (StateM σ) α} (hrefl : R s s) (hx : c → Within R x s)
    (hk : ∀ s', R s s' → Within R (k PUnit.unit) s') :
    Within R (if c then x >>= k else k PUnit.unit) s := by
  split
  · exact Within.seq (hx ‹c›) fun _ s' h => hk s' h
  · exact hk s hrefl

/-- A loop over a list whose every round is within `R` from wherever the rounds before it left. -/
theorem Within.forIn {γ : Type} {body : γ → ExceptT ε (StateM σ) PUnit} (hrefl : R s s)
    (hbody : ∀ b s', R s s' → Within R (body b) s') (xs : List γ) :
    Within R (forIn xs PUnit.unit fun b _ => do body b; Pure.pure (ForInStep.yield PUnit.unit)) s :=
  Ensures.forIn (I := fun _ s' => R s s') (fun b _ s' h => Ensures.andThen
    ((hbody b s' h).imp fun _ h' => Trans.trans h h') fun _ _ h'' => Ensures.pure ⟨rfl, h''⟩)
    xs s hrefl

/-- A loop over a list whose every round, from wherever the rounds before it left, is within `R`,
however it ends. -/
theorem Within.forIn_rounds {γ δ : Type} {g : γ → δ → ExceptT ε (StateM σ) (ForInStep δ)}
    (hrefl : R s s) (hbody : ∀ b d s', R s s' → Within R (g b d) s') (xs : List γ) (d : δ) :
    Within R (ForIn.forIn xs d g) s := by
  suffices h : ∀ (xs : List γ) d s', R s s' →
      Ensures (ForIn.forIn xs d g) s' (fun _ => R s) fun _ => R s
    from h xs d s hrefl
  intro xs
  induction xs with
  | nil => exact fun d s' h => Ensures.pure h
  | cons b rest ih =>
    intro d s' h
    rw [List.forIn_cons]
    refine Ensures.bind (((hbody b d s' h).imp fun _ h' => Trans.trans h h').mono
      (fun r s'' h'' => ?_) fun _ _ h'' => h'')
    cases r with
    | done d' => exact Ensures.pure h''
    | yield d' => exact ih d' s'' h''

end Within

section Holds

variable {s s' s₁ s₂ s₃ : State}

/-- With no root, the invariant is the heap being an arena. -/
theorem Holds.of_root_none (ha : Arena s') (hr : s'.tracker.root = none) (hk : Keeps s s') :
    Holds s s' :=
  ⟨.of_root_none ha hr, hk⟩

theorem Unrooted.trans (h₁ : Unrooted s₁ s₂) (h₂ : Unrooted s₂ s₃) : Unrooted s₁ s₃ :=
  ⟨h₁.1.trans h₂.1, h₂.2⟩

instance : Trans Holds Holds Holds := ⟨Holds.trans⟩

instance : Trans Unrooted Unrooted Unrooted := ⟨Unrooted.trans⟩

theorem Unrooted.refl_right (h : Unrooted s s') : Unrooted s' s' :=
  ⟨.refl h.1.wellformed, h.2⟩

/-- A change of one feed that moves no mount and starts nothing keeps the invariant. -/
theorem Holds.of_feeds (hw : Wellformed s) (hst : Steady s s') (hn : s'.nodes = s.nodes)
    {f : SubscriberId} {g : Feed → Feed} (hf : s'.feeds = s.feeds.modify f.val g)
    (hmount : ∀ fd, (g fd).mount = fd.mount) (hact : ∀ fd, (g fd).active = true → fd.active = true) :
    Holds s s' := by
  have hnode : ∀ x, s'.node x = s.node x := fun x => by simp [State.node, hn]
  have hfeed := State.feed_of_modify hf
  have hfeed' : ∀ k, (s'.feed k).mount = (s.feed k).mount ∧
      ((s'.feed k).active = true → (s.feed k).active = true) := fun k => by
    rw [hfeed]
    split
    · exact ⟨hmount _, hact _⟩
    · exact ⟨rfl, id⟩
  have ha : Arena s' := hw.arena.of_eq hnode (by rw [hn]) hst.forest_nodes fun k o h => by
    rw [(hfeed' k).1] at h
    exact hw.arena.mount_bound k o h
  refine ⟨hw.frame ha (Nat.le_of_eq (by rw [hn])) (by rw [hst.tracker]) (by rw [hst.tracker])
    (fun r _ => by rw [hnode]; exact ⟨rfl, rfl⟩) (fun x _ => hnode x)
    fun k o hact' hm _ => .inl ⟨(hfeed' k).2 hact', by rw [← (hfeed' k).1]; exact hm⟩,
    .of_placement (Nat.le_of_eq (by rw [hn])) fun y => by rw [hnode]⟩

/-- Adding a feed of the tracker's slot keeps the invariant. -/
theorem Holds.of_addFeed (hw : Wellformed s) (hst : Steady s s') (hn : s'.nodes = s.nodes)
    {fd : Feed} (hf : s'.feeds = s.feeds.push fd) (hm : fd.mount = .tracker) : Holds s s' := by
  have hnode : ∀ x, s'.node x = s.node x := fun x => by simp [State.node, hn]
  have hfeed := State.feed_of_push hf
  have hold : ∀ k o, (s'.feed k).mount = .owner o → s'.feed k = s.feed k := fun k o h => by
    rw [hfeed] at h ⊢
    split at h
    · rw [hm] at h; cases h
    · rw [if_neg ‹_›]
  have ha : Arena s' := hw.arena.of_eq hnode (by rw [hn]) hst.forest_nodes fun k o h => by
    rw [hold k o h] at h
    exact hw.arena.mount_bound k o h
  refine ⟨hw.frame ha (Nat.le_of_eq (by rw [hn])) (by rw [hst.tracker]) (by rw [hst.tracker])
    (fun r _ => by rw [hnode]; exact ⟨rfl, rfl⟩) (fun x _ => hnode x)
    fun k o hact hm' _ => .inl ?_, .of_placement (Nat.le_of_eq (by rw [hn])) fun y => by rw [hnode]⟩
  rw [← hold k o hm']
  exact ⟨hact, hm'⟩

/-- A failed build keeps the invariant: what it leaves behind is unreached. -/
theorem Holds.of_kept (hw : Wellformed s) (hk : Kept s s') : Holds s s' := by
  refine ⟨hw.frame hk.arena hk.grows.nodes_le (by rw [hk.grows.steady.tracker])
    (by rw [hk.grows.steady.tracker]) (fun r hr => ?_) (fun x hx => hk.grows.node_kept (hx.lt_size hw))
    fun g o hact hm _ => ?_, Keeps.of_extends hk.grows (by intros; contradiction)⟩
  · rw [hk.grows.node_kept (hw.root_lt r hr)]
    exact ⟨rfl, rfl⟩
  · by_cases hg : g.val < s.feeds.size
    · rw [hk.grows.feed_kept hg] at hact hm
      exact .inl ⟨hact, hm⟩
    · exact .inr (hk.owned g o (Nat.le_of_not_lt hg) hact hm)

/-- Planting a freshly built tree as the root keeps the invariant: the old tree, if any, is no
longer reached. -/
theorem Holds.of_planted (hw : Wellformed s) {x : InlaidId} (hc : Created s s₁ x .primary none) :
    Holds s { s₁ with tracker := { s₁.tracker with root := some x } } := by
  refine ⟨hw.plant (hc.arena.of_eq (fun _ => rfl) rfl rfl hc.arena.mount_bound) rfl
    (Nat.le_of_eq hc.fresh.symm) hc.lt hc.placed hc.parent
    (hc.built.congr fun _ _ => rfl) fun g o hact hm => ?_, ⟨hc.grows.nodes_le, ?_⟩⟩
  · by_cases hg : g.val < s.feeds.size
    · have e : s₁.feed g = s.feed g := hc.grows.feed_kept hg
      exact .inl ⟨e ▸ hact, e ▸ hm⟩
    · exact .inr (hc.owned g o (Nat.le_of_not_lt hg) hact hm)
  · exact (Keeps.of_extends hc.grows (by intros; contradiction)).frozen

end Holds

section Primitives

variable {s : State}

theorem modifyTracker_safe (hw : Wellformed s) {g : Tracker → Tracker}
    (hroot : (g s.tracker).root = s.tracker.root)
    (hpresent : (g s.tracker).present = s.tracker.present) : Safe (modifyTracker g) s :=
  Ensures.modify (Holds.of_forest hw rfl rfl hroot hpresent (.refl _))

/-- Emptying the root slot leaves no live tree. -/
theorem modifyTracker_unrooted (hw : Wellformed s) {g : Tracker → Tracker}
    (hroot : (g s.tracker).root = none) : Within Unrooted (modifyTracker g) s :=
  Ensures.modify ⟨Holds.of_root_none (hw.arena.of_eq (fun _ => rfl) rfl rfl hw.arena.mount_bound)
    hroot (.of_placement (Nat.le_refl _) fun _ => rfl), hroot⟩

/-- Dropping the tracker leaves no live tree, and the root where it was. -/
theorem modifyTracker_absent (hw : Wellformed s) {g : Tracker → Tracker}
    (hroot : (g s.tracker).root = s.tracker.root) (hpresent : (g s.tracker).present = false) :
    Safe (modifyTracker g) s :=
  Ensures.modify ⟨.of_not_live (hw.arena.of_eq (fun _ => rfl) rfl rfl hw.arena.mount_bound)
    (fun r hr => by
      rw [hroot] at hr
      exact ⟨hw.root_lt r hr, hw.root_primary r hr, hw.root_parent r hr⟩)
    fun _ h => by rw [Live, hpresent] at h; exact Bool.false_ne_true h.1,
    .of_placement (Nat.le_refl _) fun _ => rfl⟩

theorem modifyListener_safe (hw : Wellformed s) (l : ListenerId) (g : Listener → Listener) :
    Safe (modifyListener l g) s :=
  Ensures.modify (Holds.of_forest hw rfl rfl rfl rfl (.refl _))

theorem note_safe (hw : Wellformed s) (n : Notice) : Safe (note n) s :=
  Ensures.modify (Holds.of_forest hw rfl rfl rfl rfl (.refl _))

theorem addListenerObject_safe (hw : Wellformed s) (l : Listener) :
    Safe (addListenerObject l) s :=
  Ensures.modifyGet (Holds.of_forest hw rfl rfl rfl rfl (.refl _))

theorem stopFeed_safe (hw : Wellformed s) (f : SubscriberId) : Safe (stopFeed f) s :=
  (stopFeed_spec (E := fun _ _ => False) f s).mono (fun _ _ ⟨hst, hn, hf⟩ =>
    Holds.of_feeds hw hst hn hf (fun _ => rfl) (by intros; contradiction)) fun _ _ h => h.elim

theorem remove_trims (r : InlaidId) (s : State) :
    Ensures (remove r) s (fun _ s' => Trims s s' r) fun _ s' => Trims s s' r := by
  unfold remove
  apply Ensures.bind; apply Ensures.get
  exact removeWithin_trims _ s r

variable (hw : Wellformed s) (hr : s.tracker.root = none)
include hw hr

/-- Without a root, freezing any subtree keeps the invariant. -/
theorem remove_unrooted (r : InlaidId) : Within Unrooted (remove r) s :=
  have hkeep : ∀ s', Trims s s' r → Unrooted s s' := fun _ h => by
    have hr' : _ = none := h.steady.tracker ▸ hr
    exact ⟨Holds.of_root_none (h.arena hw.arena) hr' (.of_trims h), hr'⟩
  (remove_trims r s).mono (fun _ s' h => hkeep s' h) fun _ s' h => hkeep s' h

theorem stopFeeds_unrooted (r : InlaidId) : Within Unrooted (stopFeeds r) s :=
  (stopFeeds_spec (E := fun _ _ => False) r s).mono (fun _ _ h => by
    have hr' : _ = none := h.steady.tracker ▸ hr
    exact ⟨Holds.of_root_none (h.arena hw.arena) hr' (.of_stops h), hr'⟩) fun _ _ h => h.elim

theorem stopFeed_unrooted (f : SubscriberId) : Within Unrooted (stopFeed f) s :=
  ((stopFeed_safe hw f).and (stopFeed_spec (E := fun _ _ => False) f s)).mono
    (fun _ _ h => ⟨h.1, h.2.1.tracker ▸ hr⟩) fun _ _ h => h.2.elim

end Primitives

section Tracking

variable {s : State}

/-- The end of stopping the tracker keeps whatever stopping feeds keeps: after a failed freeze the
feeds below the old root stop and the fault goes on, and otherwise nothing happens. -/
theorem stopTracking_rest_within {R : State → State → Prop} [Trans R R R] {t : State}
    (ht : R t t) (hright : ∀ {t₁ t₂}, R t₁ t₂ → R t₂ t₂)
    (hstop : ∀ t₁ r, R t₁ t₁ → Within R (stopFeeds r) t₁) (frozen : Option Fault)
    (root : Option InlaidId) :
    Within R (match frozen with
      | some e => match root with
        | some r => (do stopFeeds r; throw e : Run Unit)
        | _ => throw e
      | _ => pure ()) t := by
  split
  · split
    · exact Within.seq (hstop t _ ht) fun _ _ h => Within.throw (hright h) _
    · exact Within.throw ht _
  · exact Within.pure ht _

/-- Stopping the tracker keeps the invariant: the root goes first, and the old tree is frozen
and its feeds stopped with no live tree left to break. -/
theorem stopTracking_safe (hw : Wellformed s) : Safe stopTracking s := by
  unfold stopTracking
  refine Within.get ?_
  dsimp only
  refine Ensures.andThen ((modifyTracker_unrooted (g := fun t => { t with root := none }) hw rfl).mono
    (fun _ _ h => h) fun _ _ h => h.1) fun _ s₁ h₁ => ?_
  refine Within.imp (R := Unrooted) ?_ fun s' h => h₁.1.trans h.1
  have hw₁ := h₁.1.wellformed
  refine Within.seq (Within.tryCatch ?_
    fun e s' h => Within.pure h.refl_right _) fun frozen s₂ h₂ => Within.get ?_
  · split
    · exact Within.seq (remove_unrooted hw₁ h₁.2 _) fun _ _ h =>
        Within.pure h.refl_right _
    · exact Within.pure (Unrooted.refl_right h₁) _
  have hjoin := fun s₃ (h₃ : Unrooted s₃ s₃) => stopTracking_rest_within h₃ (·.refl_right)
    (fun _ _ h => stopFeeds_unrooted h.1.wellformed h.2 _) frozen s.tracker.root
  split
  · refine Within.seq (modifyTracker_unrooted (g := fun t => { t with feed := none })
      h₂.1.wellformed h₂.2) fun _ s₃ h₃ => ?_
    exact Within.seq (stopFeed_unrooted h₃.1.wellformed h₃.2 _) fun _ s₄ h₄ =>
      hjoin s₄ h₄.refl_right
  · exact hjoin s₂ h₂.refl_right

theorem removeListener_safe (hw : Wellformed s) (h : Handle) : Safe (removeListener h) s := by
  unfold removeListener
  refine Within.get ?_
  split
  · exact Within.pure (Holds.refl hw) _
  · refine Within.seq (modifyTracker_safe hw rfl rfl) fun _ s₁ h₁ => ?_
    dsimp only
    split
    · exact Within.seq (stopTracking_safe h₁.wellformed) fun _ s₂ h₂ =>
        Within.pure (Holds.refl h₂.wellformed) _
    · exact Within.pure (Holds.refl h₁.wellformed) _

theorem hear_safe (hw : Wellformed s) (lid : ListenerId) (change : Change) (node : InlaidId) :
    Safe (hear lid change node) s := by
  unfold hear
  refine Within.get ?_
  split
  · dsimp only
    refine Within.seq (note_safe hw _) fun _ s₁ h₁ => ?_
    split
    · refine Within.seq (modifyListener_safe h₁.wellformed _ _) fun _ s₂ h₂ => ?_
      refine Within.seq (Within.tryCatch ?_ fun _ s₃ h₃ =>
        Within.pure (Holds.refl h₃.wellformed) _) fun _ s₃ h₃ => note_safe h₃.wellformed _
      split
      · exact Within.map (removeListener_safe h₂.wellformed _)
      · exact Within.pure (Holds.refl h₂.wellformed) _
    · exact Within.pure (Holds.refl h₁.wellformed) _
  · exact modifyListener_safe hw _ _
  · exact Within.pure (Holds.refl hw) _

theorem notify_safe (hw : Wellformed s) (change : Change) (node : InlaidId) :
    Safe (notify change node) s := by
  unfold notify
  refine Within.get ?_
  split
  · exact Within.seq (Within.forIn (Holds.refl hw)
      (fun lid _ h => hear_safe h.wellformed lid change node) _) fun _ _ h =>
        Within.pure (Holds.refl h.wellformed) _
  · exact Within.pure (Holds.refl hw) _

/-- Filling the tracker's slot plants a freshly built tree as the root, or empties the slot; a
failed build leaves the root where it was. -/
theorem fill_tracker_safe (hw : Wellformed s) {f : SubscriberId} (hm : (s.feed f).mount = .tracker) :
    ∀ (fuel : Nat) (src : Option SourceId), Safe (fill fuel f src) s
  | 0, _ => by
    rw [fill]
    exact Within.pure (Holds.refl hw) _
  | k + 1, src => by
    rw [fill]
    refine Within.get ?_
    dsimp only
    rw [hm]
    dsimp only
    cases src with
    | none =>
      refine Ensures.bind (Ensures.pure ?_)
      exact Within.seq ((modifyTracker_unrooted (g := fun t => { t with root := none }) hw rfl).weaken
        fun _ h => h.1) fun _ _ h => Within.pure (Holds.refl h.wellformed) _
    | some src =>
      refine Ensures.andThen
        (P := fun root s' => ∃ x, root = some x ∧ Created s s' x .primary none) (Ensures.map
        (((build_spec k).1 .primary none src s hw.arena rfl (by intros; contradiction)).mono
          (fun x s' h => ⟨x, rfl, h⟩) fun _ _ h => Holds.of_kept hw h)) fun root s₁ hc => ?_
      obtain ⟨x, rfl, hc⟩ := hc
      exact Ensures.bind (Ensures.modify (Ensures.pure (Holds.of_planted hw hc)))

/-- Subscribing keeps the invariant and the feed's mount. -/
theorem subscribe_holds (hw : Wellformed s) (f : SubscriberId) :
    Ensures (subscribe f) s (fun _ s' => Holds s s' ∧ (s'.feed f).mount = (s.feed f).mount)
      fun _ s' => Holds s s' := by
  unfold subscribe
  apply Ensures.bind; apply Ensures.get
  dsimp only
  refine Ensures.andThen (modifyTree_spec _ _ s) fun _ s₁ ⟨hst₁, hn₁, hf₁⟩ => ?_
  have h₁ : Holds s s₁ := Holds.of_forest hw hn₁ hf₁ (by rw [hst₁.tracker])
    (by rw [hst₁.tracker]) (.of_nodes_eq hst₁.forest_nodes)
  refine Ensures.andThen (modifyFeed_spec f _ s₁) fun _ s₂ ⟨hst₂, hn₂, hf₂⟩ => Ensures.pure ⟨?_, ?_⟩
  · exact h₁.trans (Holds.of_feeds h₁.wellformed hst₂ hn₂ hf₂ (fun _ => rfl) fun _ h => h)
  · rw [State.feed_of_modify hf₂]
    split <;> simp [State.feed, hf₁]

/-- Subscribing the tracker's feed copies the source tree's root into the tracker's slot. -/
theorem start_tracker_safe (hw : Wellformed s) {f : SubscriberId} (hm : (s.feed f).mount = .tracker) :
    ∀ fuel, Safe (start fuel f) s
  | 0 => by
    rw [start]
    exact Within.discard ((subscribe_holds hw f).mono (fun _ _ h => h.1) fun _ _ h => h)
  | k + 1 => by
    rw [start]
    refine Ensures.andThen (subscribe_holds hw f) fun root s₂ hs₂ => ?_
    obtain ⟨h₂, hm₂⟩ := hs₂
    refine Within.imp (R := Holds) ?_ fun _ h => h₂.trans h
    refine Within.get ?_
    split
    · exact Within.discard (fill_tracker_safe h₂.wellformed (hm₂.trans hm) k _)
    · exact Within.pure (Holds.refl h₂.wellformed) _

/-- Starting to track keeps the invariant: on a fault the feed stops and any root built in the
meantime is dropped with its feeds. -/
theorem startTracking_safe (hw : Wellformed s) : Safe startTracking s := by
  unfold startTracking
  refine Within.get ?_
  refine Ensures.andThen (addFeed_spec (E := fun _ s' => Holds s s') _ s)
    fun f s₁ ⟨hf, hst₁, hn₁, hfs₁⟩ => ?_
  have h₁ : Holds s s₁ := Holds.of_addFeed hw hst₁ hn₁ hfs₁ rfl
  have hm₁ : (s₁.feed f).mount = .tracker := by rw [State.feed_of_push hfs₁, if_pos (by rw [hf])]
  refine Within.imp (R := Holds) ?_ fun _ h => h₁.trans h
  refine Within.seq (Within.tryCatch ?_ fun e s₂ h₂ => ?_) fun _ s₃ h₃ =>
    modifyTracker_safe h₃.wellformed rfl rfl
  · unfold startFeed
    exact Within.get (start_tracker_safe h₁.wellformed hm₁ _)
  · refine Within.seq (stopFeed_safe h₂.wellformed f) fun _ s₃ h₃ => Within.get ?_
    dsimp only
    split
    · refine (Within.seq (modifyTracker_unrooted (g := fun t => { t with root := none })
        h₃.wellformed rfl) fun _ s₄ h₄ => Within.seq (stopFeeds_unrooted h₄.1.wellformed h₄.2 _)
          fun _ _ h₅ => Within.throw h₅.refl_right e).weaken fun _ h => h.1
    · exact Within.throw (Holds.refl h₃.wellformed) e

theorem addListenerNamed_safe (hw : Wellformed s) (l : Listener) : Safe (addListenerNamed l) s := by
  unfold addListenerNamed
  refine Within.seq (addListenerObject_safe hw l) fun lid s₁ h₁ => Within.get ?_
  cases s₁.tracker.listeners.insert lid with
  | mk h listeners =>
    dsimp only
    refine Within.seq (modifyTracker_safe h₁.wellformed rfl rfl) fun _ s₂ h₂ => ?_
    refine Within.ifThen (Holds.refl h₂.wellformed) (fun _ => ?_) fun s₃ h₃ =>
      Within.seq (modifyListener_safe h₃.wellformed _ _) fun _ _ h₄ =>
        Within.pure (Holds.refl h₄.wellformed) _
    exact Within.tryCatch (startTracking_safe h₂.wellformed) fun e s₃ h₃ =>
      Within.seq (modifyTracker_safe h₃.wellformed rfl rfl) fun _ _ h₄ =>
        Within.throw (Holds.refl h₄.wellformed) e

theorem dropTracker_safe (hw : Wellformed s) : Safe dropTracker s := by
  unfold dropTracker
  refine Within.get ?_
  exact Within.ifThen (Holds.refl hw) (fun _ => Within.tryCatch (stopTracking_safe hw) fun _ _ h =>
    Within.pure (Holds.refl h.wellformed) _) fun _ h => modifyTracker_absent h.wellformed rfl rfl

end Tracking

end Inlay.Sync
