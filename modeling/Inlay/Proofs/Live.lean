import Inlay.Proofs.Remove

namespace Inlay.Sync

/-- What an operation keeps of the heap: every node, and every frozen node where it was frozen. -/
structure Keeps (s s' : State) : Prop where
  size : s.nodes.size ≤ s'.nodes.size
  frozen : ∀ y i p, (s.node y).placement = .frozen i p → (s'.node y).placement = .frozen i p

/-- What an operation keeps: the invariant, and every frozen node where it was frozen. -/
structure Holds (s s' : State) : Prop where
  wellformed : Wellformed s'
  keeps : Keeps s s'

section Keeps

variable {s s₁ s₂ s₃ : State}

theorem Keeps.refl (s : State) : Keeps s s := ⟨Nat.le_refl _, fun _ _ _ h => h⟩

theorem Keeps.trans (h₁ : Keeps s₁ s₂) (h₂ : Keeps s₂ s₃) : Keeps s₁ s₃ :=
  ⟨Nat.le_trans h₁.size h₂.size, fun y i p h => h₂.frozen y i p (h₁.frozen y i p h)⟩

/-- A change that keeps every placement keeps the frozen ones. -/
theorem Keeps.of_placement (hsize : s₁.nodes.size ≤ s₂.nodes.size)
    (h : ∀ y, (s₂.node y).placement = (s₁.node y).placement) : Keeps s₁ s₂ :=
  ⟨hsize, fun y i p hy => by rw [h y, hy]⟩

/-- A change of old nodes other than `o`, which keeps the placement of `o`, keeps frozen nodes. -/
theorem Keeps.of_extends {o : Option InlaidId} {f : Option SubscriberId} (h : Extends s₁ s₂ o f)
    (ho : ∀ y, o = some y → (s₂.node y).placement = (s₁.node y).placement) : Keeps s₁ s₂ := by
  refine ⟨h.nodes_le, fun y i p hy => ?_⟩
  by_cases hlt : y.val < s₁.nodes.size
  · by_cases hoy : o = some y
    · rw [ho y hoy, hy]
    · rw [h.node y hlt hoy, hy]
  · rw [State.node_of_size_le (Nat.le_of_not_lt hlt)] at hy
    cases hy

theorem Keeps.of_trims {id : InlaidId} (h : Trims s₁ s₂ id) : Keeps s₁ s₂ :=
  ⟨Nat.le_of_eq h.nodes_size.symm, fun y _ _ hy => by rw [(h.trimmed y).frozen (by rw [hy]; rfl), hy]⟩

theorem Keeps.of_stops {id : InlaidId} (h : StopsBelow s₁ s₂ id) : Keeps s₁ s₂ :=
  Keeps.of_placement (Nat.le_of_eq h.nodes_size.symm) fun y => by
    rcases h.node y with e | ⟨_, e⟩ <;> rw [e]
    rfl

theorem Holds.refl (hw : Wellformed s) : Holds s s := ⟨hw, Keeps.refl s⟩

theorem Holds.trans (h₁ : Holds s₁ s₂) (h₂ : Holds s₂ s₃) : Holds s₁ s₃ :=
  ⟨h₂.wellformed, h₁.keeps.trans h₂.keeps⟩

end Keeps

section Live

variable {s s' : State} {x : InlaidId}

theorem Live.child (h : Live s x) {c : InlaidId} (hc : c ∈ (s.node x).children) : Live s c := by
  obtain ⟨hp, r, hr, hb⟩ := h
  exact ⟨hp, r, hr, .child hb hc⟩

theorem Live.lt_size (hw : Wellformed s) (h : Live s x) : x.val < s.nodes.size := by
  obtain ⟨-, r, hr, hb⟩ := h
  exact hb.lt_size hw.arena (hw.root_lt r hr)

/-- A live node stays live while the root and the tracker's presence stay and every live node
keeps its children. -/
theorem Live.of_children_sub (h : Live s x) (hroot : s'.tracker.root = s.tracker.root)
    (hpresent : s'.tracker.present = s.tracker.present)
    (hsub : ∀ z, Live s z → ∀ c ∈ (s.node z).children, c ∈ (s'.node z).children) : Live s' x := by
  obtain ⟨hp, r, hr, hb⟩ := h
  exact ⟨by rw [hpresent]; exact hp, r, by rw [hroot]; exact hr,
    hb.of_children_sub fun z hz => hsub z ⟨hp, r, hr, hz⟩⟩

/-- A node below `c` that `c` does not head hangs below `c` through its parent. -/
theorem Below.of_child_below (ha : Arena s) {c y d : InlaidId} (hd : d ∈ (s.node y).children)
    (hb : Below s c d) (hne : d ≠ c) : Below s c y := by
  obtain ⟨q, hq, hbq, -⟩ := hb.parent_of_ne ha hne
  rw [ha.child_parent y d hd] at hq
  cases hq
  exact hbq

/-- The root lies below no other node: it has no parent. -/
theorem Wellformed.not_below_root (hw : Wellformed s) {r c : InlaidId} (hr : s.tracker.root = some r)
    (hb : Below s c r) (hne : r ≠ c) : False := by
  obtain ⟨q, hq, -, -⟩ := hb.parent_of_ne hw.arena hne
  rw [hw.root_parent r hr] at hq
  cases hq

/-- The node that lists a live node is live: each node has one parent, and the root none. -/
theorem Live.of_child (hw : Wellformed s) {p c : InlaidId} (h : Live s c)
    (hc : c ∈ (s.node p).children) : Live s p := by
  obtain ⟨hp, r, hr, hb⟩ := h
  have hne : c ≠ r := fun e => by
    have := hw.arena.child_parent p c hc
    rw [e, hw.root_parent r hr] at this
    cases this
  obtain ⟨q, hq, hbq, -⟩ := hb.parent_of_ne hw.arena hne
  rw [hw.arena.child_parent p c hc] at hq
  cases hq
  exact ⟨hp, r, hr, hbq⟩

/-- A node on the way from the root down to a live node is live. -/
theorem Live.of_below (hw : Wellformed s) {c : InlaidId} (h : Live s x) (hb : Below s c x) :
    Live s c := by
  induction hb with
  | refl => exact h
  | child _ hy ih => exact ih (h.of_child hw hy)

/-- The root lies below no child: it has no parent. -/
theorem Wellformed.root_not_below (hw : Wellformed s) {p c r : InlaidId}
    (hc : c ∈ (s.node p).children) (hr : s.tracker.root = some r) : ¬ Below s c r := by
  intro hb
  by_cases hrc : r = c
  · subst hrc
    have := hw.arena.child_parent p r hc
    rw [hw.root_parent r hr] at this
    cases this
  · exact hw.not_below_root hr hb hrc

/-- The tree of a present tracker stands. -/
theorem Wellformed.standing (hw : Wellformed s) (hp : s.tracker.present = true) {r : InlaidId}
    (hr : s.tracker.root = some r) : Standing s r :=
  ⟨hw.root_lt r hr, hw.root_primary r hr, fun y hy => hw.sound y ⟨hp, r, hr, hy⟩⟩

/-- A state without a live tree is well formed once the heap is an arena and the root, if any,
is an orphan placed by the source. -/
theorem Wellformed.of_not_live (ha : Arena s')
    (hroot : ∀ r, s'.tracker.root = some r → r.val < s'.nodes.size ∧
      (s'.node r).placement = .primary ∧ (s'.node r).parent = none)
    (hnone : ∀ x, ¬ Live s' x) : Wellformed s' :=
  ⟨ha, fun r h => (hroot r h).1, fun r h => (hroot r h).2.1, fun r h => (hroot r h).2.2,
    fun x hx => absurd hx (hnone x), fun _ o _ _ ho => absurd ho (hnone o)⟩

theorem Wellformed.of_root_none (ha : Arena s') (h : s'.tracker.root = none) : Wellformed s' :=
  .of_not_live ha (fun r hr => by rw [h] at hr; cases hr) fun _ ⟨_, r, hr, _⟩ => by
    rw [h] at hr; cases hr

/-- The invariant survives a change that keeps the root and every live node, keeps the root in
its place, keeps the heap an arena, and starts no feed for a live model node other than its feed. -/
theorem Wellformed.frame (hw : Wellformed s) (ha : Arena s') (hsize : s.nodes.size ≤ s'.nodes.size)
    (hroot : s'.tracker.root = s.tracker.root) (hpresent : s'.tracker.present = s.tracker.present)
    (hr : ∀ r, s.tracker.root = some r →
      (s'.node r).placement = (s.node r).placement ∧ (s'.node r).parent = (s.node r).parent)
    (hlive : ∀ x, Live s x → s'.node x = s.node x)
    (hfeed : ∀ f o, (s'.feed f).active = true → (s'.feed f).mount = .owner o → Live s o →
      ((s.feed f).active = true ∧ (s.feed f).mount = .owner o) ∨ s'.feedOf o = some f) :
    Wellformed s' := by
  have hlive' : ∀ x, Live s' x → Live s x := by
    rintro x ⟨hp, r, hr, hb⟩
    rw [hpresent] at hp
    rw [hroot] at hr
    exact ⟨hp, r, hr, hb.of_children_eq fun y hy => by rw [hlive y ⟨hp, r, hr, hy⟩]⟩
  refine ⟨ha, fun r h => ?_, fun r h => ?_, fun r h => ?_, fun x hx => ?_, fun f o hact hm ho => ?_⟩
  · rw [hroot] at h
    exact Nat.lt_of_lt_of_le (hw.root_lt r h) hsize
  · rw [hroot] at h
    rw [(hr r h).1]
    exact hw.root_primary r h
  · rw [hroot] at h
    rw [(hr r h).2]
    exact hw.root_parent r h
  · have hx' := hlive' x hx
    exact (hw.sound x hx').congr (hlive x hx') fun c hc => by rw [hlive c (hx'.child hc)]
  · have ho' := hlive' o ho
    rcases hfeed f o hact hm ho' with ⟨hact₀, hm₀⟩ | e
    · rw [show s'.feedOf o = s.feedOf o by simp [State.feedOf, hlive o ho']]
      exact hw.feed_owner f o hact₀ hm₀ ho'
    · exact e

/-- After a new child `x` is listed under `p`, every other old node keeping its children, the root
reaches an old node it reached before, or a node below `x`. -/
theorem Below.of_grafted (hw : Wellformed s) {p x r y : InlaidId}
    (hold : ∀ y, y.val < s.nodes.size → y ≠ p → (s'.node y).children = (s.node y).children)
    (hp_children : ∀ c ∈ (s'.node p).children, c ∈ (s.node p).children ∨ c = x)
    (hr : s.tracker.root = some r) (hb : Below s' r y) :
    (Below s r y ∧ y.val < s.nodes.size) ∨ Below s' x y := by
  induction hb with
  | refl => exact .inl ⟨.refl, hw.root_lt r hr⟩
  | @child y c _ hc ih =>
    rcases ih with ⟨hby, hy⟩ | hxy
    · by_cases hyp : y = p
      · subst hyp
        rcases hp_children c hc with hc | rfl
        · exact .inl ⟨.child hby hc, (hw.arena.child_bound y c hc).2⟩
        · exact .inr .refl
      · rw [hold y hy hyp] at hc
        exact .inl ⟨.child hby hc, (hw.arena.child_bound y c hc).2⟩
    · exact .inr (.child hxy hc)

/-- After the child `c` is cut off `p`, every node outside its subtree keeping its children, the
root reaches only nodes it reached before, outside the subtree. -/
theorem Below.of_pruned (hw : Wellformed s) {p c r y : InlaidId} (hc : c ∈ (s.node p).children)
    (hkeep : ∀ y, ¬ Below s c y → y ≠ p → (s'.node y).children = (s.node y).children)
    (hp_children : ∀ d ∈ (s'.node p).children, d ∈ (s.node p).children ∧ d ≠ c)
    (hr : s.tracker.root = some r) (hb : Below s' r y) : Below s r y ∧ ¬ Below s c y := by
  have hpc : (s.node c).parent = some p := hw.arena.child_parent p c hc
  induction hb with
  | refl => exact ⟨.refl, hw.root_not_below hc hr⟩
  | @child y d _ hd ih =>
    obtain ⟨hby, hyc⟩ := ih
    have hd' : d ∈ (s.node y).children ∧ (y = p → d ≠ c) := by
      by_cases hyp : y = p
      · subst hyp
        obtain ⟨hd₁, hd₂⟩ := hp_children d hd
        exact ⟨hd₁, fun _ => hd₂⟩
      · rw [hkeep y hyc hyp] at hd
        exact ⟨hd, fun h => absurd h hyp⟩
    refine ⟨.child hby hd'.1, fun hcd => ?_⟩
    by_cases hdc : d = c
    · subst hdc
      have := hw.arena.child_parent y d hd'.1
      rw [hpc] at this
      cases this
      exact hd'.2 rfl rfl
    · exact hyc (hcd.of_child_below hw.arena hd'.1 hdc)

/-- Grafting a fresh subtree, built sound, under a node `p` keeps the invariant when no other old
node changes, `p` keeps its place and feed, lists only old children and the new top, and is sound
if live, and every running feed of a model node is as it was or is that node's feed. -/
theorem Wellformed.graft (hw : Wellformed s) (ha : Arena s') {p x : InlaidId}
    (hsize : s.nodes.size ≤ s'.nodes.size)
    (hroot : s'.tracker.root = s.tracker.root) (hpresent : s'.tracker.present = s.tracker.present)
    (hold : ∀ y, y.val < s.nodes.size → y ≠ p → s'.node y = s.node y)
    (hp_place : (s'.node p).placement = (s.node p).placement)
    (hp_parent : (s'.node p).parent = (s.node p).parent)
    (hp_feed : s'.feedOf p = s.feedOf p)
    (hp_children : ∀ c ∈ (s'.node p).children, c ∈ (s.node p).children ∨ c = x)
    (hp_sound : Live s p → Sound s' p)
    (hx : s.nodes.size ≤ x.val) (hbuilt : Built s' x)
    (hfeed : ∀ f o, (s'.feed f).active = true → (s'.feed f).mount = .owner o →
      ((s.feed f).active = true ∧ (s.feed f).mount = .owner o) ∨ s'.feedOf o = some f) :
    Wellformed s' := by
  have hlive' : ∀ y, Live s' y → (Live s y ∧ y.val < s.nodes.size) ∨ Below s' x y := by
    rintro y ⟨hp, r, hr, hb⟩
    rw [hpresent] at hp
    rw [hroot] at hr
    rcases Below.of_grafted hw (fun y hy hyp => by rw [hold y hy hyp]) hp_children hr hb with
      ⟨hb', hy⟩ | h
    · exact .inl ⟨⟨hp, r, hr, hb'⟩, hy⟩
    · exact .inr h
  have hplace : ∀ y, y.val < s.nodes.size → (s'.node y).placement = (s.node y).placement := by
    intro y hy
    by_cases hyp : y = p
    · subst hyp; exact hp_place
    · rw [hold y hy hyp]
  refine ⟨ha, fun r h => ?_, fun r h => ?_, fun r h => ?_, fun y hy => ?_,
    fun f o hact hm ho => ?_⟩
  · rw [hroot] at h
    exact Nat.lt_of_lt_of_le (hw.root_lt r h) hsize
  · rw [hroot] at h
    rw [hplace r (hw.root_lt r h)]
    exact hw.root_primary r h
  · rw [hroot] at h
    by_cases hrp : r = p
    · subst hrp; rw [hp_parent]; exact hw.root_parent r h
    · rw [hold r (hw.root_lt r h) hrp]; exact hw.root_parent r h
  · rcases hlive' y hy with ⟨hy', hlt⟩ | hxy
    · by_cases hyp : y = p
      · subst hyp; exact hp_sound hy'
      · exact (hw.sound y hy').congr (hold y hlt hyp) fun c hc =>
          hplace c (hw.arena.child_bound y c hc).2
    · exact hbuilt y hxy
  · rcases hfeed f o hact hm with ⟨hact₀, hm₀⟩ | e
    · have ho_lt := hw.arena.mount_bound f o hm₀
      rcases hlive' o ho with ⟨ho', -⟩ | hxo
      · have := hw.feed_owner f o hact₀ hm₀ ho'
        by_cases hop : o = p
        · subst hop; rw [hp_feed]; exact this
        · rw [show s'.feedOf o = s.feedOf o by simp [State.feedOf, hold o ho_lt hop]]
          exact this
      · have := hxo.le ha
        omega
    · exact e

/-- Planting a fresh subtree, built sound, as the root keeps the invariant when no old node
changes and every running feed of a model node is as it was or is that node's feed. -/
theorem Wellformed.plant (hw : Wellformed s) (ha : Arena s') {x : InlaidId}
    (hroot : s'.tracker.root = some x) (hx : s.nodes.size ≤ x.val) (hx_lt : x.val < s'.nodes.size)
    (hprimary : (s'.node x).placement = .primary) (hparent : (s'.node x).parent = none)
    (hbuilt : Built s' x)
    (hfeed : ∀ f o, (s'.feed f).active = true → (s'.feed f).mount = .owner o →
      ((s.feed f).active = true ∧ (s.feed f).mount = .owner o) ∨ s'.feedOf o = some f) :
    Wellformed s' := by
  have hlive' : ∀ y, Live s' y → Below s' x y := by
    rintro y ⟨-, r, hr, hb⟩
    rw [hroot] at hr
    cases hr
    exact hb
  refine ⟨ha, fun r h => ?_, fun r h => ?_, fun r h => ?_, fun y hy => hbuilt y (hlive' y hy),
    fun f o hact hm ho => ?_⟩
  · rw [hroot] at h; cases h; exact hx_lt
  · rw [hroot] at h; cases h; exact hprimary
  · rw [hroot] at h; cases h; exact hparent
  · rcases hfeed f o hact hm with ⟨-, hm₀⟩ | e
    · have := hw.arena.mount_bound f o hm₀
      have := (hlive' o ho).le ha
      omega
    · exact e

/-- Cutting the subtree of a child `c` off its parent `p` keeps the invariant when no other node
outside the subtree changes, `p` keeps its place and feed, lists only old children other than `c`,
and is sound if live, and every running feed of a live model node outside the subtree is as it
was. -/
theorem Wellformed.prune (hw : Wellformed s) (ha : Arena s') {p c : InlaidId}
    (hc : c ∈ (s.node p).children) (hsize : s.nodes.size ≤ s'.nodes.size)
    (hroot : s'.tracker.root = s.tracker.root) (hpresent : s'.tracker.present = s.tracker.present)
    (hkeep : ∀ y, ¬ Below s c y → y ≠ p → s'.node y = s.node y)
    (hp_place : (s'.node p).placement = (s.node p).placement)
    (hp_parent : (s'.node p).parent = (s.node p).parent)
    (hp_feed : s'.feedOf p = s.feedOf p)
    (hp_children : ∀ d ∈ (s'.node p).children, d ∈ (s.node p).children ∧ d ≠ c)
    (hp_sound : Live s p → Sound s' p)
    (hfeed : ∀ f o, (s'.feed f).active = true → (s'.feed f).mount = .owner o → Live s o →
      ¬ Below s c o → (s.feed f).active = true ∧ (s.feed f).mount = .owner o) :
    Wellformed s' := by
  have hpc : (s.node c).parent = some p := hw.arena.child_parent p c hc
  have hroot_out : ∀ r, s.tracker.root = some r → ¬ Below s c r := fun _ hr =>
    hw.root_not_below hc hr
  have hlive' : ∀ y, Live s' y → Live s y ∧ ¬ Below s c y := by
    rintro y ⟨hp, r, hr, hb⟩
    rw [hpresent] at hp
    rw [hroot] at hr
    obtain ⟨hb', hyc⟩ := Below.of_pruned hw hc (fun y hy hyp => by rw [hkeep y hy hyp]) hp_children
      hr hb
    exact ⟨⟨hp, r, hr, hb'⟩, hyc⟩
  have hplace : ∀ y, ¬ Below s c y → (s'.node y).placement = (s.node y).placement := by
    intro y hy
    by_cases hyp : y = p
    · subst hyp; exact hp_place
    · rw [hkeep y hy hyp]
  refine ⟨ha, fun r h => ?_, fun r h => ?_, fun r h => ?_, fun y hy => ?_,
    fun f o hact hm ho => ?_⟩
  · rw [hroot] at h
    exact Nat.lt_of_lt_of_le (hw.root_lt r h) hsize
  · rw [hroot] at h
    rw [hplace r (hroot_out r h)]
    exact hw.root_primary r h
  · rw [hroot] at h
    by_cases hrp : r = p
    · subst hrp; rw [hp_parent]; exact hw.root_parent r h
    · rw [hkeep r (hroot_out r h) hrp]; exact hw.root_parent r h
  · obtain ⟨hy', hyc⟩ := hlive' y hy
    by_cases hyp : y = p
    · subst hyp; exact hp_sound hy'
    · refine (hw.sound y hy').congr (hkeep y hyc hyp) fun d hd => hplace d fun hcd => ?_
      by_cases hdc : d = c
      · subst hdc
        rw [hw.arena.child_parent y d hd] at hpc
        cases hpc
        exact hyp rfl
      · exact hyc (hcd.of_child_below hw.arena hd hdc)
  · obtain ⟨ho', hoc⟩ := hlive' o ho
    obtain ⟨hact₀, hm₀⟩ := hfeed f o hact hm ho' hoc
    have := hw.feed_owner f o hact₀ hm₀ ho'
    by_cases hop : o = p
    · subst hop; rw [hp_feed]; exact this
    · rw [show s'.feedOf o = s.feedOf o by simp [State.feedOf, hkeep o hoc hop]]
      exact this

end Live

end Inlay.Sync
