import Inlay.Proofs.Address
import Inlay.Proofs.Stop

namespace Inlay

/-- A node taken out of the tree: frozen at a placement, with no feed and no inlined root. -/
def Inlaid.Node.retire (m : Inlaid.Node) (placement : Placement) : Inlaid.Node :=
  { m with placement, inlining := m.inlining.map fun i => { i with hidden := none, feed := none } }

@[simp] theorem Inlaid.Node.source_retire (m : Inlaid.Node) (p : Placement) :
    (m.retire p).source = m.source := rfl

@[simp] theorem Inlaid.Node.children_retire (m : Inlaid.Node) (p : Placement) :
    (m.retire p).children = m.children := rfl

@[simp] theorem Inlaid.Node.parent_retire (m : Inlaid.Node) (p : Placement) :
    (m.retire p).parent = m.parent := rfl

@[simp] theorem Inlaid.Node.placement_retire (m : Inlaid.Node) (p : Placement) :
    (m.retire p).placement = p := rfl

/-- Freezing a node, taking its feed and clearing its inlined root retires it. -/
theorem Inlaid.Node.retire_eq (m : Inlaid.Node) (p : Placement) :
    (fun m : Inlaid.Node => { m with inlining := m.inlining.map fun i => { i with hidden := none } })
      ({ m with placement := p }.dropFeed) = m.retire p := by
  cases m with
  | mk source parent children placement inlining => cases inlining <;> rfl

/-- A node with no inlined root is retired once frozen and without its feed. -/
theorem Inlaid.Node.retire_eq_of_unhidden {m : Inlaid.Node} (p : Placement)
    (h : m.inlining.bind (·.hidden) = none) : { m with placement := p }.dropFeed = m.retire p := by
  cases m with
  | mk source parent children placement inlining =>
    cases inlining with
    | none => rfl
    | some i =>
      simp only [Option.bind_some] at h
      cases i
      simp_all [Inlaid.Node.retire, Inlaid.Node.dropFeed]

/-- What removing may do to a node of any subtree: freeze it, though a frozen node keeps its
placement, and take its feed and inlined root; its source, parent and children stay. -/
structure Inlaid.Node.Trimmed (m m' : Inlaid.Node) : Prop where
  source : m'.source = m.source
  parent : m'.parent = m.parent
  children : m'.children = m.children
  frozen : m.placement.isFrozen = true → m'.placement = m.placement
  plain : m.inlining = none → m'.inlining = none
  hidden : m'.inlining.bind (·.hidden) = none ∨
    m'.inlining.bind (·.hidden) = m.inlining.bind (·.hidden)
  feed : m'.inlining.bind (·.feed) = none ∨ m'.inlining.bind (·.feed) = m.inlining.bind (·.feed)

theorem Inlaid.Node.Trimmed.refl (m : Inlaid.Node) : m.Trimmed m :=
  ⟨rfl, rfl, rfl, fun _ => rfl, id, .inr rfl, .inr rfl⟩

theorem Inlaid.Node.Trimmed.trans {m₁ m₂ m₃ : Inlaid.Node} (h₁ : m₁.Trimmed m₂)
    (h₂ : m₂.Trimmed m₃) : m₁.Trimmed m₃ := by
  refine ⟨h₂.source.trans h₁.source, h₂.parent.trans h₁.parent, h₂.children.trans h₁.children,
    fun hf => ?_, fun hi => h₂.plain (h₁.plain hi), ?_, ?_⟩
  · rw [h₂.frozen (by rw [h₁.frozen hf]; exact hf), h₁.frozen hf]
  · rcases h₂.hidden with e | e
    · exact .inl e
    · rw [e]; exact h₁.hidden
  · rcases h₂.feed with e | e
    · exact .inl e
    · rw [e]; exact h₁.feed

/-- A trimmed node that still holds a feed holds the one it had. -/
theorem Inlaid.Node.Trimmed.feed_eq {m m' : Inlaid.Node} (h : m.Trimmed m') {g : SubscriberId}
    (hg : m'.inlining.bind (·.feed) = some g) : m.inlining.bind (·.feed) = some g := by
  rcases h.feed with e | e <;> rw [e] at hg
  · cases hg
  · exact hg

namespace Sync

/-- A node that was never frozen is frozen where it stands. -/
theorem State.removedPlacement_eq {s : State} {y : InlaidId} {i : Nat} {p : Path}
    (h : (s.node y).placement.isFrozen = false) (hi : s.indexOf y = .ok i)
    (hp : s.pathOf y = .ok p) : s.removedPlacement y = .ok (.frozen i p) := by
  cases hpl : (s.node y).placement with
  | frozen => rw [hpl] at h; cases h
  | primary | modelRoot | modelChild => simp only [State.removedPlacement, hpl, hi, hp]

/-- Two children of a node head disjoint subtrees. -/
theorem Below.disjoint {s : State} (ha : Arena s) {d c₁ c₂ y : InlaidId}
    (h₁ : c₁ ∈ (s.node d).children) (h₂ : c₂ ∈ (s.node d).children) (hne : c₁ ≠ c₂)
    (hy₁ : Below s c₁ y) (hy₂ : Below s c₂ y) : False := by
  have hup : ∀ {a b}, a ∈ (s.node d).children → b ∈ (s.node d).children → a ≠ b →
      ¬ Below s a b := by
    intro a b ha' hb' hab hbelow
    obtain ⟨q, hq, hbq, -⟩ := hbelow.parent_of_ne ha (Ne.symm hab)
    rw [ha.child_parent d b hb'] at hq
    cases hq
    have := hbq.le ha
    have := (ha.child_bound d a ha').1
    omega
  rcases Below.meet ha ha (fun _ => rfl) hy₁ hy₂ with h | h
  · exact hup h₁ h₂ hne h
  · exact hup h₂ h₁ (Ne.symm hne) h

theorem Below.not_of_child {s : State} (ha : Arena s) {d c : InlaidId}
    (hc : c ∈ (s.node d).children) : ¬ Below s c d := fun h => by
  have := h.le ha
  have := (ha.child_bound d c hc).1
  omega

/-- The nodes below `d` are `d` and the nodes below its children. -/
theorem Below.iff_children {s : State} {d y : InlaidId} :
    Below s d y ↔ (∃ c ∈ (s.node d).children, Below s c y) ∨ y = d := by
  refine ⟨fun h => (h.cases_head).elim .inr .inl, fun h => ?_⟩
  rcases h with ⟨c, hc, hy⟩ | rfl
  · exact (Below.single hc).trans hy
  · exact .refl

/-- `s'` is `s` with some nodes below `id` trimmed and some of their feeds stopped. -/
structure Trims (s s' : State) (id : InlaidId) : Prop where
  steady : Steady s s'
  nodes_size : s'.nodes.size = s.nodes.size
  feeds_size : s'.feeds.size = s.feeds.size
  node : ∀ x, s'.node x = s.node x ∨ (Below s id x ∧ (s.node x).Trimmed (s'.node x))
  feed : ∀ g, s'.feed g = s.feed g ∨
    (∃ y, Below s id y ∧ s.feedOf y = some g ∧ s'.feed g = (s.feed g).halt)

section Trimming

variable {s s₁ s₂ s₃ : State} {id : InlaidId}

theorem Trims.refl (s : State) (id : InlaidId) : Trims s s id :=
  ⟨Steady.refl s, rfl, rfl, fun _ => .inl rfl, fun _ => .inl rfl⟩

theorem Trims.trimmed (h : Trims s s₁ id) (x : InlaidId) : (s.node x).Trimmed (s₁.node x) := by
  rcases h.node x with e | ⟨_, e⟩
  · rw [e]; exact .refl _
  · exact e

theorem Trims.children (h : Trims s s₁ id) (x : InlaidId) :
    (s₁.node x).children = (s.node x).children :=
  (h.trimmed x).children

theorem Trims.below_iff (h : Trims s s₁ id) {top x : InlaidId} : Below s₁ top x ↔ Below s top x :=
  below_iff_of_children_eq fun y _ => h.children y

theorem Trims.trans (h₁ : Trims s₁ s₂ id) (h₂ : Trims s₂ s₃ id') (hb : Below s₁ id id') :
    Trims s₁ s₃ id := by
  refine ⟨h₁.steady.trans h₂.steady, h₂.nodes_size.trans h₁.nodes_size,
    h₂.feeds_size.trans h₁.feeds_size, fun x => ?_, fun g => ?_⟩
  · rcases h₂.node x with e₂ | ⟨hx, e₂⟩
    · rw [e₂]; exact h₁.node x
    · rw [h₁.below_iff] at hx
      exact .inr ⟨hb.trans hx, (h₁.trimmed x).trans e₂⟩
  · rcases h₂.feed g with e₂ | ⟨y, hy, hyg, e₂⟩
    · rw [e₂]; exact h₁.feed g
    · have hyg₁ : s₁.feedOf y = some g := (h₁.trimmed y).feed_eq hyg
      refine .inr ⟨y, hb.trans (h₁.below_iff.1 hy), hyg₁, ?_⟩
      rcases h₁.feed g with e₁ | ⟨_, _, _, e₁⟩ <;> rw [e₂, e₁]
      simp

/-- A change of the top node that trims it. -/
theorem Trims.modify_top {g : Inlaid.Node → Inlaid.Node} (h : Trims s s₁ id)
    (hst : Steady s₁ s₂) (hn : s₂.nodes = s₁.nodes.modify id.val g) (hf : s₂.feeds = s₁.feeds)
    (hg : (s₁.node id).Trimmed (g (s₁.node id))) : Trims s s₂ id := by
  have hnode := State.node_of_modify hn
  refine ⟨h.steady.trans hst, by rw [hn, Array.size_modify]; exact h.nodes_size,
    by rw [hf]; exact h.feeds_size, fun x => ?_, fun k => by
      rw [show s₂.feed k = s₁.feed k by simp [State.feed, hf]]; exact h.feed k⟩
  rw [hnode]
  split
  · rename_i e
    obtain ⟨rfl, _⟩ := e
    exact .inr ⟨.refl, (h.trimmed id).trans hg⟩
  · exact h.node x

/-- Stopping one more feed. -/
theorem Trims.halt {f : SubscriberId} (h : Trims s s₁ id) (hst : Steady s₁ s₂)
    (hn : s₂.nodes = s₁.nodes) (hf : s₂.feeds = s₁.feeds.modify f.val Feed.halt)
    (hheld : ∃ y, Below s id y ∧ s.feedOf y = some f) : Trims s s₂ id := by
  refine ⟨h.steady.trans hst, by rw [hn]; exact h.nodes_size,
    by rw [hf, Array.size_modify]; exact h.feeds_size,
    fun x => by rw [show s₂.node x = s₁.node x by simp [State.node, hn]]; exact h.node x,
    fun k => ?_⟩
  rw [State.feed_of_halt hf]
  split
  · rename_i hfk
    subst hfk
    obtain ⟨y, hy, hyf⟩ := hheld
    refine .inr ⟨y, hy, hyf, ?_⟩
    rcases h.feed f with e | ⟨_, _, _, e⟩ <;> rw [e]
    exact Feed.halt_halt _
  · exact h.feed k

/-- Trimming keeps the heap an arena. -/
theorem Trims.arena (h : Trims s s₁ id) (ha : Arena s) : Arena s₁ := by
  have hsrc : s₁.forest.node = s.forest.node := by
    funext y; simp [Source.Forest.node, h.steady.forest_nodes]
  have hmount : ∀ g, (s₁.feed g).mount = (s.feed g).mount := fun g => by
    rcases h.feed g with e | ⟨_, _, _, e⟩ <;> rw [e]
    rfl
  refine ⟨fun x c hc => ?_, fun x c hc => ?_, fun x => ?_, fun x hx => ?_, fun g o hg => ?_,
    fun x k hk => ?_, fun x p hp => ?_⟩
  · rw [h.children] at hc
    rw [h.nodes_size]
    exact ha.child_bound x c hc
  · rw [h.children] at hc
    rw [(h.trimmed c).parent]
    exact ha.child_parent x c hc
  · rw [h.children]
    exact ha.nodup x
  · rw [hsrc, (h.trimmed x).source] at hx
    exact (h.trimmed x).plain (ha.plain x hx)
  · rw [hmount] at hg
    rw [h.nodes_size]
    exact ha.mount_bound g o hg
  · rw [h.children]
    apply ha.hidden_last x k
    rcases (h.trimmed x).hidden with e | e
    · simp only [State.hiddenOf] at hk
      rw [e] at hk
      cases hk
    · simp only [State.hiddenOf] at hk ⊢
      rw [← e]
      exact hk
  · rw [(h.trimmed x).parent] at hp
    rw [h.nodes_size]
    exact ha.parent_bound x p hp

end Trimming

theorem State.removedPlacement_of_frozen {s : State} {y : InlaidId} {pl : Placement}
    (h : s.removedPlacement y = .ok pl) (hf : (s.node y).placement.isFrozen = true) :
    pl = (s.node y).placement := by
  cases hpl : (s.node y).placement with
  | frozen i p =>
    simp only [State.removedPlacement, hpl] at h
    cases h
    rfl
  | primary | modelRoot | modelChild => rw [hpl] at hf; cases hf

/-- Removing any subtree only trims it, whether the walk ends or fails on the way. -/
theorem removeWithin_trims (fuel : Nat) :
    ∀ (s : State) (d : InlaidId),
      Ensures (removeWithin fuel d) s (fun _ s' => Trims s s' d) fun _ s' => Trims s s' d := by
  induction fuel with
  | zero => intro s d; exact Ensures.pure (Trims.refl s d)
  | succ fuel ih =>
    intro s d
    unfold removeWithin
    apply Ensures.bind; apply Ensures.get
    apply Ensures.bind
    refine Ensures.ofExcept (fun pl hpl => ?_) fun _ _ => Trims.refl s d
    refine Ensures.andThen (modifyNode_spec d _ s) fun _ s₁ h₁ => ?_
    obtain ⟨hst₁, hn₁, hf₁⟩ := h₁
    have htr₁ : Trims s s₁ d := (Trims.refl s d).modify_top hst₁ hn₁ hf₁
      ⟨rfl, rfl, rfl, fun hfz => State.removedPlacement_of_frozen hpl hfz, id, .inr rfl, .inr rfl⟩
    have hloop : ∀ s₂, Trims s s₂ d → Ensures (forIn (s₂.node d).children PUnit.unit
        fun c _ => do removeWithin fuel c; Pure.pure (ForInStep.yield PUnit.unit)) s₂
        (fun _ s' => Trims s s' d) fun _ s' => Trims s s' d := by
      intro s₂ htr₂
      rw [htr₂.children d]
      refine (Ensures.forIn (I := fun rest s' => Trims s s' d ∧ rest ⊆ (s.node d).children)
        (fun c rest s' hI => ?_) _ s₂ ⟨htr₂, List.Subset.refl _⟩).mono
        (fun _ _ h => h.1) fun _ _ h => h
      obtain ⟨h, hsub⟩ := hI
      have hc : Below s d c := Below.single (hsub (.head _))
      refine Ensures.andThen ((ih s' c).mono (fun _ _ h => h) fun _ _ h' => h.trans h' hc)
        fun _ s'' h' => Ensures.pure ⟨rfl, h.trans h' hc, fun x hx => hsub (.tail _ hx)⟩
    apply Ensures.bind; apply Ensures.get
    refine Ensures.andThen (hloop s₁ htr₁) fun _ s₂ htr₂ => ?_
    refine Ensures.andThen (takeFeed_spec d s₂) fun r s₃ h₃ => ?_
    obtain ⟨hr, hst₃, hn₃, hfs₃⟩ := h₃
    have htr₃ : Trims s s₃ d := htr₂.modify_top hst₃ hn₃ hfs₃
      ⟨rfl, rfl, rfl, fun _ => rfl, fun hi => by simp [Inlaid.Node.dropFeed, hi],
        .inr (Inlaid.Node.hidden_dropFeed _), .inl (Inlaid.Node.feed_dropFeed _)⟩
    rcases r with _ | f <;> dsimp only
    · exact Ensures.pure htr₃
    · refine Ensures.andThen (stopFeed_spec f s₃) fun _ s₄ h₄ => ?_
      obtain ⟨hst₄, hn₄, hfs₄⟩ := h₄
      have htr₄ := htr₃.halt hst₄ hn₄ hfs₄ ⟨d, .refl, (htr₂.trimmed d).feed_eq hr.symm⟩
      refine (modifyNode_spec d _ s₄).mono (fun _ s₅ h₅ => ?_) fun _ _ h => h
      obtain ⟨hst₅, hn₅, hfs₅⟩ := h₅
      refine htr₄.modify_top hst₅ hn₅ hfs₅ ⟨rfl, rfl, rfl, fun _ => rfl, fun hi => by simp [hi],
        .inl ?_, .inr ?_⟩
      · cases (s₄.node d).inlining <;> rfl
      · cases (s₄.node d).inlining <;> rfl

/-- `s'` is `s` with the nodes of a region retired at the index and path they have in `s₀`, and
the feeds of the region stopped. -/
structure Removes (s₀ s s' : State) (R : InlaidId → Prop) : Prop where
  steady : Steady s s'
  nodes_size : s'.nodes.size = s.nodes.size
  feeds_size : s'.feeds.size = s.feeds.size
  outside : ∀ y, ¬ R y → s'.node y = s.node y
  inside : ∀ y, R y → ∃ i p, s₀.indexOf y = .ok i ∧ s₀.pathOf y = .ok p ∧
    s'.node y = (s₀.node y).retire (.frozen i p)
  feed_stop : ∀ g y, R y → s₀.feedOf y = some g → s'.feed g = (s.feed g).halt
  feed_keep : ∀ g, (∀ y, R y → s₀.feedOf y ≠ some g) → s'.feed g = s.feed g

section Removes

variable {s₀ s₁ s₂ s₃ : State} {P Q R : InlaidId → Prop}

theorem Removes.refl (s₀ s : State) (hR : ∀ y, ¬ R y) : Removes s₀ s s R :=
  ⟨Steady.refl s, rfl, rfl, fun _ _ => rfl, fun y hy => absurd hy (hR y),
    fun _ y hy => absurd hy (hR y), fun _ _ => rfl⟩

theorem Removes.congr (h : Removes s₀ s₁ s₂ P) (hPQ : ∀ y, P y ↔ Q y) : Removes s₀ s₁ s₂ Q :=
  ⟨h.steady, h.nodes_size, h.feeds_size, fun y hy => h.outside y (by rwa [hPQ]),
    fun y hy => h.inside y (by rwa [hPQ]), fun g y hy => h.feed_stop g y (by rwa [hPQ]),
    fun g hg => h.feed_keep g fun y hy => hg y (by rwa [← hPQ])⟩

/-- Removing two disjoint regions one after the other removes their union. -/
theorem Removes.trans (h₁ : Removes s₀ s₁ s₂ P) (h₂ : Removes s₀ s₂ s₃ Q)
    (hdis : ∀ y, P y → ¬ Q y) (hR : ∀ y, R y ↔ P y ∨ Q y) : Removes s₀ s₁ s₃ R := by
  have hstop₁ : ∀ g y, P y → s₀.feedOf y = some g → s₃.feed g = (s₁.feed g).halt := by
    intro g y hy hg
    by_cases hq : ∃ y', Q y' ∧ s₀.feedOf y' = some g
    · obtain ⟨y', hy', hg'⟩ := hq
      rw [h₂.feed_stop g y' hy' hg', h₁.feed_stop g y hy hg, Feed.halt_halt]
    · rw [h₂.feed_keep g fun y' hy' hg' => hq ⟨y', hy', hg'⟩, h₁.feed_stop g y hy hg]
  refine ⟨h₁.steady.trans h₂.steady, h₂.nodes_size.trans h₁.nodes_size,
    h₂.feeds_size.trans h₁.feeds_size, fun y hy => ?_, fun y hy => ?_, fun g y hy hg => ?_,
    fun g hg => ?_⟩
  · rw [hR, not_or] at hy
    rw [h₂.outside y hy.2, h₁.outside y hy.1]
  · rcases (hR y).1 hy with hp | hq
    · rw [h₂.outside y (hdis y hp)]
      exact h₁.inside y hp
    · exact h₂.inside y hq
  · rcases (hR y).1 hy with hp | hq
    · exact hstop₁ g y hp hg
    · by_cases hp : ∃ y', P y' ∧ s₀.feedOf y' = some g
      · obtain ⟨y', hy', hg'⟩ := hp
        exact hstop₁ g y' hy' hg'
      · rw [h₂.feed_stop g y hq hg, h₁.feed_keep g fun y' hy' hg' => hp ⟨y', hy', hg'⟩]
  · rw [h₂.feed_keep g fun y hy => hg y ((hR y).2 (.inr hy)),
      h₁.feed_keep g fun y hy => hg y ((hR y).2 (.inl hy))]

/-- A change made first to nodes of the region, and to nothing else, is part of removing it. -/
theorem Removes.of_pre {s : State} (h : Removes s₀ s₁ s₂ R) (hst : Steady s s₁)
    (hsize : s₁.nodes.size = s.nodes.size) (hfeeds : s₁.feeds = s.feeds)
    (hnode : ∀ y, ¬ R y → s₁.node y = s.node y) : Removes s₀ s s₂ R := by
  have hfeed : ∀ g, s₁.feed g = s.feed g := fun g => by simp [State.feed, hfeeds]
  refine ⟨hst.trans h.steady, h.nodes_size.trans hsize, by rw [h.feeds_size, hfeeds],
    fun y hy => (h.outside y hy).trans (hnode y hy), h.inside, fun g y hy hg => ?_,
    fun g hg => ?_⟩
  · rw [h.feed_stop g y hy hg, hfeed]
  · rw [h.feed_keep g hg, hfeed]

/-- Retiring one node at its index and path in `s₀`, stopping its feed. -/
theorem Removes.single {s s' : State} {d : InlaidId} {i : Nat} {p : Path}
    (hi : s₀.indexOf d = .ok i) (hp : s₀.pathOf d = .ok p) (hst : Steady s s')
    (hsize : s'.nodes.size = s.nodes.size) (hfsize : s'.feeds.size = s.feeds.size)
    (hnode : ∀ y, y ≠ d → s'.node y = s.node y) (hd : s'.node d = (s₀.node d).retire (.frozen i p))
    (hfeed : ∀ g, s'.feed g = if s₀.feedOf d = some g then (s.feed g).halt else s.feed g) :
    Removes s₀ s s' (· = d) := by
  refine ⟨hst, hsize, hfsize, hnode, fun y hy => ?_, fun g y hy hg => ?_, fun g hg => ?_⟩
  · subst hy
    exact ⟨i, p, hi, hp, hd⟩
  · subst hy
    rw [hfeed, if_pos hg]
  · rw [hfeed, if_neg (hg d rfl)]

end Removes

section Freezing

variable {s₀ s s' : State} {top : InlaidId}

/-- Freezing one node of the tree at its index and path in `s₀` keeps the tree freezing. -/
theorem Freezing.freeze {d : InlaidId} {i : Nat} {p : Path} (hf : Freezing s₀ s top)
    (hi : s₀.indexOf d = .ok i) (hp : s₀.pathOf d = .ok p) (hst : Steady s s')
    (hd : d.val < s.nodes.size)
    (hn : s'.nodes = s.nodes.modify d.val fun m => { m with placement := .frozen i p }) :
    Freezing s₀ s' top := by
  have hnode := State.node_of_modify hn
  have hsame : ∀ y, (s'.node y).source = (s.node y).source ∧
      (s'.node y).children = (s.node y).children ∧ (s'.node y).inlining = (s.node y).inlining :=
    fun y => by rw [hnode]; split <;> exact ⟨rfl, rfl, rfl⟩
  have hother : ∀ y, y ≠ d → s'.node y = s.node y := fun y hy => by
    rw [hnode, if_neg fun h => hy h.1.symm]
  have hd' : (s'.node d).placement = .frozen i p := by rw [hnode, if_pos ⟨rfl, hd⟩]
  refine ⟨hst.forest_nodes.trans hf.forest, by simp only [State.slotKey, hst.tracker]; exact hf.slotKey,
    by rw [hn, Array.size_modify]; exact hf.nodes_size, fun y hy => (hsame y).1.trans (hf.source y hy),
    fun y hy => (hsame y).2.1.trans (hf.children y hy), fun y hy => ?_, fun y o hy hpl ho => ?_⟩
  · by_cases hyd : y = d
    · subst hyd
      exact .inr ⟨i, p, hi, hp, hd'⟩
    · rw [hother y hyd]
      exact hf.placed y hy
  · by_cases hyd : y = d
    · subst hyd
      rw [hd'] at hpl
      rw [← hpl] at ho
      cases ho
    · rw [hother y hyd] at hpl
      rw [← hf.slot y o hy hpl ho]
      exact State.modelChildIndex_congr hst.forest_nodes (hsame o).2.2 (hsame o).2.1 (hsame o).1

/-- Removing a region of the tree closed downwards keeps the tree freezing: a node placed as it
was lies outside the region, and so does its owner, which is above it. -/
theorem Freezing.of_removes {R : InlaidId → Prop} (hs : Standing s₀ top) (ha : Arena s₀)
    (hf : Freezing s₀ s top) (hr : Removes s₀ s s' R)
    (hclosed : ∀ o y, R o → Below s₀ o y → R y) : Freezing s₀ s' top := by
  have hsame : ∀ y, Below s₀ top y → (s'.node y).source = (s₀.node y).source ∧
      (s'.node y).children = (s₀.node y).children := by
    intro y hy
    by_cases hR : R y
    · obtain ⟨i, p, -, -, e⟩ := hr.inside y hR
      rw [e]
      exact ⟨rfl, rfl⟩
    · rw [hr.outside y hR]
      exact ⟨hf.source y hy, hf.children y hy⟩
  refine ⟨hr.steady.forest_nodes.trans hf.forest,
    by simp only [State.slotKey, hr.steady.tracker]; exact hf.slotKey,
    by rw [hr.nodes_size]; exact hf.nodes_size, fun y hy => (hsame y hy).1,
    fun y hy => (hsame y hy).2, fun y hy => ?_, fun y o hy hpl ho => ?_⟩
  · by_cases hR : R y
    · obtain ⟨i, p, hi, hp, e⟩ := hr.inside y hR
      exact .inr ⟨i, p, hi, hp, by rw [e]; rfl⟩
    · rw [hr.outside y hR]
      exact hf.placed y hy
  · have hyR : ¬ R y := fun hR => by
      obtain ⟨i, p, -, -, e⟩ := hr.inside y hR
      rw [e, Inlaid.Node.placement_retire] at hpl
      rw [← hpl] at ho
      cases ho
    have hoR : ¬ R o := fun hR => hyR (hclosed o y hR (hs.owner ha hy ho).2.1)
    rw [hr.outside y hyR] at hpl
    rw [← hf.slot y o hy hpl ho]
    have hno := hr.outside o hoR
    exact State.modelChildIndex_congr hr.steady.forest_nodes (by rw [hno]) (by rw [hno])
      (by rw [hno])

end Freezing

section Traversal

variable {s₀ : State} {top : InlaidId} (hs : Standing s₀ top) (ha : Arena s₀)
include hs ha

/-- Removing a subtree of a standing tree, from a state where the tree is freezing and the subtree
is as it was, never fails and retires exactly the subtree, each node at its index and path in
`s₀`. The walk is on the fuel; the loop over the children carries the children already removed,
whose subtrees are disjoint from those still to come. -/
theorem removeWithin_spec (fuel : Nat) :
    ∀ (s : State) (d : InlaidId), Freezing s₀ s top → Below s₀ top d →
      (∀ y, Below s₀ d y → s.node y = s₀.node y) → s₀.nodes.size ≤ d.val + fuel →
      Ensures (removeWithin fuel d) s (fun _ s' => Removes s₀ s s' (Below s₀ d))
        (fun _ _ => False) := by
  induction fuel with
  | zero =>
    intro s d _ hd _ hfuel
    have := hs.lt_size ha hd
    omega
  | succ fuel ih =>
    intro s d hf hd hu hfuel
    have hdlt : d.val < s.nodes.size := Nat.lt_of_lt_of_le (hs.lt_size ha hd) hf.nodes_size
    have hsound := hs.sound d hd
    obtain ⟨i, hi⟩ := hs.indexOf_ok ha hd
    obtain ⟨p, hp⟩ := hs.pathOf_ok ha hd
    have hplace : s.removedPlacement d = .ok (.frozen i p) :=
      State.removedPlacement_eq (by rw [hu d .refl]; exact hsound.not_frozen)
        (by rw [hf.indexOf_eq hd, hi]) (by rw [hf.pathOf_eq hs ha hd, hp])
    unfold removeWithin
    apply Ensures.bind; apply Ensures.get
    rw [hplace]
    apply Ensures.bind; apply Ensures.pure
    refine Ensures.andThen (modifyNode_spec d _ s) fun _ s₁ h₁ => ?_
    obtain ⟨hst₁, hn₁, hfs₁⟩ := h₁
    have hf₁ : Freezing s₀ s₁ top := hf.freeze hi hp hst₁ hdlt hn₁
    have hnode₁ := State.node_of_modify hn₁
    have hout₁ : ∀ y, y ≠ d → s₁.node y = s.node y := fun y hy => by
      rw [hnode₁, if_neg fun h => hy h.1.symm]
    have hd₁ : s₁.node d = { s₀.node d with placement := .frozen i p } := by
      rw [hnode₁, if_pos ⟨rfl, hdlt⟩, hu d .refl]
    let cs := (s₀.node d).children
    let Done (pre : List InlaidId) (y : InlaidId) : Prop := ∃ c ∈ pre, Below s₀ c y
    have hdone_closed : ∀ pre o y, Done pre o → Below s₀ o y → Done pre y :=
      fun _ _ _ ho hy => ho.imp fun _ h => ⟨h.1, h.2.trans hy⟩
    have hloop : Ensures (forIn cs PUnit.unit fun c _ => do
          removeWithin fuel c
          pure (ForInStep.yield PUnit.unit)) s₁
        (fun _ s₂ => Removes s₀ s₁ s₂ (Done cs)) fun _ _ => False := by
      refine (Ensures.forIn (I := fun rest s₂ => ∃ pre, pre ++ rest = cs ∧
          Removes s₀ s₁ s₂ (Done pre)) (fun c rest s₂ hI => ?_) cs s₁
          ⟨[], rfl, Removes.refl s₀ s₁ fun _ h => by obtain ⟨_, hc, _⟩ := h; cases hc⟩).mono
        (fun _ s₂ hI => by
          obtain ⟨pre, hpre, hr₂⟩ := hI
          rw [List.append_nil] at hpre; subst hpre; exact hr₂)
        fun _ _ h => h
      obtain ⟨pre, hpre, hr₂⟩ := hI
      have hcs : ∀ x, x ∈ pre ∨ x ∈ c :: rest → x ∈ cs := fun x hx => by
        rw [← hpre]; exact List.mem_append.2 hx
      have hc : c ∈ cs := hcs c (.inr List.mem_cons_self)
      have hcpre : c ∉ pre := by
        have hnd : (pre ++ c :: rest).Nodup := by rw [hpre]; exact ha.nodup d
        exact fun h => (List.nodup_append.1 hnd).2.2 c h c List.mem_cons_self rfl
      have hdis : ∀ y, Done pre y → ¬ Below s₀ c y := fun y hdone hy => by
        obtain ⟨c', hc', hy'⟩ := hdone
        exact Below.disjoint ha (hcs c' (.inl hc')) hc (fun e => hcpre (e ▸ hc')) hy' hy
      have hu₂ : ∀ y, Below s₀ c y → s₂.node y = s₀.node y := fun y hy => by
        have hyd : y ≠ d := fun e => Below.not_of_child ha hc (e ▸ hy)
        rw [hr₂.outside y fun h => hdis y h hy, hout₁ y hyd, hu y ((Below.single hc).trans hy)]
      have hfuel' : s₀.nodes.size ≤ c.val + fuel := by
        have := (ha.child_bound d c hc).1
        omega
      refine Ensures.andThen (ih s₂ c (hf₁.of_removes hs ha hr₂ (hdone_closed pre)) (hd.child hc)
        hu₂ hfuel') fun _ s₃ hr₃ => Ensures.pure ⟨rfl, pre ++ [c], by simp [← hpre],
          hr₂.trans hr₃ hdis fun y => ?_⟩
      simp only [Done, List.mem_append, List.mem_singleton]
      constructor
      · rintro ⟨c', hc' | rfl, hy⟩
        · exact .inl ⟨c', hc', hy⟩
        · exact .inr hy
      · rintro (⟨c', hc', hy⟩ | hy)
        · exact ⟨c', .inl hc', hy⟩
        · exact ⟨c, .inr rfl, hy⟩
    apply Ensures.bind; apply Ensures.get
    rw [hd₁]
    refine Ensures.andThen hloop fun _ s₂ hr₂ => ?_
    have hd₂ : s₂.node d = { s₀.node d with placement := .frozen i p } := by
      rw [hr₂.outside d fun hdone => by
        obtain ⟨c, hc, h⟩ := hdone; exact Below.not_of_child ha hc h, hd₁]
    have hfeed₂ : s₂.feedOf d = s₀.feedOf d := by simp [State.feedOf, hd₂]
    have hdlt₂ : d.val < s₂.nodes.size := by rw [hr₂.nodes_size, hn₁, Array.size_modify]; exact hdlt
    have hsplit : ∀ y, Below s₀ d y ↔ Done cs y ∨ y = d := fun _ => Below.iff_children
    have hfinish : ∀ s', Removes s₀ s₂ s' (· = d) → Removes s₀ s s' (Below s₀ d) := fun s' h =>
      (hr₂.trans h (fun y hdone e => by
        obtain ⟨c, hc, hy⟩ := hdone; exact Below.not_of_child ha hc (e ▸ hy)) hsplit).of_pre hst₁
        (by rw [hn₁, Array.size_modify]) hfs₁ fun y hy => hout₁ y fun e => hy (e ▸ .refl)
    refine Ensures.andThen (takeFeed_spec d s₂) fun r s₃ h₃ => ?_
    obtain ⟨hr, hst₃, hn₃, hfs₃⟩ := h₃
    have hnode₃ := State.node_of_modify hn₃
    have hd₃ : s₃.node d = { s₀.node d with placement := .frozen i p }.dropFeed := by
      rw [hnode₃, if_pos ⟨rfl, hdlt₂⟩, hd₂]
    have hout₃ : ∀ y, y ≠ d → s₃.node y = s₂.node y := fun y hy => by
      rw [hnode₃, if_neg fun h => hy h.1.symm]
    have hfeed₃ : ∀ g, s₃.feed g = s₂.feed g := fun g => by simp [State.feed, hfs₃]
    rcases r with _ | f <;> dsimp only
    · have hunhidden : (s₀.node d).inlining.bind (·.hidden) = none := by
        cases hh : s₀.hiddenOf d with
        | none => exact hh
        | some h =>
          have := (hsound.hidden_last h hh).1
          rw [← hfeed₂, ← hr] at this
          cases this
      refine Ensures.pure (hfinish s₃ (Removes.single hi hp hst₃ (by rw [hn₃, Array.size_modify])
        (by rw [hfs₃]) hout₃ (by rw [hd₃, Inlaid.Node.retire_eq_of_unhidden _ hunhidden])
        fun g => ?_))
      rw [← hfeed₂, ← hr, hfeed₃]
      simp
    · refine Ensures.andThen (stopFeed_spec f s₃) fun _ s₄ h₄ => ?_
      obtain ⟨hst₄, hn₄, hfs₄⟩ := h₄
      refine (modifyNode_spec d _ s₄).mono (fun _ s₅ h₅ => ?_) fun _ _ h => h
      obtain ⟨hst₅, hn₅, hfs₅⟩ := h₅
      have hnode₅ := State.node_of_modify hn₅
      have hlt₄ : d.val < s₄.nodes.size := by rw [hn₄, hn₃, Array.size_modify]; exact hdlt₂
      have hsame₄ : ∀ y, s₄.node y = s₃.node y := fun y => by simp [State.node, hn₄]
      refine hfinish s₅ (Removes.single hi hp (hst₃.trans (hst₄.trans hst₅))
        (by rw [hn₅, Array.size_modify, hn₄, hn₃, Array.size_modify])
        (by rw [hfs₅, hfs₄, Array.size_modify, hfs₃]) (fun y hy => ?_) ?_ fun g => ?_)
      · rw [hnode₅, if_neg fun h => hy h.1.symm, hsame₄, hout₃ y hy]
      · rw [hnode₅, if_pos ⟨rfl, hlt₄⟩, hsame₄, hd₃]
        exact Inlaid.Node.retire_eq _ _
      · rw [show s₅.feed g = s₄.feed g by simp [State.feed, hfs₅], State.feed_of_halt hfs₄,
          hfeed₃, ← hfeed₂, ← hr]
        simp

/-- Removing a node of a standing tree never fails, and retires exactly its subtree, every node at
the index and path it had. -/
theorem remove_spec {n : InlaidId} (hn : Below s₀ top n) :
    Ensures (remove n) s₀ (fun _ s' => Removes s₀ s₀ s' (Below s₀ n)) (fun _ _ => False) := by
  unfold remove
  apply Ensures.bind; apply Ensures.get
  have := hs.lt_size ha hn
  exact removeWithin_spec hs ha _ s₀ n (Freezing.refl s₀ top) hn (fun _ _ => rfl) (by omega)

end Traversal

end Sync

end Inlay
