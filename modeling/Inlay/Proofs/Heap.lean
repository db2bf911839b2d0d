import Inlay.Proofs.Arena

namespace Inlay.Sync

section Lookup

variable {α : Type}

theorem getD_push (a : Array α) (m d : α) (i : Nat) :
    (a.push m).getD i d = if i = a.size then m else a.getD i d := by
  simp only [Array.getD_eq_getD_getElem?, Array.getElem?_push]
  split <;> simp

theorem getD_modify (a : Array α) (j : Nat) (f : α → α) (d : α) (i : Nat) :
    (a.modify j f).getD i d = if j = i ∧ i < a.size then f (a.getD i d) else a.getD i d := by
  simp only [Array.getD_eq_getD_getElem?, Array.getElem?_modify]
  by_cases h : j = i
  · by_cases hi : i < a.size <;> simp [h, hi]
  · simp [h]

namespace State

theorem getD_nodes (s : State) (x : InlaidId) : s.nodes.getD x.val default = s.node x := rfl

theorem getD_feeds (s : State) (f : SubscriberId) : s.feeds.getD f.val default = s.feed f := rfl

theorem feed_of_size_le {s : State} {f : SubscriberId} (h : s.feeds.size ≤ f.val) :
    s.feed f = default := by
  simp [feed, Array.getElem?_eq_none h]

theorem node_of_size_le {s : State} {x : InlaidId} (h : s.nodes.size ≤ x.val) :
    s.node x = default := by
  simp [node, Array.getElem?_eq_none h]

theorem feedOf_of_size_le {s : State} {x : InlaidId} (h : s.nodes.size ≤ x.val) :
    s.feedOf x = none := by
  rw [feedOf, node_of_size_le h]
  rfl

/-- A lookup after one node was added. -/
theorem node_of_push {s s' : State} {m : Inlaid.Node} (h : s'.nodes = s.nodes.push m)
    (y : InlaidId) : s'.node y = if y.val = s.nodes.size then m else s.node y := by
  rw [← getD_nodes, h, getD_push, getD_nodes]

/-- A lookup after one node was changed. -/
theorem node_of_modify {s s' : State} {id : InlaidId} {g : Inlaid.Node → Inlaid.Node}
    (h : s'.nodes = s.nodes.modify id.val g) (y : InlaidId) :
    s'.node y = if id = y ∧ y.val < s.nodes.size then g (s.node y) else s.node y := by
  rw [← getD_nodes, h, getD_modify, getD_nodes]
  by_cases hy : id = y
  · subst hy; simp
  · have : id.val ≠ y.val := fun e => hy (InlaidId.ext e)
    simp [hy, this]

/-- A lookup after one feed was added. -/
theorem feed_of_push {s s' : State} {fd : Feed} (h : s'.feeds = s.feeds.push fd)
    (k : SubscriberId) : s'.feed k = if k.val = s.feeds.size then fd else s.feed k := by
  rw [← getD_feeds, h, getD_push, getD_feeds]

/-- A lookup after one feed was changed. -/
theorem feed_of_modify {s s' : State} {f : SubscriberId} {g : Feed → Feed}
    (h : s'.feeds = s.feeds.modify f.val g) (k : SubscriberId) :
    s'.feed k = if f = k ∧ k.val < s.feeds.size then g (s.feed k) else s.feed k := by
  rw [← getD_feeds, h, getD_modify, getD_feeds]
  by_cases hk : f = k
  · subst hk; simp
  · have : f.val ≠ k.val := fun e => hk (SubscriberId.ext e)
    simp [hk, this]

end State

end Lookup

section Arena

variable {s s' : State}

/-- The arena depends on the nodes and on the source nodes they stand for, nothing else. -/
theorem Arena.of_eq (ha : Arena s) (hnode : ∀ x, s'.node x = s.node x)
    (hsize : s'.nodes.size = s.nodes.size) (hf : s'.forest.nodes = s.forest.nodes)
    (hm : ∀ f o, (s'.feed f).mount = .owner o → o.val < s.nodes.size) : Arena s' := by
  have hsrc : ∀ y, s'.forest.node y = s.forest.node y := fun y => by
    simp [Source.Forest.node, hf]
  exact ⟨fun x c hc => by rw [hsize]; rw [hnode] at hc; exact ha.child_bound x c hc,
    fun x c hc => by rw [hnode] at hc ⊢; exact ha.child_parent x c hc,
    fun x => by rw [hnode]; exact ha.nodup x,
    fun x hx => by rw [hnode, hsrc] at *; exact ha.plain x hx,
    fun f o h => by rw [hsize]; exact hm f o h,
    fun x h hh => by
      rw [hnode]
      exact ha.hidden_last x h (by simpa [State.hiddenOf, hnode] using hh),
    fun x p hp => by rw [hsize]; rw [hnode] at hp; exact ha.parent_bound x p hp⟩

/-- Adding a node with no children keeps the arena, if a plain source gives a plain node. -/
theorem Arena.push (ha : Arena s) {m : Inlaid.Node} (hm : m.children = [])
    (hplain : (s.forest.node m.source).model = none → m.inlining = none)
    (hhidden : m.inlining.bind (·.hidden) = none)
    (hparent : ∀ p, m.parent = some p → p.val < s.nodes.size)
    (hn : s'.nodes = s.nodes.push m) (hf : s'.forest.nodes = s.forest.nodes)
    (hfeeds : s'.feeds = s.feeds) : Arena s' := by
  have hnode := State.node_of_push hn
  have hsrc : ∀ y, s'.forest.node y = s.forest.node y := fun y => by
    simp [Source.Forest.node, hf]
  have hsize : s'.nodes.size = s.nodes.size + 1 := by simp [hn]
  refine ⟨fun x c hc => ?_, fun x c hc => ?_, fun x => ?_, fun x hx => ?_, fun f o h => ?_,
    fun x h hh => ?_, fun x p hp => ?_⟩
  · rw [hnode] at hc
    split at hc
    · simp [hm] at hc
    · have := ha.child_bound x c hc
      omega
  · rw [hnode] at hc
    split at hc
    · simp [hm] at hc
    · have hb := (ha.child_bound x c hc).2
      rw [hnode, if_neg (by omega)]
      exact ha.child_parent x c hc
  · rw [hnode]
    split
    · simp [hm]
    · exact ha.nodup x
  · rw [hnode, hsrc] at *
    split at hx
    · rw [if_pos ‹_›]; exact hplain hx
    · rw [if_neg ‹_›]; exact ha.plain x hx
  · have := ha.mount_bound f o (by simpa [State.feed, hfeeds] using h)
    omega
  · simp only [State.hiddenOf, hnode] at hh ⊢
    by_cases hx : x.val = s.nodes.size
    · rw [if_pos hx, hhidden] at hh; cases hh
    · rw [if_neg hx] at hh ⊢
      exact ha.hidden_last x h hh
  · rw [hnode] at hp
    rw [hsize]
    split at hp
    · exact Nat.lt_succ_of_lt (hparent p hp)
    · exact Nat.lt_succ_of_lt (ha.parent_bound x p hp)

/-- Changing one node keeps the arena when the change keeps its source and parent, keeps a plain
node plain, and only lists children that were there or are younger nodes naming it as parent. -/
theorem Arena.modify (ha : Arena s) {id : InlaidId} {g : Inlaid.Node → Inlaid.Node}
    (hsrc : (g (s.node id)).source = (s.node id).source)
    (hpar : (g (s.node id)).parent = (s.node id).parent)
    (hplain : (s.node id).inlining = none → (g (s.node id)).inlining = none)
    (hkids : ∀ c ∈ (g (s.node id)).children, c ∈ (s.node id).children ∨
      (id.val < c.val ∧ c.val < s.nodes.size ∧ (s.node c).parent = some id))
    (hnodup : (g (s.node id)).children.Nodup)
    (hhidden : ∀ h, (g (s.node id)).inlining.bind (·.hidden) = some h →
      (g (s.node id)).children.getLast? = some h)
    (hn : s'.nodes = s.nodes.modify id.val g) (hf : s'.forest.nodes = s.forest.nodes)
    (hfeeds : s'.feeds = s.feeds) : Arena s' := by
  have hnode := State.node_of_modify hn
  have hsrc' : ∀ y, s'.forest.node y = s.forest.node y := fun y => by
    simp [Source.Forest.node, hf]
  have hsize : s'.nodes.size = s.nodes.size := by simp [hn]
  have hparent : ∀ x, (s'.node x).parent = (s.node x).parent := fun x => by
    rw [hnode]
    split
    · rename_i h; obtain ⟨rfl, _⟩ := h; exact hpar
    · rfl
  refine ⟨fun x c hc => ?_, fun x c hc => ?_, fun x => ?_, fun x hx => ?_, fun f o h => ?_,
    fun x h hh => ?_, fun x p hp => ?_⟩
  · rw [hsize]
    rw [hnode] at hc
    split at hc
    · rename_i h
      obtain ⟨rfl, _⟩ := h
      rcases hkids c hc with hc | ⟨h₁, h₂, _⟩
      · exact ha.child_bound _ c hc
      · exact ⟨h₁, h₂⟩
    · exact ha.child_bound x c hc
  · rw [hparent]
    rw [hnode] at hc
    split at hc
    · rename_i h
      obtain ⟨rfl, _⟩ := h
      rcases hkids c hc with hc | ⟨_, _, hp⟩
      · exact ha.child_parent _ c hc
      · exact hp
    · exact ha.child_parent x c hc
  · rw [hnode]
    split
    · rename_i h; obtain ⟨rfl, _⟩ := h; exact hnodup
    · exact ha.nodup x
  · rw [hsrc'] at hx
    rw [hnode] at hx ⊢
    split at hx
    · rename_i h
      obtain ⟨rfl, hlt⟩ := h
      rw [if_pos ⟨rfl, hlt⟩]
      rw [hsrc] at hx
      exact hplain (ha.plain _ hx)
    · rw [if_neg ‹_›]
      exact ha.plain x hx
  · rw [hsize]
    exact ha.mount_bound f o (by simpa [State.feed, hfeeds] using h)
  · simp only [State.hiddenOf, hnode] at hh ⊢
    by_cases hx : id = x ∧ x.val < s.nodes.size
    · rw [if_pos hx] at hh ⊢
      obtain ⟨rfl, _⟩ := hx
      exact hhidden h hh
    · rw [if_neg hx] at hh ⊢
      exact ha.hidden_last x h hh
  · rw [hparent] at hp
    rw [hsize]
    exact ha.parent_bound x p hp

/-- An empty heap without feeds is an arena: every node is the default one, with no parent,
children or inlining. -/
theorem Arena.of_empty (hn : s.nodes = #[]) (hf : s.feeds = #[]) : Arena s := by
  have hnode : ∀ x, s.node x = default := fun x => State.node_of_size_le (by simp [hn])
  have hfeed : ∀ g, s.feed g = default := fun g => by simp [State.feed, hf]
  refine ⟨fun x c hc => ?_, fun x c hc => ?_, fun x => ?_, fun x _ => ?_, fun g o hg => ?_,
    fun x h hh => ?_, fun x p hp => ?_⟩
  · rw [hnode] at hc; cases hc
  · rw [hnode] at hc; cases hc
  · rw [hnode]; exact List.nodup_nil
  · rw [hnode]; rfl
  · rw [hfeed] at hg; cases hg
  · simp only [State.hiddenOf, hnode] at hh; cases hh
  · rw [hnode] at hp; cases hp

end Arena

section Sound

variable {s s' : State}

/-- A node stays sound when it is as it was and its children are placed as they were. -/
theorem Sound.congr {y : InlaidId} (h : Sound s y) (hy : s'.node y = s.node y)
    (hc : ∀ c ∈ (s.node y).children, (s'.node c).placement = (s.node c).placement) :
    Sound s' y := by
  have hhidden : s'.hiddenOf y = s.hiddenOf y := by simp [State.hiddenOf, hy]
  have hfeed : s'.feedOf y = s.feedOf y := by simp [State.feedOf, hy]
  refine ⟨by rw [hy]; exact h.not_frozen, fun c hc' => ?_, fun k hk => ?_⟩
  · rw [hy] at hc'
    rw [hc c hc', h.placed c hc']
    simp [State.childPlacement, hhidden, hy]
  · rw [hhidden] at hk
    rw [hfeed, hy]
    exact h.hidden_last k hk

end Sound

end Inlay.Sync
