import Inlay.Proofs.Following
import Mathlib.Data.List.InsertIdx

namespace Inlay.Sync

variable {s s₁ s₂ s' : State} {f : Source.Forest} {V : SubscriberId → Source.Forest}
  {k g : SubscriberId} {x y z : InlaidId} {i : Nat} {src : SourceId} {pl : Placement}

section Grafts

/-- The heap `s'` is `s` with the new subtree below `x` listed as child `i` of the old node `y`;
the other old nodes, the old feeds and the tracker are as they were. -/
structure Grafted (s s' : State) (y x : InlaidId) (i : Nat) : Prop where
  wellformed : Wellformed s'
  fresh : s.nodes.size ≤ x.val
  parent_lt : y.val < s.nodes.size
  node_parent : s'.node y = { s.node y with children := (s.node y).children.insertIdx i x }
  node : ∀ z, z.val < s.nodes.size → z ≠ y → s'.node z = s.node z
  feed : ∀ g, g.val < s.feeds.size → s'.feed g = s.feed g
  tracker : s'.tracker = s.tracker

/-- Copying a source node in under a live node and listing the copy as its child `i` grafts. -/
theorem Grafted.of_inserted (hw : Wellformed s) (hy : Live s y)
    (hpl : (s.node y).placement.forChildren = .ok pl) (hi : i ≤ s.literalCount y)
    (hc : Created s s₁ x pl (some y)) (hst : Steady s₁ s₂)
    (hn : s₂.nodes = s₁.nodes.modify y.val fun m => { m with children := m.children.insertIdx i x })
    (hf : s₂.feeds = s₁.feeds) : Grafted s s₂ y x i := by
  have hy_lt := hy.lt_size hw
  have hnode := State.node_of_modify hn
  refine ⟨(Holds.of_inserted hw hy_lt hpl hi hc hst hn hf).wellformed, Nat.le_of_eq hc.fresh.symm,
    hy_lt, ?_, fun z hz hzy => ?_, fun g hg => ?_, ?_⟩
  · rw [hnode, if_pos ⟨rfl, Nat.lt_of_lt_of_le hy_lt hc.grows.nodes_le⟩, hc.grows.node_kept hy_lt]
  · rw [hnode, if_neg fun e => hzy e.1.symm, hc.grows.node_kept hz]
  · rw [show s₂.feed g = s₁.feed g by simp only [State.feed, hf]]
    exact hc.grows.feed_kept hg
  · rw [hst.tracker, hc.grows.steady.tracker]

variable (h : Grafted s s' y x i)
include h

/-- Every old node keeps its source node and what it inlines. -/
theorem Grafted.kept (hz : z.val < s.nodes.size) :
    (s'.node z).source = (s.node z).source ∧ (s'.node z).inlining = (s.node z).inlining := by
  by_cases hzy : z = y
  · subst hzy
    rw [h.node_parent]
    exact ⟨rfl, rfl⟩
  · rw [h.node z hz hzy]
    exact ⟨rfl, rfl⟩

theorem Grafted.feedOf (hz : z.val < s.nodes.size) : s'.feedOf z = s.feedOf z := by
  simp only [State.feedOf, (h.kept hz).2]

theorem Grafted.hiddenOf (hz : z.val < s.nodes.size) : s'.hiddenOf z = s.hiddenOf z := by
  simp only [State.hiddenOf, (h.kept hz).2]

/-- The mount of an old feed keeps its root. -/
theorem Grafted.mountRoot (ha : Arena s) (hg : g.val < s.feeds.size) :
    s'.mountRoot (s'.feed g) = s.mountRoot (s.feed g) := by
  rw [h.feed g hg]
  cases hm : (s.feed g).mount with
  | tracker => rw [State.mountRoot_tracker hm, State.mountRoot_tracker hm, h.tracker]
  | owner o =>
    rw [State.mountRoot_owner hm, State.mountRoot_owner hm, h.hiddenOf (ha.mount_bound g o hm)]

/-- The copy joins the literal children of its parent at its index. -/
theorem Grafted.literals_parent (ha : Arena s) (hi : i ≤ s.literalCount y) :
    s'.literals y = (s.literals y).insertIdx i x := by
  apply State.literals_eq_of_children
  rw [h.hiddenOf h.parent_lt, h.node_parent]
  show ((s.node y).children.insertIdx i x) = _
  rw [ha.children_eq y, insertIdx_append_of_le (by rw [s.length_literals]; exact hi)]

/-- Grafting under a live node adds the new subtree to the live tree. -/
theorem Grafted.live_iff (hw : Wellformed s) (hy : Live s y) (hi : i ≤ s.literalCount y)
    (z : InlaidId) : Live s' z ↔ Live s z ∨ Below s' x z :=
  live_iff_of_grafted hw hy (by rw [h.tracker]) (by rw [h.tracker])
    (fun z hz hzy => by rw [h.node z hz hzy]) (fun c => by
      rw [h.node_parent]
      exact (List.mem_insertIdx (Nat.le_trans hi (State.literalCount_le s y))).trans or_comm) z

end Grafts

section Prunes

variable {c w : InlaidId}

/-- The child at a literal index is a literal child. -/
theorem State.getD_mem_literals (hi : i < s.literalCount y) :
    (s.node y).children.getD i default ∈ s.literals y := by
  have hlt := Nat.lt_of_lt_of_le hi (State.literalCount_le s y)
  have h : (s.literals y)[i]? = some ((s.node y).children.getD i default) := by
    rw [State.literals, List.getElem?_take_of_lt hi, List.getD_eq_getElem?_getD,
      List.getElem?_eq_getElem hlt, Option.getD_some]
  exact List.mem_of_getElem? h

/-- A child of a node outside the subtree below `c` lies outside it too, unless it is `c`. -/
theorem not_below_of_child (ha : Arena s) (hw : ¬ Below s c w) {d : InlaidId}
    (hd : d ∈ (s.node w).children) (hne : d ≠ c) : ¬ Below s c d := fun hb => by
  obtain ⟨p, hp, hcp, -⟩ := hb.parent_of_ne ha hne
  rw [ha.child_parent w d hd] at hp
  obtain rfl := Option.some.inj hp
  exact hw hcp

/-- The heap `s'` is `s` with the child `c` of the node `y` cut off and its subtree retired: frozen,
its feeds stopped. Every node keeps its source node, and `y` its feed, its other children and,
unless it was `c`, its inlined root; the nodes outside that subtree but `y`, the tracker and the
running feeds are as they were. -/
structure Cut (s s' : State) (y c : InlaidId) : Prop where
  wellformed : Wellformed s'
  mem : c ∈ (s.node y).children
  children : ∀ d, d ∈ (s'.node y).children ↔ d ∈ (s.node y).children ∧ d ≠ c
  feedOf : s'.feedOf y = s.feedOf y
  hidden : s.hiddenOf y ≠ some c → s'.hiddenOf y = s.hiddenOf y
  node : ∀ z, ¬ Below s c z → z ≠ y → s'.node z = s.node z
  source : ∀ z, (s'.node z).source = (s.node z).source
  feed : ∀ g, s'.feed g = s.feed g ∨ s'.feed g = (s.feed g).halt
  stopped : ∀ z g, Below s c z → s.feedOf z = some g → (s'.feed g).active = false
  tracker : s'.tracker = s.tracker
  feeds_size : s'.feeds.size = s.feeds.size

/-- A cut of the literal child `c` at index `i` of `y`: `y` keeps everything but that child. -/
structure Pruned (s s' : State) (y c : InlaidId) (i : Nat) : Prop extends Cut s s' y c where
  lt : i < s.literalCount y
  child : (s.node y).children.getD i default = c
  node_parent : s'.node y = { s.node y with children := (s.node y).children.eraseIdx i }

/-- Retiring the literal child `i` of a node and taking it out of the node's children prunes. -/
theorem Pruned.of_erased (hw : Wellformed s) (hi : i < s.literalCount y)
    (hr : Retires s s₁ ((s.node y).children.getD i default)) (hst : Steady s₁ s₂)
    (hn : s₂.nodes = s₁.nodes.modify y.val fun m => { m with children := m.children.eraseIdx i })
    (hf : s₂.feeds = s₁.feeds) : Pruned s s₂ y ((s.node y).children.getD i default) i := by
  have hc := State.getD_mem_children hi
  have hnode := State.node_of_modify hn
  have hy₁ : s₁.node y = s.node y :=
    (hr.trims.node y).resolve_right fun h => Below.not_of_child hw.arena hc h.1
  have hy_lt : y.val < s₁.nodes.size := by
    rw [hr.trims.nodes_size]
    exact Nat.lt_trans (hw.arena.child_bound y _ hc).1 (hw.arena.child_bound y _ hc).2
  have hy₂ : s₂.node y = { s.node y with children := (s.node y).children.eraseIdx i } := by
    rw [hnode, if_pos ⟨rfl, hy_lt⟩, hy₁]
  have hlen : i < (s.node y).children.length := Nat.lt_of_lt_of_le hi (State.literalCount_le s y)
  have hfeed : ∀ g, s₂.feed g = s₁.feed g := fun g => by simp only [State.feed, hf]
  refine ⟨⟨(Holds.of_erased hw hi hr.trims hst hn hf).wellformed, hc, fun d => ?_,
    by simp only [State.feedOf, hy₂], fun _ => by simp only [State.hiddenOf, hy₂],
    fun z hz hzy => ?_, fun z => ?_, fun g => ?_, fun z g hz hzg => ?_, ?_, ?_⟩, hi, rfl, hy₂⟩
  · rw [hy₂]
    exact ⟨fun hd => ⟨List.mem_of_mem_eraseIdx hd,
      fun e => getD_not_mem_eraseIdx (hw.arena.nodup y) hlen (e ▸ hd)⟩,
      fun hd => mem_eraseIdx_of_ne hd.1 hd.2⟩
  · rw [hnode, if_neg fun e => hzy e.1.symm]
    exact (hr.trims.node z).resolve_right fun h => hz h.1
  · by_cases hzy : z = y
    · subst hzy
      rw [hy₂]
    · rw [hnode, if_neg fun e => hzy e.1.symm]
      exact (hr.trims.trimmed z).source
  · rw [hfeed g]
    rcases hr.trims.feed g with e | ⟨-, -, -, e⟩
    · exact .inl e
    · exact .inr e
  · rw [hfeed g]
    exact hr.stopped z g hz hzg
  · rw [hst.tracker, hr.trims.steady.tracker]
  · rw [hf, hr.trims.feeds_size]

/-- Retiring the inlined root `r` of the model node `o` and emptying its slot cuts `r` off; `o`
keeps its literal children and holds no inlined root. -/
theorem Cut.of_detached (hw : Wellformed s) {o r : InlaidId} (hh : s.hiddenOf o = some r)
    (hret : Retires s s₁ r) (hst : Steady s₁ s₂)
    (hn : s₂.nodes = s₁.nodes.modify o.val Inlaid.Node.detach) (hf : s₂.feeds = s₁.feeds) :
    Cut s s₂ o r ∧ s₂.literals o = s.literals o ∧ s₂.hiddenOf o = none := by
  have hlast := hw.arena.hidden_last o r hh
  have hdet := Inlaid.Node.detach_eq hh hlast
  have hc : r ∈ (s.node o).children := List.mem_of_getLast? hlast
  have hnode := State.node_of_modify hn
  have ho₁ : s₁.node o = s.node o :=
    (hret.trims.node o).resolve_right fun h => Below.not_of_child hw.arena hc h.1
  have ho_lt : o.val < s₁.nodes.size := by
    rw [hret.trims.nodes_size]
    exact Nat.lt_trans (hw.arena.child_bound o r hc).1 (hw.arena.child_bound o r hc).2
  have ho₂ : s₂.node o = (s.node o).detach := by rw [hnode, if_pos ⟨rfl, ho_lt⟩, ho₁]
  have hkids : (s.node o).children = s.literals o ++ [r] := by
    rw [hw.arena.children_eq o, hh]
    rfl
  have hnodup := hw.arena.nodup o
  rw [hkids] at hnodup
  have hkids₂ : (s₂.node o).children = s.literals o := by
    rw [ho₂, hdet, hkids]
    exact List.dropLast_concat
  have hh₂ : s₂.hiddenOf o = none := by
    simp only [State.hiddenOf, ho₂, hdet]
    cases (s.node o).inlining <;> rfl
  have hfeed : ∀ g, s₂.feed g = s₁.feed g := fun g => by simp only [State.feed, hf]
  refine ⟨⟨(Holds.of_detached hw hh hret.trims hst hn hf).wellformed, hc, fun d => ?_,
    by simp only [State.feedOf, ho₂]; exact Inlaid.Node.feed_detach _,
    fun hne => absurd hh hne, fun z hz hzo => ?_, fun z => ?_, fun g => ?_,
    fun z g hz hzg => ?_, ?_, ?_⟩, State.literals_eq_of_children (by rw [hkids₂, hh₂]; simp), hh₂⟩
  · rw [hkids₂, hkids, List.mem_append, List.mem_singleton]
    exact ⟨fun hd => ⟨.inl hd, fun e => (List.nodup_append.1 hnodup).2.2 d hd r
      (List.mem_singleton_self r) e⟩, fun h => h.1.resolve_right h.2⟩
  · rw [hnode, if_neg fun e => hzo e.1.symm]
    exact (hret.trims.node z).resolve_right fun h => hz h.1
  · by_cases hzo : z = o
    · subst hzo
      rw [ho₂, hdet]
    · rw [hnode, if_neg fun e => hzo e.1.symm]
      exact (hret.trims.trimmed z).source
  · rw [hfeed g]
    rcases hret.trims.feed g with e | ⟨-, -, -, e⟩
    · exact .inl e
    · exact .inr e
  · rw [hfeed g]
    exact hret.stopped z g hz hzg
  · rw [hst.tracker, hret.trims.steady.tracker]
  · rw [hf, hret.trims.feeds_size]

section Cuts

variable (h : Cut s s' y c)
include h

theorem Cut.feed_of_active (hg : (s'.feed g).active = true) : s'.feed g = s.feed g :=
  (h.feed g).resolve_right fun e => by
    rw [e] at hg
    cases hg

/-- A node outside the cut keeps its feed. -/
theorem Cut.feedOf_eq (hz : ¬ Below s c z) : s'.feedOf z = s.feedOf z := by
  by_cases hzy : z = y
  · subst hzy
    exact h.feedOf
  · simp only [State.feedOf, h.node z hz hzy]

/-- The mount of a feed the cut left running keeps its root, unless that root was `c`: its owner
lies outside the cut. -/
theorem Cut.mountRoot (hw : Wellformed s) (hl : Ledger s) (hg : (s'.feed g).active = true)
    (hne : s.mountRoot (s.feed g) ≠ some c) : s'.mountRoot (s'.feed g) = s.mountRoot (s.feed g) := by
  have hfeed := h.feed_of_active hg
  rw [hfeed]
  rw [hfeed] at hg
  cases hm : (s.feed g).mount with
  | tracker => rw [State.mountRoot_tracker hm, State.mountRoot_tracker hm, h.tracker]
  | owner o =>
    rw [State.mountRoot_owner hm, State.mountRoot_owner hm]
    rw [State.mountRoot_owner hm] at hne
    by_cases hoy : o = y
    · subst hoy
      exact h.hidden hne
    · have ho : ¬ Below s c o := fun hb => by
        have hstop := h.stopped o g hb (hw.feed_owner g o hg hm (hl.owner_live g o hg hm))
        rw [hfeed, hg] at hstop
        cases hstop
      simp only [State.hiddenOf, h.node o ho hoy]

/-- Cutting takes the subtree below `c` out of the live tree. -/
theorem Cut.live_iff (hw : Wellformed s) (z : InlaidId) : Live s' z ↔ Live s z ∧ ¬ Below s c z :=
  live_iff_of_pruned hw h.mem (by rw [h.tracker]) (by rw [h.tracker])
    (fun z hz hzy => by rw [h.node z hz hzy]) h.children z

/-- The region of a feed the cut left running, other than the feed `k` whose region holds `c`,
lies outside the cut: a region below `c` belongs to a feed the cut stops. -/
theorem Cut.far (hw : Wellformed s) (hl : Ledger s) (hk : (s.feed k).active = true)
    (hc : Governs s k c) (hgk : g ≠ k) (hact : (s'.feed g).active = true) (hz : Governs s g z) :
    ¬ Below s c z := fun hb => by
  have hact' : (s.feed g).active = true := by rwa [h.feed_of_active hact] at hact
  obtain ⟨o, -, hco, hfo⟩ := Governs.owner_below hw hl hact' hk hgk hc hz hb
  have hstop := h.stopped o g hco hfo
  rw [hact] at hstop
  cases hstop

end Cuts

variable (h : Pruned s s' y c i)
include h

/-- The cut-off child was a literal child of `y`. -/
theorem Pruned.mem_literals : c ∈ s.literals y := by
  rw [← h.child]
  exact State.getD_mem_literals h.lt

/-- The cut leaves the literal children of `y` but the one at `i`. -/
theorem Pruned.literals_parent (ha : Arena s) : s'.literals y = (s.literals y).eraseIdx i := by
  apply State.literals_eq_of_children
  rw [show s'.hiddenOf y = s.hiddenOf y by simp only [State.hiddenOf, h.node_parent],
    h.node_parent]
  show (s.node y).children.eraseIdx i = _
  rw [ha.children_eq y, List.eraseIdx_append_of_lt_length (by rw [s.length_literals]; exact h.lt)]

end Prunes

section Edits

variable (hw : Wellformed s) (hl : Ledger s) (hli : Lineage s) (hg : Ground f s) (hm : InSync s V)
  (hfresh : ∀ g, s.feeds.size ≤ g.val → V g = f) (hk : (s.feed k).active = true)
include hw hl hli hg hm hfresh hk

/-- The tree is in sync after the feed `k` grafted a copy `x` of the source node `src` in as
literal child `i` of the node `y` of its region: the source node of `y` has `src` as child `i` in
`f`, and the rest of the region and the mount copy `f` already. -/
theorem InSync.of_grafted (hmk : MountCopies s f k) (hy : Governs s k y)
    (hrest : ∀ z, Governs s k z → z ≠ y → LitCopies s f z) (hi : i ≤ s.literalCount y)
    (hsrc : (f.node (s.node y).source).children =
      ((s.literals y).map fun c => (s.node c).source).insertIdx i src)
    (hgr : Grafted s s' y x i) (hd : Descent s s') (hg' : Ground f s')
    (hres : ∀ m, s'.resolve m = s.resolve m) (hcp : Copied s' f x) (hx : (s'.node x).source = src)
    (hop : ∀ g, s.feeds.size ≤ g.val → (s'.feed g).active = true →
      ∃ m, Below s' x m ∧ s'.feedOf m = some g) :
    InSync s' (Function.update V k f) := by
  have ha := hw.arena
  have ha' := hgr.wellformed.arena
  have hylive := hy.live hw hl hk
  have hk_lt := State.lt_size_of_active hk
  have hsrc_lits : (s.literals y).map (fun c => (s'.node c).source) =
      (s.literals y).map fun c => (s.node c).source :=
    List.map_congr_left fun c hc => (hgr.kept (ha.child_bound y c
      (State.mem_children_of_literal hc)).2).1
  refine hm.update hfresh (fun g hg hact => by rwa [hgr.feed g hg] at hact)
    (fun g hgk hglt hact hc => ?_) (fun g hge hact => ?_) (fun _ => ⟨?_, fun z hz => ?_⟩)
    (fun z hz => ?_)
  · have hact' : (s.feed g).active = true := by rwa [hgr.feed g hglt] at hact
    have hold : ∀ z, Governs s g z → z.val < s.nodes.size ∧ z ≠ y := fun z hz =>
      ⟨(hz.live hw hl hact').lt_size hw, fun e => hgk (Governs.unique hw hl hact' hk hz (e ▸ hy))⟩
    exact hc.keep (hgr.mountRoot ha hglt) (by rw [hgr.feed g hglt])
      (fun z hz => State.literals_congr (hgr.node z (hold z hz).1 (hold z hz).2))
      fun z hz => (hgr.kept (hold z hz).1).1
  · obtain ⟨m, hm', hfo⟩ := hop g hge hact
    exact hcp.feedCopies ha' hm' hfo
  · exact hmk.keep (hgr.mountRoot ha hk_lt) (by rw [hgr.feed k hk_lt]) fun r hr =>
      (hgr.kept ((hl.mountRoot_live hw hk (hl.present_of_active hk) hr).lt_size hw)).1
  · obtain ⟨r, hr, hlz⟩ := hz
    rw [hgr.mountRoot ha hk_lt] at hr
    have hsub : ∀ w, Lit s r w → True → ∀ c ∈ s'.literals w,
        (c ∈ s.literals w ∧ True) ∨ Below s' x c := by
      intro w hw' _ c hc
      have hw_lt := (Governs.live hw hl hk ⟨r, hr, hw'⟩).lt_size hw
      by_cases hwy : w = y
      · subst hwy
        rw [hgr.literals_parent ha hi,
          List.mem_insertIdx (by rw [s.length_literals]; exact hi)] at hc
        rcases hc with rfl | hc
        · exact .inr .refl
        · exact .inl ⟨hc, trivial⟩
      · rw [State.literals_congr (hgr.node w hw_lt hwy)] at hc
        exact .inl ⟨hc, trivial⟩
    rcases Lit.frame_sub (Q := fun _ => True) trivial hsub
        (fun w hw' c hc => .child hw' (State.mem_children_of_literal hc)) hlz with ⟨hlz', -⟩ | hb
    · have hz' : Governs s k z := ⟨r, hr, hlz'⟩
      have hz_lt := (hz'.live hw hl hk).lt_size hw
      by_cases hzy : z = y
      · subst hzy
        unfold LitCopies
        rw [hgr.literals_parent ha hi, List.map_insertIdx, hsrc_lits, hx, (hgr.kept hz_lt).1, hsrc]
      · exact (hrest z hz' hzy).frame (State.literals_congr (hgr.node z hz_lt hzy))
          (hgr.kept hz_lt).1 fun c hc =>
            (hgr.kept (ha.child_bound z c (State.mem_children_of_literal hc)).2).1
    · exact (hcp z hb).literal
  · rcases (hgr.live_iff hw hylive hi z).1 hz with hz | hb
    · have hz_lt := hz.lt_size hw
      exact (hm.inlines z hz).follow hli hd hz_lt hg hg' hres (hgr.kept hz_lt).1 (hgr.feedOf hz_lt)
        fun g hzg => by rw [hgr.feed g (hl.books.feed_lt hzg)]; exact ⟨rfl, rfl⟩
    · exact (hcp z hb).inlines

/-- Grafting a copy of `src` in as literal child `i` of a node `y` of the region of `k`, whose
source node has `src` as child `i` in `f`, never fails and leaves the tree in sync with `k` copying
`f`, once the listeners are told. -/
theorem addChild_followed (hf : f.Linked) (hmk : MountCopies s f k) (hy : Governs s k y)
    (hrest : ∀ z, Governs s k z → z ≠ y → LitCopies s f z) (hi : i ≤ s.literalCount y)
    (hsrc : (f.node (s.node y).source).children =
      ((s.literals y).map fun c => (s.node c).source).insertIdx i src)
    (hin : ∃ d, f.InTree src d) :
    Ensures (addChild y i src) s (fun _ s' => Followed f V k s s') fun _ _ => False := by
  have hylive := hy.live hw hl hk
  have hpl := Live.not_frozen hw hylive
  obtain ⟨d, hin⟩ := hin
  unfold addChild
  refine Ensures.bind (Ensures.get ?_)
  dsimp only
  split
  · omega
  rw [Placement.forChildren_eq_ok hpl]
  refine Ensures.bind (Ensures.ofExcept (fun pl hpl' => ?_) fun _ h => by cases h)
  cases hpl'
  refine Ensures.andThen (nodeOf_copies hf hw.arena hli hg (Placement.isFrozen_inherited hpl)
    (fun _ e => by cases e; exact hylive.lt_size hw) hin) fun x s₁ h₁ => ?_
  obtain ⟨hc, hd₁, hx, hg₁, hcp₁⟩ := h₁
  refine Ensures.andThen (((modifyNode_spec y _ s₁).and ((modifyNode_descends hd₁.lineage y
    (g := fun m => { m with children := m.children.insertIdx i x }) (fun _ => rfl)
    fun _ _ h => h).and (modifyNode_rooted y _))).mono (fun _ _ h => h)
    fun _ _ h => h.1) fun _ s₂ h₂ => ?_
  obtain ⟨⟨hst, hn, hf₂⟩, hd₂, hr₂⟩ := h₂
  have hgr := Grafted.of_inserted hw hylive (Placement.forChildren_eq_ok hpl) hi hc hst hn hf₂
  have hsub : ∀ w, Below s₁ x w → s₂.node w = s₁.node w := fun w hw' => by
    have hle := hw'.le hc.arena
    have hlt := hgr.parent_lt
    have hfr := hc.fresh
    rw [State.node_of_modify hn, if_neg fun e => by rw [e.1] at hlt; omega]
  have hbelow : ∀ m, Below s₂ x m ↔ Below s₁ x m := fun _ =>
    below_iff_of_children_eq fun w hw' => by rw [hsub w hw']
  have hfeed₂ : ∀ g, s₂.feed g = s₁.feed g := fun g => by simp only [State.feed, hf₂]
  have hcp : Copied s₂ f x := hcp₁.keep hc.arena hd₁.lineage hc.lt hd₂ hr₂.resolve
    hr₂.forest_node hsub fun _ g _ _ => hfeed₂ g
  have hsync := InSync.of_grafted hw hl hli hg hm hfresh hk hmk hy hrest hi hsrc hgr
    (hd₁.trans hd₂) (hg₁.rooted hr₂) (fun m => by rw [hr₂.resolve, hc.grows.steady.resolve]) hcp
    (by rw [hsub x .refl, hx]) fun g hge hact => by
      rw [hfeed₂] at hact
      obtain ⟨-, -, m, hm', hfo⟩ := hc.opened g hge (State.lt_size_of_active hact)
      exact ⟨m, (hbelow m).2 hm', by simp only [State.feedOf, hsub m hm']; exact hfo⟩
  have hkeep : KeepsFeeds s s₂ :=
    ⟨by rw [hf₂]; exact hc.grows.feeds_le, fun g hg => by rw [hgr.feed g hg]⟩
  refine Ensures.andThen (notify_followed hkeep (hg₁.rooted hr₂) hsync .added x)
    fun _ s₃ h₃ => ?_
  exact Ensures.pure h₃

/-- The tree is in sync after the feed `k` cut off a child `c` of a node `y`, where `c` lies in its
region and `y` in its region or keeping its literal children, once its mount and its region after
the cut copy `f`: the region of every other feed still running lies outside the cut. -/
theorem InSync.of_cut {c : InlaidId} (hcut : Cut s s' y c) (hc : Governs s k c)
    (hy : Governs s k y ∨ s'.literals y = s.literals y)
    (hcopy : (s'.feed k).active = true → FeedCopies s' f k) (hd : Descent s s')
    (hg' : Ground f s') (hres : ∀ m, s'.resolve m = s.resolve m) :
    InSync s' (Function.update V k f) := by
  refine hm.update hfresh (fun g _ hact => by rwa [hcut.feed_of_active hact] at hact)
    (fun g hgk _ hact hcp => ?_) (fun g hge hact => ?_) hcopy (fun z hz => ?_)
  · have hact' : (s.feed g).active = true := by rwa [hcut.feed_of_active hact] at hact
    have hlits : ∀ z, Governs s g z → s'.literals z = s.literals z := fun z hz => by
      by_cases hzy : z = y
      · subst hzy
        rcases hy with hy | hy
        · exact absurd (Governs.unique hw hl hact' hk hz hy) hgk
        · exact hy
      · exact State.literals_congr (hcut.node z (hcut.far hw hl hk hc hgk hact hz) hzy)
    have hne : s.mountRoot (s.feed g) ≠ some c := fun e =>
      hgk (Governs.unique hw hl hact' hk ⟨c, e, .refl⟩ hc)
    exact hcp.keep (hcut.mountRoot hw hl hact hne) (by rw [hcut.feed_of_active hact]) hlits
      fun z _ => hcut.source z
  · have := State.lt_size_of_active hact
    rw [hcut.feeds_size] at this
    omega
  · obtain ⟨hz', hout⟩ := (hcut.live_iff hw z).1 hz
    exact (hm.inlines z hz').follow hli hd (hz'.lt_size hw) hg hg' hres (hcut.source z)
      (hcut.feedOf_eq hout) fun g _ => by
        rcases hcut.feed g with e | e <;> rw [e] <;> exact ⟨rfl, rfl⟩

/-- The tree is in sync after the feed `k` cut off the literal child `c` at index `i` of the node
`y` of its region: the source node of `y` loses its child `i` in `f`, and the rest of the region
outside the cut and the mount copy `f` already. -/
theorem InSync.of_pruned {c : InlaidId} (hmk : MountCopies s f k) (hy : Governs s k y)
    (hrest : ∀ z, Governs s k z → z ≠ y → ¬ Below s c z → LitCopies s f z)
    (hsrc : (f.node (s.node y).source).children =
      ((s.literals y).map fun c => (s.node c).source).eraseIdx i)
    (hpr : Pruned s s' y c i) (hd : Descent s s') (hg' : Ground f s')
    (hres : ∀ m, s'.resolve m = s.resolve m) : InSync s' (Function.update V k f) := by
  have ha := hw.arena
  obtain ⟨r, hr, hry⟩ := hy
  have hcy : c ∈ (s.node y).children := State.mem_children_of_literal hpr.mem_literals
  have hne : s.mountRoot (s.feed k) ≠ some c := fun e =>
    hw.mountRoot_not_literal e y hpr.mem_literals
  refine InSync.of_cut hw hl hli hg hm hfresh hk hpr.toCut ⟨r, hr, .child hry hpr.mem_literals⟩
    (.inl ⟨r, hr, hry⟩) (fun hact => ⟨?_, fun z hz => ?_⟩) hd hg' hres
  · exact hmk.keep (hpr.mountRoot hw hl hact hne) (by rw [hpr.feed_of_active hact]) fun r _ =>
      hpr.source r
  · obtain ⟨r', hr', hlz⟩ := hz
    rw [hpr.mountRoot hw hl hact hne, hr] at hr'
    obtain rfl := Option.some.inj hr'
    have hr_out : ¬ Below s c r := fun hb => by
      have h₁ := hb.le ha
      have h₂ := hry.toBelow.le ha
      have h₃ := (ha.child_bound y c hcy).1
      omega
    have hsub : ∀ w, Lit s r w → ¬ Below s c w → ∀ d ∈ s'.literals w,
        (d ∈ s.literals w ∧ ¬ Below s c d) ∨ False := by
      intro w _ hwc d hd
      have hdw : d ∈ (s'.node w).children := State.mem_children_of_literal hd
      by_cases hwy : w = y
      · subst hwy
        rw [hpr.literals_parent ha] at hd
        have hne := ((hpr.children d).1 hdw).2
        exact .inl ⟨List.mem_of_mem_eraseIdx hd, not_below_of_child ha hwc
          (State.mem_children_of_literal (List.mem_of_mem_eraseIdx hd)) hne⟩
      · rw [State.literals_congr (hpr.node w hwc hwy)] at hd
        have hne : d ≠ c := fun e => hwy (Option.some.inj
          ((ha.parent_of_literal hd).symm.trans (e ▸ ha.child_parent y c hcy)))
        exact .inl ⟨hd, not_below_of_child ha hwc (State.mem_children_of_literal hd) hne⟩
    rcases Lit.frame_sub (P := fun _ => False) hr_out hsub (fun _ h => h.elim) hlz with
      ⟨hlz', hout⟩ | hfalse
    · by_cases hzy : z = y
      · subst hzy
        unfold LitCopies
        simp only [hpr.source]
        rw [hpr.literals_parent ha, ← List.eraseIdx_map, hsrc]
      · exact (hrest z ⟨r, hr, hlz'⟩ hzy hout).frame (State.literals_congr (hpr.node z hout hzy))
          (hpr.source z) fun c _ => hpr.source c
    · exact hfalse.elim

/-- Cutting off the literal child `i` of a node `y` of the region of `k`, whose source node loses
its child `i` in `f`, never fails and leaves the tree in sync with `k` copying `f`, once the
listeners are told. -/
theorem removeChild_followed (hmk : MountCopies s f k) (hy : Governs s k y)
    (hi : i < s.literalCount y)
    (hrest : ∀ z, Governs s k z → z ≠ y → ¬ Below s ((s.node y).children.getD i default) z →
      LitCopies s f z)
    (hsrc : (f.node (s.node y).source).children =
      ((s.literals y).map fun c => (s.node c).source).eraseIdx i) :
    Ensures (removeChild y i) s (fun _ s' => Followed f V k s s') fun _ _ => False := by
  have hylive := hy.live hw hl hk
  have hclive := hylive.child (State.getD_mem_children hi)
  unfold removeChild
  refine Ensures.andThen ((literalChild_exact y i s).mono (fun _ _ h => h)
    fun _ _ h => absurd hi (Nat.not_lt.2 h.2.1)) fun c s₀ h₀ => ?_
  obtain ⟨rfl, -, rfl⟩ := h₀
  refine Ensures.andThen ((((remove_retires hw hl (.inl hclive)).and (remove_descends hli _)).and
    (remove_rooted _)).mono (fun _ _ h => h) fun _ _ h => absurd h.1.1.2 (hclive.not_dead hw))
    fun _ s₁ h₁ => ?_
  obtain ⟨⟨hr, hd₁⟩, hr₁⟩ := h₁
  refine Ensures.andThen (((modifyNode_spec y _ s₁).and ((modifyNode_descends hd₁.lineage y
    (g := fun m => { m with children := m.children.eraseIdx i }) (fun _ => rfl) fun _ _ h => h).and
    (modifyNode_rooted y _))).mono (fun _ _ h => h) fun _ _ h => h.1) fun _ s₂ h₂ => ?_
  obtain ⟨⟨hst, hn, hf₂⟩, hd₂, hr₂⟩ := h₂
  have hpr := Pruned.of_erased hw hi hr hst hn hf₂
  have hroot := hr₁.trans hr₂
  have hsync := InSync.of_pruned hw hl hli hg hm hfresh hk hmk hy hrest hsrc hpr (hd₁.trans hd₂)
    (hg.rooted hroot) hroot.resolve
  refine Ensures.andThen (notify_followed hroot.keepsFeeds (hg.rooted hroot) hsync .removed _)
    fun _ s₃ h₃ => ?_
  exact Ensures.pure h₃

end Edits

section Mounts

/-- While the tracker has no root nothing is live, so its own feed is the only one that runs. -/
theorem Ledger.eq_of_rootless (hl : Ledger s) (hk : (s.feed k).active = true)
    (hmk : (s.feed k).mount = .tracker) (hroot : s.tracker.root = none)
    (hact : (s.feed g).active = true) : g = k := by
  cases hmg : (s.feed g).mount with
  | tracker =>
    have e := hl.tracker_feed g hact hmg
    rw [hl.tracker_feed k hk hmk] at e
    exact (Option.some.inj e).symm
  | owner o =>
    obtain ⟨-, r, hr, -⟩ := hl.owner_live g o hact hmg
    rw [hroot] at hr
    cases hr

variable (hw : Wellformed s) (hl : Ledger s) (hli : Lineage s) (hg : Ground f s) (hm : InSync s V)
  (hfresh : ∀ g, s.feeds.size ≤ g.val → V g = f) (hk : (s.feed k).active = true)

include hl hm hfresh hk in
/-- The tree is in sync after the tracker's feed `k` planted a copy `x` of the root of its tree in
`f` as the tracker's root: the copy is the whole live tree, and every other running feed was
opened by it. -/
theorem InSync.of_planted (hmk : (s.feed k).mount = .tracker) (hroot : s.tracker.root = none)
    (hc : Created s s₁ x .primary none)
    (hs' : s' = { s₁ with tracker := { s₁.tracker with root := some x } })
    (hcp : Copied s' f x) (hsrc : (f.tree (s.feed k).tree).root = some (s₁.node x).source) :
    InSync s' (Function.update V k f) := by
  have hnode : ∀ y, s'.node y = s₁.node y := fun y => by subst hs'; rfl
  have hfeed : ∀ g, g.val < s.feeds.size → s'.feed g = s.feed g := fun g hg => by
    rw [← hc.grows.feed_kept hg]
    subst hs'
    rfl
  have hroot' : s'.tracker.root = some x := by subst hs'; rfl
  have ha' : Arena s' := hc.arena.of_eq hnode (by subst hs'; rfl) (by subst hs'; rfl)
    fun g o h => hc.arena.mount_bound g o (by subst hs'; exact h)
  have hk_lt := State.lt_size_of_active hk
  refine hm.update hfresh (fun g hg hact => by rwa [← hfeed g hg])
    (fun g hgk hglt hact _ => ?_) (fun g hge hact => ?_) (fun _ => ⟨?_, fun y hy => ?_⟩)
    (fun y hy => ?_)
  · rw [hfeed g hglt] at hact
    exact absurd (hl.eq_of_rootless hk hmk hroot hact) hgk
  · have hact₁ : (s₁.feed g).active = true := by subst hs'; exact hact
    obtain ⟨-, -, m, hm', hfo⟩ := hc.opened g hge (State.lt_size_of_active hact₁)
    refine hcp.feedCopies ha' ((below_iff_of_children_eq fun y _ => by rw [hnode]).2 hm') ?_
    simp only [State.feedOf, hnode]
    exact hfo
  · unfold MountCopies
    rw [hfeed k hk_lt, State.mountRoot_tracker hmk, hroot', hsrc, Option.map_some, hnode]
  · obtain ⟨r, hr, hly⟩ := hy
    rw [hfeed k hk_lt, State.mountRoot_tracker hmk, hroot'] at hr
    cases hr
    exact (hcp y hly.toBelow).literal
  · obtain ⟨-, r, hr, hb⟩ := hy
    rw [hroot'] at hr
    cases hr
    exact (hcp y hb).inlines

include hw hl hli hg hm hfresh hk in
/-- The tree is in sync after the feed `k`, whose mount is the empty slot of the model node `o`,
attached a copy `h` of the root of its tree in `f` there: the other regions keep their old nodes,
`o` keeps its literal children, and every feed the fill opened belongs to a node of the copy. -/
theorem InSync.of_attached {o h : InlaidId} (hmk : (s.feed k).mount = .owner o)
    (hh : s.hiddenOf o = none) (hext : Extends s s' (some o) none) (ha' : Arena s')
    (hop : Opened s s' o) (hat : Attached s s' o h) (hd : Descent s s') (hg' : Ground f s')
    (hfills : Fills f s' o (s.feed k).tree) : InSync s' (Function.update V k f) := by
  have ho : Live s o := hl.owner_live k o hk hmk
  have hfo : s.feedOf o = some k := hw.feed_owner k o hk hmk ho
  have hother : ∀ y, y.val < s.nodes.size → y ≠ o → s'.node y = s.node y := fun y hy hyo =>
    hext.node y hy fun e => hyo (Option.some.inj e).symm
  have hfeed : ∀ g, g.val < s.feeds.size → s'.feed g = s.feed g := fun g hg => hext.feed_kept hg
  have hk_lt := State.lt_size_of_active hk
  have hh' : s'.hiddenOf o = some h := by
    cases hin : (s.node o).inlining with
    | none => simp [State.feedOf, hin] at hfo
    | some i => simp only [State.hiddenOf, hat.node, Inlaid.Node.hidden_attach, hin, Option.map_some]
  have hsrc : ∀ y, y.val < s.nodes.size → (s'.node y).source = (s.node y).source := fun y hy => by
    by_cases hyo : y = o
    · subst hyo
      rw [hat.node]
      rfl
    · rw [hother y hy hyo]
  have hfeedOf : ∀ y, y.val < s.nodes.size → s'.feedOf y = s.feedOf y := fun y hy => by
    by_cases hyo : y = o
    · subst hyo
      simp only [State.feedOf, hat.node]
      exact Inlaid.Node.feed_attach _ _
    · simp only [State.feedOf, hother y hy hyo]
  have hlits : ∀ y, y.val < s.nodes.size → s'.literals y = s.literals y := fun y hy => by
    by_cases hyo : y = o
    · subst hyo
      apply State.literals_eq_of_children
      rw [hat.node, Inlaid.Node.children_attach, hw.arena.children_eq y, hh, hh']
      simp
    · exact State.literals_congr (hother y hy hyo)
  have hlive : ∀ y, Live s' y ↔ Live s y ∨ Below s' h y :=
    live_iff_of_grafted hw ho (by rw [hext.steady.tracker]) (by rw [hext.steady.tracker])
      (fun y hy hyo => by rw [hother y hy hyo]) fun c => by
        rw [hat.node, Inlaid.Node.children_attach, List.mem_append, List.mem_singleton]
  refine hm.update hfresh (fun g hg hact => by rwa [hfeed g hg] at hact)
    (fun g hgk hglt hact hc => ?_) (fun g hge hact => ?_) (fun _ => ⟨?_, fun y hy => ?_⟩)
    (fun y hy => ?_)
  · have hact' : (s.feed g).active = true := by rwa [hfeed g hglt] at hact
    have hmount : s'.mountRoot (s'.feed g) = s.mountRoot (s.feed g) := by
      rw [hfeed g hglt]
      cases hmg : (s.feed g).mount with
      | tracker =>
        rw [State.mountRoot_tracker hmg, State.mountRoot_tracker hmg, hext.steady.tracker]
      | owner o' =>
        rw [State.mountRoot_owner hmg, State.mountRoot_owner hmg]
        have ho' := hl.owner_live g o' hact' hmg
        have hne : o' ≠ o := fun e => by
          subst e
          rw [hw.feed_owner g o' hact' hmg ho'] at hfo
          exact hgk (Option.some.inj hfo)
        simp only [State.hiddenOf, hother o' (ho'.lt_size hw) hne]
    exact hc.keep hmount (by rw [hfeed g hglt])
      (fun z hz => hlits z ((hz.live hw hl hact').lt_size hw))
      fun z hz => hsrc z ((hz.live hw hl hact').lt_size hw)
  · obtain ⟨-, -, m, hm', hfo'⟩ := hop g hge (State.lt_size_of_active hact)
    rcases (hlive m).1 (((hlive o).2 (.inl ho)).below hm') with hm'' | hb
    · rw [hfeedOf m (hm''.lt_size hw)] at hfo'
      exact absurd (hl.books.feed_lt hfo') (Nat.not_lt.2 hge)
    · exact Copied.feedCopies ha' (hfills.copied h hh') hb hfo'
  · unfold MountCopies
    rw [hfeed k hk_lt, State.mountRoot_owner hmk]
    exact hfills.root
  · obtain ⟨r, hr, hly⟩ := hy
    rw [hfeed k hk_lt, State.mountRoot_owner hmk, hh'] at hr
    cases hr
    exact (hfills.copied h hh' y hly.toBelow).literal
  · rcases (hlive y).1 hy with hy' | hb
    · have hy_lt := hy'.lt_size hw
      exact (hm.inlines y hy').follow hli hd hy_lt hg hg' hext.steady.resolve (hsrc y hy_lt)
        (hfeedOf y hy_lt) fun g hyg => by rw [hfeed g (hl.books.feed_lt hyg)]; exact ⟨rfl, rfl⟩
    · exact (hfills.copied h hh' y hb).inlines

include hw hl hli hg hm hfresh hk in
/-- Filling the empty mount of the feed `k` with a copy of the root of its tree in `f` never fails
and leaves the tree in sync with `k` copying `f`: the tracker gets a new root, or the model node
that `k` fills a new inlined root. -/
theorem fillMount_followed (hf : f.Linked) (hr : s.mountRoot (s.feed k) = none) {src : SourceId}
    (hsrc : (f.tree (s.feed k).tree).root = some src) :
    Ensures (fillMount k (some src)) s
      (fun _ s' => KeepsFeeds s s' ∧ Ground f s' ∧ InSync s' (Function.update V k f))
      fun _ _ => False := by
  cases hmk : (s.feed k).mount with
  | tracker =>
    have hroot : s.tracker.root = none := by rwa [State.mountRoot_tracker hmk] at hr
    refine ((fillMount_of_fill (fill_tracker_spec hw.arena hmk hroot _ (some src))).and
      (fillMount_tracker_copies hf hw.arena hli hg hmk fun r e => ?_)).mono (fun r s' h => ?_)
      fun _ _ h => h.2
    · cases e
      exact Source.Forest.InTree.root hf hsrc
    obtain ⟨hspec, hg', -, hmap, hcp⟩ := h
    cases r with
    | none => cases hmap
    | some x =>
      obtain ⟨s₁, hc, hs'⟩ := hspec
      have hx : (s₁.node x).source = src := by
        subst hs'
        exact Option.some.inj hmap
      have hfeed : ∀ g, g.val < s.feeds.size → s'.feed g = s.feed g := fun g hg => by
        rw [← hc.grows.feed_kept hg]
        subst hs'
        rfl
      refine ⟨⟨by subst hs'; exact hc.grows.feeds_le, fun g hg => by rw [hfeed g hg]⟩, hg',
        InSync.of_planted hl hm hfresh hk hmk hroot hc hs' (hcp x rfl) (by rw [hsrc, hx])⟩
  | owner o =>
    have hh : s.hiddenOf o = none := by rwa [State.mountRoot_owner hmk] at hr
    have ho := hl.owner_live k o hk hmk
    obtain ⟨-, name, hname, hres⟩ := (hm.inlines o ho).fed k (hw.feed_owner k o hk hmk ho)
    have hfuel : f.copyFuel [] 0 + 1 ≤ s.buildFuel := by
      unfold State.buildFuel
      rw [hg.nodes]
      exact Source.Forest.copyFuel_nil_lt 0
    have hcopy := fill_copies_framed (build_copies hf s.buildFuel).2.2.2 [] hw.arena hli hg hmk
      (ho.lt_size hw) hh ⟨name, hname, hres⟩ (fun _ h => by cases h) hfuel
    rw [hsrc] at hcopy
    refine (fillMount_of_fill (hcopy.and ((build_spec _).2.2.2 k (some src) o s hw.arena hmk
      (ho.lt_size hw) hh))).mono (fun r s' h => ?_) fun _ _ h => h.1
    obtain ⟨⟨hext, ha', hd, hg', hr', hfills⟩, -, -, -, hop, hat⟩ := h
    cases r with
    | none =>
      have hroot := hfills.root
      rw [← hr', hsrc] at hroot
      cases hroot
    | some x =>
      exact ⟨⟨hext.feeds_le, fun g hg => by rw [hext.feed_kept hg]⟩, hg',
        InSync.of_attached hw hl hli hg hm hfresh hk hmk hh hext ha' hop hat hd hg' hfills⟩

/-- Emptying a mount changes the heap or the tracker's root only. -/
theorem fillMount_none_rooted (g : SubscriberId) : Within Rooted (fillMount g none) s := by
  unfold fillMount
  refine Within.get ?_
  obtain ⟨n, hn⟩ := State.buildFuel_succ s
  rw [hn, fill]
  refine Within.get ?_
  dsimp only
  split
  · exact Ensures.bind (Ensures.pure (Within.seq (modifyTracker_rooted rfl) fun _ s' _ =>
      Within.pure (Rooted.refl s') _))
  · exact Within.seq (modifyNode_rooted _ _) fun _ s' _ => Within.pure (Rooted.refl s') _

include hw hl hm hfresh hk in
/-- The tree is in sync after the tracker's feed `k`, whose tree has no root in `f`, took out the
tracker's root `r`: nothing is live any more, and every other feed that ran held a node below `r`
and is stopped. -/
theorem InSync.of_uprooted (hmk : (s.feed k).mount = .tracker) {r : InlaidId}
    (hroot : s.tracker.root = some r) (hret : Retires s s₁ r)
    (hs' : s' = { s₁ with tracker := { s₁.tracker with root := none } })
    (hnone : (f.tree (s.feed k).tree).root = none) : InSync s' (Function.update V k f) := by
  have hroot' : s'.tracker.root = none := by subst hs'; rfl
  have hrun : ∀ g, (s'.feed g).active = true → s'.feed g = s.feed g := fun g hact => by
    have hfeed : s'.feed g = s₁.feed g := by subst hs'; rfl
    rw [hfeed] at hact ⊢
    rcases hret.trims.feed g with e | ⟨-, -, -, e⟩
    · exact e
    · rw [e] at hact
      cases hact
  refine hm.update hfresh (fun g _ hact => by rwa [hrun g hact] at hact)
    (fun g hgk _ hact _ => ?_) (fun g hge hact => ?_) (fun hact => ⟨?_, fun y hy => ?_⟩)
    (fun y hy => ?_)
  · have hact' : (s.feed g).active = true := by rwa [hrun g hact] at hact
    cases hmg : (s.feed g).mount with
    | tracker =>
      have e := hl.tracker_feed g hact' hmg
      rw [hl.tracker_feed k hk hmk] at e
      exact absurd (Option.some.inj e).symm hgk
    | owner o =>
      have ho := hl.owner_live g o hact' hmg
      have hb : Below s r o := by
        obtain ⟨-, r', hr', hb⟩ := ho
        rw [hroot] at hr'
        cases hr'
        exact hb
      have hstop := hret.stopped o g hb (hw.feed_owner g o hact' hmg ho)
      have hfeed : s'.feed g = s₁.feed g := by subst hs'; rfl
      rw [← hfeed, hact] at hstop
      cases hstop
  · have hsize : s'.feeds.size = s.feeds.size := by subst hs'; exact hret.trims.feeds_size
    have := State.lt_size_of_active hact
    omega
  · unfold MountCopies
    rw [hrun k hact, State.mountRoot_tracker hmk, hroot', hnone]
    rfl
  · obtain ⟨r', hr', -⟩ := hy
    rw [hrun k hact, State.mountRoot_tracker hmk, hroot'] at hr'
    cases hr'
  · obtain ⟨-, r', hr', -⟩ := hy
    rw [hroot'] at hr'
    cases hr'

include hw hl hli hg hm hfresh hk in
/-- Taking out the root `r` of the mount of the feed `k`, whose tree has no root in `f`, never fails
and leaves the tree in sync with `k` copying `f`, once the listeners are told: the tracker loses
its root, or the model node that `k` fills its inlined root. -/
theorem removeRoot_followed {r : InlaidId} (hr : s.mountRoot (s.feed k) = some r)
    (hnone : (f.tree (s.feed k).tree).root = none) :
    Ensures (do remove r; discard (fillMount k none); notify .removed r) s
      (fun _ s' => Followed f V k s s') fun _ _ => False := by
  have hlive := hl.mountRoot_live hw hk (hl.present_of_active hk) hr
  refine Ensures.andThen ((((remove_retires hw hl (.inl hlive)).and (remove_descends hli _)).and
    (remove_rooted _)).mono (fun _ _ h => h) fun _ _ h => absurd h.1.1.2 (hlive.not_dead hw))
    fun _ s₁ h₁ => ?_
  obtain ⟨⟨hret, hd₁⟩, hr₁⟩ := h₁
  have hm₁ : (s₁.feed k).mount = (s.feed k).mount := hret.trims.feed_mount k
  cases hmk : (s.feed k).mount with
  | tracker =>
    rw [hmk] at hm₁
    have hroot : s.tracker.root = some r := by rwa [State.mountRoot_tracker hmk] at hr
    refine Ensures.andThen
      (P := fun _ s₂ => s₂ = { s₁ with tracker := { s₁.tracker with root := none } })
      (Ensures.discard ((fillMount_none_tracker hm₁).mono (fun _ _ h => h.2) fun _ _ h => h))
      fun _ s₂ hs₂ => ?_
    have hroot₂ : Rooted s s₂ := by
      subst hs₂
      exact hr₁.trans (Rooted.of_eq rfl rfl rfl rfl rfl)
    exact notify_followed hroot₂.keepsFeeds (hg.rooted hroot₂)
      (InSync.of_uprooted hw hl hm hfresh hk hmk hroot hret hs₂ hnone) .removed r
  | owner o =>
    rw [hmk] at hm₁
    have hh : s.hiddenOf o = some r := by rwa [State.mountRoot_owner hmk] at hr
    refine Ensures.andThen (P := fun _ s₂ => (Steady s₁ s₂ ∧
        s₂.nodes = s₁.nodes.modify o.val Inlaid.Node.detach ∧ s₂.feeds = s₁.feeds) ∧
        Rooted s₁ s₂ ∧ Descent s₁ s₂)
      (Ensures.discard (((fillMount_none_owner hm₁).and ((fillMount_none_rooted k).and
        (fillMount_descends hd₁.lineage k none))).mono (fun _ _ h => ⟨h.1.2, h.2⟩)
        fun _ _ h => h.1)) fun _ s₂ h₂ => ?_
    obtain ⟨⟨hst, hn, hf₂⟩, hr₂, hd₂⟩ := h₂
    obtain ⟨hcut, hlits, hh₂⟩ := Cut.of_detached hw hh hret hst hn hf₂
    have hroot := hr₁.trans hr₂
    have hcopy : (s₂.feed k).active = true → FeedCopies s₂ f k := fun hact => by
      have hmount : s₂.mountRoot (s₂.feed k) = none := by
        rw [hcut.feed_of_active hact, State.mountRoot_owner hmk, hh₂]
      refine ⟨?_, fun y hy => ?_⟩
      · unfold MountCopies
        rw [hmount, hcut.feed_of_active hact, hnone]
        rfl
      · obtain ⟨r', hr', -⟩ := hy
        rw [hmount] at hr'
        cases hr'
    exact notify_followed hroot.keepsFeeds (hg.rooted hroot)
      (InSync.of_cut hw hl hli hg hm hfresh hk hcut ⟨r, hr, .refl⟩ (.inr hlits) hcopy
        (hd₁.trans hd₂) (hg.rooted hroot) hroot.resolve) .removed r

end Mounts

end Inlay.Sync
