import Inlay.Proofs.RegionEdits

namespace Inlay.Sync

open Source.Forest (Applies Addressed Reshapes)

variable {s : State} {f f₀ : Source.Forest} {V : SubscriberId → Source.Forest}
  {k : SubscriberId} {r y : InlaidId} {t : TreeId}

section Forests

/-- A stopped feed is asked to copy nothing, so any forest will do for it. -/
theorem InSync.of_stopped (hm : InSync s V) (hk : (s.feed k).active = false) :
    InSync s (Function.update V k f) := by
  refine InSync.of_feedCopies (fun g hg => ?_) hm.inlines
  by_cases hgk : g = k
  · subst hgk
    rw [hk] at hg
    cases hg
  · rw [Function.update_of_ne hgk]
    exact hm.feedCopies hg

/-- A mount reads a forest only through the root of its feed's tree. -/
theorem MountCopies.retarget (h : MountCopies s f₀ k)
    (hroot : (f.tree (s.feed k).tree).root = (f₀.tree (s.feed k).tree).root) :
    MountCopies s f k := by
  unfold MountCopies
  rw [hroot]
  exact h

/-- A copy reads a forest only through the root of its feed's tree and the children lists: a forest
that agrees with the old one there is copied too. -/
theorem FeedCopies.retarget (h : FeedCopies s f₀ k)
    (hroot : (f.tree (s.feed k).tree).root = (f₀.tree (s.feed k).tree).root)
    (hch : ∀ u, (f.node u).children = (f₀.node u).children) : FeedCopies s f k := by
  refine ⟨h.mount.retarget hroot, fun z hz => ?_⟩
  unfold LitCopies
  rw [hch]
  exact h.literal z hz

theorem InSync.retarget (hm : InSync s V)
    (hroot : (f.tree (s.feed k).tree).root = ((V k).tree (s.feed k).tree).root)
    (hch : ∀ u, (f.node u).children = ((V k).node u).children) :
    InSync s (Function.update V k f) := by
  refine InSync.of_feedCopies (fun g hg => ?_) hm.inlines
  by_cases hgk : g = k
  · subst hgk
    rw [Function.update_self]
    exact (hm.feedCopies hg).retarget hroot hch
  · rw [Function.update_of_ne hgk]
    exact hm.feedCopies hg

/-- Away from the node `y` of its region, a region that copies `f₀` copies every forest that
changes the children of `y`'s source node only: no other node of the region stands for it. -/
theorem FeedCopies.away (h : FeedCopies s f₀ k) (hf₀ : f₀.Linked)
    (hR : (f₀.tree t).root = some (s.node r).source) (hr : s.mountRoot (s.feed k) = some r)
    (hy : Lit s r y) (hch : ∀ u, u ≠ (s.node y).source → (f.node u).children = (f₀.node u).children) :
    ∀ z, Governs s k z → z ≠ y → LitCopies s f z := by
  have hlit : ∀ z, Lit s r z → LitCopies s f₀ z := fun z hz => h.literal z ⟨r, hr, hz⟩
  intro z hz hzy
  obtain ⟨r', hr', hz⟩ := hz
  rw [hr] at hr'
  obtain rfl := Option.some.inj hr'
  unfold LitCopies
  rw [hch _ fun e => hzy (Lit.source_inj hlit hf₀ hR hz hy e)]
  exact hlit z hz

/-- The mount of a feed whose tree has a root in the forest it copies holds a node standing for
that root. -/
theorem MountCopies.root_eq (h : MountCopies s f k) {R : SourceId}
    (hR : (f.tree (s.feed k).tree).root = some R) :
    ∃ r, s.mountRoot (s.feed k) = some r ∧ (s.node r).source = R := by
  unfold MountCopies at h
  rw [hR] at h
  exact Option.map_eq_some_iff.1 h

/-- The mount of a feed whose tree has no root in the forest it copies is empty. -/
theorem MountCopies.eq_none (h : MountCopies s f k) (hR : (f.tree (s.feed k).tree).root = none) :
    s.mountRoot (s.feed k) = none := by
  unfold MountCopies at h
  rw [hR] at h
  exact Option.map_eq_none_iff.1 h

/-- The copy of a feed of another tree than `t` reads only nodes outside `t`, which an edit of `t`
leaves as they were. -/
theorem FeedCopies.of_reshapes (h : FeedCopies s f₀ k) (hre : Reshapes f₀ f t) (hf₀ : f₀.Linked)
    (hkt : (s.feed k).tree ≠ t) : FeedCopies s f k := by
  refine ⟨h.mount.retarget (hre.roots _ hkt), fun z hz => ?_⟩
  obtain ⟨r, hr, hz⟩ := hz
  have hlit : ∀ z, Lit s r z → LitCopies s f₀ z := fun z hz => h.literal z ⟨r, hr, hz⟩
  have hR : (f₀.tree (s.feed k).tree).root = some (s.node r).source := by
    have hmount := h.mount
    unfold MountCopies at hmount
    rw [hr, Option.map_some] at hmount
    exact hmount.symm
  have hbelow := Lit.source_below hlit hz
  unfold LitCopies
  rw [hre.children _ fun R hRt hb => hkt (hf₀.tree_eq hR hRt hbelow hb)]
  exact hlit z hz

end Forests

section Events

variable (hw : Wellformed s) (hl : Ledger s) (hli : Lineage s) (hg : Ground f s) (hm : InSync s V)
  (hfresh : ∀ g, s.feeds.size ≤ g.val → V g = f) (hf₀ : f₀.Linked) (hf : f.Linked)
include hw hl hli hg hm hfresh hf₀ hf

/-- A feed following an event of its tree `t`, the edit that turned `f₀` into `f`, never fails,
and leaves the tree in sync with the feed copying `f`, once the listeners are told; a stopped feed
ignores the event. -/
theorem onEvent_followed {e : Source.Event} (happ : Applies f₀ t e f)
    (hkt : (s.feed k).active = true → (s.feed k).tree = t ∧ V k = f₀) :
    Ensures (onEvent k e) s (fun _ s' => Followed f V k s s') fun _ _ => False := by
  by_cases hk : (s.feed k).active = true
  swap
  · have hoff : (s.feed k).active = false := by simpa using hk
    unfold Ensures
    rw [onEvent_ignored e (.inl hoff)]
    exact ⟨KeepsFeeds.refl s, hg, .inr (hm.of_stopped hoff)⟩
  obtain ⟨ht, hV⟩ := hkt hk
  have hcopy : FeedCopies s f₀ k := hV ▸ hm.feedCopies hk
  have hlit : ∀ r, s.mountRoot (s.feed k) = some r → ∀ z, Lit s r z → LitCopies s f₀ z :=
    fun r hr z hz => hcopy.literal z ⟨r, hr, hz⟩
  unfold onEvent
  refine Ensures.bind (Ensures.get ?_)
  dsimp only
  rw [if_neg (by simp [hk, hg.present])]
  cases happ with
  | placed hnone hroot _ =>
    rw [← ht] at hnone hroot
    have hr := hcopy.mount.eq_none hnone
    dsimp only
    split
    · rename_i hsome
      rw [hr] at hsome
      cases hsome
    refine Ensures.andThen (fillMount_followed hw hl hli hg hm hfresh hk hf hr hroot)
      fun x s₁ h₁ => ?_
    obtain ⟨hkeep, hg₁, hm₁⟩ := h₁
    cases x with
    | none => exact Ensures.pure ⟨hkeep, hg₁, .inr hm₁⟩
    | some x => exact notify_followed hkeep hg₁ hm₁ .added x
  | @inserted a i src R p _ hR hpa hi hch hother hroot' =>
    rw [← ht] at hR hroot'
    obtain ⟨r, hr, hrR⟩ := hcopy.mount.root_eq hR
    obtain ⟨y, hd, hy, hyp⟩ := Lit.addressed (hlit r hr) .refl (hrR ▸ hpa)
    have hyc := hlit r hr y hy
    obtain ⟨j, rest, hjr⟩ := List.exists_cons_of_ne_nil (List.concat_ne_nil i a)
    rw [hjr]
    dsimp only
    rw [← hjr]
    split
    · rename_i r' hr'
      rw [hr] at hr'
      cases hr'
      refine Ensures.discard (Ensures.andThen (navigate_descends hd i) fun res s' h => ?_)
      obtain ⟨rfl, hs'⟩ := h
      subst s'
      have hsrc : (f.node (s.node y).source).children =
          ((s.literals y).map fun c => (s.node c).source).insertIdx i src := by
        rw [hyp, hch, hyc, hyp]
      have hin : ∃ d, f.InTree src d := by
        have hpR : Source.Forest.Below f R p := Source.Forest.Below.congr' (fun u d hd => by
          by_cases hu : u = p
          · subst hu
            rw [hch]
            exact (List.mem_insertIdx hi).2 (.inr hd)
          · rwa [hother u hu]) hpa.toBelow
        exact Source.Forest.InTree.of_below hf hroot' (hpR.trans (.single (by
          rw [hch]
          exact (List.mem_insertIdx hi).2 (.inl rfl))))
      exact addChild_followed hw hl hli hg hm hfresh hk hf
        (hcopy.mount.retarget (by rw [hR, hroot'])) ⟨r, hr, hy⟩
        (hcopy.away hf₀ (hrR ▸ hR) hr hy fun u hu => hother u (hyp ▸ hu))
        (by rw [hyc.literalCount_eq, hyp]; exact hi) hsrc hin
    · rename_i hnone
      exact absurd hr (hnone r)
  | taken hR hnone _ =>
    rw [← ht] at hR hnone
    obtain ⟨r, hr, -⟩ := hcopy.mount.root_eq hR
    dsimp only
    split
    · rename_i r' hr'
      rw [hr] at hr'
      cases hr'
      rw [if_pos List.isEmpty_nil]
      exact removeRoot_followed hw hl hli hg hm hfresh hk hr hnone
    · rename_i hnone'
      exact absurd hr (hnone' r)
  | @detached a i R p c _ hR hpa hc hch hother hroot' =>
    rw [← ht] at hR hroot'
    obtain ⟨r, hr, hrR⟩ := hcopy.mount.root_eq hR
    obtain ⟨y, hd, hy, hyp⟩ := Lit.addressed (hlit r hr) .refl (hrR ▸ hpa)
    have hyc := hlit r hr y hy
    obtain ⟨hi, -, -⟩ := hyc.child (hyp ▸ hc)
    dsimp only
    split
    · rename_i r' hr'
      rw [hr] at hr'
      cases hr'
      rw [if_neg (by simp)]
      refine Ensures.discard (Ensures.andThen (navigate_descends hd i) fun res s' h => ?_)
      obtain ⟨rfl, hs'⟩ := h
      subst s'
      exact removeChild_followed hw hl hli hg hm hfresh hk
        (hcopy.mount.retarget (by rw [hR, hroot'])) ⟨r, hr, hy⟩ hi
        (fun z hz hzy _ => hcopy.away hf₀ (hrR ▸ hR) hr hy (fun u hu => hother u (hyp ▸ hu)) z hz hzy)
        (by rw [hyp, hch, hyc, hyp])
    · rename_i hnone
      exact absurd hr (hnone r)
  | @changed a R u _ hR hua hch hroot' =>
    rw [← ht] at hR hroot'
    obtain ⟨r, hr, hrR⟩ := hcopy.mount.root_eq hR
    have hm' : InSync s (Function.update V k f) :=
      hm.retarget (by rw [hV, hroot', hR]) (by rw [hV]; exact hch)
    dsimp only
    split
    · rename_i r' hr'
      rw [hr] at hr'
      cases hr'
      rcases List.eq_nil_or_concat a with rfl | ⟨a, i, rfl⟩
      · rw [if_pos List.isEmpty_nil]
        exact notify_followed (KeepsFeeds.refl s) hg hm' .changed r
      rw [List.concat_eq_append] at hua ⊢
      rw [if_neg (by simp)]
      obtain ⟨p, hpa, hpu⟩ := Addressed.concat (hrR ▸ hua)
      obtain ⟨y, hd, hy, hyp⟩ := Lit.addressed (hlit r hr) .refl hpa
      obtain ⟨hi, -, -⟩ := (hlit r hr y hy).child (hyp ▸ hpu)
      refine Ensures.discard (Ensures.andThen (navigate_descends hd i) fun res s' h => ?_)
      obtain ⟨rfl, hs'⟩ := h
      subst s'
      refine Ensures.andThen ((literalChild_exact y i _).mono (fun _ _ h => h)
        fun _ _ h => absurd hi (Nat.not_lt.2 h.2.1)) fun c s₁ h₁ => ?_
      obtain ⟨hs₁, -, -⟩ := h₁
      subst s₁
      exact Ensures.andThen (notify_followed (KeepsFeeds.refl s) hg hm' .changed c)
        fun _ _ h => Ensures.pure h
    · rename_i hnone
      exact absurd hr (hnone r)

end Events

section Deliveries

variable {s₀ s' : State} {e : Source.Event} {g : SubscriberId} {rest : List SubscriberId}

/-- The forests the feeds copy while an event is told: a feed still to be told copies the forest
before the edit, every other one the forest after it. -/
def staged (f₀ f : Source.Forest) (rest : List SubscriberId) (g : SubscriberId) : Source.Forest :=
  if g ∈ rest then f₀ else f

theorem staged_nil : staged f₀ f [] = fun _ => f := by
  funext g
  simp [staged]

/-- Once a feed is told, it copies the forest after the edit. -/
theorem staged_cons (hg : g ∉ rest) :
    Function.update (staged f₀ f (g :: rest)) g f = staged f₀ f rest := by
  funext h
  by_cases hhg : h = g
  · subst hhg
    simp [staged, hg]
  · simp [staged, hhg]

/-- Before an event of `t` is told, the feeds subscribed to `t` copy the forest before the edit, and
every other running feed, following another tree, copies the forest after it as well. -/
theorem InSync.stage (hm : InSync s fun _ => f₀) (hl : Ledger s) (hre : Reshapes f₀ f t)
    (hf₀ : f₀.Linked) : InSync s (staged f₀ f (s.forest.tree t).subscribers.values) := by
  refine InSync.of_feedCopies (fun g hg => ?_) hm.inlines
  unfold staged
  split
  · exact hm.feedCopies hg
  · rename_i hgL
    have hgt : (s.feed g).tree ≠ t := fun e =>
      hgL ((hl.books.mem_values t g).2 ⟨hl.subscribed g hg, e⟩)
    exact (hm.feedCopies hg).of_reshapes hre hf₀ hgt

/-- While the event of the tree `t`, the edit from `f₀` to `f`, is told, with the feeds `rest` of
`s₀` still to be told: the heap, its ledger and lineage hold, the feeds of `s₀` stay with their
trees, the ground of `f` stands, and the tracker follows nothing or the tree is in sync, the
feeds still to be told copying `f₀`. Those are distinct feeds of `s₀` that followed `t`. -/
structure Telling (s₀ : State) (f₀ f : Source.Forest) (t : TreeId) (rest : List SubscriberId)
    (s : State) : Prop where
  wellformed : Wellformed s
  ledger : Ledger s
  lineage : Lineage s
  keeps : KeepsFeeds s₀ s
  ground : Ground f s
  sync : s.tracker.feed = none ∨ InSync s (staged f₀ f rest)
  nodup : rest.Nodup
  pending : ∀ g ∈ rest, g.val < s₀.feeds.size ∧ (s₀.feed g).tree = t

/-- Telling one more feed: it follows the event, and then copies the forest after the edit. -/
theorem Telling.step (hf₀ : f₀.Linked) (hf : f.Linked) (happ : Applies f₀ t e f)
    (h : Telling s₀ f₀ f t (g :: rest) s) :
    Ensures (onEvent g e) s (fun _ s' => Telling s₀ f₀ f t rest s') fun _ _ => False := by
  have hm : InSync s (staged f₀ f (g :: rest)) := h.sync.elim (InSync.of_quiet h.ledger) id
  have hg_lt := (h.pending g List.mem_cons_self).1
  have hfresh : ∀ g', s.feeds.size ≤ g'.val → staged f₀ f (g :: rest) g' = f := fun g' hg' => by
    have hnot : g' ∉ g :: rest := fun hmem => by
      have := (h.pending g' hmem).1
      have := h.keeps.feeds_le
      omega
    simp [staged, hnot]
  have hkt : (s.feed g).active = true → (s.feed g).tree = t ∧ staged f₀ f (g :: rest) g = f₀ :=
    fun _ => ⟨(h.keeps.tree g hg_lt).trans (h.pending g List.mem_cons_self).2, by simp [staged]⟩
  refine (((onEvent_followed h.wellformed h.ledger h.lineage h.ground hm hfresh hf₀ hf happ
    hkt).and (onEvent_heeds h.wellformed h.ledger g e)).and
    (onEvent_descends h.wellformed h.lineage g e)).mono (fun _ s' h' => ?_) fun _ _ h' => h'.1.1
  obtain ⟨⟨⟨hkeep, hg', hsync⟩, hheeds⟩, hd⟩ := h'
  rw [staged_cons (List.nodup_cons.1 h.nodup).1] at hsync
  exact ⟨hheeds.1.holds.wellformed, hheeds.1.ledger, hd.lineage, h.keeps.trans hkeep, hg', hsync,
    (List.nodup_cons.1 h.nodup).2, fun g' hg' => h.pending g' (List.mem_cons_of_mem g hg')⟩

/-- Telling an event of `t` to the feeds subscribed to `t` when it starts never fails, and leaves
every feed copying the forest after the edit. -/
theorem deliver_told (hf₀ : f₀.Linked) (hf : f.Linked)
    (happ : (s.forest.tree t).subscribers.values ≠ [] → Applies f₀ t e f)
    (h : Telling s f₀ f t (s.forest.tree t).subscribers.values s) :
    Ensures (deliver t e) s (fun _ s' => Telling s f₀ f t [] s') fun _ _ => False := by
  unfold deliver
  refine Ensures.bind (Ensures.get ?_)
  by_cases hnil : (s.forest.tree t).subscribers.values = []
  · rw [hnil] at h ⊢
    exact Ensures.pure h
  refine Ensures.andThen (Ensures.forIn (I := fun rest s' => Telling s f₀ f t rest s')
    (fun g rest s' hI => ?_) _ s h) fun _ s' h' => Ensures.pure h'
  exact Ensures.andThen (hI.step hf₀ hf (happ hnil)) fun _ _ h'' => Ensures.pure ⟨rfl, h''⟩

end Deliveries

section Mutations

variable {s₁ : State} {e : Source.Event}

/-- The live tree keeps up with the forest: the forest's trees hang together, the tracker stands
with every served tree serving its model, and the tracker follows nothing or the tree is in sync
with the forest. -/
structure Abreast (s : State) : Prop where
  linked : s.forest.Linked
  ground : Ground s.forest s
  sync : s.tracker.feed = none ∨ InSync s fun _ => s.forest

/-- Between calls: the tree keeps up with the forest, and the heap is well formed, with its ledger
and lineage. -/
structure Synced (s : State) : Prop extends Abreast s where
  wellformed : Wellformed s
  ledger : Ledger s
  lineage : Lineage s

/-- A tree with subscribers is a tree of the forest: past the last tree the table is empty. -/
theorem lt_size_of_values (h : (f.tree t).subscribers.values ≠ []) : t.val < f.trees.size :=
  Nat.lt_of_not_le fun ht => h (by rw [Source.Forest.tree_of_size_le ht]; rfl)

/-- A copy of `f` is a copy of the session's forest, when the two agree on nodes and roots. -/
theorem InSync.of_ground (hm : InSync s fun _ => f) (hg : Ground f s) :
    InSync s fun _ => s.forest :=
  InSync.of_feedCopies (fun _ hk => (hm.feedCopies hk).retarget (hg.roots _)
    fun u => by rw [hg.forest_node]) hm.inlines

/-- The ground of a forest is the ground of the session's own. -/
theorem Ground.own (hg : Ground f s) : Ground s.forest s :=
  ⟨rfl, fun _ => rfl, hg.present, hg.serves⟩

/-- The session's forest hangs together when it agrees with one that does on nodes and roots. -/
theorem Ground.linked (hg : Ground f s) (hf : f.Linked) : s.forest.Linked :=
  hf.congr (fun u => by rw [hg.forest_node]) (fun u => by rw [hg.forest_node])
    (fun u => by rw [hg.forest_node]) hg.roots (by rw [hg.nodes])

/-- Once every feed is told, the state is synced again, with the forest after the edit. -/
theorem Telling.synced {s₀ : State} (h : Telling s₀ f₀ f t [] s) (hf : f.Linked) : Synced s where
  wellformed := h.wellformed
  ledger := h.ledger
  lineage := h.lineage
  linked := h.ground.linked hf
  ground := h.ground.own
  sync := h.sync.imp_right fun hm => ((staged_nil : staged f₀ f [] = _) ▸ hm).of_ground h.ground

/-- Setting a forest edited at the tree `t` starts telling the edit to the feeds subscribed to
`t`, and telling it leaves the state synced. -/
theorem Synced.edit (h : Synced s) (hre : Reshapes s.forest f t) (hmod : s.forest.KeepsModels f)
    (htab : s.forest.KeepsTables f) (hf : f.Linked)
    (happ : t.val < s.forest.trees.size → Applies s.forest t e f) {E : Fault → State → Prop} :
    Ensures (setForest f) s (fun _ s₁ => Ensures (deliver t e) s₁ (fun _ => Synced) E) E := by
  refine Ensures.modify ?_
  show Ensures (deliver t e) { s with forest := f } _ E
  have ha := Audit.of_forest h.wellformed h.ledger hmod htab
  have hd : Descent s { s with forest := f } := h.lineage.frame rfl (fun _ _ h => .inl h) hmod
  have hsync : s.tracker.feed = none ∨
      InSync { s with forest := f } (staged s.forest f (f.tree t).subscribers.values) :=
    h.sync.imp_right fun hm =>
      (hm.congr rfl rfl rfl rfl (fun _ => rfl) hre.model : InSync { s with forest := f } _).stage
        ha.ledger hre h.linked
  have hT : Telling { s with forest := f } s.forest f t (f.tree t).subscribers.values
      { s with forest := f } :=
    { wellformed := ha.holds.wellformed
      ledger := ha.ledger
      lineage := hd.lineage
      keeps := KeepsFeeds.refl _
      ground := ⟨rfl, fun _ => rfl, h.ground.present, fun m T hT => by
        rw [hre.serving]
        exact h.ground.serves m T hT⟩
      sync := hsync
      nodup := ha.ledger.books.nodup_values t
      pending := fun g hg => by
        obtain ⟨hs, htg⟩ := (ha.ledger.books.mem_values t g).1 hg
        refine ⟨Nat.lt_of_not_le fun hge => ?_, htg⟩
        rw [State.feed_of_size_le hge] at hs
        cases hs }
  refine (deliver_told h.linked hf (fun hne => happ (lt_size_of_values ?_)) hT).mono
    (fun _ _ h' => h'.synced hf) fun _ _ h' => h'.elim
  rwa [← htab.2 t]

/-- Setting a loose node as the root of a tree keeps the state synced; a refused edit changes
nothing. -/
theorem setRoot_synced (h : Synced s) {src : SourceId} (hsrc : Source.Forest.Loose s.forest src)
    (t : TreeId) : Ensures (setRoot t src) s (fun _ => Synced) fun _ s' => s' = s := by
  unfold setRoot
  refine Ensures.bind (Ensures.get (Ensures.bind (Ensures.ofExcept (fun f hf => ?_)
    fun _ _ => rfl)))
  obtain ⟨hre, happ⟩ := Source.Forest.placeRoot_reshapes h.linked hsrc hf
  exact Ensures.bind ((h.edit hre (Source.Forest.keepsModels_placeRoot hf)
    (Source.Forest.keepsTables_placeRoot hf) (h.linked.placeRoot hsrc hf) happ).mono
      (fun _ _ h' => h'.andThen fun _ _ h'' => Ensures.pure h'') fun _ _ h' => h')

/-- Taking the root out of a tree keeps the state synced; a refused edit changes nothing. -/
theorem clearRoot_synced (h : Synced s) (t : TreeId) :
    Ensures (clearRoot t) s (fun _ => Synced) fun _ s' => s' = s := by
  unfold clearRoot
  refine Ensures.bind (Ensures.get (Ensures.bind (Ensures.ofExcept (fun p hp => ?_)
    fun _ _ => rfl)))
  obtain ⟨r, f⟩ := p
  obtain ⟨hre, happ⟩ := Source.Forest.takeRoot_reshapes hp
  exact Ensures.bind ((h.edit hre (Source.Forest.keepsModels_takeRoot hp)
    (Source.Forest.keepsTables_takeRoot hp) (h.linked.takeRoot hp) fun _ => happ).mono
      (fun _ _ h' => h'.andThen fun _ _ h'' => Ensures.pure h'') fun _ _ h' => h')

/-- Inserting a loose node as a child keeps the state synced; a refused edit changes nothing. -/
theorem addSourceChild_synced (h : Synced s) {src : SourceId}
    (hsrc : Source.Forest.Loose s.forest src) (t : TreeId) (parent : List Nat) (index : Nat) :
    Ensures (addSourceChild t parent index src) s (fun _ => Synced) fun _ s' => s' = s := by
  unfold addSourceChild
  refine Ensures.bind (Ensures.get (Ensures.bind (Ensures.ofExcept (fun f hf => ?_)
    fun _ _ => rfl)))
  obtain ⟨hre, happ⟩ := Source.Forest.insertChild_reshapes h.linked hsrc hf
  exact Ensures.bind ((h.edit hre (Source.Forest.keepsModels_insertChild hf)
    (Source.Forest.keepsTables_insertChild hf) (h.linked.insertChild hsrc hf) fun _ => happ).mono
      (fun _ _ h' => h'.andThen fun _ _ h'' => Ensures.pure h'') fun _ _ h' => h')

/-- Taking a child out of a tree keeps the state synced; a refused edit changes nothing. -/
theorem removeSourceChild_synced (h : Synced s) (t : TreeId) (address : List Nat) :
    Ensures (removeSourceChild t address) s (fun _ => Synced) fun _ s' => s' = s := by
  unfold removeSourceChild
  refine Ensures.bind (Ensures.get (Ensures.bind (Ensures.ofExcept (fun p hp => ?_)
    fun _ _ => rfl)))
  obtain ⟨c, f⟩ := p
  obtain ⟨hre, happ⟩ := Source.Forest.detachChild_reshapes h.linked hp
  exact Ensures.bind ((h.edit hre (Source.Forest.keepsModels_detachChild hp)
    (Source.Forest.keepsTables_detachChild hp) (h.linked.detachChild hp) fun _ => happ).mono
      (fun _ _ h' => h'.andThen fun _ _ h'' => Ensures.pure h'') fun _ _ h' => h')

/-- Replacing a payload keeps the state synced; a refused edit changes nothing. -/
theorem setPayload_synced (h : Synced s) (t : TreeId) (address : List Nat)
    (payload : Toml.Table) :
    Ensures (setPayload t address payload) s (fun _ => Synced) fun _ s' => s' = s := by
  unfold setPayload
  refine Ensures.bind (Ensures.get (Ensures.bind (Ensures.ofExcept (fun f hf => ?_)
    fun _ _ => rfl)))
  obtain ⟨hre, happ⟩ := Source.Forest.replacePayload_reshapes hf
  exact Ensures.bind (h.edit hre (Source.Forest.keepsModels_replacePayload hf)
    (Source.Forest.keepsTables_replacePayload hf) (h.linked.replacePayload hf) fun _ => happ)

end Mutations

end Inlay.Sync
