import Inlay.Proofs.Track

namespace Inlay

section Lists

variable {α : Type}

/-- Inserting before the last element keeps it last. -/
theorem getLast?_insertIdx_of_lt {l : List α} {x : α} {i : Nat} (hi : i < l.length) :
    (l.insertIdx i x).getLast? = l.getLast? := by
  rw [List.getLast?_eq_getElem?, List.getLast?_eq_getElem?,
    List.length_insertIdx_of_le_length (Nat.le_of_lt hi), Nat.add_sub_cancel,
    List.getElem?_insertIdx_of_gt hi]

/-- Erasing before the last element keeps it last. -/
theorem getLast?_eraseIdx_of_lt {l : List α} {i : Nat} (hi : i + 1 < l.length) :
    (l.eraseIdx i).getLast? = l.getLast? := by
  rw [List.getLast?_eq_getElem?, List.getLast?_eq_getElem?, List.length_eraseIdx_of_lt (by omega),
    List.getElem?_eraseIdx_of_ge (by omega)]
  congr 1
  omega

/-- The element at an index of a list without repeats is not left after erasing that index. -/
theorem getD_not_mem_eraseIdx {l : List α} {i : Nat} {d : α} (hl : l.Nodup) (hi : i < l.length) :
    l.getD i d ∉ l.eraseIdx i := by
  intro h
  obtain ⟨j, hj, hjc⟩ := List.mem_eraseIdx_iff_getElem?.1 h
  rw [List.getD_eq_getElem?_getD, List.getElem?_eq_getElem hi, Option.getD_some,
    ← List.getElem?_eq_getElem hi] at hjc
  exact hj ((List.getElem?_inj hi hl).1 hjc.symm).symm

end Lists

theorem Placement.forChildren_ok {p pl : Placement} (h : p.forChildren = .ok pl) :
    p.isFrozen = false ∧ pl = p.inherited := by
  cases p <;> simp only [forChildren, Except.ok.injEq, reduceCtorEq] at h <;> subst h <;>
    exact ⟨rfl, rfl⟩

/-- Emptying the slot of a model node with its inlined root last drops that root. -/
theorem Inlaid.Node.detach_eq {m : Inlaid.Node} {r : InlaidId}
    (hm : m.inlining.bind (·.hidden) = some r) (hl : m.children.getLast? = some r) :
    m.detach = { m with inlining := m.inlining.map fun i => { i with hidden := none },
                        children := m.children.dropLast } := by
  unfold Inlaid.Node.detach
  cases hi : m.inlining with
  | none => rw [hi] at hm; cases hm
  | some i =>
    rw [hi] at hm
    simp only [Option.bind_some] at hm
    simp only [hm, hl, if_true, Option.map_some]

namespace Sync

namespace State

variable {s : State} {p : InlaidId}

/-- With an inlined root, every child but the last stands for a source child. -/
theorem literalCount_of_hidden {h : InlaidId} (hh : s.hiddenOf p = some h) :
    s.literalCount p = (s.node p).children.length - 1 := by
  simp only [hiddenOf] at hh
  simp only [literalCount]
  cases hi : (s.node p).inlining with
  | none => rw [hi] at hh; cases hh
  | some i =>
    rw [hi] at hh
    simp only [Option.bind_some] at hh
    simp [hh]

theorem literalCount_le (s : State) (p : InlaidId) :
    s.literalCount p ≤ (s.node p).children.length :=
  Nat.sub_le _ _

theorem getD_mem_children {i : Nat} (hi : i < s.literalCount p) :
    (s.node p).children.getD i default ∈ (s.node p).children := by
  have hlt := Nat.lt_of_lt_of_le hi (literalCount_le s p)
  simp only [List.getD_eq_getElem?_getD, List.getElem?_eq_getElem hlt, Option.getD_some]
  exact List.getElem_mem hlt

theorem mountRoot_tracker {feed : Feed} (hm : feed.mount = .tracker) :
    s.mountRoot feed = s.tracker.root := by
  simp [mountRoot, hm]

theorem mountRoot_owner {feed : Feed} {o : InlaidId} (hm : feed.mount = .owner o) :
    s.mountRoot feed = s.hiddenOf o := by
  simp [mountRoot, hm, hiddenOf]

theorem buildFuel_succ (s : State) : ∃ k, s.buildFuel = k + 1 :=
  ⟨_, (Nat.succ_pred_eq_of_pos (by unfold buildFuel; exact Nat.mul_pos (by omega) (by omega))).symm⟩

end State

variable {s s' s₁ s₂ : State}

/-- Navigating reads the tree: it changes nothing, and reaches a node below the start. -/
theorem navigate_spec (id : InlaidId) (address : List Nat) (s : State) :
    Ensures (navigate id address) s (fun r s' => s' = s ∧ Below s id r.1) fun _ s' => s' = s := by
  unfold navigate
  split
  · exact Ensures.throw rfl
  · apply Ensures.bind
    refine (Ensures.forIn_yield (I := fun cur s' => s' = s ∧ Below s id cur)
      (fun i cur s' ⟨hs', hb⟩ => ?_) _ id s ⟨rfl, .refl⟩).mono (fun _ _ h => Ensures.pure h)
      fun _ _ h => h
    subst hs'
    refine Ensures.bind (Ensures.get ?_)
    dsimp only
    split
    · exact Ensures.bind (Ensures.throw rfl)
    · exact Ensures.pure ⟨_, rfl, rfl, .child hb (State.getD_mem_children (by omega))⟩

/-- The literal child of an index, read from the tree as it is. -/
theorem literalChild_spec (p : InlaidId) (index : Nat) (s : State) :
    Ensures (literalChild p index) s
      (fun c s' => s' = s ∧ index < s.literalCount p ∧ c = (s.node p).children.getD index default)
      fun _ s' => s' = s := by
  unfold literalChild
  refine Ensures.bind (Ensures.get ?_)
  dsimp only
  split
  · exact Ensures.bind (Ensures.throw rfl)
  · exact Ensures.pure ⟨rfl, by omega, rfl⟩

theorem Safe.then_pure {α β : Type} {x : Run α} (h : Safe x s) (b : β) :
    Safe (x >>= fun _ => Pure.pure b) s :=
  Within.seq h fun _ _ h => Within.pure (Holds.refl h.wellformed) _

section Grafting

/-- Listing a freshly built subtree among the literal children of a node keeps the invariant: the
node keeps its place, its feed and its inlined root, last, and the new child is placed as the node
hands down. -/
theorem Holds.of_inserted (hw : Wellformed s) {p x : InlaidId} {pl : Placement} {index : Nat}
    (hp : p.val < s.nodes.size) (hpl : (s.node p).placement.forChildren = .ok pl)
    (hi : index ≤ s.literalCount p) (hc : Created s s₁ x pl (some p)) (hst : Steady s₁ s₂)
    (hn : s₂.nodes = s₁.nodes.modify p.val
      fun m => { m with children := m.children.insertIdx index x })
    (hf : s₂.feeds = s₁.feeds) : Holds s s₂ := by
  have hnode := State.node_of_modify hn
  have hp₁ : s₁.node p = s.node p := hc.grows.node_kept hp
  have hp_lt₁ : p.val < s₁.nodes.size := Nat.lt_of_lt_of_le hp hc.grows.nodes_le
  have hpx : p.val < x.val := by rw [hc.fresh]; exact hp
  have hp₂ : s₂.node p = { s.node p with children := (s.node p).children.insertIdx index x } := by
    rw [hnode, if_pos ⟨rfl, hp_lt₁⟩, hp₁]
  have hother : ∀ y, y ≠ p → s₂.node y = s₁.node y := fun y hy => by
    rw [hnode, if_neg fun h => hy h.1.symm]
  have hlen : index ≤ (s.node p).children.length := Nat.le_trans hi (State.literalCount_le s p)
  have hmem : ∀ c, c ∈ (s₂.node p).children ↔ c = x ∨ c ∈ (s.node p).children := fun c => by
    rw [hp₂]; exact List.mem_insertIdx hlen
  have hx_new : ∀ c ∈ (s.node p).children, c ≠ x := fun c h e => by
    have := (hw.arena.child_bound p c h).2
    rw [e, hc.fresh] at this
    exact Nat.lt_irrefl _ this
  have hhid : s₂.hiddenOf p = s.hiddenOf p := by simp [State.hiddenOf, hp₂]
  have hfeedOf : ∀ y, s₂.feedOf y = s₁.feedOf y := fun y => by
    by_cases hyp : y = p
    · subst hyp; simp [State.feedOf, hp₂, hp₁]
    · simp only [State.feedOf, hother y hyp]
  have hlast : ∀ h, s.hiddenOf p = some h → (s₂.node p).children.getLast? = some h := fun h hh => by
    have hl := hw.arena.hidden_last p h hh
    have hpos : 0 < (s.node p).children.length := by
      cases hcs : (s.node p).children with
      | nil => rw [hcs] at hl; cases hl
      | cons _ _ => simp
    rw [State.literalCount_of_hidden hh] at hi
    rw [hp₂]
    show ((s.node p).children.insertIdx index x).getLast? = some h
    rw [getLast?_insertIdx_of_lt (by omega), hl]
  have ha₂ : Arena s₂ := by
    refine hc.arena.modify rfl rfl (fun h => h) (fun c hc' => ?_) ?_ (fun h hh => ?_) hn
      hst.forest_nodes hf
    · have hc'' : c ∈ (s₁.node p).children.insertIdx index x := hc'
      rw [hp₁, List.mem_insertIdx hlen] at hc''
      rcases hc'' with rfl | hold
      · exact .inr ⟨hpx, hc.lt, hc.parent⟩
      · rw [hp₁]; exact .inl hold
    · show ((s₁.node p).children.insertIdx index x).Nodup
      rw [hp₁]
      exact (List.perm_insertIdx x _ hlen).nodup_iff.2
        (List.nodup_cons.2 ⟨fun h => hx_new x h rfl, hw.arena.nodup p⟩)
    · have hh' : s.hiddenOf p = some h := by simpa [State.hiddenOf, hp₁] using hh
      have := hlast h hh'
      rw [hp₂] at this
      show ((s₁.node p).children.insertIdx index x).getLast? = some h
      rw [hp₁]
      exact this
  have hsound : Live s p → Sound s₂ p := fun hlive => by
    have hs := hw.sound p hlive
    have hcp : ∀ c, s₂.childPlacement p c = s.childPlacement p c := fun c => by
      simp only [State.childPlacement, hhid, hp₂]
    refine ⟨by rw [hp₂]; exact hs.not_frozen, fun c hc' => ?_, fun h hh => ?_⟩
    · rw [hcp]
      rcases (hmem c).1 hc' with rfl | hold
      · have hxp : c ≠ p := fun e => Nat.lt_irrefl _ (e ▸ hpx)
        rw [hother c hxp, hc.placed, State.childPlacement, if_neg fun e => ?_,
          (Placement.forChildren_ok hpl).2]
        have := (hw.arena.child_bound p c (List.mem_of_getLast? (hw.arena.hidden_last p c e))).2
        rw [hc.fresh] at this
        exact Nat.lt_irrefl _ this
      · have hcp' : c ≠ p := fun e => Nat.lt_irrefl _ (e ▸ (hw.arena.child_bound p c hold).1)
        rw [hother c hcp', hc.grows.node_kept (hw.arena.child_bound p c hold).2]
        exact hs.placed c hold
    · rw [hhid] at hh
      rw [hfeedOf, State.feedOf, hp₁]
      exact ⟨(hs.hidden_last h hh).1, hlast h hh⟩
  refine ⟨hw.graft ha₂ (Nat.le_trans hc.grows.nodes_le (Nat.le_of_eq (by rw [hn, Array.size_modify])))
    (by rw [hst.tracker, hc.grows.steady.tracker]) (by rw [hst.tracker, hc.grows.steady.tracker])
    (fun y hy hyp => by rw [hother y hyp, hc.grows.node_kept hy]) (by rw [hp₂]) (by rw [hp₂])
    (by rw [hfeedOf, State.feedOf, hp₁]; rfl) (fun c h => ((hmem c).1 h).symm) hsound
    (Nat.le_of_eq hc.fresh.symm) (hc.built.congr fun y hy => hother y fun e =>
      Nat.lt_irrefl _ (Nat.lt_of_lt_of_le hpx (e ▸ hy.le hc.arena))) fun g o hact hm => ?_,
    (Keeps.of_extends hc.grows (by intros; contradiction)).trans (.of_placement (Nat.le_of_eq (by rw [hn, Array.size_modify]))
      fun y => by
        by_cases hyp : y = p
        · subst hyp; rw [hp₂, hp₁]
        · rw [hother y hyp])⟩
  have hfeed₂ : s₂.feed g = s₁.feed g := by simp [State.feed, hf]
  rw [hfeed₂] at hact hm
  by_cases hg : g.val < s.feeds.size
  · rw [hc.grows.feed_kept hg] at hact hm
    exact .inl ⟨hact, hm⟩
  · rw [hfeedOf]
    exact .inr (hc.owned g o (Nat.le_of_not_lt hg) hact hm)

theorem addChild_safe (hw : Wellformed s) {p : InlaidId} (hp : p.val < s.nodes.size) (index : Nat)
    (src : SourceId) : Safe (addChild p index src) s := by
  unfold addChild
  refine Within.get ?_
  dsimp only
  split
  · exact Ensures.bind (Ensures.throw (Holds.refl hw))
  · refine Ensures.bind (Ensures.ofExcept (fun pl hpl => ?_) fun _ _ => Holds.refl hw)
    have hnf : pl.isFrozen = false := by
      rw [(Placement.forChildren_ok hpl).2]
      exact Placement.isFrozen_inherited (Placement.forChildren_ok hpl).1
    refine Ensures.andThen ((nodeOf_spec (some p) src hw.arena hnf fun _ e => by
      cases e; exact hp).mono (fun _ _ h => h) fun _ _ h => Holds.of_kept hw h) fun x s₁ hc => ?_
    refine Ensures.andThen (modifyNode_spec (E := fun _ s' => Holds s s') p _ s₁)
      fun _ s₂ ⟨hst, hn, hf⟩ => ?_
    have h₂ := Holds.of_inserted hw hp hpl (by omega) hc hst hn hf
    exact ((notify_safe h₂.wellformed _ _).then_pure _).imp fun _ h => h₂.trans h

end Grafting

section Pruning

theorem Trims.feed_of_active {c : InlaidId} (ht : Trims s s₁ c) {f : SubscriberId}
    (hact : (s₁.feed f).active = true) : s₁.feed f = s.feed f := by
  rcases ht.feed f with e | ⟨_, _, _, e⟩
  · exact e
  · rw [e] at hact
    cases hact

theorem Trims.feed_mount {c : InlaidId} (ht : Trims s s₁ c) (f : SubscriberId) :
    (s₁.feed f).mount = (s.feed f).mount := by
  rcases ht.feed f with e | ⟨_, _, _, e⟩ <;> rw [e]
  rfl

/-- Removing a node only trims below it, and fails only off the live tree, which stands. -/
theorem remove_trims_live (hw : Wellformed s) (c : InlaidId) :
    Ensures (remove c) s (fun _ s' => Trims s s' c) fun _ s' => Trims s s' c ∧ ¬ Live s c := by
  by_cases hl : Live s c
  · obtain ⟨hp, r, hr, hb⟩ := hl
    exact ((remove_spec (hw.standing hp hr) hw.arena hb).and (remove_trims c s)).mono
      (fun _ _ h => h.2) fun _ _ h => h.1.elim
  · exact (remove_trims c s).mono (fun _ _ h => h) fun _ _ h => ⟨h, hl⟩

/-- Trimming below a child off the live tree changes nothing live. -/
theorem Holds.of_trims_dead (hw : Wellformed s) {p c : InlaidId} (hc : c ∈ (s.node p).children)
    (ht : Trims s s₁ c) (hdead : ¬ Live s c) : Holds s s₁ := by
  have hsame : ∀ y, ¬ Below s c y → s₁.node y = s.node y := fun y hy =>
    (ht.node y).resolve_right fun h => hy h.1
  refine ⟨hw.frame (ht.arena hw.arena) (Nat.le_of_eq ht.nodes_size.symm)
    (by rw [ht.steady.tracker]) (by rw [ht.steady.tracker])
    (fun r hr => by rw [hsame r (hw.root_not_below hc hr)]; exact ⟨rfl, rfl⟩)
    (fun x hx => hsame x fun hb => hdead (hx.of_below hw hb)) fun f o hact hm _ => .inl ?_,
    .of_trims ht⟩
  rw [← ht.feed_of_active hact]
  exact ⟨hact, hm⟩

/-- Cutting a trimmed child `c` off its parent `p` keeps the invariant, when the new `p` keeps
its source, parent, place and feed, lists some of its old children but not `c`, and keeps its
inlined root unless that was `c`, last. -/
theorem Holds.of_pruned (hw : Wellformed s) {p c : InlaidId} {g : Inlaid.Node → Inlaid.Node}
    (hc : c ∈ (s.node p).children) (ht : Trims s s₁ c) (hst : Steady s₁ s₂)
    (hn : s₂.nodes = s₁.nodes.modify p.val g) (hf : s₂.feeds = s₁.feeds)
    (hsrc : (g (s.node p)).source = (s.node p).source)
    (hpar : (g (s.node p)).parent = (s.node p).parent)
    (hplace : (g (s.node p)).placement = (s.node p).placement)
    (hplain : (s.node p).inlining = none → (g (s.node p)).inlining = none)
    (hfeed : (g (s.node p)).inlining.bind (·.feed) = s.feedOf p)
    (hsub : (g (s.node p)).children.Sublist (s.node p).children)
    (hgone : c ∉ (g (s.node p)).children)
    (hhid : ∀ d, d ≠ c →
      ((g (s.node p)).inlining.bind (·.hidden) = some d ↔ s.hiddenOf p = some d))
    (hlast : ∀ h, (g (s.node p)).inlining.bind (·.hidden) = some h →
      (g (s.node p)).children.getLast? = some h) :
    Holds s s₂ := by
  have hnode := State.node_of_modify hn
  have hp₁ : s₁.node p = s.node p :=
    (ht.node p).resolve_right fun h => Below.not_of_child hw.arena hc h.1
  have hp_lt : p.val < s₁.nodes.size := by
    rw [ht.nodes_size]
    exact Nat.lt_trans (hw.arena.child_bound p c hc).1 (hw.arena.child_bound p c hc).2
  have hp₂ : s₂.node p = g (s.node p) := by rw [hnode, if_pos ⟨rfl, hp_lt⟩, hp₁]
  have hsame : ∀ y, ¬ Below s c y → y ≠ p → s₂.node y = s.node y := fun y hy hyp => by
    rw [hnode, if_neg fun h => hyp h.1.symm]
    exact (ht.node y).resolve_right fun h => hy h.1
  have hsize : s₂.nodes.size = s₁.nodes.size := by rw [hn, Array.size_modify]
  have hfeed₂ : ∀ f, (s₂.feed f).active = true → s₂.feed f = s.feed f := fun f hact => by
    have e : s₂.feed f = s₁.feed f := by simp [State.feed, hf]
    rw [e] at hact ⊢
    exact ht.feed_of_active hact
  have hkids : ∀ d ∈ (s₂.node p).children, d ∈ (s.node p).children ∧ d ≠ c := fun d hd => by
    rw [hp₂] at hd
    exact ⟨hsub.subset hd, fun e => hgone (e ▸ hd)⟩
  have ha₂ : Arena s₂ := by
    refine (ht.arena hw.arena).modify (by rw [hp₁]; exact hsrc) (by rw [hp₁]; exact hpar)
      (fun h => by rw [hp₁] at h ⊢; exact hplain h) (fun d hd => ?_)
      (by rw [hp₁]; exact (hw.arena.nodup p).sublist hsub)
      (fun h hh => by rw [hp₁] at hh ⊢; exact hlast h hh) hn hst.forest_nodes hf
    rw [hp₁] at hd ⊢
    exact .inl (hsub.subset hd)
  have hsound : Live s p → Sound s₂ p := fun hlive => by
    have hs := hw.sound p hlive
    refine ⟨by rw [hp₂, hplace]; exact hs.not_frozen, fun d hd => ?_, fun h hh => ?_⟩
    · obtain ⟨hd₁, hdc⟩ := hkids d hd
      have hdp : d ≠ p := by
        intro e; subst e; exact Below.not_of_child hw.arena hd₁ .refl
      have hcd : ¬ Below s c d := fun hb => Below.disjoint hw.arena hc hd₁ (Ne.symm hdc) hb .refl
      have hh₂ : s₂.hiddenOf p = some d ↔ s.hiddenOf p = some d := by
        show (s₂.node p).inlining.bind (·.hidden) = some d ↔ _
        rw [hp₂]
        exact hhid d hdc
      rw [hsame d hcd hdp, hs.placed d hd₁]
      unfold State.childPlacement
      rw [hp₂, hplace]
      simp only [hh₂]
    · have hh' : (g (s.node p)).inlining.bind (·.hidden) = some h := by rw [← hp₂]; exact hh
      have hl := hlast h hh'
      have hold := (hhid h fun e => hgone (e ▸ List.mem_of_getLast? hl)).1 hh'
      refine ⟨?_, by rw [hp₂]; exact hl⟩
      show ((s₂.node p).inlining.bind (·.feed)).isSome
      rw [hp₂, hfeed]
      exact (hs.hidden_last h hold).1
  refine ⟨hw.prune ha₂ hc (Nat.le_of_eq (by rw [hsize, ht.nodes_size]))
    (by rw [hst.tracker, ht.steady.tracker]) (by rw [hst.tracker, ht.steady.tracker]) hsame
    (by rw [hp₂, hplace]) (by rw [hp₂, hpar])
    (by show (s₂.node p).inlining.bind (·.feed) = _; rw [hp₂, hfeed]) hkids hsound
    fun f o hact hm _ _ => ?_,
    (Keeps.of_trims ht).trans (.of_placement (Nat.le_of_eq hsize.symm) fun y => ?_)⟩
  · have e := hfeed₂ f hact
    rw [e] at hact hm
    exact ⟨hact, hm⟩
  · by_cases hyp : y = p
    · subst hyp; rw [hp₂, hplace, hp₁]
    · rw [hnode, if_neg fun h => hyp h.1.symm]

/-- Taking a literal child, trimmed, out of its parent's list keeps the invariant. -/
theorem Holds.of_erased (hw : Wellformed s) {p : InlaidId} {index : Nat}
    (hi : index < s.literalCount p) (ht : Trims s s₁ ((s.node p).children.getD index default))
    (hst : Steady s₁ s₂)
    (hn : s₂.nodes = s₁.nodes.modify p.val
      fun m => { m with children := m.children.eraseIdx index })
    (hf : s₂.feeds = s₁.feeds) : Holds s s₂ := by
  have hlen : index < (s.node p).children.length :=
    Nat.lt_of_lt_of_le hi (State.literalCount_le s p)
  refine Holds.of_pruned hw (State.getD_mem_children hi) ht hst hn hf rfl rfl rfl (fun h => h) rfl
    (List.eraseIdx_sublist _ _) (getD_not_mem_eraseIdx (hw.arena.nodup p) hlen)
    (fun _ _ => Iff.rfl) fun h hh => ?_
  have hh' : s.hiddenOf p = some h := hh
  rw [State.literalCount_of_hidden hh'] at hi
  show ((s.node p).children.eraseIdx index).getLast? = some h
  rw [getLast?_eraseIdx_of_lt (by omega)]
  exact hw.arena.hidden_last p h hh'

theorem removeChild_safe (hw : Wellformed s) (p : InlaidId) (index : Nat) :
    Safe (removeChild p index) s := by
  unfold removeChild
  refine Within.after_read (Holds.refl hw) (literalChild_spec p index s) fun c ⟨hi, hc⟩ => ?_
  subst c
  refine Ensures.andThen ((remove_trims_live hw _).mono (fun _ _ h => h)
    fun _ _ h => Holds.of_trims_dead hw (State.getD_mem_children hi) h.1 h.2) fun _ s₁ ht => ?_
  refine Ensures.andThen (modifyNode_spec (E := fun _ s' => Holds s s') p _ s₁)
    fun _ s₂ ⟨hst, hn, hf⟩ => ?_
  have h₂ := Holds.of_erased hw hi ht hst hn hf
  exact ((notify_safe h₂.wellformed _ _).then_pure _).imp fun _ h => h₂.trans h

theorem childChanged_safe (hw : Wellformed s) (p : InlaidId) (index : Nat) :
    Safe (childChanged p index) s := by
  unfold childChanged
  exact Within.after_read (Holds.refl hw) (literalChild_spec p index s) fun _ _ =>
    (notify_safe hw _ _).then_pure _

end Pruning

section Addressed

theorem addChildAt_safe (hw : Wellformed s) {id : InlaidId} (hid : id.val < s.nodes.size)
    (address : List Nat) (src : SourceId) : Safe (addChildAt id address src) s := by
  unfold addChildAt
  exact Within.after_read (Holds.refl hw) (navigate_spec id address s) fun ⟨_, index⟩ hb =>
    addChild_safe hw (Below.lt_size hw.arena hid hb) index src

theorem removeChildAt_safe (hw : Wellformed s) (id : InlaidId) (address : List Nat) :
    Safe (removeChildAt id address) s := by
  unfold removeChildAt
  exact Within.after_read (Holds.refl hw) (navigate_spec id address s) fun ⟨p, index⟩ _ =>
    removeChild_safe hw p index

theorem childChangedAt_safe (hw : Wellformed s) (id : InlaidId) (address : List Nat) :
    Safe (childChangedAt id address) s := by
  unfold childChangedAt
  exact Within.after_read (Holds.refl hw) (navigate_spec id address s) fun ⟨p, index⟩ _ =>
    childChanged_safe hw p index

end Addressed

section Mounts

variable {f : SubscriberId} {E : Fault → State → Prop}

theorem State.mountRoot_lt (hw : Wellformed s) {feed : Feed} {r : InlaidId}
    (hr : s.mountRoot feed = some r) : r.val < s.nodes.size := by
  cases hm : feed.mount with
  | tracker => rw [State.mountRoot_tracker hm] at hr; exact hw.root_lt r hr
  | owner o =>
    rw [State.mountRoot_owner hm] at hr
    exact (hw.arena.child_bound o r (List.mem_of_getLast? (hw.arena.hidden_last o r hr))).2

theorem Extends.of_same {o : InlaidId} {f : Option SubscriberId} (h : Extends s s' (some o) f)
    (ho : s'.node o = s.node o) : Extends s s' none f :=
  ⟨h.steady, h.nodes_le, h.feeds_le, fun y hy _ => by
    by_cases hyo : o = y
    · subst hyo; exact ho
    · exact h.node y hy fun e => hyo (Option.some.inj e), h.feed, h.held⟩

/-- Attaching a freshly built inlined root to the empty slot of the model node a running feed
fills keeps the invariant. -/
theorem Holds.of_attached (hw : Wellformed s) {f : SubscriberId} {o h : InlaidId}
    (hm : (s.feed f).mount = .owner o) (hact : (s.feed f).active = true)
    (hh : s.hiddenOf o = none) (hext : Extends s s' (some o) none) (ha : Arena s')
    (hown : FeedsOwned s' s.feeds.size) (hat : Attached s s' o h) : Holds s s' := by
  have hother : ∀ y, y.val < s.nodes.size → y ≠ o → s'.node y = s.node y := fun y hy hyo =>
    hext.node y hy fun e => hyo (Option.some.inj e).symm
  have hfeedOf : s'.feedOf o = s.feedOf o := by
    simp only [State.feedOf, hat.node]
    exact Inlaid.Node.feed_attach _ _
  have hkids : ∀ c ∈ (s'.node o).children, c ∈ (s.node o).children ∨ c = h := fun c hc => by
    rwa [hat.node, Inlaid.Node.children_attach, List.mem_append, List.mem_singleton] at hc
  have hsound : Live s o → Sound s' o := fun hlive => by
    have hs := hw.sound o hlive
    have hfo := hw.feed_owner f o hact hm hlive
    have hh' : s'.hiddenOf o = some h := by
      cases hin : (s.node o).inlining with
      | none => simp [State.feedOf, hin] at hfo
      | some i =>
        simp only [State.hiddenOf, hat.node]
        rw [Inlaid.Node.hidden_attach, hin]
        rfl
    refine ⟨by rw [hat.node]; exact hs.not_frozen, fun c hc => ?_, fun h' hh'' => ?_⟩
    · rcases hkids c hc with hc | rfl
      · have hc_lt := (hw.arena.child_bound o c hc)
        have hco : c ≠ o := fun e => Nat.lt_irrefl o.val (e ▸ hc_lt.1)
        have hhc : some h ≠ some c := fun e => by
          cases e
          exact Nat.lt_irrefl _ (Nat.lt_of_lt_of_le hc_lt.2 hat.fresh)
        rw [hother c hc_lt.2 hco, hs.placed c hc]
        simp only [State.childPlacement, hh, hh', hat.node, Inlaid.Node.placement_attach, hhc,
          reduceCtorEq, if_false]
      · rw [hat.placed]
        simp [State.childPlacement, hh']
    · rw [hh'] at hh''
      cases hh''
      refine ⟨by rw [hfeedOf, hfo]; rfl, ?_⟩
      rw [hat.node, Inlaid.Node.children_attach, List.getLast?_concat]
  refine ⟨hw.graft ha hext.nodes_le (by rw [hext.steady.tracker]) (by rw [hext.steady.tracker])
    hother (by rw [hat.node]; rfl) (by rw [hat.node]; rfl) hfeedOf hkids hsound hat.fresh hat.built
    fun g o' hact' hm' => ?_, Keeps.of_extends hext fun y hy => by cases hy; rw [hat.node]; rfl⟩
  by_cases hg : g.val < s.feeds.size
  · rw [hext.feed_kept hg] at hact' hm'
    exact .inl ⟨hact', hm'⟩
  · exact .inr (hown g o' (Nat.le_of_not_lt hg) hact' hm')

/-- Emptying the slot of a model node, once its inlined root is trimmed, keeps the invariant. -/
theorem Holds.of_detached (hw : Wellformed s) {o r : InlaidId} (hh : s.hiddenOf o = some r)
    (ht : Trims s s₁ r) (hst : Steady s₁ s₂)
    (hn : s₂.nodes = s₁.nodes.modify o.val Inlaid.Node.detach) (hf : s₂.feeds = s₁.feeds) :
    Holds s s₂ := by
  have hl := hw.arena.hidden_last o r hh
  obtain ⟨ys, hys⟩ := List.getLast?_eq_some_iff.1 hl
  have hdet := Inlaid.Node.detach_eq hh hl
  have hnodup : (ys ++ [r]).Nodup := hys ▸ hw.arena.nodup o
  have hnone : ((s.node o).detach).inlining.bind (·.hidden) = none := by
    rw [hdet]; cases (s.node o).inlining <;> rfl
  refine Holds.of_pruned hw (List.mem_of_getLast? hl) ht hst hn hf (by rw [hdet]) (by rw [hdet])
    (by rw [hdet]) (fun hi => by simp [State.hiddenOf, hi] at hh)
    (by rw [hdet]; simp only [State.feedOf]; cases (s.node o).inlining <;> rfl)
    (by rw [hdet]; exact List.dropLast_sublist _)
    (by
      rw [hdet, hys, List.dropLast_concat]
      exact fun hr => (List.nodup_append.1 hnodup).2.2 r hr r (List.mem_singleton_self r) rfl)
    (fun d hd => by rw [hnone, hh]; exact ⟨(by intros; contradiction), fun e => absurd (Option.some.inj e).symm hd⟩)
    fun _ h' => by rw [hnone] at h'; cases h'

/-- Filling a mount runs the fill with the fuel the state allows. -/
theorem fillMount_of_fill {src : Option SourceId} {Q : Option InlaidId → State → Prop}
    (h : Ensures (fill s.buildFuel f src) s Q E) : Ensures (fillMount f src) s Q E :=
  Ensures.bind (Ensures.get h)

/-- Emptying the tracker's slot clears the root. -/
theorem fillMount_none_tracker (hm : (s.feed f).mount = .tracker) :
    Ensures (fillMount f none) s
      (fun r s' => r = none ∧ s' = { s with tracker := { s.tracker with root := none } }) E := by
  unfold fillMount
  refine Ensures.bind (Ensures.get ?_)
  obtain ⟨k, hk⟩ := State.buildFuel_succ s
  rw [hk, fill]
  refine Ensures.bind (Ensures.get ?_)
  dsimp only
  rw [hm]
  exact Ensures.bind (Ensures.pure (Ensures.bind (Ensures.modify (Ensures.pure ⟨rfl, rfl⟩))))

/-- Emptying the slot of a model node detaches its inlined root. -/
theorem fillMount_none_owner {o : InlaidId} (hm : (s.feed f).mount = .owner o) :
    Ensures (fillMount f none) s (fun r s' => r = none ∧ Steady s s' ∧
      s'.nodes = s.nodes.modify o.val Inlaid.Node.detach ∧ s'.feeds = s.feeds) E := by
  unfold fillMount
  refine Ensures.bind (Ensures.get ?_)
  obtain ⟨k, hk⟩ := State.buildFuel_succ s
  rw [hk, fill]
  refine Ensures.bind (Ensures.get ?_)
  dsimp only
  rw [hm]
  exact Ensures.andThen (detachHidden_spec o s) fun _ _ h => Ensures.pure ⟨rfl, h⟩

/-- Filling an empty mount of a running feed keeps the invariant. -/
theorem fillMount_safe (hw : Wellformed s) (hact : (s.feed f).active = true)
    (hr : s.mountRoot (s.feed f) = none) (src : Option SourceId) : Safe (fillMount f src) s := by
  unfold fillMount
  refine Within.get ?_
  cases hm : (s.feed f).mount with
  | tracker => exact fill_tracker_safe hw hm _ src
  | owner o =>
    have hh : s.hiddenOf o = none := by rwa [State.mountRoot_owner hm] at hr
    refine ((build_spec _).2.2.2 f src o s hw.arena hm (hw.arena.mount_bound f o hm) hh).mono
      (fun r s' ⟨hext, ha, hown, _, hr'⟩ => ?_) fun _ _ h => Holds.of_kept hw h
    cases r with
    | none => exact Holds.of_kept hw ⟨hext.of_same hr'.1, ha, hown, Shut.of_size_le (Nat.le_of_eq hr'.2)⟩
    | some h => exact Holds.of_attached hw hm hact hh hext ha hown hr'

/-- Removing the root of a mount freezes it, then empties the slot. -/
theorem removeRoot_safe (hw : Wellformed s) {r : InlaidId} (hpresent : s.tracker.present = true)
    (hr : s.mountRoot (s.feed f) = some r) :
    Safe (do remove r; discard (fillMount f none); notify .removed r) s := by
  cases hm : (s.feed f).mount with
  | tracker =>
    rw [State.mountRoot_tracker hm] at hr
    have hlive : Live s r := ⟨hpresent, r, hr, .refl⟩
    refine Ensures.andThen ((remove_trims_live hw r).mono (fun _ _ h => h)
      fun _ _ h => absurd hlive h.2) fun _ s₁ ht => ?_
    have hm₁ : (s₁.feed f).mount = .tracker := by rw [ht.feed_mount, hm]
    refine Ensures.andThen
      (P := fun _ s₂ => s₂ = { s₁ with tracker := { s₁.tracker with root := none } })
      (Ensures.discard ((fillMount_none_tracker hm₁).mono (fun _ _ h => h.2) fun _ _ h => h))
      fun _ s₂ hs₂ => ?_
    subst hs₂
    have ha₁ := ht.arena hw.arena
    have h₂ : Holds s { s₁ with tracker := { s₁.tracker with root := none } } :=
      Holds.of_root_none (ha₁.of_eq (fun _ => rfl) rfl rfl fun g o h => ha₁.mount_bound g o h) rfl
        ((Keeps.of_trims ht).trans (.of_placement (Nat.le_refl _) fun _ => rfl))
    exact (notify_safe h₂.wellformed _ _).imp fun _ h => h₂.trans h
  | owner o =>
    rw [State.mountRoot_owner hm] at hr
    have hc : r ∈ (s.node o).children := List.mem_of_getLast? (hw.arena.hidden_last o r hr)
    refine Ensures.andThen ((remove_trims_live hw r).mono (fun _ _ h => h)
      fun _ _ h => Holds.of_trims_dead hw hc h.1 h.2) fun _ s₁ ht => ?_
    have hm₁ : (s₁.feed f).mount = .owner o := by rw [ht.feed_mount, hm]
    refine Ensures.andThen (P := fun _ s₂ => Steady s₁ s₂ ∧
        s₂.nodes = s₁.nodes.modify o.val Inlaid.Node.detach ∧ s₂.feeds = s₁.feeds)
      (Ensures.discard ((fillMount_none_owner hm₁).mono (fun _ _ h => h.2) fun _ _ h => h))
      fun _ s₂ ⟨hst, hn, hf⟩ => ?_
    have h₂ := Holds.of_detached hw hr ht hst hn hf
    exact (notify_safe h₂.wellformed _ _).imp fun _ h => h₂.trans h

end Mounts

section Events

/-- A feed following any event of its tree keeps the invariant. -/
theorem onEvent_safe (hw : Wellformed s) (f : SubscriberId) (e : Source.Event) :
    Safe (onEvent f e) s := by
  unfold onEvent
  refine Within.get ?_
  dsimp only
  split
  · exact Within.pure (Holds.refl hw) _
  rename_i hon
  have hact : (s.feed f).active = true := by revert hon; cases (s.feed f).active <;> simp
  have hpresent : s.tracker.present = true := by revert hon; cases s.tracker.present <;> simp
  split
  · split
    · exact Ensures.bind (Ensures.throw (Holds.refl hw))
    · rename_i hnone
      refine Within.seq (fillMount_safe hw hact (Option.not_isSome_iff_eq_none.1 hnone) _)
        fun r s' h => ?_
      split
      · exact notify_safe h.wellformed _ _
      · exact Within.pure (Holds.refl h.wellformed) _
  · split
    · rename_i r hr
      exact Within.discard (addChildAt_safe hw (State.mountRoot_lt hw hr) _ _)
    · exact Within.throw (Holds.refl hw) _
  · split
    · rename_i r hr
      split
      · exact removeRoot_safe hw hpresent hr
      · exact Within.discard (removeChildAt_safe hw _ _)
    · exact Within.throw (Holds.refl hw) _
  · split
    · split
      · exact notify_safe hw _ _
      · exact Within.discard (childChangedAt_safe hw _ _)
    · exact Within.throw (Holds.refl hw) _

theorem deliver_safe (hw : Wellformed s) (t : TreeId) (e : Source.Event) :
    Safe (deliver t e) s := by
  unfold deliver
  exact Within.get (Within.seq (Within.forIn (Holds.refl hw)
    (fun f _ h => onEvent_safe h.wellformed f e) _) fun _ _ h => Within.pure (Holds.refl h.wellformed) _)

theorem setForest_safe (hw : Wellformed s) {forest : Source.Forest}
    (hk : s.forest.KeepsModels forest) : Safe (setForest forest) s :=
  Ensures.modify (Holds.of_forest hw rfl rfl rfl rfl hk)

theorem setRoot_safe (hw : Wellformed s) (t : TreeId) (src : SourceId) : Safe (setRoot t src) s := by
  unfold setRoot
  refine Within.get (Ensures.bind (Ensures.ofExcept (fun forest h => ?_) fun _ _ => Holds.refl hw))
  exact Within.seq (setForest_safe hw (Source.Forest.keepsModels_placeRoot h)) fun _ _ h =>
    (deliver_safe h.wellformed t _).then_pure _

theorem clearRoot_safe (hw : Wellformed s) (t : TreeId) : Safe (clearRoot t) s := by
  unfold clearRoot
  refine Within.get (Ensures.bind (Ensures.ofExcept (fun ⟨_, forest⟩ h => ?_) fun _ _ => Holds.refl hw))
  exact Within.seq (setForest_safe hw (Source.Forest.keepsModels_takeRoot h)) fun _ _ h =>
    (deliver_safe h.wellformed t _).then_pure _

theorem addSourceChild_safe (hw : Wellformed s) (t : TreeId) (parent : List Nat) (index : Nat)
    (src : SourceId) : Safe (addSourceChild t parent index src) s := by
  unfold addSourceChild
  refine Within.get (Ensures.bind (Ensures.ofExcept (fun forest h => ?_) fun _ _ => Holds.refl hw))
  exact Within.seq (setForest_safe hw (Source.Forest.keepsModels_insertChild h)) fun _ _ h =>
    (deliver_safe h.wellformed t _).then_pure _

theorem removeSourceChild_safe (hw : Wellformed s) (t : TreeId) (address : List Nat) :
    Safe (removeSourceChild t address) s := by
  unfold removeSourceChild
  refine Within.get (Ensures.bind (Ensures.ofExcept (fun ⟨_, forest⟩ h => ?_) fun _ _ => Holds.refl hw))
  exact Within.seq (setForest_safe hw (Source.Forest.keepsModels_detachChild h)) fun _ _ h =>
    (deliver_safe h.wellformed t _).then_pure _

theorem setPayload_safe (hw : Wellformed s) (t : TreeId) (address : List Nat)
    (payload : Toml.Table) : Safe (setPayload t address payload) s := by
  unfold setPayload
  refine Within.get (Ensures.bind (Ensures.ofExcept (fun forest h => ?_) fun _ _ => Holds.refl hw))
  exact Within.seq (setForest_safe hw (Source.Forest.keepsModels_replacePayload h)) fun _ _ h =>
    deliver_safe h.wellformed t _

end Events

end Sync

end Inlay
