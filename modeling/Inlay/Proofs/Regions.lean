import Inlay.Proofs.Copying

namespace Inlay.Sync

variable {s s' : State} {r r' y z w c : InlaidId} {j k : SubscriberId} {f : Source.Forest}

section Literals

theorem State.literals_congr (h : s'.node y = s.node y) : s'.literals y = s.literals y := by
  simp only [State.literals, State.literalCount, h]

theorem State.length_literals (s : State) (y : InlaidId) :
    (s.literals y).length = s.literalCount y := by
  rw [State.literals, List.length_take]
  exact Nat.min_eq_left (State.literalCount_le s y)

theorem insertIdx_append_of_le {α : Type} {l l' : List α} {i : Nat} {a : α} (h : i ≤ l.length) :
    (l ++ l').insertIdx i a = l.insertIdx i a ++ l' := by
  induction l generalizing i with
  | nil =>
    obtain rfl := Nat.le_zero.1 h
    rfl
  | cons b l ih =>
    cases i with
    | zero => rfl
    | succ i =>
      simp only [List.cons_append, List.insertIdx_succ_cons]
      rw [ih (Nat.le_of_succ_le_succ h)]

/-- A node whose children are `l` followed by its inlined root has the literal children `l`. -/
theorem State.literals_eq_of_children {l : List InlaidId}
    (h : (s.node y).children = l ++ (s.hiddenOf y).toList) : s.literals y = l := by
  rw [State.literals, State.literalCount_eq, h]
  cases s.hiddenOf y <;> simp

/-- A literal child's parent is the node it is a literal child of. -/
theorem Arena.parent_of_literal (ha : Arena s) (h : c ∈ s.literals w) :
    (s.node c).parent = some w :=
  ha.child_parent w c (State.mem_children_of_literal h)

/-- The literal child at an index, as the child list holds it. -/
theorem State.getElem?_literals {i : Nat} (h : (s.literals y)[i]? = some c) :
    i < s.literalCount y ∧ (s.node y).children.getD i default = c := by
  rw [State.literals, List.getElem?_take] at h
  split at h
  · rename_i hi
    exact ⟨hi, by rw [List.getD_eq_getElem?_getD, h, Option.getD_some]⟩
  · cases h

theorem Lit.live (h : Lit s r y) (hr : Live s r) : Live s y :=
  hr.below h.toBelow

/-- A literal walk that ends at a node that is nobody's literal child is empty. -/
theorem Lit.eq_of_root (h : Lit s r y) (hy : ∀ w, y ∉ s.literals w) : y = r := by
  cases h with
  | refl => rfl
  | child _ hc => exact absurd hc (hy _)

/-- Two literal walks to one node start on one literal chain: a node has one parent. -/
theorem Lit.comparable (ha : Arena s) (h : Lit s r y) : Lit s r' y → Lit s r r' ∨ Lit s r' r := by
  induction h with
  | refl => exact .inr
  | @child w c hw hc ih =>
    intro h'
    cases h' with
    | refl => exact .inl (.child hw hc)
    | @child w' _ hw' hc' =>
      have e : w' = w :=
        Option.some.inj ((ha.parent_of_literal hc').symm.trans (ha.parent_of_literal hc))
      subst e
      exact ih hw'

end Literals

section Regions

/-- The region of a running feed is live. -/
theorem Governs.live (hw : Wellformed s) (hl : Ledger s) (hk : (s.feed k).active = true)
    (h : Governs s k y) : Live s y := by
  obtain ⟨r, hr, hlit⟩ := h
  exact hlit.live (hl.mountRoot_live hw hk (hl.present_of_active hk) hr)

/-- The tracker's root has no parent, an inlined root has its owner: no node is both. -/
theorem Wellformed.root_ne_hidden (hw : Wellformed s) {o : InlaidId} (hr : s.tracker.root = some r)
    (hh : s.hiddenOf o = some r) : False := by
  have hpar := hw.root_parent r hr
  rw [hw.arena.child_parent o r (List.mem_of_getLast? (hw.arena.hidden_last o r hh))] at hpar
  cases hpar

/-- The root of a mount is nobody's literal child: the tracker's root has no parent, and an
inlined root is not among its owner's literal children. -/
theorem Wellformed.mountRoot_not_literal (hw : Wellformed s)
    (hr : s.mountRoot (s.feed k) = some r) (w : InlaidId) : r ∉ s.literals w := fun hmem => by
  have hpar := hw.arena.parent_of_literal hmem
  cases hm : (s.feed k).mount with
  | tracker =>
    rw [State.mountRoot_tracker hm] at hr
    rw [hw.root_parent r hr] at hpar
    cases hpar
  | owner o =>
    rw [State.mountRoot_owner hm] at hr
    rw [hw.arena.child_parent o r (List.mem_of_getLast? (hw.arena.hidden_last o r hr))] at hpar
    cases hpar
    exact (hw.arena.mem_literals.1 hmem).2 hr

/-- One root fills the mount of one running feed: the tracker's feed is the only one on the
tracker, and a live model node's only running feed is its own. -/
theorem Wellformed.mountRoot_inj (hw : Wellformed s) (hl : Ledger s)
    (hj : (s.feed j).active = true) (hk : (s.feed k).active = true)
    (hrj : s.mountRoot (s.feed j) = some r) (hrk : s.mountRoot (s.feed k) = some r) : j = k := by
  cases hmj : (s.feed j).mount with
  | tracker =>
    rw [State.mountRoot_tracker hmj] at hrj
    cases hmk : (s.feed k).mount with
    | tracker =>
      exact Option.some.inj ((hl.tracker_feed j hj hmj).symm.trans (hl.tracker_feed k hk hmk))
    | owner o =>
      rw [State.mountRoot_owner hmk] at hrk
      exact (hw.root_ne_hidden hrj hrk).elim
  | owner o =>
    rw [State.mountRoot_owner hmj] at hrj
    cases hmk : (s.feed k).mount with
    | tracker =>
      rw [State.mountRoot_tracker hmk] at hrk
      exact (hw.root_ne_hidden hrk hrj).elim
    | owner o' =>
      rw [State.mountRoot_owner hmk] at hrk
      have hpar := hw.arena.child_parent o r (List.mem_of_getLast? (hw.arena.hidden_last o r hrj))
      rw [hw.arena.child_parent o' r (List.mem_of_getLast? (hw.arena.hidden_last o' r hrk))] at hpar
      cases hpar
      have hlive := hl.owner_live j o hj hmj
      exact Option.some.inj ((hw.feed_owner j o hj hmj hlive).symm.trans
        (hw.feed_owner k o hk hmk hlive))

/-- A node lies in the region of one running feed only. -/
theorem Governs.unique (hw : Wellformed s) (hl : Ledger s) (hj : (s.feed j).active = true)
    (hk : (s.feed k).active = true) (h₁ : Governs s j y) (h₂ : Governs s k y) : j = k := by
  obtain ⟨r, hr, hlr⟩ := h₁
  obtain ⟨r', hr', hlr'⟩ := h₂
  have e : r' = r := by
    rcases hlr.comparable hw.arena hlr' with h | h
    · exact h.eq_of_root (hw.mountRoot_not_literal hr')
    · exact (h.eq_of_root (hw.mountRoot_not_literal hr)).symm
  subst e
  exact hw.mountRoot_inj hl hj hk hr hr'

/-- A node between the start of a literal walk and a node on it is on the walk: the walk runs
through the parents of its nodes. -/
theorem Lit.between (ha : Arena s) (h : Lit s r z) (hrw : Below s r w) (hwz : Below s w z) :
    Lit s r w := by
  induction h with
  | refl =>
    cases hwz with
    | refl => exact .refl
    | child hq hc =>
      have h₁ := hrw.le ha
      have h₂ := hq.le ha
      have h₃ := (ha.child_bound _ _ hc).1
      omega
  | @child v c' hv hc ih =>
    cases hwz with
    | refl => exact .child hv hc
    | @child q _ hq hcq =>
      obtain rfl := Option.some.inj ((ha.child_parent q c' hcq).symm.trans
        (ha.child_parent v c' (State.mem_children_of_literal hc)))
      exact ih hq

/-- A region reaching below a node of another region hangs from an owner below that node: regions
meet only through inlined roots. -/
theorem Governs.owner_below (hw : Wellformed s) (hl : Ledger s) (hj : (s.feed j).active = true)
    (hk : (s.feed k).active = true) (hne : j ≠ k) (hc : Governs s k c) (hz : Governs s j z)
    (hb : Below s c z) : ∃ o, (s.feed j).mount = .owner o ∧ Below s c o ∧ s.feedOf o = some j := by
  have ha := hw.arena
  obtain ⟨r, hr, hlz⟩ := hz
  rcases Below.meet ha ha (fun _ => rfl) hlz.toBelow hb with hrc | hcr
  · exact absurd (Governs.unique hw hl hj hk ⟨r, hr, hlz.between ha hrc hb⟩ hc) hne
  · have hne' : r ≠ c := by
      rintro rfl
      exact hne (Governs.unique hw hl hj hk ⟨r, hr, .refl⟩ hc)
    obtain ⟨p, hp, hcp, -⟩ := hcr.parent_of_ne ha hne'
    cases hm : (s.feed j).mount with
    | tracker =>
      rw [State.mountRoot_tracker hm] at hr
      rw [hw.root_parent r hr] at hp
      cases hp
    | owner o =>
      rw [State.mountRoot_owner hm] at hr
      rw [ha.child_parent o r (List.mem_of_getLast? (ha.hidden_last o r hr))] at hp
      obtain rfl := Option.some.inj hp
      exact ⟨o, rfl, hcp, hw.feed_owner j o hj hm (hl.owner_live j o hj hm)⟩

end Regions

section Sources

/-- A node's literal children stand for children of its source node. -/
theorem LitCopies.mem (h : LitCopies s f w) (hc : c ∈ s.literals w) :
    (s.node c).source ∈ (f.node (s.node w).source).children := by
  rw [← h]
  exact List.mem_map_of_mem hc

/-- A node copies as many source children as it has literal children. -/
theorem LitCopies.literalCount_eq (h : LitCopies s f y) :
    s.literalCount y = (f.node (s.node y).source).children.length := by
  rw [← s.length_literals y, ← h, List.length_map]

/-- The literal child at an index stands for the source child at that index. -/
theorem LitCopies.child (h : LitCopies s f y) {i : Nat} {u : SourceId}
    (hu : (f.node (s.node y).source).children[i]? = some u) :
    i < s.literalCount y ∧ (s.node y).children.getD i default ∈ s.literals y ∧
      (s.node ((s.node y).children.getD i default)).source = u := by
  rw [← h, List.getElem?_map] at hu
  obtain ⟨c, hc, rfl⟩ := Option.map_eq_some_iff.1 hu
  obtain ⟨hi, hget⟩ := State.getElem?_literals hc
  rw [hget]
  exact ⟨hi, List.mem_of_getElem? hc, rfl⟩

variable (hcopy : ∀ z, Lit s r z → LitCopies s f z)
include hcopy

/-- A region that copies a forest stands below the source node of its root. -/
theorem Lit.source_below (h : Lit s r y) : Source.Forest.Below f (s.node r).source (s.node y).source := by
  induction h with
  | refl => exact .refl
  | child hw hc ih => exact .child ih ((hcopy _ hw).mem hc)

/-- A region that copies a tree stands for each source node once: a root has no parent, and a
node's literal children stand for its source node's distinct children. -/
theorem Lit.source_inj (hf : f.Linked) {T : TreeId} (hR : (f.tree T).root = some (s.node r).source)
    (h : Lit s r y) : Lit s r z → (s.node y).source = (s.node z).source → y = z := by
  induction h generalizing z with
  | refl =>
    intro h' e
    cases h' with
    | refl => rfl
    | child hw hc => exact absurd (e ▸ (hcopy _ hw).mem hc) (hf.root_orphan T _ _ hR)
  | @child w c hw hc ih =>
    intro h' e
    cases h' with
    | refl => exact absurd (e ▸ (hcopy _ hw).mem hc) (hf.root_orphan T _ _ hR)
    | @child w' _ hw' hc' =>
      have hp := hf.parent_unique _ _ _ ((hcopy _ hw).mem hc) (e ▸ (hcopy _ hw').mem hc')
      have e' : w = w' := ih hw' hp
      subst e'
      have hnd : ((s.literals w).map fun d => (s.node d).source).Nodup := by
        rw [hcopy _ hw]
        exact hf.nodup _
      exact List.inj_on_of_nodup_map hnd hc hc' e

/-- Every address of a copied tree leads, through literal children, to the node that stands for
the source node the address reaches. -/
theorem Lit.addressed {a : List Nat} {u : SourceId} :
    Lit s r y → Source.Forest.Addressed f (s.node y).source a u →
      ∃ z, Descends s y a z ∧ Lit s r z ∧ (s.node z).source = u := by
  induction a generalizing y with
  | nil =>
    intro hy ha
    cases ha
    exact ⟨y, .nil y, hy, rfl⟩
  | cons i a ih =>
    intro hy ha
    cases ha with
    | cons hc rest =>
      obtain ⟨hi, hmem, hsrc⟩ := (hcopy _ hy).child hc
      obtain ⟨z, hd, hz, hzu⟩ := ih (.child hy hmem) (hsrc ▸ rest)
      exact ⟨z, .cons hi hd, hz, hzu⟩

end Sources

section Frames

/-- The literal children of a region a change leaves alone, under a root it leaves alone, make the
region after the change. -/
theorem Lit.frame (hsame : ∀ z, Lit s r z → s'.literals z = s.literals z) (h : Lit s' r y) :
    Lit s r y := by
  induction h with
  | refl => exact .refl
  | child _ hc ih => exact .child ih (by rwa [hsame _ ih] at hc)

/-- The region after a change that gives the nodes of the region satisfying `Q` literal children
that were theirs and satisfy `Q` too, or that lie in a part `P` closed under literal children: a
walk from a root in `Q` stays in the old region and `Q` until it enters `P`. -/
theorem Lit.frame_sub {Q P : InlaidId → Prop} (hr : Q r)
    (hsub : ∀ z, Lit s r z → Q z → ∀ c ∈ s'.literals z, (c ∈ s.literals z ∧ Q c) ∨ P c)
    (hP : ∀ z, P z → ∀ c ∈ s'.literals z, P c) (h : Lit s' r y) : (Lit s r y ∧ Q y) ∨ P y := by
  induction h with
  | refl => exact .inl ⟨.refl, hr⟩
  | child _ hc ih =>
    rcases ih with ⟨hv, hq⟩ | hp
    · rcases hsub _ hv hq _ hc with ⟨hc', hq'⟩ | hp
      · exact .inl ⟨.child hv hc', hq'⟩
      · exact .inr hp
    · exact .inr (hP _ hp _ hc)

/-- A node keeps listing the source children of its source node while it keeps its literal
children and they and it keep their source nodes. -/
theorem LitCopies.frame (h : LitCopies s f y) (hlit : s'.literals y = s.literals y)
    (hy : (s'.node y).source = (s.node y).source)
    (hc : ∀ c ∈ s.literals y, (s'.node c).source = (s.node c).source) : LitCopies s' f y := by
  unfold LitCopies
  rw [hlit, hy, List.map_congr_left hc]
  exact h

/-- The running feed `k` copies its tree as the forest `f` has it: its mount holds the tree's
root, and its region lists the source children of its nodes. -/
structure FeedCopies (s : State) (f : Source.Forest) (k : SubscriberId) : Prop where
  mount : MountCopies s f k
  literal : ∀ y, Governs s k y → LitCopies s f y

theorem InSync.feedCopies {V : SubscriberId → Source.Forest} (h : InSync s V)
    (hk : (s.feed k).active = true) : FeedCopies s (V k) k :=
  ⟨h.mount k hk, fun y hy => h.literal k y hk hy⟩

theorem InSync.of_feedCopies {V : SubscriberId → Source.Forest}
    (hf : ∀ k, (s.feed k).active = true → FeedCopies s (V k) k) (hi : ∀ y, Live s y → Inlines s y) :
    InSync s V :=
  ⟨fun k hk => (hf k hk).mount, fun k y hk hy => (hf k hk).literal y hy, hi⟩

/-- A mount keeps its copy while its root, its feed's tree and the root's source node stay. -/
theorem MountCopies.keep (h : MountCopies s f k)
    (hroot : s'.mountRoot (s'.feed k) = s.mountRoot (s.feed k))
    (htree : (s'.feed k).tree = (s.feed k).tree)
    (hsrc : ∀ r, s.mountRoot (s.feed k) = some r → (s'.node r).source = (s.node r).source) :
    MountCopies s' f k := by
  unfold MountCopies at h ⊢
  rw [hroot, htree]
  cases hr : s.mountRoot (s.feed k) with
  | none => rw [hr] at h; exact h
  | some r =>
    rw [hr, Option.map_some] at h
    rw [Option.map_some, hsrc r hr]
    exact h

/-- A feed keeps its copy across a change that leaves its mount's root, its tree, and the literal
children and source nodes of its region as they were. -/
theorem FeedCopies.keep (h : FeedCopies s f k)
    (hroot : s'.mountRoot (s'.feed k) = s.mountRoot (s.feed k))
    (htree : (s'.feed k).tree = (s.feed k).tree)
    (hlit : ∀ z, Governs s k z → s'.literals z = s.literals z)
    (hsrc : ∀ z, Governs s k z → (s'.node z).source = (s.node z).source) : FeedCopies s' f k := by
  refine ⟨h.mount.keep hroot htree fun r hr => hsrc r ⟨r, hr, .refl⟩, fun y hy => ?_⟩
  · obtain ⟨r, hr, hy⟩ := hy
    rw [hroot] at hr
    have hlit' : Lit s r y := Lit.frame (fun z hz => hlit z ⟨r, hr, hz⟩) hy
    exact (h.literal y ⟨r, hr, hlit'⟩).frame (hlit y ⟨r, hr, hlit'⟩) (hsrc y ⟨r, hr, hlit'⟩)
      fun c hc => hsrc c ⟨r, hr, .child hlit' hc⟩

/-- A node keeps what it inlines while its source node and that node's model, its model name and
feed, the guard above it, the resolver and the tree its feed follows and asks stay. -/
theorem Inlines.keep (h : Inlines s y) (hsrc : (s'.node y).source = (s.node y).source)
    (hname : s'.modelName y = s.modelName y) (hfeedOf : s'.feedOf y = s.feedOf y)
    (hguard : Guarded s' y ↔ Guarded s y) (hres : ∀ m, s'.resolve m = s.resolve m)
    (hmodel : (s'.forest.node (s.node y).source).model = (s.forest.node (s.node y).source).model)
    (htree : ∀ k, s.feedOf y = some k → (s'.feed k).tree = (s.feed k).tree ∧
      (s'.feed k).announcesModel = (s.feed k).announcesModel) : Inlines s' y := by
  refine ⟨?_, fun k hk => ?_, fun hk n hn hg => ?_⟩
  · rw [hname, hsrc, hmodel]
    exact h.named
  · rw [hfeedOf] at hk
    obtain ⟨hg, n, hn, hr⟩ := h.fed k hk
    exact ⟨hguard.2 hg, n, by rw [hname]; exact hn,
      by rw [hres, (htree k hk).1, (htree k hk).2]; exact hr⟩
  · rw [hfeedOf] at hk
    rw [hres]
    exact h.unfed hk n (by rwa [hname] at hn) (hguard.1 hg)

end Frames

end Inlay.Sync
