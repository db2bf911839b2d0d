import Inlay.Proofs.Delivery
import Inlay.Proofs.Frozen

namespace Inlay.Session

open Sync

section Library

variable {β : Type}

theorem lookup_eq_head?_filter (l : List (String × β)) (n : String) :
    l.lookup n = ((l.filter fun p => n == p.1).head?).map Prod.snd := by
  induction l with
  | nil => rfl
  | cons p l ih =>
    obtain ⟨k, b⟩ := p
    by_cases h : n = k
    · simp [h]
    · simp [List.lookup_cons, beq_false_of_ne h, ih]

/-- Sorting a keyed list by key keeps what every key looks up: the entries of one key keep their
order. -/
theorem lookup_mergeSort (l : List (String × β)) (n : String) :
    (l.mergeSort fun a b => decide (a.1 ≤ b.1)).lookup n = l.lookup n := by
  have hpair : (l.filter fun p => n == p.1).Pairwise fun a b => decide (a.1 ≤ b.1) = true :=
    List.pairwise_of_forall_mem_list fun a ha b hb => by
      simp only [List.mem_filter, beq_iff_eq] at ha hb
      simp [← ha.2, ← hb.2]
  have hsub := List.sublist_mergeSort
    (fun a b c hab hbc => by simpa using String.le_trans (by simpa using hab) (by simpa using hbc))
    (fun a b => by simpa using String.le_total a.1 b.1) hpair (List.filter_sublist (l := l))
  have hkeyed : (l.filter fun p => n == p.1) =
      (l.mergeSort fun a b => decide (a.1 ≤ b.1)).filter fun p => n == p.1 := by
    refine List.Sublist.eq_of_length ?_ ?_
    · simpa [List.filter_filter] using hsub.filter fun p => n == p.1
    · exact (((List.mergeSort_perm l _).filter _).length_eq).symm
  rw [lookup_eq_head?_filter, lookup_eq_head?_filter l, hkeyed]

/-- Taking a name's entries out of a keyed list: the name looks up nothing, every other name what
it did. -/
theorem lookup_filter_ne (l : List (String × β)) (name n : String) :
    (l.filter (·.1 != name)).lookup n = if n = name then none else l.lookup n := by
  induction l with
  | nil => simp
  | cons p l ih =>
    obtain ⟨k, b⟩ := p
    by_cases hk : k = name
    · subst hk
      by_cases hn : n = k
      · simp [hn] at ih ⊢; exact ih
      · simp [hn, List.lookup_cons, beq_false_of_ne hn] at ih ⊢; exact ih
    · by_cases hn : n = k
      · subst hn; simp [hk]
      · simp [hk, List.lookup_cons, beq_false_of_ne hn, ih]

/-- Entering `t` under `name` in a library kept sorted by name: the name looks up `t`, every other
name what it did. -/
theorem lookup_entered (l : List (String × β)) (name n : String) (t : β) :
    ((l.filter (·.1 != name) ++ [(name, t)]).mergeSort fun a b => decide (a.1 ≤ b.1)).lookup n =
      if n = name then some t else l.lookup n := by
  rw [lookup_mergeSort, List.lookup_append, lookup_filter_ne]
  by_cases hn : n = name
  · simp [hn]
  · simp [hn, List.lookup_cons, beq_false_of_ne hn]

end Library

variable {S S' S₁ S₂ : State}

section Accounting

/-- The ledger of a session between steps: the inlaid tree well formed, the subscriptions booked,
a present tracker following its source exactly while listened to, and every held node settled. -/
structure Accounted (S : State) : Prop where
  wellformed : Wellformed S.sync
  ledger : Ledger S.sync
  listening : Listening S.sync
  held : ∀ p ∈ S.held, Settled S.sync p.2

/-- What a step keeps: the audit of the trees and the inlaid tree, tracking while listened to, and
every held node settled. -/
structure Accounts (S S' : State) : Prop where
  heeds : Heeds S.sync S'.sync
  held : ∀ p ∈ S'.held, Settled S'.sync p.2

theorem Accounted.refl (hS : Accounted S) : Accounts S S :=
  ⟨.refl hS.wellformed hS.ledger, hS.held⟩

theorem Accounted.after (hS : Accounted S) (h : Accounts S S') : Accounted S' :=
  ⟨h.heeds.wellformed, h.heeds.ledger, h.heeds.2 hS.listening, h.held⟩

theorem Accounts.trans (h₁ : Accounts S₁ S₂) (h₂ : Accounts S₂ S') : Accounts S₁ S' :=
  ⟨h₁.heeds.trans h₂.heeds, h₂.held⟩

instance : Trans Accounts Accounts Accounts := ⟨Accounts.trans⟩

theorem sync_accounts (hS : Accounted S) {α : Type} {r : Sync.Run α} (h : Within Heeds r S.sync) :
    Within Accounts (sync r) S :=
  sync_within h fun _ hs => ⟨hs, fun p hp => hs.1.settled _ (hS.held p hp)⟩

/-- A change of labels only, every held node settled. -/
theorem Accounts.of_labels (hS : Accounted S) (hsync : S'.sync = S.sync)
    (hheld : ∀ p ∈ S'.held, Settled S.sync p.2) : Accounts S S' :=
  ⟨by rw [hsync]; exact .refl hS.wellformed hS.ledger, fun p hp => by rw [hsync]; exact hheld p hp⟩

/-- A change of the forest alone that keeps every model and every subscriber table: planting source
nodes and adding trees. -/
structure Plants (S S' : State) : Prop where
  sync : S'.sync = { S.sync with forest := S'.sync.forest }
  held : S'.held = S.held
  trees : S'.trees = S.trees
  models : S.sync.forest.KeepsModels S'.sync.forest
  tables : S.sync.forest.KeepsTables S'.sync.forest

theorem Plants.refl (S : State) : Plants S S :=
  ⟨rfl, rfl, rfl, .refl _, .of_trees_eq rfl⟩

theorem Plants.trans (h₁ : Plants S₁ S₂) (h₂ : Plants S₂ S') : Plants S₁ S' :=
  ⟨h₂.sync.trans (by rw [h₁.sync]), h₂.held.trans h₁.held, h₂.trees.trans h₁.trees,
    h₁.models.trans h₂.models, h₁.tables.trans h₂.tables⟩

instance : Trans Plants Plants Plants := ⟨Plants.trans⟩

theorem Plants.accounts (hS : Accounted S) (h : Plants S S') : Accounts S S' := by
  have ha : Audit S.sync S'.sync := by
    rw [h.sync]
    exact Audit.of_forest hS.wellformed hS.ledger h.models h.tables
  have htr : S'.sync.tracker = S.sync.tracker := by rw [h.sync]
  exact ⟨ha.heeds_of_tracker htr,
    fun p hp => ha.settled _ (hS.held p (h.held ▸ hp))⟩

/-- A change of the library to trees it named before or trees of the forest. -/
theorem Accounts.of_library (hS : Accounted S) {library : List (String × TreeId)}
    (hlib : ∀ n T, library.lookup n = some T →
      S.sync.library.lookup n = some T ∨ T.val < S.sync.forest.trees.size) :
    Accounts S { S with sync := { S.sync with library := library } } :=
  have ha := Audit.of_library hS.wellformed hS.ledger hlib
  ⟨ha.heeds rfl rfl rfl, fun p hp => ha.settled _ (hS.held p hp)⟩

end Accounting

section Edits

theorem plantSpec_plants (spec : NodeSpec) : Within Plants (plantSpec spec) S := by
  unfold plantSpec
  refine Within.get (Within.after_read (Plants.refl S) (orFail_spec _ _ S) fun draft _ => ?_)
  exact Ensures.bind (Ensures.set (Ensures.pure ⟨rfl, rfl, rfl,
    Source.Forest.keepsModels_plant _ _, .of_trees_eq (Source.Forest.trees_plant _ _)⟩))

/-- Creating a tree plants its root, if any, and adds the tree, with an empty table. -/
theorem createTree_plants (spec : TreeSpec) :
    Ensures (createTree spec) S (fun t S' => Plants S S' ∧ t.val < S'.sync.forest.trees.size)
      fun _ S' => Plants S S' := by
  unfold createTree
  refine Ensures.bind (Ensures.get ?_)
  extract_lets session addRooted
  have hrooted : ∀ x S₁, Plants S S₁ → Ensures (addRooted x) S₁
      (fun t S' => Plants S S' ∧ t.val < S'.sync.forest.trees.size) fun _ S' => Plants S S' := by
    rintro ⟨settings, serving, root⟩ S₁ h₁
    dsimp only [addRooted]
    refine Ensures.bind (Ensures.get (Ensures.bind (Ensures.set (Ensures.pure
      ⟨h₁.trans ⟨rfl, rfl, rfl, ?_, ?_⟩, ?_⟩))))
    · cases root with
      | none => exact Source.Forest.keepsModels_addTree _
      | some r =>
        exact (Source.Forest.keepsModels_addTree _).trans
          ((Source.Forest.keepsModels_adoptWithin _ _ _ _).trans
            (Source.Forest.keepsModels_modifyTree _ _))
    · cases root with
      | none => exact Source.Forest.keepsTables_addTree rfl
      | some r =>
        exact (Source.Forest.keepsTables_addTree rfl).trans
          ((Source.Forest.KeepsTables.of_trees_eq (Source.Forest.trees_adoptWithin _ _ _ _)).trans
            (Source.Forest.keepsTables_modifyTree _ fun _ => rfl))
    · cases root with
      | none => simp [Source.Forest.addTree]
      | some r =>
        simp [Source.Forest.addTree, Source.Forest.modifyTree, Source.Forest.adopt,
          Source.Forest.trees_adoptWithin]
  split
  · exact Ensures.andThen (Within.pure (Plants.refl S) _) hrooted
  · dsimp only
    split
    · exact Ensures.andThen (Within.map (plantSpec_plants _)) fun _ S₁ h₁ =>
        Ensures.andThen (Ensures.pure h₁) hrooted
    · exact Ensures.andThen (Within.pure (Plants.refl S) _) fun _ S₁ h₁ =>
        Ensures.andThen (Ensures.pure h₁) hrooted
  · dsimp only
    refine Ensures.andThen ((orFail_spec _ _ S).mono (fun _ _ h => h) fun _ _ h => by
      rw [h]; exact Plants.refl S) fun draft S₁ hread => ?_
    obtain ⟨hS₁, _⟩ := hread
    subst hS₁
    exact Ensures.bind (Ensures.get (Ensures.bind (Ensures.set (Ensures.andThen (Ensures.pure
      ⟨rfl, rfl, rfl, Source.Forest.keepsModels_plant _ _,
        .of_trees_eq (Source.Forest.trees_plant _ _)⟩) hrooted))))

/-- Entering a tree of the forest into the library: the tree takes the name, and the library names
it and what it named before. -/
theorem enterModel_accounts (hS : Accounted S) (name : String) {t : TreeId}
    (ht : t.val < S.sync.forest.trees.size) : Within Accounts (enterModel name t) S := by
  unfold enterModel
  refine Within.get (Ensures.set ?_)
  have h₁ : Plants S { S with sync := { S.sync with
      forest := S.sync.forest.modifyTree t fun tr => { tr with serving := some name } } } :=
    ⟨rfl, rfl, rfl, Source.Forest.keepsModels_modifyTree _ _,
      Source.Forest.keepsTables_modifyTree _ fun _ => rfl⟩
  refine (h₁.accounts hS).trans (Accounts.of_library (hS.after (h₁.accounts hS)) fun n T hT => ?_)
  rw [lookup_entered] at hT
  split at hT
  · cases hT
    exact .inr (Nat.lt_of_lt_of_le ht h₁.tables.1)
  · exact .inl hT

theorem labelTree_accounts (hS : Accounted S) (name : String) (t : TreeId) :
    Within Accounts (labelTree name t) S :=
  Within.get (Ensures.set (Accounts.of_labels hS rfl hS.held))

theorem plantSpec_accounts (hS : Accounted S) (spec : NodeSpec) :
    Within Accounts (plantSpec spec) S :=
  (plantSpec_plants spec).weaken fun _ h => h.accounts hS

end Edits

section Holding

theorem below_of_mem_subtreeWithin {s : Sync.State} :
    ∀ (n : Nat) (r x : InlaidId), x ∈ s.subtreeWithin n r → Below s r x
  | 0, r, x, h => by
    rw [State.subtreeWithin, List.mem_singleton] at h
    rw [h]
    exact .refl
  | n + 1, r, x, h => by
    rw [State.subtreeWithin] at h
    rcases List.mem_cons.1 h with rfl | h
    · exact .refl
    · obtain ⟨c, hc, hx⟩ := List.mem_flatMap.1 h
      exact (Below.single hc).trans (below_of_mem_subtreeWithin n c x hx)

/-- The nodes that keep others from going away are settled: the root of a present tracker is live,
held nodes and the nodes recorders keep are settled. -/
theorem holders_settled (hS : Accounted S) {h : InlaidId} (hh : h ∈ S.holders) :
    Settled S.sync h := by
  unfold State.holders at hh
  simp only [List.mem_append, List.mem_flatMap, List.mem_map] at hh
  rcases hh with (hroot | ⟨p, hp, rfl⟩) | ⟨lid, -, hrec⟩
  · split at hroot
    · rename_i hpresent
      exact .inl ⟨hpresent, h, Option.mem_toList.1 hroot, .refl⟩
    · cases hroot
  · exact hS.held p hp
  · split at hrec
    · rename_i records hl
      obtain ⟨r, hr, rfl⟩ := List.mem_map.1 hrec
      exact hS.ledger.records lid r (by rw [hl]; exact hr)
    · cases hrec

/-- A parent that something still reaches is settled. -/
theorem parentOf_settled (hS : Accounted S) {x p : InlaidId} (h : S.parentOf x = some p) :
    Settled S.sync p := by
  unfold State.parentOf Sync.State.parentAmong at h
  split at h
  · split at h
    · rename_i hq
      cases h
      obtain ⟨top, htop, hp⟩ := List.mem_flatMap.1 hq
      exact (holders_settled hS htop).below (below_of_mem_subtreeWithin _ _ _ hp)
    · cases h
  · cases h

theorem climb_settled (hS : Accounted S) :
    ∀ (n : Nat) (x y : InlaidId), Settled S.sync x → climb S n x = some y → Settled S.sync y :=
  climb_induct fun _ hp => parentOf_settled hS hp

theorem descend_settled :
    ∀ (down : List Nat) (x y : InlaidId), Settled S.sync x → descend S x down = some y →
      Settled S.sync y :=
  descend_induct fun hx hc => hx.below (Below.single hc)

/-- Holding the node reached by climbing and then descending from a settled node. -/
theorem hold_accounts (hS : Accounted S) (label : String) (up : Nat) (down : List Nat)
    {first : InlaidId} (hfirst : Settled S.sync first) :
    Within Accounts (do
      let s ← get
      let some top := climb s up first | throw .noNode
      let some node := descend s top down | throw .noNode
      set { s with held := relabelled s.held label node }
      return Reply.inlaid (s.sync.summary node) : Act Reply) S := by
  refine hold_within hS.refl fun top node htop hnode => Accounts.of_labels hS rfl fun p hp => ?_
  rcases mem_relabelled hp with hp | rfl
  · exact hS.held p hp
  · exact descend_settled down top node (climb_settled hS up first top hfirst htop) hnode

end Holding

section Steps

/-- Every step keeps the ledger of the session, whether it answers or fails. -/
theorem runStep_accounts (hS : Accounted S) : ∀ st : Step, Within Accounts (runStep st) S
  | .listen label kind => by
    unfold runStep
    refine Within.after_read hS.refl (requireTracker_spec S) fun _ hp => ?_
    refine Within.seq (sync_accounts hS ((addListenerNamed_spec hS.wellformed hS.ledger
      hS.listening hp ?_).mono (fun _ _ h => h.1) fun _ _ h => h.1)) fun _ S₁ h₁ => ?_
    · cases kind <;> rfl
    · exact Within.seq (Ensures.modify (Accounts.of_labels (hS.after h₁) rfl (hS.after h₁).held))
        fun _ S₂ h₂ => Within.pure ((hS.after h₁).after h₂).refl _
  | .recorded label clear => by
    unfold runStep
    refine Within.get ?_
    dsimp only
    split
    · split
      · split
        · exact Within.seq (sync_accounts hS (modifyListener_heeds hS.wellformed hS.ledger _ _
            fun _ hr => by simp at hr)) fun _ S₁ h₁ => Within.pure (hS.after h₁).refl _
        · exact Within.pure hS.refl _
      · exact Within.throw hS.refl _
    · exact Within.throw hS.refl _
  | .describe node => by
    unfold runStep
    exact Within.after_read hS.refl (heldNode_spec _ S) fun _ _ => Within.get (Within.pure hS.refl _)
  | .hasModel name => by
    unfold runStep
    exact Within.get (Within.pure hS.refl _)
  | .unlisten label => by
    unfold runStep
    refine Within.after_read hS.refl (requireTracker_spec S) fun _ _ => Within.get ?_
    split
    · exact Within.seq (sync_accounts hS ((removeListener_spec hS.wellformed hS.ledger _).mono
        (fun _ _ h => h.2.1) fun _ _ h => h.elim)) fun _ S₁ h₁ => Within.pure (hS.after h₁).refl _
    · exact Within.throw hS.refl _
  | .dropTracker => by
    unfold runStep
    refine Within.after_read hS.refl (requireTracker_spec S) fun _ _ => ?_
    exact Within.seq (sync_accounts hS ((dropTracker_spec hS.wellformed hS.ledger).mono
      (fun _ _ h => h.1) fun _ _ h => h.elim)) fun _ S₁ h₁ => Within.pure (hS.after h₁).refl _
  | .setRoot tree node => by
    unfold runStep
    refine Within.after_read hS.refl (treeNamed_spec _ S) fun t _ => ?_
    refine Within.seq (plantSpec_accounts hS _) fun src S₁ h₁ => ?_
    have hS₁ := hS.after h₁
    exact Within.seq (sync_accounts hS₁ (setRoot_heeds hS₁.wellformed hS₁.ledger _ _))
      fun _ S₂ h₂ => Within.get (Within.pure (hS₁.after h₂).refl _)
  | .clearRoot tree => by
    unfold runStep
    refine Within.after_read hS.refl (treeNamed_spec _ S) fun t _ => ?_
    exact Within.seq (sync_accounts hS (clearRoot_heeds hS.wellformed hS.ledger _))
      fun _ S₁ h₁ => Within.get (Within.pure (hS.after h₁).refl _)
  | .addChild tree parent index node => by
    unfold runStep
    refine Within.after_read hS.refl (treeNamed_spec _ S) fun t _ => ?_
    refine Within.seq (plantSpec_accounts hS _) fun src S₁ h₁ => ?_
    have hS₁ := hS.after h₁
    exact Within.seq (sync_accounts hS₁ (addSourceChild_heeds hS₁.wellformed hS₁.ledger _ _ _ _))
      fun _ S₂ h₂ => Within.get (Within.pure (hS₁.after h₂).refl _)
  | .removeChild tree address => by
    unfold runStep
    refine Within.after_read hS.refl (treeNamed_spec _ S) fun t _ => ?_
    exact Within.seq (sync_accounts hS (removeSourceChild_heeds hS.wellformed hS.ledger _ _))
      fun _ S₁ h₁ => Within.get (Within.pure (hS.after h₁).refl _)
  | .setPayload tree address payload => by
    unfold runStep
    refine Within.after_read hS.refl (treeNamed_spec _ S) fun t _ => ?_
    exact Within.seq (sync_accounts hS (setPayload_heeds hS.wellformed hS.ledger _ _ _))
      fun _ S₁ h₁ => Within.pure (hS.after h₁).refl _
  | .emit tree event => by
    unfold runStep
    refine Within.after_read hS.refl (treeNamed_spec _ S) fun t _ => ?_
    have hdeliver : ∀ e S₁, Accounted S₁ →
        Within Accounts (do sync (Sync.deliver t e); pure Reply.nothing : Act Reply) S₁ :=
      fun e S₁ h₁ => Within.seq (sync_accounts h₁ (deliver_heeds h₁.wellformed h₁.ledger _ _))
        fun _ S₂ h₂ => Within.pure (h₁.after h₂).refl _
    dsimp only
    split
    · exact Within.seq (plantSpec_accounts hS _) fun _ S₁ h₁ =>
        Within.seq (Within.pure (hS.after h₁).refl _) fun e S₂ h₂ =>
          hdeliver e S₂ ((hS.after h₁).after h₂)
    · exact Within.seq (Within.pure hS.refl _) fun e S₁ h₁ => hdeliver e S₁ (hS.after h₁)
    · exact Within.seq (Within.pure hS.refl _) fun e S₁ h₁ => hdeliver e S₁ (hS.after h₁)
  | .sourceNode tree address => by
    unfold runStep
    exact Within.after_read hS.refl (treeNamed_spec _ S) fun t _ => Within.get (Within.pure hS.refl _)
  | .insertModel name spec => by
    unfold runStep
    have hcreate : Ensures (createTree spec) S
        (fun t S₁ => Accounts S S₁ ∧ t.val < S₁.sync.forest.trees.size) fun _ S₁ => Accounts S S₁ :=
      (createTree_plants spec).mono (fun _ _ h => ⟨h.1.accounts hS, h.2⟩) fun _ _ h => h.accounts hS
    refine Ensures.andThen hcreate fun t S₁ ⟨h₁, ht⟩ => ?_
    have hS₁ := hS.after h₁
    refine (Within.seq (enterModel_accounts hS₁ name ht) fun _ S₂ h₂ => ?_).imp
      fun _ h => h₁.trans h
    exact Within.seq (labelTree_accounts (hS₁.after h₂) _ _) fun _ S₃ h₃ =>
      Within.pure ((hS₁.after h₂).after h₃).refl _
  | .removeModel name => by
    unfold runStep
    refine Within.get (Within.seq (Ensures.set (Accounts.of_library hS fun n T hT => ?_))
      fun _ S₁ h₁ => Within.pure (hS.after h₁).refl _)
    rw [lookup_filter_ne] at hT
    split at hT
    · cases hT
    · exact .inl hT
  | .hold label (some l) up down => by
    unfold runStep
    exact Within.after_read hS.refl (heldNode_spec _ S) fun _ h =>
      hold_accounts hS label up down (hS.held _ h)
  | .hold label none up down => by
    unfold runStep
    dsimp only
    refine Within.after_read hS.refl (requireTracker_spec S) fun _ hp => Within.get ?_
    split
    · rename_i r hr
      exact Ensures.bind (Ensures.pure (hold_accounts hS label up down (.inl ⟨hp, r, hr, .refl⟩)))
    · exact Ensures.bind (Ensures.throw hS.refl)
  | .inspect node => by
    unfold runStep
    exact Within.after_read hS.refl (heldNode_spec _ S) fun _ _ => Within.get (Within.pure hS.refl _)
  | .nodeAdd node address child => by
    unfold runStep
    refine Within.after_read hS.refl (heldNode_spec _ S) fun n hn => ?_
    refine Within.seq (plantSpec_accounts hS _) fun src S₁ h₁ => ?_
    have hS₁ := hS.after h₁
    exact Within.seq (sync_accounts hS₁ (addChildAt_heeds hS₁.wellformed hS₁.ledger
      (h₁.heeds.1.settled _ (hS.held _ hn)) _ _)) fun _ S₂ h₂ =>
        Within.get (Within.pure (hS₁.after h₂).refl _)
  | .nodeRemove node address => by
    unfold runStep
    refine Within.after_read hS.refl (heldNode_spec _ S) fun n hn => ?_
    exact Within.seq (sync_accounts hS (removeChildAt_heeds hS.wellformed hS.ledger
      (hS.held _ hn) _)) fun _ S₁ h₁ => Within.get (Within.pure (hS.after h₁).refl _)
  | .nodeChanged node address => by
    unfold runStep
    refine Within.after_read hS.refl (heldNode_spec _ S) fun n hn => ?_
    exact Within.seq (sync_accounts hS (childChangedAt_heeds hS.wellformed hS.ledger
      (hS.held _ hn) _)) fun _ S₁ h₁ => Within.get (Within.pure (hS.after h₁).refl _)
  | .modelChildIndex node => by
    unfold runStep
    refine Within.after_read hS.refl (heldNode_spec _ S) fun n _ => Within.get ?_
    exact Within.after_read hS.refl (orFail_spec _ _ S) fun _ _ => Within.pure hS.refl _
  | .modelPath node => by
    unfold runStep
    refine Within.after_read hS.refl (heldNode_spec _ S) fun n _ => Within.get ?_
    exact Within.after_read hS.refl (orFail_spec _ _ S) fun _ _ => Within.pure hS.refl _
  | .usesModel node name => by
    unfold runStep
    exact Within.after_read hS.refl (heldNode_spec _ S) fun _ _ => Within.get (Within.pure hS.refl _)
  | .render (some l) => by
    unfold runStep
    exact Within.after_read hS.refl (heldNode_spec _ S) fun _ _ => Within.get (Within.pure hS.refl _)
  | .render none => by
    unfold runStep
    exact Within.after_read hS.refl (requireTracker_spec S) fun _ _ =>
      Within.get (Within.pure hS.refl _)
  | .malformed reason => by
    unfold runStep
    exact Within.throw hS.refl _

/-- A step starts from a clean journal, which the ledger does not read. -/
theorem Accounted.step_accounts (hS : Accounted S) (st : Step) : Accounts S (S.step st).2 := by
  have hh : Heeds S.sync { S.sync with journal := #[] } :=
    Heeds.of_same hS.wellformed hS.ledger rfl rfl rfl rfl rfl rfl hS.ledger.records
  have h₀ : Accounts S { S with sync := { S.sync with journal := #[] } } :=
    ⟨hh, fun p hp => hh.1.settled _ (hS.held p hp)⟩
  exact h₀.trans (Ensures.always (runStep_accounts (hS.after h₀) st))

end Steps

section Setup

/-- The setup so far: trees created, models entered and trees labelled, with no inlaid node, no
feed, no listener and no held node, names resolved through the library, and every label naming a
tree of the forest. -/
structure Preparing (S : State) : Prop where
  books : Books S.sync
  nodes : S.sync.nodes = #[]
  feeds : S.sync.feeds = #[]
  listeners : S.sync.listeners = #[]
  resolver : S.sync.resolver = .library
  held : S.held = []
  labels : ∀ p ∈ S.trees, p.2.val < S.sync.forest.trees.size

/-- What a part of the setup keeps: the above, with no tree gone. -/
def Prepares (S S' : State) : Prop :=
  Preparing S' ∧ S.sync.forest.trees.size ≤ S'.sync.forest.trees.size

theorem Preparing.refl (hP : Preparing S) : Prepares S S := ⟨hP, Nat.le_refl _⟩

theorem Prepares.trans (h₁ : Prepares S₁ S₂) (h₂ : Prepares S₂ S') : Prepares S₁ S' :=
  ⟨h₂.1, Nat.le_trans h₁.2 h₂.2⟩

instance : Trans Prepares Prepares Prepares := ⟨Prepares.trans⟩

theorem fresh_preparing (settings : Settings) : Preparing (State.fresh settings) := by
  have htree : ∀ T, (State.fresh settings).sync.forest.tree T = default := fun _ =>
    tree_of_size_le (Nat.zero_le _)
  have hfeed : ∀ g, (State.fresh settings).sync.feed g = default := fun _ =>
    State.feed_of_size_le (Nat.zero_le _)
  refine ⟨⟨fun T h g => ?_, fun T => ?_, fun g _ => ?_, fun m g hm => ?_, fun g hg => ?_,
    fun name T b h => ?_⟩, rfl, rfl, rfl, rfl, rfl, (by intros; contradiction)⟩
  · rw [htree, hfeed]
    change (Slots.empty : Slots SubscriberId).get? h = some g ↔ (none : Option Handle) = some h ∧ _
    simp [Slots.get?_eq_some_iff, Slots.empty]
  · rw [htree]
    exact Slots.wf_empty
  · rw [hfeed]
    rfl
  · rw [State.feedOf_of_size_le (Nat.zero_le _)] at hm
    cases hm
  · exact absurd hg (Nat.not_lt_zero _)
  · cases h

theorem Preparing.of_plants (hP : Preparing S) (h : Plants S S') : Prepares S S' := by
  have hsync := h.sync
  refine ⟨⟨?_, ?_, ?_, ?_, ?_, ?_, ?_⟩, h.tables.1⟩
  · rw [hsync]
    exact hP.books.of_forest h.tables
  · rw [hsync]
    exact hP.nodes
  · rw [hsync]
    exact hP.feeds
  · rw [hsync]
    exact hP.listeners
  · rw [hsync]
    exact hP.resolver
  · rw [h.held]
    exact hP.held
  · rw [h.trees]
    exact fun p hp => Nat.lt_of_lt_of_le (hP.labels p hp) h.tables.1

theorem createTree_prepares (hP : Preparing S) (spec : TreeSpec) :
    Ensures (createTree spec) S (fun t S' => Prepares S S' ∧ t.val < S'.sync.forest.trees.size)
      fun _ S' => Prepares S S' :=
  (createTree_plants spec).mono (fun _ _ h => ⟨hP.of_plants h.1, h.2⟩) fun _ _ h => hP.of_plants h

theorem enterModel_prepares (hP : Preparing S) (name : String) {t : TreeId}
    (ht : t.val < S.sync.forest.trees.size) : Within Prepares (enterModel name t) S := by
  unfold enterModel
  refine Within.get (Ensures.set ?_)
  have h₁ : Plants S { S with sync := { S.sync with
      forest := S.sync.forest.modifyTree t fun tr => { tr with serving := some name } } } :=
    ⟨rfl, rfl, rfl, Source.Forest.keepsModels_modifyTree _ _,
      Source.Forest.keepsTables_modifyTree _ fun _ => rfl⟩
  have hP₁ := hP.of_plants h₁
  refine hP₁.trans ⟨⟨hP₁.1.books.of_library fun n T hT => ?_, hP₁.1.nodes, hP₁.1.feeds,
    hP₁.1.listeners, hP₁.1.resolver, hP₁.1.held, hP₁.1.labels⟩, Nat.le_refl _⟩
  rw [lookup_entered] at hT
  split at hT
  · cases hT
    exact .inr (Nat.lt_of_lt_of_le ht h₁.tables.1)
  · exact .inl hT

theorem labelTree_prepares (hP : Preparing S) (name : String) {t : TreeId}
    (ht : t.val < S.sync.forest.trees.size) : Within Prepares (labelTree name t) S := by
  unfold labelTree
  refine Within.get (Ensures.set ⟨⟨hP.books, hP.nodes, hP.feeds, hP.listeners, hP.resolver,
    hP.held, fun p hp => ?_⟩, Nat.le_refl _⟩)
  have hnamed : ∀ p ∈ relabelled S.trees name t, p.2.val < S.sync.forest.trees.size := by
    intro p hp
    obtain hp | rfl := mem_relabelled hp
    · exact hP.labels p hp
    · exact ht
  dsimp only at hp
  split at hp
  · rename_i old hold
    obtain hp | hp := List.mem_append.1 hp
    · exact hnamed p hp
    · rw [List.mem_singleton.1 hp]
      exact hP.labels (name, old) (mem_of_lookup hold)
  · exact hnamed p hp

/-- The tracker a setup ends with: its source, no feed, no root and no listener, with a resolver
naming trees of the forest. -/
theorem Preparing.tracked (hP : Preparing S) {source : TreeId} {key : String} {resolver : Resolver}
    (hsrc : source.val < S.sync.forest.trees.size)
    (hres : ∀ t, resolver = .same t ∨ resolver = .plain t → t.val < S.sync.forest.trees.size) :
    Ledger { S.sync with
      resolver := resolver, tracker := ⟨source, key, Slots.empty, none, none, true⟩ } ∧
    Listening { S.sync with
      resolver := resolver, tracker := ⟨source, key, Slots.empty, none, none, true⟩ } := by
  have hresolves : ∀ name T b, ({ S.sync with
      resolver := resolver, tracker := ⟨source, key, Slots.empty, none, none, true⟩ } :
        Sync.State).resolve name = some (T, b) → T.val < S.sync.forest.trees.size := by
    intro name T b h
    cases resolver with
    | library =>
      refine hP.books.resolves name T b ?_
      unfold State.resolve at h ⊢
      rw [hP.resolver]
      exact h
    | same t =>
      simp only [State.resolve, Option.some.injEq, Prod.mk.injEq] at h
      rw [← h.1]
      exact hres t (.inl rfl)
    | plain t =>
      simp only [State.resolve, Option.some.injEq, Prod.mk.injEq] at h
      rw [← h.1]
      exact hres t (.inr rfl)
  have hb : Books { S.sync with
      resolver := resolver, tracker := ⟨source, key, Slots.empty, none, none, true⟩ } :=
    hP.books.grow (fun _ => rfl) rfl (Nat.le_refl _) hresolves hP.books.holder
  refine ⟨Ledger.of_quiet hb rfl rfl (fun g => ?_) (fun lid r hr => ?_) Slots.wf_empty hsrc,
    fun _ => ?_⟩
  · rw [State.feed_of_size_le (by simp [hP.feeds])]
    rfl
  · have hlid : S.sync.listener lid = default := by simp [State.listener, hP.listeners]
    rw [show ({ S.sync with
      resolver := resolver, tracker := ⟨source, key, Slots.empty, none, none, true⟩ } :
        Sync.State).listener lid = S.sync.listener lid from rfl, hlid] at hr
    cases hr
  · simp [Slots.count, Slots.values, Slots.empty]

/-- The setup opens no feed and ends with a tracker that has no listener, no feed and no root, so
the ledger holds from the start. -/
theorem prepare_ledger (hP : Preparing S) (script : Script) :
    Ensures (prepare script) S (fun _ S' => Ledger S'.sync ∧ Listening S'.sync ∧ S'.held = [])
      fun _ _ => True := by
  unfold prepare
  refine Ensures.andThen ((createTree_prepares hP _).mono (fun _ _ h => h) fun _ _ _ => trivial)
    fun source S₁ ⟨h₁, hsrc⟩ => ?_
  refine Ensures.andThen ((labelTree_prepares h₁.1 _ hsrc).mono (fun _ _ h => h)
    fun _ _ _ => trivial) fun _ S₂ h₂ => ?_
  refine Ensures.andThen ((Within.forIn_rounds h₂.1.refl (fun ⟨name, spec⟩ _ S₃ h₃ =>
    Ensures.andThen (createTree_prepares h₃.1 spec) fun t S₄ ⟨h₄, ht⟩ =>
      (Within.seq (enterModel_prepares h₄.1 name ht) fun _ S₅ h₅ =>
        Within.seq (labelTree_prepares h₅.1 name (Nat.lt_of_lt_of_le ht h₅.2)) fun _ S₆ h₆ =>
          Within.pure h₆.1.refl _).imp fun _ h => h₄.trans h) _ _).mono (fun _ _ h => h)
    fun _ _ _ => trivial) fun _ S₃ h₃ => ?_
  refine Ensures.andThen ((Within.forIn_rounds h₃.1.refl (fun ⟨label, spec⟩ _ S₄ h₄ =>
    Ensures.andThen (createTree_prepares h₄.1 spec) fun t S₅ ⟨h₅, ht⟩ =>
      (Within.seq (labelTree_prepares h₅.1 label ht) fun _ S₆ h₆ =>
        Within.pure h₆.1.refl _).imp fun _ h => h₅.trans h) _ _).mono (fun _ _ h => h)
    fun _ _ _ => trivial) fun _ S₄ h₄ => ?_
  have hsrc₄ : source.val < S₄.sync.forest.trees.size :=
    Nat.lt_of_lt_of_le hsrc (Nat.le_trans h₂.2 (Nat.le_trans h₃.2 h₄.2))
  extract_lets track
  have htrack : ∀ resolver,
      (∀ t, resolver = .same t ∨ resolver = .plain t → t.val < S₄.sync.forest.trees.size) →
      Ensures (track resolver) S₄ (fun _ S' => Ledger S'.sync ∧ Listening S'.sync ∧ S'.held = [])
        fun _ _ => True := fun resolver hres =>
    Ensures.bind (Ensures.get (Ensures.set
      ⟨(h₄.1.tracked hsrc₄ hres).1, (h₄.1.tracked hsrc₄ hres).2, h₄.1.held⟩))
  have hlabelled : ∀ label, Ensures (treeNamed label) S₄
      (fun t S' => S' = S₄ ∧ t.val < S₄.sync.forest.trees.size) fun _ _ => True := fun label =>
    (treeNamed_spec label S₄).mono (fun _ _ h => ⟨h.1, h₄.1.labels _ h.2⟩) fun _ _ _ => trivial
  split
  · exact Ensures.bind (Ensures.pure (htrack _ fun t h => by obtain h | h := h <;> cases h))
  · refine Ensures.bind (Ensures.map ((hlabelled _).mono (fun t S' ⟨hS', ht⟩ => ?_)
      fun _ _ h => h))
    subst hS'
    refine htrack _ fun t' h => ?_
    obtain h | h := h
    · cases h
      exact ht
    · cases h
  · refine Ensures.bind (Ensures.map ((hlabelled _).mono (fun t S' ⟨hS', ht⟩ => ?_)
      fun _ _ h => h))
    subst hS'
    refine htrack _ fun t' h => ?_
    obtain h | h := h
    · cases h
    · cases h
      exact ht

/-- Every state a script sets up is accounted for. -/
theorem Script.begin_accounted {script : Script} (h : script.begin = .ok S) : Accounted S := by
  have hv := Script.begin_valid h
  unfold Script.begin at h
  split at h
  · cases h
  · rename_i settings _
    dsimp only at h
    split at h
    · cases h
    · rename_i s hs
      have hexec : exec (prepare _) (State.fresh settings) = (.ok (), s) := hs
      have hprep := (prepare_ledger (fresh_preparing settings)
        { script with models := script.models.mergeSort fun a b => decide (a.1 ≤ b.1) }).ok_of hexec
      cases h
      obtain ⟨hl, hlis, hheld⟩ := hprep
      exact ⟨hv.wellformed, hl, hlis, by rw [hheld]; intros; contradiction⟩

end Setup

section Runs

/-- Every state a session reaches is accounted for. -/
theorem Reachable.accounted (h : Reachable S) : Accounted S := by
  induction h with
  | begin h => exact Script.begin_accounted h
  | step st _ ih => exact ih.after (ih.step_accounts st)

/-- Steps from an accounted state keep the ledger. -/
theorem Follows.accounts (hS : Accounted S) (h : Follows S S') : Accounts S S' := by
  induction h with
  | refl => exact hS.refl
  | step st _ ih => exact ih.trans ((hS.after ih).step_accounts st)

end Runs

end Inlay.Session
