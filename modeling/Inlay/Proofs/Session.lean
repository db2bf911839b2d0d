import Inlay.Proofs.Edit
import Inlay.Session.Run

namespace Inlay.Session

open Sync

variable {S S' S₁ S₂ : State}

section Labels

theorem mem_relabelled {α : Type} {l : List (String × α)} {label : String} {a : α}
    {p : String × α} (h : p ∈ relabelled l label a) : p ∈ l ∨ p = (label, a) := by
  induction l with
  | nil => exact .inr (List.mem_singleton.1 h)
  | cons q rest ih =>
    unfold relabelled at h
    split at h
    · rcases List.mem_cons.1 h with rfl | h
      · exact .inr rfl
      · exact .inl (List.mem_cons_of_mem _ h)
    · rcases List.mem_cons.1 h with rfl | h
      · exact .inl List.mem_cons_self
      · exact (ih h).imp (List.mem_cons_of_mem _) id

theorem mem_of_lookup {α : Type} {l : List (String × α)} {k : String} {a : α}
    (h : l.lookup k = some a) : (k, a) ∈ l := by
  induction l with
  | nil => cases h
  | cons p rest ih =>
    obtain ⟨k', b⟩ := p
    by_cases hk : k = k'
    · subst hk
      rw [List.lookup_cons, beq_self_eq_true] at h
      cases h
      exact List.mem_cons_self
    · rw [List.lookup_cons, beq_false_of_ne hk] at h
      exact List.mem_cons_of_mem _ (ih h)

end Labels

section Invariant

/-- The invariant of a session between steps: the inlaid tree is well formed and every held node
is a node of the heap. -/
structure Valid (S : State) : Prop where
  wellformed : Wellformed S.sync
  held : ∀ p ∈ S.held, p.2.val < S.sync.nodes.size

/-- What a step keeps: the invariant and every frozen node, and every held node in the heap. -/
structure Advances (S S' : State) : Prop where
  holds : Holds S.sync S'.sync
  held : ∀ p ∈ S'.held, p.2.val < S'.sync.nodes.size

theorem Valid.refl (hv : Valid S) : Advances S S := ⟨.refl hv.wellformed, hv.held⟩

theorem Advances.valid (h : Advances S S') : Valid S' := ⟨h.holds.wellformed, h.held⟩

theorem Advances.trans (h₁ : Advances S₁ S₂) (h₂ : Advances S₂ S') : Advances S₁ S' :=
  ⟨h₁.holds.trans h₂.holds, h₂.held⟩

instance : Trans Advances Advances Advances := ⟨Advances.trans⟩

/-- A change of the trees and the inlaid tree that keeps the invariant, with the held nodes as
they were. -/
theorem Advances.of_sync (hv : Valid S) {s : Sync.State} (h : Holds S.sync s) :
    Advances S { S with sync := s } :=
  ⟨h, fun p hp => Nat.lt_of_lt_of_le (hv.held p hp) h.keeps.size⟩

/-- An operation on the trees and the inlaid tree, run by the session: what it keeps of the trees
and the inlaid tree, the session keeps of its state, whether the operation answers or fails. -/
theorem sync_within {R : Sync.State → Sync.State → Prop} {Q : State → State → Prop} {α : Type}
    {r : Sync.Run α} (h : Within R r S.sync) (hQ : ∀ s, R S.sync s → Q S { S with sync := s }) :
    Within Q (sync r) S := by
  unfold sync
  refine Within.get ?_
  have hr := Ensures.always h
  rw [show StateT.run (ExceptT.run r) S.sync = exec r S.sync from rfl]
  rcases hx : exec r S.sync with ⟨result, s⟩
  rw [hx] at hr
  refine Ensures.bind (Ensures.set ?_)
  cases result with
  | ok a => exact Ensures.pure (hQ s hr)
  | error e => exact Ensures.throw (hQ s hr)

theorem sync_advances (hv : Valid S) {α : Type} {r : Sync.Run α} (h : Safe r S.sync) :
    Within Advances (sync r) S :=
  sync_within h fun _ hs => Advances.of_sync hv hs

/-- A change of labels only, every held node a node of the heap. -/
theorem Advances.of_labels (hv : Valid S) (hsync : S'.sync = S.sync)
    (hheld : ∀ p ∈ S'.held, p.2.val < S.sync.nodes.size) : Advances S S' :=
  ⟨by rw [hsync]; exact .refl hv.wellformed, fun p hp => by rw [hsync]; exact hheld p hp⟩

/-- An edit of the forest that keeps every model keeps the invariant. -/
theorem Advances.of_forest (hv : Valid S) {s : Sync.State} (hn : s.nodes = S.sync.nodes)
    (hf : s.feeds = S.sync.feeds) (ht : s.tracker = S.sync.tracker)
    (hk : S.sync.forest.KeepsModels s.forest) : Advances S { S with sync := s } :=
  .of_sync hv (Holds.of_forest hv.wellformed hn hf (by rw [ht]) (by rw [ht]) hk)

end Invariant

section Reads

theorem orFail_spec {α ε : Type} (f : ε → Failure) (r : Except ε α) (S : State) :
    Ensures (orFail f r) S (fun a S' => S' = S ∧ r = .ok a) fun _ S' => S' = S := by
  cases r with
  | ok a => exact Ensures.pure ⟨rfl, rfl⟩
  | error e => exact Ensures.throw rfl

theorem requireTracker_spec (S : State) :
    Ensures requireTracker S (fun _ S' => S' = S ∧ S.sync.tracker.present = true)
      fun _ S' => S' = S := by
  unfold requireTracker
  refine Ensures.bind (Ensures.get ?_)
  split
  · exact Ensures.throw rfl
  · rename_i h
    exact Ensures.pure ⟨rfl, by simpa using h⟩

theorem heldNode_spec (label : String) (S : State) :
    Ensures (heldNode label) S (fun n S' => S' = S ∧ (label, n) ∈ S.held) fun _ S' => S' = S := by
  unfold heldNode
  refine Ensures.bind (Ensures.get ?_)
  split
  · rename_i n hn
    exact Ensures.pure ⟨rfl, mem_of_lookup hn⟩
  · exact Ensures.throw rfl

theorem treeNamed_spec (label : String) (S : State) :
    Ensures (treeNamed label) S (fun t S' => S' = S ∧ (label, t) ∈ S.trees) fun _ S' => S' = S := by
  unfold treeNamed
  refine Ensures.bind (Ensures.get ?_)
  split
  · rename_i t ht
    exact Ensures.pure ⟨rfl, mem_of_lookup ht⟩
  · exact Ensures.throw rfl

end Reads

section Edits

theorem plantSpec_advances (hv : Valid S) (spec : NodeSpec) : Within Advances (plantSpec spec) S := by
  unfold plantSpec
  refine Within.get (Within.after_read hv.refl (orFail_spec _ _ S) fun draft _ => ?_)
  exact Ensures.bind (Ensures.set (Ensures.pure (Advances.of_forest hv rfl rfl rfl
    (Source.Forest.keepsModels_plant _ _))))

theorem createTree_advances (hv : Valid S) (spec : TreeSpec) :
    Within Advances (createTree spec) S := by
  unfold createTree
  refine Within.get ?_
  extract_lets session addRooted
  have hrooted : ∀ x S₁, Valid S₁ → Within Advances (addRooted x) S₁ := by
    rintro ⟨settings, serving, root⟩ S₁ h₁
    dsimp only [addRooted]
    refine Within.get (Within.seq (Ensures.set (Advances.of_forest h₁ rfl rfl rfl ?_))
      fun _ S₂ h₂ => Within.pure h₂.valid.refl _)
    cases root with
    | none => exact Source.Forest.keepsModels_addTree _
    | some r =>
      exact (Source.Forest.keepsModels_addTree _).trans
        ((Source.Forest.keepsModels_adoptWithin _ _ _ _).trans
          (Source.Forest.keepsModels_modifyTree _ _))
  split
  · exact Within.seq (Within.pure hv.refl _) fun x S₁ h₁ => hrooted x S₁ h₁.valid
  · dsimp only
    split
    · exact Within.seq (Within.map (plantSpec_advances hv _)) fun root S₂ h₂ =>
        Within.seq (Within.pure h₂.valid.refl _) fun x S₁ h₁ => hrooted x S₁ h₁.valid
    · exact Within.seq (Within.pure hv.refl _) fun root S₂ h₂ =>
        Within.seq (Within.pure h₂.valid.refl _) fun x S₁ h₁ => hrooted x S₁ h₁.valid
  · dsimp only
    exact Within.after_read hv.refl (orFail_spec _ _ S) fun draft _ => Within.get
      (Within.seq (Ensures.set (Advances.of_forest hv rfl rfl rfl
        (Source.Forest.keepsModels_plant _ _))) fun _ S₂ h₂ =>
          Within.seq (Within.pure h₂.valid.refl _) fun x S₁ h₁ => hrooted x S₁ h₁.valid)

theorem enterModel_advances (hv : Valid S) (name : String) (t : TreeId) :
    Within Advances (enterModel name t) S :=
  Within.get (Ensures.set (Advances.of_forest hv rfl rfl rfl (Source.Forest.keepsModels_modifyTree _ _)))

theorem labelTree_advances (hv : Valid S) (name : String) (t : TreeId) :
    Within Advances (labelTree name t) S :=
  Within.get (Ensures.set (Advances.of_labels hv rfl hv.held))

end Edits

section Holding

/-- A parent that something still reaches is a node of the heap. -/
theorem parentOf_lt (hw : Wellformed S.sync) {x p : InlaidId} (h : S.parentOf x = some p) :
    p.val < S.sync.nodes.size := by
  unfold State.parentOf Sync.State.parentAmong at h
  split at h
  · rename_i q hq
    split at h
    · cases h
      exact hw.arena.parent_bound x _ hq
    · cases h
  · cases h

/-- Climbing keeps any property of a node that passes to its parent. -/
theorem climb_induct {P : InlaidId → Prop} (hstep : ∀ {x p}, P x → S.parentOf x = some p → P p) :
    ∀ (n : Nat) (x y : InlaidId), P x → climb S n x = some y → P y
  | 0, x, y, hx, h => by cases h; exact hx
  | n + 1, x, y, hx, h => by
    rw [climb] at h
    split at h
    · rename_i p hp
      exact climb_induct hstep n p y (hstep hx hp) h
    · cases h

/-- Descending keeps any property of a node that passes to each of its children. -/
theorem descend_induct {P : InlaidId → Prop}
    (hstep : ∀ {x c}, P x → c ∈ (S.sync.node x).children → P c) :
    ∀ (down : List Nat) (x y : InlaidId), P x → descend S x down = some y → P y
  | [], x, y, hx, h => by cases h; exact hx
  | i :: rest, x, y, hx, h => by
    simp only [descend, List.foldlM_cons] at h
    cases hc : (S.sync.node x).children[i]? with
    | none => rw [hc] at h; cases h
    | some c =>
      rw [hc] at h
      exact descend_induct hstep rest c y (hstep hx (List.mem_of_getElem? hc)) h

theorem climb_lt (hw : Wellformed S.sync) :
    ∀ (n : Nat) (x y : InlaidId), x.val < S.sync.nodes.size → climb S n x = some y →
      y.val < S.sync.nodes.size :=
  climb_induct fun _ hp => parentOf_lt hw hp

theorem descend_lt (hw : Wellformed S.sync) :
    ∀ (down : List Nat) (x y : InlaidId), x.val < S.sync.nodes.size → descend S x down = some y →
      y.val < S.sync.nodes.size :=
  descend_induct fun _ hc => (hw.arena.child_bound _ _ hc).2

/-- Holding the node reached by climbing and then descending keeps whatever relabelling that
node keeps; when either walk fails nothing changes. -/
theorem hold_within {R : State → State → Prop} (hrefl : R S S) {label : String} {up : Nat}
    {down : List Nat} {first : InlaidId}
    (hheld : ∀ top node, climb S up first = some top → descend S top down = some node →
      R S { S with held := relabelled S.held label node }) :
    Within R (do
      let s ← get
      let some top := climb s up first | throw .noNode
      let some node := descend s top down | throw .noNode
      set { s with held := relabelled s.held label node }
      return Reply.inlaid (s.sync.summary node) : Act Reply) S := by
  refine Within.get ?_
  split
  · rename_i top htop
    split
    · rename_i node hnode
      exact Ensures.bind (Ensures.set (Ensures.pure (hheld top node htop hnode)))
    · exact Within.throw hrefl _
  · exact Within.throw hrefl _

/-- Holding the node reached by climbing and then descending from a node of the heap. -/
theorem hold_advances (hv : Valid S) (label : String) (up : Nat) (down : List Nat)
    {first : InlaidId} (hfirst : first.val < S.sync.nodes.size) :
    Within Advances (do
      let s ← get
      let some top := climb s up first | throw .noNode
      let some node := descend s top down | throw .noNode
      set { s with held := relabelled s.held label node }
      return Reply.inlaid (s.sync.summary node) : Act Reply) S := by
  refine hold_within hv.refl fun top node htop hnode => Advances.of_labels hv rfl fun p hp => ?_
  rcases mem_relabelled hp with hp | rfl
  · exact hv.held p hp
  · exact descend_lt hv.wellformed down top node (climb_lt hv.wellformed up first top hfirst htop) hnode

end Holding

section Steps

/-- Every step keeps the invariant and every frozen node, whether it answers or fails. -/
theorem runStep_advances (hv : Valid S) : ∀ st : Step, Within Advances (runStep st) S
  | .listen label kind => by
    unfold runStep
    refine Within.after_read hv.refl (requireTracker_spec S) fun _ _ => ?_
    refine Within.seq (sync_advances hv (addListenerNamed_safe hv.wellformed _)) fun _ S₁ h₁ => ?_
    exact Within.seq (Ensures.modify (Advances.of_labels h₁.valid rfl h₁.held))
      fun _ S₂ h₂ => Within.pure h₂.valid.refl _
  | .recorded label clear => by
    unfold runStep
    refine Within.get ?_
    dsimp only
    split
    · rename_i lid _
      split
      · split
        · exact Within.seq (sync_advances hv (modifyListener_safe hv.wellformed _ _)) fun _ S₁ h₁ =>
            Within.pure h₁.valid.refl _
        · exact Within.pure hv.refl _
      · exact Within.throw hv.refl _
    · exact Within.throw hv.refl _
  | .describe node => by
    unfold runStep
    exact Within.after_read hv.refl (heldNode_spec _ S) fun _ _ => Within.get (Within.pure hv.refl _)
  | .hasModel name => by
    unfold runStep
    exact Within.get (Within.pure hv.refl _)
  | .unlisten label => by
    unfold runStep
    refine Within.after_read hv.refl (requireTracker_spec S) fun _ _ => Within.get ?_
    split
    · exact Within.seq (sync_advances hv (removeListener_safe hv.wellformed _)) fun _ S₁ h₁ =>
        Within.pure h₁.valid.refl _
    · exact Within.throw hv.refl _
  | .dropTracker => by
    unfold runStep
    refine Within.after_read hv.refl (requireTracker_spec S) fun _ _ => ?_
    exact Within.seq (sync_advances hv (dropTracker_safe hv.wellformed)) fun _ S₁ h₁ =>
      Within.pure h₁.valid.refl _
  | .setRoot tree node => by
    unfold runStep
    refine Within.after_read hv.refl (treeNamed_spec _ S) fun t _ => ?_
    refine Within.seq (plantSpec_advances hv _) fun src S₁ h₁ => ?_
    exact Within.seq (sync_advances h₁.valid (setRoot_safe h₁.valid.wellformed _ _)) fun _ S₂ h₂ =>
      Within.get (Within.pure h₂.valid.refl _)
  | .clearRoot tree => by
    unfold runStep
    refine Within.after_read hv.refl (treeNamed_spec _ S) fun t _ => ?_
    exact Within.seq (sync_advances hv (clearRoot_safe hv.wellformed _)) fun _ S₁ h₁ =>
      Within.get (Within.pure h₁.valid.refl _)
  | .addChild tree parent index node => by
    unfold runStep
    refine Within.after_read hv.refl (treeNamed_spec _ S) fun t _ => ?_
    refine Within.seq (plantSpec_advances hv _) fun src S₁ h₁ => ?_
    exact Within.seq (sync_advances h₁.valid (addSourceChild_safe h₁.valid.wellformed _ _ _ _))
      fun _ S₂ h₂ => Within.get (Within.pure h₂.valid.refl _)
  | .removeChild tree address => by
    unfold runStep
    refine Within.after_read hv.refl (treeNamed_spec _ S) fun t _ => ?_
    exact Within.seq (sync_advances hv (removeSourceChild_safe hv.wellformed _ _)) fun _ S₁ h₁ =>
      Within.get (Within.pure h₁.valid.refl _)
  | .setPayload tree address payload => by
    unfold runStep
    refine Within.after_read hv.refl (treeNamed_spec _ S) fun t _ => ?_
    exact Within.seq (sync_advances hv (setPayload_safe hv.wellformed _ _ _)) fun _ S₁ h₁ =>
      Within.pure h₁.valid.refl _
  | .emit tree event => by
    unfold runStep
    refine Within.after_read hv.refl (treeNamed_spec _ S) fun t _ => ?_
    have hdeliver : ∀ e S₁, Valid S₁ →
        Within Advances (do sync (Sync.deliver t e); pure Reply.nothing : Act Reply) S₁ :=
      fun e S₁ h₁ => Within.seq (sync_advances h₁ (deliver_safe h₁.wellformed _ _)) fun _ S₂ h₂ =>
        Within.pure h₂.valid.refl _
    dsimp only
    split
    · exact Within.seq (plantSpec_advances hv _) fun _ S₁ h₁ =>
        Within.seq (Within.pure h₁.valid.refl _) fun e S₂ h₂ => hdeliver e S₂ h₂.valid
    · exact Within.seq (Within.pure hv.refl _) fun e S₁ h₁ => hdeliver e S₁ h₁.valid
    · exact Within.seq (Within.pure hv.refl _) fun e S₁ h₁ => hdeliver e S₁ h₁.valid
  | .sourceNode tree address => by
    unfold runStep
    exact Within.after_read hv.refl (treeNamed_spec _ S) fun t _ => Within.get (Within.pure hv.refl _)
  | .insertModel name spec => by
    unfold runStep
    refine Within.seq (createTree_advances hv spec) fun t S₁ h₁ => ?_
    refine Within.seq (enterModel_advances h₁.valid _ _) fun _ S₂ h₂ => ?_
    exact Within.seq (labelTree_advances h₂.valid _ _) fun _ S₃ h₃ => Within.pure h₃.valid.refl _
  | .removeModel name => by
    unfold runStep
    exact Within.get (Within.seq (Ensures.set (Advances.of_forest hv rfl rfl rfl (.refl _)))
      fun _ S₁ h₁ => Within.pure h₁.valid.refl _)
  | .hold label (some l) up down => by
    unfold runStep
    exact Within.after_read hv.refl (heldNode_spec _ S) fun _ h =>
      hold_advances hv label up down (hv.held _ h)
  | .hold label none up down => by
    unfold runStep
    dsimp only
    refine Within.after_read hv.refl (requireTracker_spec S) fun _ _ => Within.get ?_
    split
    · rename_i r hr
      exact Ensures.bind (Ensures.pure (hold_advances hv label up down (hv.wellformed.root_lt r hr)))
    · exact Ensures.bind (Ensures.throw hv.refl)
  | .inspect node => by
    unfold runStep
    exact Within.after_read hv.refl (heldNode_spec _ S) fun _ _ => Within.get (Within.pure hv.refl _)
  | .nodeAdd node address child => by
    unfold runStep
    refine Within.after_read hv.refl (heldNode_spec _ S) fun n hn => ?_
    refine Within.seq (plantSpec_advances hv _) fun src S₁ h₁ => ?_
    have hn₁ : n.val < S₁.sync.nodes.size := Nat.lt_of_lt_of_le (hv.held _ hn) h₁.holds.keeps.size
    exact Within.seq (sync_advances h₁.valid (addChildAt_safe h₁.valid.wellformed hn₁ _ _))
      fun _ S₂ h₂ => Within.get (Within.pure h₂.valid.refl _)
  | .nodeRemove node address => by
    unfold runStep
    refine Within.after_read hv.refl (heldNode_spec _ S) fun n _ => ?_
    exact Within.seq (sync_advances hv (removeChildAt_safe hv.wellformed _ _))
      fun _ S₁ h₁ => Within.get (Within.pure h₁.valid.refl _)
  | .nodeChanged node address => by
    unfold runStep
    refine Within.after_read hv.refl (heldNode_spec _ S) fun n _ => ?_
    exact Within.seq (sync_advances hv (childChangedAt_safe hv.wellformed _ _))
      fun _ S₁ h₁ => Within.get (Within.pure h₁.valid.refl _)
  | .modelChildIndex node => by
    unfold runStep
    refine Within.after_read hv.refl (heldNode_spec _ S) fun n _ => Within.get ?_
    exact Within.after_read hv.refl (orFail_spec _ _ S) fun _ _ => Within.pure hv.refl _
  | .modelPath node => by
    unfold runStep
    refine Within.after_read hv.refl (heldNode_spec _ S) fun n _ => Within.get ?_
    exact Within.after_read hv.refl (orFail_spec _ _ S) fun _ _ => Within.pure hv.refl _
  | .usesModel node name => by
    unfold runStep
    exact Within.after_read hv.refl (heldNode_spec _ S) fun _ _ => Within.get (Within.pure hv.refl _)
  | .render (some l) => by
    unfold runStep
    exact Within.after_read hv.refl (heldNode_spec _ S) fun _ _ => Within.get (Within.pure hv.refl _)
  | .render none => by
    unfold runStep
    exact Within.after_read hv.refl (requireTracker_spec S) fun _ _ =>
      Within.get (Within.pure hv.refl _)
  | .malformed reason => by
    unfold runStep
    exact Within.throw hv.refl _

/-- A step starts from a clean journal, which changes nothing the invariant reads. -/
theorem Valid.step_advances (hv : Valid S) (st : Step) : Advances S (S.step st).2 := by
  have h₀ : Advances S { S with sync := { S.sync with journal := #[] } } :=
    .of_sync hv (Holds.of_forest hv.wellformed rfl rfl rfl rfl (.refl _))
  exact h₀.trans (Ensures.always (runStep_advances h₀.valid st))

end Steps

section Runs

theorem fresh_valid (settings : Settings) : Valid (State.fresh settings) :=
  ⟨.of_root_none (.of_empty rfl rfl) rfl, (by intros; contradiction)⟩

theorem prepare_advances (hv : Valid S) (script : Script) : Within Advances (prepare script) S := by
  unfold prepare
  refine Within.seq (createTree_advances hv _) fun source S₁ h₁ => ?_
  refine Within.seq (labelTree_advances h₁.valid _ _) fun _ S₂ h₂ => ?_
  refine Within.seq (Within.forIn_rounds h₂.valid.refl (fun ⟨name, spec⟩ _ S₃ h₃ =>
    Within.seq (createTree_advances h₃.valid spec) fun t S₄ h₄ =>
      Within.seq (enterModel_advances h₄.valid name t) fun _ S₅ h₅ =>
        Within.seq (labelTree_advances h₅.valid name t) fun _ S₆ h₆ =>
          Within.pure h₆.valid.refl _) _ _) fun _ S₃ h₃ => ?_
  refine Within.seq (Within.forIn_rounds h₃.valid.refl (fun ⟨label, spec⟩ _ S₄ h₄ =>
    Within.seq (createTree_advances h₄.valid spec) fun t S₅ h₅ =>
      Within.seq (labelTree_advances h₅.valid label t) fun _ S₆ h₆ =>
        Within.pure h₆.valid.refl _) _ _) fun _ S₄ h₄ => ?_
  extract_lets track
  have htrack : ∀ resolver S₅, Valid S₅ → Within Advances (track resolver) S₅ := by
    intro resolver S₅ h₅
    refine Within.get (Ensures.set (Advances.of_sync h₅ (Holds.of_root_none
      (h₅.wellformed.arena.of_eq (fun _ => rfl) rfl rfl h₅.wellformed.arena.mount_bound) rfl
      (.of_placement (Nat.le_refl _) fun _ => rfl))))
  split
  · exact Within.seq (Within.pure h₄.valid.refl _) fun r S₅ h₅ => htrack r S₅ h₅.valid
  · exact Within.after_read (P := fun _ => True) h₄.valid.refl
      (Ensures.map ((treeNamed_spec _ S₄).mono (fun _ _ h => ⟨h.1, trivial⟩) fun _ _ h => h))
      fun _ _ => htrack _ S₄ h₄.valid
  · exact Within.after_read (P := fun _ => True) h₄.valid.refl
      (Ensures.map ((treeNamed_spec _ S₄).mono (fun _ _ h => ⟨h.1, trivial⟩) fun _ _ h => h))
      fun _ _ => htrack _ S₄ h₄.valid

/-- The setup of a script builds no inlaid node and leaves the tracker without a root. -/
theorem Script.begin_valid {script : Script} {S : State} (h : script.begin = .ok S) : Valid S := by
  unfold Script.begin at h
  split at h
  · cases h
  · rename_i settings _
    dsimp only at h
    split at h
    · cases h
    · rename_i s hs
      have hexec : exec (prepare _) (State.fresh settings) = (.ok (), s) := hs
      have hadv := Ensures.always (prepare_advances (fresh_valid settings)
        { script with models := script.models.mergeSort fun a b => decide (a.1 ≤ b.1) })
      rw [hexec] at hadv
      cases h
      exact hadv.valid

/-- The states a session reaches: set up by a script, then changed by steps. -/
inductive Reachable : State → Prop
  | begin {script : Script} {S : State} : script.begin = .ok S → Reachable S
  | step {S : State} (st : Step) : Reachable S → Reachable (S.step st).2

/-- The states that steps lead to from a state. -/
inductive Follows (S : State) : State → Prop
  | refl : Follows S S
  | step {S' : State} (st : Step) : Follows S S' → Follows S (S'.step st).2

theorem Reachable.valid {S : State} (h : Reachable S) : Valid S := by
  induction h with
  | begin h => exact Script.begin_valid h
  | step st _ ih => exact (ih.step_advances st).valid

/-- Steps from a valid state keep the invariant and every frozen node. -/
theorem Follows.advances (hv : Valid S) (h : Follows S S') : Advances S S' := by
  induction h with
  | refl => exact hv.refl
  | step st _ ih => exact ih.trans (ih.valid.step_advances st)

end Runs

end Inlay.Session
