import Mathlib.Data.List.Dedup
import Mathlib.Data.List.Perm.Subperm
import Inlay.Proofs.Lineage
import Inlay.Proofs.Accounting

namespace Inlay.Source.Forest

/-- The model names the nodes of the forest name, each once. -/
def modelNames (f : Forest) : List String := (f.nodes.toList.filterMap (·.model)).dedup

theorem mem_modelNames {f : Forest} {id : SourceId} {n : String} (h : (f.node id).model = some n) :
    n ∈ f.modelNames := by
  rw [modelNames, List.mem_dedup, List.mem_filterMap]
  by_cases hid : id.val < f.nodes.size
  · refine ⟨f.nodes[id.val], Array.getElem_mem_toList hid, ?_⟩
    rwa [node, Array.getD_eq_getD_getElem?, Array.getElem?_eq_getElem hid, Option.getD_some] at h
  · have hdefault : (default : Node).model = none := rfl
    rw [node, Array.getD_eq_getD_getElem?, Array.getElem?_eq_none (Nat.le_of_not_lt hid),
      Option.getD_none, hdefault] at h
    cases h

end Inlay.Source.Forest

namespace Inlay.Sync

variable {s : State}

section Edits

theorem addChild_descends (hl : Lineage s) {p : InlaidId} (hp : p.val < s.nodes.size)
    (index : Nat) (src : SourceId) : Within Descent (addChild p index src) s := by
  unfold addChild
  refine Within.get ?_
  dsimp only
  split
  · exact Ensures.bind (Ensures.throw (Descent.refl hl))
  · refine Within.seq (Ensures.ofExcept (fun _ _ => Descent.refl hl) fun _ _ => Descent.refl hl)
      fun placement s₁ h₁ => ?_
    refine Within.seq (nodeOf_descends h₁.lineage placement (fun q hq => ?_) src)
      fun child s₂ h₂ => ?_
    · cases hq
      exact Nat.lt_of_lt_of_le hp h₁.size
    refine Within.seq (modifyNode_descends h₂.lineage p (fun _ => rfl) fun _ _ hh => hh)
      fun _ s₃ h₃ => ?_
    exact Within.seq (notify_descends h₃.lineage _ _) fun _ s₄ h₄ =>
      Within.pure (Descent.refl h₄.lineage) _

theorem removeChild_descends (hl : Lineage s) (p : InlaidId) (index : Nat) :
    Within Descent (removeChild p index) s := by
  unfold removeChild
  refine Within.after_read (Descent.refl hl) (literalChild_spec p index s) fun c _ => ?_
  refine Within.seq (remove_descends hl c) fun _ s₁ h₁ => ?_
  refine Within.seq (modifyNode_descends h₁.lineage p (fun _ => rfl) fun _ _ hh => hh)
    fun _ s₂ h₂ => ?_
  exact Within.seq (notify_descends h₂.lineage _ _) fun _ s₃ h₃ =>
    Within.pure (Descent.refl h₃.lineage) _

theorem childChanged_descends (hl : Lineage s) (p : InlaidId) (index : Nat) :
    Within Descent (childChanged p index) s := by
  unfold childChanged
  exact Within.after_read (Descent.refl hl) (literalChild_spec p index s) fun _ _ =>
    Within.seq (notify_descends hl _ _) fun _ _ h => Within.pure (Descent.refl h.lineage) _

/-- Adding below a node of an arena: the walk down ends at a node of the heap. -/
theorem addChildAt_descends (hl : Lineage s) (ha : Arena s) {id : InlaidId}
    (hid : id.val < s.nodes.size) (address : List Nat) (src : SourceId) :
    Within Descent (addChildAt id address src) s := by
  unfold addChildAt
  exact Within.after_read (Descent.refl hl) (navigate_spec id address s) fun ⟨_, index⟩ hb =>
    addChild_descends hl (Below.lt_size ha hid hb) index src

theorem removeChildAt_descends (hl : Lineage s) (id : InlaidId) (address : List Nat) :
    Within Descent (removeChildAt id address) s := by
  unfold removeChildAt
  exact Within.after_read (Descent.refl hl) (navigate_spec id address s) fun ⟨p, index⟩ _ =>
    removeChild_descends hl p index

theorem childChangedAt_descends (hl : Lineage s) (id : InlaidId) (address : List Nat) :
    Within Descent (childChangedAt id address) s := by
  unfold childChangedAt
  exact Within.after_read (Descent.refl hl) (navigate_spec id address s) fun ⟨p, index⟩ _ =>
    childChanged_descends hl p index

end Edits

section Events

/-- A feed following an event of its tree keeps the lineage; the root of its mount is a node of
the heap because the heap is well formed. -/
theorem onEvent_descends (hw : Wellformed s) (hl : Lineage s) (f : SubscriberId) (e : Source.Event) :
    Within Descent (onEvent f e) s := by
  unfold onEvent
  refine Within.get ?_
  dsimp only
  split
  · exact Within.pure (Descent.refl hl) _
  split
  · split
    · exact Ensures.bind (Ensures.throw (Descent.refl hl))
    · refine Within.seq (fillMount_descends hl f _) fun r s₁ h₁ => ?_
      split
      · exact notify_descends h₁.lineage _ _
      · exact Within.pure (Descent.refl h₁.lineage) _
  · split
    · rename_i r hr
      exact Within.discard (addChildAt_descends hl hw.arena (State.mountRoot_lt hw hr) _ _)
    · exact Within.throw (Descent.refl hl) _
  · split
    · rename_i r _
      split
      · exact Within.seq (remove_descends hl r) fun _ s₁ h₁ =>
          Within.seq (Within.discard (fillMount_descends h₁.lineage f none)) fun _ s₂ h₂ =>
            notify_descends h₂.lineage _ _
      · exact Within.discard (removeChildAt_descends hl _ _)
    · exact Within.throw (Descent.refl hl) _
  · split
    · split
      · exact notify_descends hl _ _
      · exact Within.discard (childChangedAt_descends hl _ _)
    · exact Within.throw (Descent.refl hl) _

/-- What an operation keeps when what follows it needs the heap well formed too: the invariant
and every frozen node, and the lineage. -/
def Lineal (s s' : State) : Prop := Holds s s' ∧ Descent s s'

theorem Lineal.refl (hw : Wellformed s) (hl : Lineage s) : Lineal s s :=
  ⟨.refl hw, .refl hl⟩

theorem Lineal.refl_right {s₀ : State} (h : Lineal s₀ s) : Lineal s s :=
  .refl h.1.wellformed h.2.lineage

theorem Lineal.trans {s₁ s₂ s₃ : State} (h₁ : Lineal s₁ s₂) (h₂ : Lineal s₂ s₃) : Lineal s₁ s₃ :=
  ⟨h₁.1.trans h₂.1, h₁.2.trans h₂.2⟩

instance : Trans Lineal Lineal Lineal := ⟨Lineal.trans⟩

theorem deliver_lineal (hw : Wellformed s) (hl : Lineage s) (t : TreeId) (e : Source.Event) :
    Within Lineal (deliver t e) s := by
  unfold deliver
  exact Within.get (Within.seq (Within.forIn (Lineal.refl hw hl)
    (fun f _ h => (onEvent_safe h.1.wellformed f e).and (onEvent_descends h.1.wellformed h.2.lineage f e))
      _) fun _ _ h => Within.pure h.refl_right _)

theorem setForest_lineal (hw : Wellformed s) (hl : Lineage s) {forest : Source.Forest}
    (hk : s.forest.KeepsModels forest) : Within Lineal (setForest forest) s :=
  (setForest_safe hw hk).and (modifyForest_descends hl hk)

theorem Within.lineal_then_pure {α β : Type} {x : Run α} (h : Within Lineal x s) (b : β) :
    Within Lineal (x >>= fun _ => Pure.pure b) s :=
  Within.seq h fun _ _ h => Within.pure h.refl_right _

theorem setRoot_lineal (hw : Wellformed s) (hl : Lineage s) (t : TreeId) (src : SourceId) :
    Within Lineal (setRoot t src) s := by
  unfold setRoot
  refine Within.get (Ensures.bind (Ensures.ofExcept (fun forest h => ?_) fun _ _ => .refl hw hl))
  exact Within.seq (setForest_lineal hw hl (Source.Forest.keepsModels_placeRoot h)) fun _ _ h =>
    (deliver_lineal h.1.wellformed h.2.lineage t _).lineal_then_pure _

theorem clearRoot_lineal (hw : Wellformed s) (hl : Lineage s) (t : TreeId) :
    Within Lineal (clearRoot t) s := by
  unfold clearRoot
  refine Within.get (Ensures.bind (Ensures.ofExcept (fun ⟨_, forest⟩ h => ?_)
    fun _ _ => .refl hw hl))
  exact Within.seq (setForest_lineal hw hl (Source.Forest.keepsModels_takeRoot h)) fun _ _ h =>
    (deliver_lineal h.1.wellformed h.2.lineage t _).lineal_then_pure _

theorem addSourceChild_lineal (hw : Wellformed s) (hl : Lineage s) (t : TreeId)
    (parent : List Nat) (index : Nat) (src : SourceId) :
    Within Lineal (addSourceChild t parent index src) s := by
  unfold addSourceChild
  refine Within.get (Ensures.bind (Ensures.ofExcept (fun forest h => ?_) fun _ _ => .refl hw hl))
  exact Within.seq (setForest_lineal hw hl (Source.Forest.keepsModels_insertChild h)) fun _ _ h =>
    (deliver_lineal h.1.wellformed h.2.lineage t _).lineal_then_pure _

theorem removeSourceChild_lineal (hw : Wellformed s) (hl : Lineage s) (t : TreeId)
    (address : List Nat) : Within Lineal (removeSourceChild t address) s := by
  unfold removeSourceChild
  refine Within.get (Ensures.bind (Ensures.ofExcept (fun ⟨_, forest⟩ h => ?_)
    fun _ _ => .refl hw hl))
  exact Within.seq (setForest_lineal hw hl (Source.Forest.keepsModels_detachChild h)) fun _ _ h =>
    (deliver_lineal h.1.wellformed h.2.lineage t _).lineal_then_pure _

theorem setPayload_lineal (hw : Wellformed s) (hl : Lineage s) (t : TreeId) (address : List Nat)
    (payload : Toml.Table) : Within Lineal (setPayload t address payload) s := by
  unfold setPayload
  refine Within.get (Ensures.bind (Ensures.ofExcept (fun forest h => ?_) fun _ _ => .refl hw hl))
  exact Within.seq (setForest_lineal hw hl (Source.Forest.keepsModels_replacePayload h)) fun _ _ h =>
    deliver_lineal h.1.wellformed h.2.lineage t _

end Events

section Chains

/-- An inlined model node is a model node. -/
theorem State.modelName_isSome_of_hidden {x : InlaidId} (hh : s.hiddenOf x ≠ none) :
    (s.modelName x).isSome := by
  unfold State.hiddenOf at hh
  unfold State.modelName
  cases hm : (s.node x).inlining with
  | none => rw [hm] at hh; exact absurd rfl hh
  | some i => rfl

/-- Below a model node, through children lists, no model node of its name has an inlined root. -/
theorem Lineage.name_ne_of_below (hl : Lineage s) (ha : Arena s) {a x h : InlaidId}
    (hb : Below s a x) (hne : a ≠ x) (hh : s.hiddenOf x = some h) :
    s.modelName a ≠ s.modelName x :=
  hl.hidden x h hh a (hb.above ha hne)

/-- The inlined model nodes above one node carry pairwise different names. -/
theorem Lineage.chain_names_nodup (hl : Lineage s) (ha : Arena s) {y : InlaidId}
    {chain : List InlaidId} (hnd : chain.Nodup)
    (hc : ∀ x ∈ chain, Below s x y ∧ s.hiddenOf x ≠ none) : (chain.map s.modelName).Nodup := by
  refine hnd.map_on fun x hx x' hx' hname => Decidable.byContradiction fun hne => ?_
  obtain ⟨hbx, hhx⟩ := hc x hx
  obtain ⟨hbx', hhx'⟩ := hc x' hx'
  rcases Below.meet ha ha (fun _ => rfl) hbx hbx' with hb | hb
  · obtain ⟨h, hh⟩ := Option.ne_none_iff_exists'.1 hhx'
    exact hl.name_ne_of_below ha hb hne hh hname
  · obtain ⟨h, hh⟩ := Option.ne_none_iff_exists'.1 hhx
    exact hl.name_ne_of_below ha hb (Ne.symm hne) hh hname.symm

/-- A chain of inlined model nodes above one node has no more members than the forest has model
names. -/
theorem Lineage.chain_length_le (hl : Lineage s) (ha : Arena s) {y : InlaidId}
    {chain : List InlaidId} (hnd : chain.Nodup)
    (hc : ∀ x ∈ chain, Below s x y ∧ s.hiddenOf x ≠ none) :
    chain.length ≤ s.forest.modelNames.length := by
  have hsub : chain.map s.modelName ⊆ s.forest.modelNames.map some := by
    intro o ho
    obtain ⟨x, hx, rfl⟩ := List.mem_map.1 ho
    obtain ⟨n, hn⟩ := Option.isSome_iff_exists.1 (State.modelName_isSome_of_hidden (hc x hx).2)
    rw [hn]
    exact List.mem_map_of_mem (Source.Forest.mem_modelNames (hl.named x n hn))
  simpa using ((hl.chain_names_nodup ha hnd hc).subperm hsub).length_le

end Chains

end Inlay.Sync

namespace Inlay.Session

open Sync

variable {S S' S₁ S₂ : State}

section Lines

/-- What a step keeps: the invariant of the session, and the lineage of its inlaid nodes. -/
def Lines (S S' : State) : Prop := Advances S S' ∧ Descent S.sync S'.sync

theorem Valid.lines (hv : Valid S) (hl : Lineage S.sync) : Lines S S := ⟨hv.refl, .refl hl⟩

theorem Lines.valid (h : Lines S S') : Valid S' := h.1.valid

theorem Lines.lineage (h : Lines S S') : Lineage S'.sync := h.2.lineage

theorem Lines.refl_right (h : Lines S S') : Lines S' S' := h.valid.lines h.lineage

theorem Lines.trans (h₁ : Lines S₁ S₂) (h₂ : Lines S₂ S') : Lines S₁ S' :=
  ⟨h₁.1.trans h₂.1, h₁.2.trans h₂.2⟩

instance : Trans Lines Lines Lines := ⟨Lines.trans⟩

theorem sync_lines (hv : Valid S) {α : Type} {r : Sync.Run α} (h : Within Lineal r S.sync) :
    Within Lines (sync r) S :=
  sync_within h fun _ hs => ⟨Advances.of_sync hv hs.1, hs.2⟩

theorem Lines.of_labels (hv : Valid S) (hl : Lineage S.sync) (hsync : S'.sync = S.sync)
    (hheld : ∀ p ∈ S'.held, p.2.val < S.sync.nodes.size) : Lines S S' :=
  ⟨Advances.of_labels hv hsync hheld, by rw [hsync]; exact .refl hl⟩

/-- A change of the forest, the library or the tracker's settings that keeps every model. -/
theorem Lines.of_forest (hv : Valid S) (hl : Lineage S.sync) {s : Sync.State}
    (hn : s.nodes = S.sync.nodes) (hf : s.feeds = S.sync.feeds) (ht : s.tracker = S.sync.tracker)
    (hk : S.sync.forest.KeepsModels s.forest) : Lines S { S with sync := s } :=
  ⟨Advances.of_forest hv hn hf ht hk, hl.same hn hf hk⟩

theorem Plants.descent (hl : Lineage S.sync) (h : Plants S S') : Descent S.sync S'.sync := by
  have hn := congrArg Sync.State.nodes h.sync
  have hf := congrArg Sync.State.feeds h.sync
  exact hl.same hn hf h.models

theorem plantSpec_lines (hv : Valid S) (hl : Lineage S.sync) (spec : NodeSpec) :
    Within Lines (plantSpec spec) S := by
  have hd : Within (fun S S' => Descent S.sync S'.sync) (plantSpec spec) S :=
    (plantSpec_plants spec).weaken fun _ h => h.descent hl
  exact (plantSpec_advances hv spec).and hd

theorem createTree_lines (hv : Valid S) (hl : Lineage S.sync) (spec : TreeSpec) :
    Within Lines (createTree spec) S := by
  have hd : Within (fun S S' => Descent S.sync S'.sync) (createTree spec) S :=
    (createTree_plants spec).mono (fun _ _ h => h.1.descent hl) fun _ _ h => h.descent hl
  exact (createTree_advances hv spec).and hd

theorem enterModel_lines (hv : Valid S) (hl : Lineage S.sync) (name : String) (t : TreeId) :
    Within Lines (enterModel name t) S := by
  have hd : Within (fun S S' => Descent S.sync S'.sync) (enterModel name t) S :=
    Within.get (Ensures.set (hl.same rfl rfl (Source.Forest.keepsModels_modifyTree _ _)))
  exact (enterModel_advances hv name t).and hd

theorem labelTree_lines (hv : Valid S) (hl : Lineage S.sync) (name : String) (t : TreeId) :
    Within Lines (labelTree name t) S :=
  Within.get (Ensures.set (Lines.of_labels hv hl rfl hv.held))

/-- Holding the node reached by climbing and then descending from a node of the heap. -/
theorem hold_lines (hv : Valid S) (hl : Lineage S.sync) (label : String) (up : Nat)
    (down : List Nat) {first : InlaidId} (hfirst : first.val < S.sync.nodes.size) :
    Within Lines (do
      let s ← get
      let some top := climb s up first | throw .noNode
      let some node := descend s top down | throw .noNode
      set { s with held := relabelled s.held label node }
      return Reply.inlaid (s.sync.summary node) : Act Reply) S := by
  exact (hold_advances hv label up down hfirst).and
    (hold_within (R := fun S S' => Descent S.sync S'.sync) (.refl hl) fun _ _ _ _ => .refl hl)

end Lines

section Steps

/-- Every step keeps the invariant and the lineage, whether it answers or fails. -/
theorem runStep_lines (hv : Valid S) (hl : Lineage S.sync) : ∀ st : Step, Within Lines (runStep st) S
  | .listen label kind => by
    unfold runStep
    refine Within.after_read (hv.lines hl) (requireTracker_spec S) fun _ _ => ?_
    refine Within.seq (sync_lines hv ((addListenerNamed_safe hv.wellformed _).and
      (addListenerNamed_descends hl _))) fun _ S₁ h₁ => ?_
    exact Within.seq (Ensures.modify (Lines.of_labels h₁.valid h₁.lineage rfl h₁.valid.held))
      fun _ S₂ h₂ => Within.pure h₂.refl_right _
  | .recorded label clear => by
    unfold runStep
    refine Within.get ?_
    dsimp only
    split
    · split
      · split
        · exact Within.seq (sync_lines hv ((modifyListener_safe hv.wellformed _ _).and
            (modifyListener_descends hl _ _))) fun _ S₁ h₁ => Within.pure h₁.refl_right _
        · exact Within.pure (hv.lines hl) _
      · exact Within.throw (hv.lines hl) _
    · exact Within.throw (hv.lines hl) _
  | .describe node => by
    unfold runStep
    exact Within.after_read (hv.lines hl) (heldNode_spec _ S) fun _ _ =>
      Within.get (Within.pure (hv.lines hl) _)
  | .hasModel name => by
    unfold runStep
    exact Within.get (Within.pure (hv.lines hl) _)
  | .unlisten label => by
    unfold runStep
    refine Within.after_read (hv.lines hl) (requireTracker_spec S) fun _ _ => Within.get ?_
    split
    · exact Within.seq (sync_lines hv ((removeListener_safe hv.wellformed _).and
        (removeListener_descends hl _))) fun _ S₁ h₁ => Within.pure h₁.refl_right _
    · exact Within.throw (hv.lines hl) _
  | .dropTracker => by
    unfold runStep
    refine Within.after_read (hv.lines hl) (requireTracker_spec S) fun _ _ => ?_
    exact Within.seq (sync_lines hv ((dropTracker_safe hv.wellformed).and (dropTracker_descends hl)))
      fun _ S₁ h₁ => Within.pure h₁.refl_right _
  | .setRoot tree node => by
    unfold runStep
    refine Within.after_read (hv.lines hl) (treeNamed_spec _ S) fun t _ => ?_
    refine Within.seq (plantSpec_lines hv hl _) fun src S₁ h₁ => ?_
    exact Within.seq (sync_lines h₁.valid (setRoot_lineal h₁.valid.wellformed h₁.lineage _ _))
      fun _ S₂ h₂ => Within.get (Within.pure h₂.refl_right _)
  | .clearRoot tree => by
    unfold runStep
    refine Within.after_read (hv.lines hl) (treeNamed_spec _ S) fun t _ => ?_
    exact Within.seq (sync_lines hv (clearRoot_lineal hv.wellformed hl _)) fun _ S₁ h₁ =>
      Within.get (Within.pure h₁.refl_right _)
  | .addChild tree parent index node => by
    unfold runStep
    refine Within.after_read (hv.lines hl) (treeNamed_spec _ S) fun t _ => ?_
    refine Within.seq (plantSpec_lines hv hl _) fun src S₁ h₁ => ?_
    exact Within.seq (sync_lines h₁.valid
      (addSourceChild_lineal h₁.valid.wellformed h₁.lineage _ _ _ _))
      fun _ S₂ h₂ => Within.get (Within.pure h₂.refl_right _)
  | .removeChild tree address => by
    unfold runStep
    refine Within.after_read (hv.lines hl) (treeNamed_spec _ S) fun t _ => ?_
    exact Within.seq (sync_lines hv (removeSourceChild_lineal hv.wellformed hl _ _))
      fun _ S₁ h₁ => Within.get (Within.pure h₁.refl_right _)
  | .setPayload tree address payload => by
    unfold runStep
    refine Within.after_read (hv.lines hl) (treeNamed_spec _ S) fun t _ => ?_
    exact Within.seq (sync_lines hv (setPayload_lineal hv.wellformed hl _ _ _)) fun _ S₁ h₁ =>
      Within.pure h₁.refl_right _
  | .emit tree event => by
    unfold runStep
    refine Within.after_read (hv.lines hl) (treeNamed_spec _ S) fun t _ => ?_
    have hdeliver : ∀ e S₁, Lines S₁ S₁ →
        Within Lines (do sync (Sync.deliver t e); pure Reply.nothing : Act Reply) S₁ :=
      fun e S₁ h₁ => Within.seq (sync_lines h₁.valid
        (deliver_lineal h₁.valid.wellformed h₁.lineage _ _)) fun _ S₂ h₂ =>
          Within.pure h₂.refl_right _
    dsimp only
    split
    · exact Within.seq (plantSpec_lines hv hl _) fun _ S₁ h₁ =>
        Within.seq (Within.pure h₁.refl_right _) fun e S₂ h₂ => hdeliver e S₂ h₂.refl_right
    · exact Within.seq (Within.pure (hv.lines hl) _) fun e S₁ h₁ => hdeliver e S₁ h₁.refl_right
    · exact Within.seq (Within.pure (hv.lines hl) _) fun e S₁ h₁ => hdeliver e S₁ h₁.refl_right
  | .sourceNode tree address => by
    unfold runStep
    exact Within.after_read (hv.lines hl) (treeNamed_spec _ S) fun t _ =>
      Within.get (Within.pure (hv.lines hl) _)
  | .insertModel name spec => by
    unfold runStep
    refine Within.seq (createTree_lines hv hl spec) fun t S₁ h₁ => ?_
    refine Within.seq (enterModel_lines h₁.valid h₁.lineage _ _) fun _ S₂ h₂ => ?_
    exact Within.seq (labelTree_lines h₂.valid h₂.lineage _ _) fun _ S₃ h₃ =>
      Within.pure h₃.refl_right _
  | .removeModel name => by
    unfold runStep
    exact Within.get (Within.seq (Ensures.set (Lines.of_forest hv hl rfl rfl rfl (.refl _)))
      fun _ S₁ h₁ => Within.pure h₁.refl_right _)
  | .hold label (some l) up down => by
    unfold runStep
    exact Within.after_read (hv.lines hl) (heldNode_spec _ S) fun _ h =>
      hold_lines hv hl label up down (hv.held _ h)
  | .hold label none up down => by
    unfold runStep
    dsimp only
    refine Within.after_read (hv.lines hl) (requireTracker_spec S) fun _ _ => Within.get ?_
    split
    · rename_i r hr
      exact Ensures.bind (Ensures.pure (hold_lines hv hl label up down (hv.wellformed.root_lt r hr)))
    · exact Ensures.bind (Ensures.throw (hv.lines hl))
  | .inspect node => by
    unfold runStep
    exact Within.after_read (hv.lines hl) (heldNode_spec _ S) fun _ _ =>
      Within.get (Within.pure (hv.lines hl) _)
  | .nodeAdd node address child => by
    unfold runStep
    refine Within.after_read (hv.lines hl) (heldNode_spec _ S) fun n hn => ?_
    refine Within.seq (plantSpec_lines hv hl _) fun src S₁ h₁ => ?_
    have hn₁ : n.val < S₁.sync.nodes.size := Nat.lt_of_lt_of_le (hv.held _ hn) h₁.2.size
    exact Within.seq (sync_lines h₁.valid ((addChildAt_safe h₁.valid.wellformed hn₁ _ _).and
      (addChildAt_descends h₁.lineage h₁.valid.wellformed.arena hn₁ _ _)))
      fun _ S₂ h₂ => Within.get (Within.pure h₂.refl_right _)
  | .nodeRemove node address => by
    unfold runStep
    refine Within.after_read (hv.lines hl) (heldNode_spec _ S) fun n _ => ?_
    exact Within.seq (sync_lines hv ((removeChildAt_safe hv.wellformed _ _).and
      (removeChildAt_descends hl _ _))) fun _ S₁ h₁ => Within.get (Within.pure h₁.refl_right _)
  | .nodeChanged node address => by
    unfold runStep
    refine Within.after_read (hv.lines hl) (heldNode_spec _ S) fun n _ => ?_
    exact Within.seq (sync_lines hv ((childChangedAt_safe hv.wellformed _ _).and
      (childChangedAt_descends hl _ _))) fun _ S₁ h₁ => Within.get (Within.pure h₁.refl_right _)
  | .modelChildIndex node => by
    unfold runStep
    refine Within.after_read (hv.lines hl) (heldNode_spec _ S) fun n _ => Within.get ?_
    exact Within.after_read (hv.lines hl) (orFail_spec _ _ S) fun _ _ => Within.pure (hv.lines hl) _
  | .modelPath node => by
    unfold runStep
    refine Within.after_read (hv.lines hl) (heldNode_spec _ S) fun n _ => Within.get ?_
    exact Within.after_read (hv.lines hl) (orFail_spec _ _ S) fun _ _ => Within.pure (hv.lines hl) _
  | .usesModel node name => by
    unfold runStep
    exact Within.after_read (hv.lines hl) (heldNode_spec _ S) fun _ _ =>
      Within.get (Within.pure (hv.lines hl) _)
  | .render (some l) => by
    unfold runStep
    exact Within.after_read (hv.lines hl) (heldNode_spec _ S) fun _ _ =>
      Within.get (Within.pure (hv.lines hl) _)
  | .render none => by
    unfold runStep
    exact Within.after_read (hv.lines hl) (requireTracker_spec S) fun _ _ =>
      Within.get (Within.pure (hv.lines hl) _)
  | .malformed reason => by
    unfold runStep
    exact Within.throw (hv.lines hl) _

/-- A step starts from a clean journal, which the lineage does not read. -/
theorem Valid.step_lines (hv : Valid S) (hl : Lineage S.sync) (st : Step) : Lines S (S.step st).2 := by
  have h₀ : Lines S { S with sync := { S.sync with journal := #[] } } :=
    Lines.of_forest hv hl rfl rfl rfl (.refl _)
  exact h₀.trans (Ensures.always (runStep_lines h₀.valid h₀.lineage st))

end Steps

section Runs

/-- A fresh session has no inlaid node and no feed. -/
theorem fresh_lineage (settings : Settings) : Lineage (State.fresh settings).sync := by
  have hblank := fun x : InlaidId =>
    Sync.State.blank_of_size_le (s := (State.fresh settings).sync) (Nat.zero_le x.val)
  refine ⟨fun x p hp => ?_, fun x n hn => ?_, fun g o hg => ?_, fun x h hh => ?_⟩
  · rw [(hblank x).1] at hp
    cases hp
  · rw [(hblank x).2.1] at hn
    cases hn
  · rw [Sync.State.feed_of_size_le (s := (State.fresh settings).sync) (Nat.zero_le g.val)] at hg
    cases hg
  · rw [(hblank x).2.2] at hh
    cases hh

theorem prepare_lines (hv : Valid S) (hl : Lineage S.sync) (script : Script) :
    Within Lines (prepare script) S := by
  unfold prepare
  refine Within.seq (createTree_lines hv hl _) fun source S₁ h₁ => ?_
  refine Within.seq (labelTree_lines h₁.valid h₁.lineage _ _) fun _ S₂ h₂ => ?_
  refine Within.seq (Within.forIn_rounds h₂.refl_right (fun ⟨name, spec⟩ _ S₃ h₃ =>
    Within.seq (createTree_lines h₃.valid h₃.lineage spec) fun t S₄ h₄ =>
      Within.seq (enterModel_lines h₄.valid h₄.lineage name t) fun _ S₅ h₅ =>
        Within.seq (labelTree_lines h₅.valid h₅.lineage name t) fun _ S₆ h₆ =>
          Within.pure h₆.refl_right _) _ _) fun _ S₃ h₃ => ?_
  refine Within.seq (Within.forIn_rounds h₃.refl_right (fun ⟨label, spec⟩ _ S₄ h₄ =>
    Within.seq (createTree_lines h₄.valid h₄.lineage spec) fun t S₅ h₅ =>
      Within.seq (labelTree_lines h₅.valid h₅.lineage label t) fun _ S₆ h₆ =>
        Within.pure h₆.refl_right _) _ _) fun _ S₄ h₄ => ?_
  extract_lets track
  have htrack : ∀ resolver S₅, Lines S₅ S₅ → Within Lines (track resolver) S₅ := by
    intro resolver S₅ h₅
    refine Within.get (Ensures.set ⟨Advances.of_sync h₅.valid (Holds.of_root_none
      (h₅.valid.wellformed.arena.of_eq (fun _ => rfl) rfl rfl h₅.valid.wellformed.arena.mount_bound)
      rfl (.of_placement (Nat.le_refl _) fun _ => rfl)), h₅.lineage.same rfl rfl (.refl _)⟩)
  split
  · exact Within.seq (Within.pure h₄.refl_right _) fun r S₅ h₅ => htrack r S₅ h₅.refl_right
  · exact Within.after_read (P := fun _ => True) h₄.refl_right
      (Ensures.map ((treeNamed_spec _ S₄).mono (fun _ _ h => ⟨h.1, trivial⟩) fun _ _ h => h))
      fun _ _ => htrack _ S₄ h₄.refl_right
  · exact Within.after_read (P := fun _ => True) h₄.refl_right
      (Ensures.map ((treeNamed_spec _ S₄).mono (fun _ _ h => ⟨h.1, trivial⟩) fun _ _ h => h))
      fun _ _ => htrack _ S₄ h₄.refl_right

/-- The setup of a script makes no inlaid node and opens no feed. -/
theorem Script.begin_lineage {script : Script} {S : State} (h : script.begin = .ok S) :
    Lineage S.sync := by
  unfold Script.begin at h
  split at h
  · cases h
  · rename_i settings _
    dsimp only at h
    split at h
    · cases h
    · rename_i s hs
      have hexec : exec (prepare _) (State.fresh settings) = (.ok (), s) := hs
      have hlines := Ensures.always (prepare_lines (fresh_valid settings) (fresh_lineage settings)
        { script with models := script.models.mergeSort fun a b => decide (a.1 ≤ b.1) })
      rw [hexec] at hlines
      cases h
      exact hlines.lineage

/-- Every state a session reaches keeps the lineage of its inlaid nodes. -/
theorem Reachable.lineage (h : Reachable S) : Lineage S.sync := by
  induction h with
  | begin h => exact Script.begin_lineage h
  | step st hS ih => exact (hS.valid.step_lines ih st).lineage

end Runs

section Nesting

/-- The cycle guard in every state a session reaches: below a model node named `m`, through
children lists, no node with an inlined root is named `m`; and the nodes with an inlined root
above any node carry pairwise different names, at most as many as the forest has model names. -/
theorem Reachable.inlining_depth_bounded (hS : Reachable S) :
    (∀ a x m, S.sync.modelName a = some m → Below S.sync a x → a ≠ x →
      S.sync.hiddenOf x ≠ none → S.sync.modelName x ≠ some m) ∧
    ∀ (y : InlaidId) (chain : List InlaidId), chain.Nodup →
      (∀ x ∈ chain, Below S.sync x y ∧ S.sync.hiddenOf x ≠ none) →
      (chain.map S.sync.modelName).Nodup ∧ chain.length ≤ S.sync.forest.modelNames.length := by
  have hl := hS.lineage
  have ha := hS.valid.wellformed.arena
  refine ⟨fun a x m hm hb hne hh => ?_, fun y chain hnd hc =>
    ⟨hl.chain_names_nodup ha hnd hc, hl.chain_length_le ha hnd hc⟩⟩
  obtain ⟨h, hh⟩ := Option.ne_none_iff_exists'.1 hh
  rw [← hm]
  exact (hl.name_ne_of_below ha hb hne hh).symm

/-- A source tree that is its own model: its model node names a model, and every model name
leads back to the source tree itself. -/
def selfModel : Script :=
  ⟨.given Settings.standard,
    .rooted (some (.node "r" none [] [.node "m" (some "X") [] []])) ⟨none, none, false⟩ none,
    [], [], .same "source", true, []⟩

/-- The session of `selfModel` once a silent listener starts tracking. -/
def selfModelTracked : State := ((selfModel.begin.toOption.getD default).step (.listen "l" .silent)).2

theorem selfModelTracked_reachable : Reachable selfModelTracked :=
  .step _ (.begin (eq_ok_of_isOk (by decide +kernel)))

/-- The model node `m` inlines the source tree once; the copy of `m` inside it stays a model node
named `X` without an inlined root. -/
theorem selfModel_inlined_once :
    Reachable selfModelTracked ∧ selfModelTracked.sync.modelName ⟨1⟩ = some "X" ∧
      Below selfModelTracked.sync ⟨1⟩ ⟨3⟩ ∧ selfModelTracked.sync.modelName ⟨3⟩ = some "X" ∧
      selfModelTracked.sync.hiddenOf ⟨3⟩ = none := by
  have h₁ : selfModelTracked.sync.modelName ⟨1⟩ = some "X" := by decide +kernel
  have h₃ : selfModelTracked.sync.modelName ⟨3⟩ = some "X" := by decide +kernel
  have hb : Below selfModelTracked.sync ⟨1⟩ ⟨3⟩ :=
    .child (.child .refl (by decide +kernel : (⟨2⟩ : InlaidId) ∈ _)) (by decide +kernel)
  refine ⟨selfModelTracked_reachable, h₁, hb, h₃, Decidable.byContradiction fun hh => ?_⟩
  exact (Reachable.inlining_depth_bounded selfModelTracked_reachable).1 ⟨1⟩ ⟨3⟩ "X" h₁ hb
    (by decide) hh h₃

end Nesting

end Inlay.Session
