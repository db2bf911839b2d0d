import Inlay.Proofs.Track

namespace Inlay

/-- What the cycle guard reads of an inlaid node: its parent, its source node and its model
name. -/
def Inlaid.Node.origin (m : Inlaid.Node) : Option InlaidId × SourceId × Option String :=
  (m.parent, m.source, m.inlining.map (·.name))

namespace Inlaid.Node

variable {m m' : Inlaid.Node}

theorem parent_eq_of_origin (h : m'.origin = m.origin) : m'.parent = m.parent :=
  congrArg Prod.fst h

theorem source_eq_of_origin (h : m'.origin = m.origin) : m'.source = m.source :=
  congrArg (·.2.1) h

theorem name_eq_of_origin (h : m'.origin = m.origin) :
    m'.inlining.map (·.name) = m.inlining.map (·.name) :=
  congrArg (·.2.2) h

@[simp] theorem origin_attach (m : Inlaid.Node) (h : InlaidId) : (m.attach h).origin = m.origin := by
  cases hm : m.inlining <;> simp [origin, attach, hm]

@[simp] theorem origin_withFeed (m : Inlaid.Node) (g : SubscriberId) :
    (m.withFeed g).origin = m.origin := by
  cases hm : m.inlining <;> simp [origin, withFeed, hm]

@[simp] theorem origin_dropFeed (m : Inlaid.Node) : m.dropFeed.origin = m.origin := by
  cases hm : m.inlining <;> simp [origin, dropFeed, hm]

@[simp] theorem origin_detach (m : Inlaid.Node) : m.detach.origin = m.origin := by
  unfold detach
  split
  · split <;> simp_all [origin]
  · rfl

/-- A change of the inlining that keeps the name keeps the origin. -/
theorem origin_mapInlining (m : Inlaid.Node) {g : Inlining → Inlining} (hg : ∀ i, (g i).name = i.name) :
    { m with inlining := m.inlining.map g }.origin = m.origin := by
  cases hm : m.inlining <;> simp [origin, hm, hg]

theorem hidden_detach (m : Inlaid.Node) {h : InlaidId} (hh : m.detach.inlining.bind (·.hidden) = some h) :
    m.inlining.bind (·.hidden) = some h := by
  unfold detach at hh
  split at hh
  · split at hh <;> simp_all
  · exact hh

end Inlaid.Node

namespace Sync

/-- The model name of an inlaid node: present exactly for model nodes. -/
def State.modelName (s : State) (x : InlaidId) : Option String := (s.node x).inlining.map (·.name)

/-- `a` lies above `x` through parent links. -/
inductive Above (s : State) (a : InlaidId) : InlaidId → Prop
  | parent {x : InlaidId} : (s.node x).parent = some a → Above s a x
  | up {p x : InlaidId} : (s.node x).parent = some p → Above s a p → Above s a x

/-- No node above `x` is a model node of the name `x` has. -/
def Guarded (s : State) (x : InlaidId) : Prop :=
  ∀ a, Above s a x → s.modelName a ≠ s.modelName x

/-- The lineage of the inlaid nodes: a parent is older than its child, a model node takes its
name from its source node's model, a feed fills the slot of a guarded node of the heap only, and
a model node with an inlined root is guarded. -/
structure Lineage (s : State) : Prop where
  parent_lt : ∀ x p, (s.node x).parent = some p → p.val < x.val
  named : ∀ x n, s.modelName x = some n → (s.forest.node (s.node x).source).model = some n
  owner : ∀ g o, (s.feed g).mount = .owner o → o.val < s.nodes.size ∧ Guarded s o
  hidden : ∀ x h, s.hiddenOf x = some h → Guarded s x

/-- What an operation keeps: the lineage, and every node of `s` with its origin. -/
structure Descent (s s' : State) : Prop where
  lineage : Lineage s'
  size : s.nodes.size ≤ s'.nodes.size
  origin : ∀ x, x.val < s.nodes.size → (s'.node x).origin = (s.node x).origin

variable {s s' s₁ s₂ s₃ : State} {a x : InlaidId}

/-- A node past the heap has no parent, no model name and no inlined root. -/
theorem State.blank_of_size_le (h : s.nodes.size ≤ x.val) :
    (s.node x).parent = none ∧ s.modelName x = none ∧ s.hiddenOf x = none := by
  rw [State.modelName, State.hiddenOf, State.node_of_size_le h]
  exact ⟨rfl, rfl, rfl⟩

/-- Past the heap there is nothing a new node could break. -/
theorem State.fresh_of_size_le (h : s.nodes.size ≤ x.val) (P : InlaidId → Prop) (Q : String → Prop) :
    (∀ p, (s.node x).parent = some p → P p) ∧ (∀ n, s.modelName x = some n → Q n) ∧
      s.hiddenOf x = none := by
  obtain ⟨hp, hn, hh⟩ := State.blank_of_size_le h
  exact ⟨fun p e => absurd (hp.symm.trans e) (Option.some_ne_none p).symm,
    fun n e => absurd (hn.symm.trans e) (Option.some_ne_none n).symm, hh⟩

section Above

/-- A node of the heap stands below older nodes only. -/
theorem Lineage.above_lt (hl : Lineage s) (h : Above s a x) : a.val < x.val := by
  induction h with
  | parent hp => exact hl.parent_lt _ _ hp
  | up hp _ ih => exact Nat.lt_trans ih (hl.parent_lt _ _ hp)

/-- The nodes above a node of `s` are the same in a state that keeps every parent of `s`. -/
theorem Above.of_origin (hl : Lineage s)
    (hkeep : ∀ y, y.val < s.nodes.size → (s'.node y).origin = (s.node y).origin)
    (hx : x.val < s.nodes.size) (h : Above s' a x) : Above s a x := by
  induction h with
  | parent hp =>
    exact .parent (by rwa [Inlaid.Node.parent_eq_of_origin (hkeep _ hx)] at hp)
  | @up p y hp _ ih =>
    rw [Inlaid.Node.parent_eq_of_origin (hkeep _ hx)] at hp
    exact .up hp (ih (Nat.lt_trans (hl.parent_lt _ _ hp) hx))

/-- A guarded node of `s` stays guarded in a state that keeps every origin of `s`. -/
theorem Guarded.of_origin (hl : Lineage s)
    (hkeep : ∀ y, y.val < s.nodes.size → (s'.node y).origin = (s.node y).origin)
    (hx : x.val < s.nodes.size) (hg : Guarded s x) : Guarded s' x := by
  intro a ha
  have ha' := ha.of_origin hl hkeep hx
  have hname : ∀ y, y.val < s.nodes.size → s'.modelName y = s.modelName y := fun y hy =>
    Inlaid.Node.name_eq_of_origin (hkeep y hy)
  rw [hname a (Nat.lt_trans (hl.above_lt ha') hx), hname x hx]
  exact hg a ha'

theorem Descent.guarded (h : Descent s s') (hl : Lineage s) (hx : x.val < s.nodes.size)
    (hg : Guarded s x) : Guarded s' x :=
  hg.of_origin hl h.origin hx

theorem Descent.modelName (h : Descent s s') (hx : x.val < s.nodes.size) :
    s'.modelName x = s.modelName x :=
  Inlaid.Node.name_eq_of_origin (h.origin x hx)

/-- In an arena a node strictly below `a` through children lists lies above it through parent
links. -/
theorem Below.above (ha : Arena s) (h : Below s a x) (hne : a ≠ x) : Above s a x := by
  induction h with
  | refl => exact absurd rfl hne
  | @child p c hp hc ih =>
    have hpar := ha.child_parent _ _ hc
    by_cases hap : a = p
    · subst hap
      exact .parent hpar
    · exact .up hpar (ih hap)

/-- A root has nothing above it. -/
theorem guarded_of_root (hp : (s.node x).parent = none) : Guarded s x := by
  intro a ha
  cases ha with
  | parent h => rw [hp] at h; cases h
  | up h => rw [hp] at h; cases h

end Above

section Descent

theorem Descent.refl (hl : Lineage s) : Descent s s :=
  ⟨hl, Nat.le_refl _, fun _ _ => rfl⟩

theorem Descent.trans (h₁ : Descent s₁ s₂) (h₂ : Descent s₂ s₃) : Descent s₁ s₃ :=
  ⟨h₂.lineage, Nat.le_trans h₁.size h₂.size, fun x hx => by
    rw [h₂.origin x (Nat.lt_of_lt_of_le hx h₁.size), h₁.origin x hx]⟩

instance : Trans Descent Descent Descent := ⟨Descent.trans⟩

/-- The one check every change of a session passes: it keeps the origin of every node of `s`,
makes nodes with no inlined root and an older parent, named after their source's model, fills
and gives an inlined root to guarded nodes of `s` only, and keeps every model of the forest. -/
theorem Lineage.descent (hl : Lineage s) (hsize : s.nodes.size ≤ s'.nodes.size)
    (hkeep : ∀ x, x.val < s.nodes.size → (s'.node x).origin = (s.node x).origin)
    (hnew : ∀ x, s.nodes.size ≤ x.val → (∀ p, (s'.node x).parent = some p → p.val < s.nodes.size) ∧
      (∀ n, s'.modelName x = some n → (s'.forest.node (s'.node x).source).model = some n) ∧
      s'.hiddenOf x = none)
    (hmount : ∀ g o, (s'.feed g).mount = .owner o →
      (s.feed g).mount = .owner o ∨ (o.val < s.nodes.size ∧ Guarded s o))
    (hhidden : ∀ x h, s'.hiddenOf x = some h → s.hiddenOf x = none → Guarded s x)
    (hmodels : s.forest.KeepsModels s'.forest) : Descent s s' := by
  have hguard : ∀ o, o.val < s.nodes.size → Guarded s o → Guarded s' o := fun o ho hg =>
    hg.of_origin hl hkeep ho
  refine ⟨⟨fun x p hp => ?_, fun x n hn => ?_, fun g o hg => ?_, fun x h hh => ?_⟩, hsize, hkeep⟩
  · by_cases hx : x.val < s.nodes.size
    · rw [Inlaid.Node.parent_eq_of_origin (hkeep x hx)] at hp
      exact hl.parent_lt x p hp
    · exact Nat.lt_of_lt_of_le ((hnew x (Nat.le_of_not_lt hx)).1 p hp) (Nat.le_of_not_lt hx)
  · by_cases hx : x.val < s.nodes.size
    · have hn' : s.modelName x = some n := (Inlaid.Node.name_eq_of_origin (hkeep x hx)).symm.trans hn
      rw [Inlaid.Node.source_eq_of_origin (hkeep x hx)]
      exact hmodels _ n (hl.named x n hn')
    · exact (hnew x (Nat.le_of_not_lt hx)).2.1 n hn
  · rcases hmount g o hg with hold | ⟨ho, hgo⟩
    · obtain ⟨ho, hgo⟩ := hl.owner g o hold
      exact ⟨Nat.lt_of_lt_of_le ho hsize, hguard o ho hgo⟩
    · exact ⟨Nat.lt_of_lt_of_le ho hsize, hguard o ho hgo⟩
  · by_cases hx : x.val < s.nodes.size
    · cases hs : s.hiddenOf x with
      | none => exact hguard x hx (hhidden x h hh hs)
      | some h' => exact hguard x hx (hl.hidden x h' hs)
    · rw [(hnew x (Nat.le_of_not_lt hx)).2.2] at hh
      cases hh

/-- A change that leaves the nodes alone, fills only slots of guarded nodes and keeps every
model. -/
theorem Lineage.frame (hl : Lineage s) (hn : s'.nodes = s.nodes)
    (hmount : ∀ g o, (s'.feed g).mount = .owner o →
      (s.feed g).mount = .owner o ∨ (o.val < s.nodes.size ∧ Guarded s o))
    (hmodels : s.forest.KeepsModels s'.forest) : Descent s s' := by
  have hnode : ∀ y, s'.node y = s.node y := fun y => by simp [State.node, hn]
  refine hl.descent (Nat.le_of_eq (by rw [hn])) (fun x _ => by rw [hnode]) (fun x hx => ?_)
    hmount (fun x h hh hs => ?_) hmodels
  · exact State.fresh_of_size_le (by rw [hn]; exact hx) _ _
  · simp only [State.hiddenOf, hnode] at hh hs
    rw [hs] at hh
    cases hh

/-- A change of the session's other parts: the source trees' tables and payloads, the tracker,
the listeners, the journal. -/
theorem Lineage.same (hl : Lineage s) (hn : s'.nodes = s.nodes) (hf : s'.feeds = s.feeds)
    (hmodels : s.forest.KeepsModels s'.forest) : Descent s s' :=
  hl.frame hn (fun g o hg => .inl (by simpa [State.feed, hf] using hg)) hmodels

/-- A change of one node that keeps its origin and gives it no new inlined root. -/
theorem Lineage.modify (hl : Lineage s) {id : InlaidId} {g : Inlaid.Node → Inlaid.Node}
    (hn : s'.nodes = s.nodes.modify id.val g) (hf : s'.feeds = s.feeds)
    (hmodels : s.forest.KeepsModels s'.forest) (hg : ∀ m, (g m).origin = m.origin)
    (hh : ∀ h, (g (s.node id)).inlining.bind (·.hidden) = some h → s.hiddenOf id = none →
      Guarded s id) : Descent s s' := by
  have hnode := State.node_of_modify hn
  refine hl.descent (Nat.le_of_eq (by rw [hn, Array.size_modify])) (fun x _ => ?_) (fun x hx => ?_)
    (fun g o hg => .inl (by simpa [State.feed, hf] using hg)) (fun x h hx hs => ?_) hmodels
  · rw [hnode]
    split
    · exact hg _
    · rfl
  · exact State.fresh_of_size_le (by rw [hn, Array.size_modify]; exact hx) _ _
  · simp only [State.hiddenOf, hnode] at hx
    split at hx
    · rename_i hid
      obtain ⟨rfl, -⟩ := hid
      exact hh h hx hs
    · rw [State.hiddenOf, hx] at hs
      cases hs

end Descent

section Primitives

variable {E : Fault → State → Prop}

/-- A new node with an older parent, named after its source's model and without an inlined
root. -/
theorem addNode_descends (hl : Lineage s) {m : Inlaid.Node}
    (hpar : ∀ p, m.parent = some p → p.val < s.nodes.size)
    (hname : ∀ n, m.inlining.map (·.name) = some n → (s.forest.node m.source).model = some n)
    (hhid : m.inlining.bind (·.hidden) = none) :
    Ensures (addNode m) s (fun x s' => Descent s s' ∧ x = ⟨s.nodes.size⟩ ∧
      x.val < s'.nodes.size ∧ s'.node x = m) E := by
  have hnode : ∀ y, State.node { s with nodes := s.nodes.push m } y =
      if y.val = s.nodes.size then m else s.node y := State.node_of_push rfl
  refine Ensures.modifyGet ⟨hl.descent (by simp) (fun x hx => ?_) (fun x hx => ?_)
    (fun g o hg => .inl hg) (fun x h hh hs => ?_) (.refl _), rfl, by simp,
    by rw [hnode, if_pos rfl]⟩
  · rw [hnode, if_neg (Nat.ne_of_lt hx)]
  · by_cases hxs : x.val = s.nodes.size
    · simp only [State.modelName, State.hiddenOf, hnode, if_pos hxs]
      exact ⟨hpar, hname, hhid⟩
    · exact State.fresh_of_size_le (by simp; omega) _ _
  · simp only [State.hiddenOf, hnode] at hh hs
    split at hh
    · rw [hhid] at hh
      cases hh
    · rw [hs] at hh
      cases hh

/-- Changing one node, keeping its origin and giving it no new inlined root. -/
theorem modifyNode_descends (hl : Lineage s) (id : InlaidId) {g : Inlaid.Node → Inlaid.Node}
    (hg : ∀ m, (g m).origin = m.origin)
    (hh : ∀ m h, (g m).inlining.bind (·.hidden) = some h → m.inlining.bind (·.hidden) = some h) :
    Within Descent (modifyNode id g) s :=
  Ensures.modify (hl.modify rfl rfl (.refl _) hg fun h hg' hs => by
    rw [State.hiddenOf, hh _ h hg'] at hs
    cases hs)

/-- Changing a guarded node, keeping its origin. -/
theorem modifyNode_descends_guarded (hl : Lineage s) {id : InlaidId} {g : Inlaid.Node → Inlaid.Node}
    (hg : ∀ m, (g m).origin = m.origin) (hguard : Guarded s id) :
    Within Descent (modifyNode id g) s :=
  Ensures.modify (hl.modify rfl rfl (.refl _) hg fun _ _ _ => hguard)

/-- A new feed that fills the tracker's root or the slot of a guarded node of the heap. -/
theorem addFeed_descends (hl : Lineage s) {fd : Feed}
    (hfd : ∀ o, fd.mount = .owner o → o.val < s.nodes.size ∧ Guarded s o) :
    Within Descent (addFeed fd) s := by
  refine Ensures.modifyGet (hl.frame rfl (fun g o hg => ?_) (.refl _))
  rw [State.feed_of_push rfl] at hg
  split at hg
  · exact .inr (hfd o hg)
  · exact .inl hg

theorem modifyForest_descends (hl : Lineage s) {g : Source.Forest → Source.Forest}
    (hk : s.forest.KeepsModels (g s.forest)) : Within Descent (modifyForest g) s :=
  Ensures.modify (hl.frame rfl (fun _ _ h => .inl h) hk)

theorem modifyTracker_descends (hl : Lineage s) (g : Tracker → Tracker) :
    Within Descent (modifyTracker g) s :=
  Ensures.modify (hl.same rfl rfl (.refl _))

theorem modifyListener_descends (hl : Lineage s) (l : ListenerId) (g : Listener → Listener) :
    Within Descent (modifyListener l g) s :=
  Ensures.modify (hl.same rfl rfl (.refl _))

theorem addListenerObject_descends (hl : Lineage s) (l : Listener) :
    Within Descent (addListenerObject l) s :=
  Ensures.modifyGet (hl.same rfl rfl (.refl _))

theorem note_descends (hl : Lineage s) (n : Notice) : Within Descent (note n) s :=
  Ensures.modify (hl.same rfl rfl (.refl _))

/-- Stopping a feed keeps its mount, the nodes and the source nodes. -/
theorem stopFeed_descends (hl : Lineage s) (f : SubscriberId) : Within Descent (stopFeed f) s := by
  refine (stopFeed_spec (E := fun _ _ => False) f s).mono (fun _ s' ⟨hst, hn, hf⟩ => ?_)
    fun _ _ h => h.elim
  refine hl.frame hn (fun g o hg => .inl ?_) (.of_nodes_eq hst.forest_nodes)
  rw [State.feed_of_halt hf] at hg
  split at hg
  · exact hg
  · exact hg

theorem takeFeed_descends (hl : Lineage s) (id : InlaidId) : Within Descent (takeFeed id) s :=
  (takeFeed_spec (E := fun _ _ => False) id s).mono (fun _ _ ⟨_, hst, hn, hf⟩ =>
    hl.modify hn hf (.of_nodes_eq hst.forest_nodes) Inlaid.Node.origin_dropFeed
      fun h hh hs => by
        rw [Inlaid.Node.hidden_dropFeed] at hh
        rw [State.hiddenOf, hh] at hs
        cases hs) fun _ _ h => h.elim

theorem detachHidden_descends (hl : Lineage s) (id : InlaidId) :
    Within Descent (detachHidden id) s :=
  (detachHidden_spec (E := fun _ _ => False) id s).mono (fun _ _ ⟨hst, hn, hf⟩ =>
    hl.modify hn hf (.of_nodes_eq hst.forest_nodes) Inlaid.Node.origin_detach
      fun h hh hs => by
        rw [State.hiddenOf, Inlaid.Node.hidden_detach _ hh] at hs
        cases hs) fun _ _ h => h.elim

/-- Stopping the feeds of a subtree takes feeds out of nodes and stops them, nothing else. -/
theorem stopFeeds_descends (hl : Lineage s) (id : InlaidId) : Within Descent (stopFeeds id) s := by
  refine (stopFeeds_spec (E := fun _ _ => False) id s).mono (fun _ s' h => ?_) fun _ _ h => h.elim
  have hsame : ∀ x, (s'.node x).origin = (s.node x).origin ∧
      (s'.node x).inlining.bind (·.hidden) = (s.node x).inlining.bind (·.hidden) := fun x => by
    rcases h.node x with e | ⟨_, e⟩ <;> rw [e]
    · exact ⟨rfl, rfl⟩
    · exact ⟨Inlaid.Node.origin_dropFeed _, Inlaid.Node.hidden_dropFeed _⟩
  refine hl.descent (Nat.le_of_eq h.nodes_size.symm) (fun x _ => (hsame x).1)
    (fun x hx => State.fresh_of_size_le (by rw [h.nodes_size]; exact hx) _ _)
    (fun g o hg => .inl ?_) (fun x k hk hs => ?_) (.of_nodes_eq h.steady.forest_nodes)
  · rcases h.feed g with e | ⟨_, _, _, e⟩ <;> rw [e] at hg
    · exact hg
    · exact hg
  · rw [State.hiddenOf, (hsame x).2] at hk
    rw [State.hiddenOf, hk] at hs
    cases hs

/-- Subscribing records the feed in its tree's table and the handle in the feed. -/
theorem subscribe_descends (hl : Lineage s) (f : SubscriberId) : Within Descent (subscribe f) s := by
  refine (subscribe_spec (E := fun _ _ => False) f s).mono (fun _ s' ⟨_, hs'⟩ => ?_)
    fun _ _ h => h.elim
  have hf := congrArg State.feeds hs'
  dsimp only at hf
  refine hl.frame (by rw [hs']) (fun k o hk => .inl ?_)
    (by rw [hs']; exact Source.Forest.keepsModels_modifyTree _ _)
  rw [State.feed_of_modify hf] at hk
  split at hk
  · exact hk
  · exact hk

end Primitives

section Guard

/-- A walk up from `p` that finds no model node named `name`, with a step for every node on the
way, finds none because there is none, at `p` or above it. -/
theorem Lineage.unused_within (hl : Lineage s) {name : String} :
    ∀ (k : Nat) (p : InlaidId), p.val < k → s.usesModelWithin (fun _ => true) name k p = false →
      s.modelName p ≠ some name ∧ ∀ a, Above s a p → s.modelName a ≠ some name
  | 0, _, hp, _ => absurd hp (Nat.not_lt_zero _)
  | k + 1, p, hp, hu => by
    rw [State.usesModelWithin] at hu
    split at hu
    · cases hu
    rename_i hname
    refine ⟨hname, fun a ha => ?_⟩
    split at hu
    · rename_i q hq
      have hqp := hl.parent_lt _ _ hq
      obtain ⟨hq₁, hq₂⟩ := hl.unused_within k q (by omega) (by simpa using hu)
      cases ha with
      | parent h =>
        obtain rfl := Option.some.inj (hq.symm.trans h)
        exact hq₁
      | up h ha' =>
        obtain rfl := Option.some.inj (hq.symm.trans h)
        exact hq₂ a ha'
    · rename_i hq
      cases ha with
      | parent h => rw [hq] at h; cases h
      | up h => rw [hq] at h; cases h

/-- A model node of the heap whose parent's walk up finds no model node of its name is
guarded. -/
theorem Lineage.guarded_of_unused (hl : Lineage s) {id p : InlaidId} {name : String}
    (hid : id.val < s.nodes.size) (hname : s.modelName id = some name)
    (hp : (s.node id).parent = some p) (hu : s.usesModel (fun _ => true) p name = false) :
    Guarded s id := by
  have hpid := hl.parent_lt _ _ hp
  obtain ⟨hp₁, hp₂⟩ := hl.unused_within (s.nodes.size + 1) p (by omega) hu
  intro a ha
  rw [hname]
  cases ha with
  | parent h =>
    obtain rfl := Option.some.inj (hp.symm.trans h)
    exact hp₁
  | up h ha' =>
    obtain rfl := Option.some.inj (hp.symm.trans h)
    exact hp₂ a ha'

end Guard

section Building

variable {fuel : Nat}

/-- `create fuel` keeps the lineage when it hangs its node below a node of the heap. -/
def CreateDescends (fuel : Nat) : Prop :=
  ∀ (placement : Placement) (parent : Option InlaidId) (src : SourceId) (s : State), Lineage s →
    (∀ p, parent = some p → p.val < s.nodes.size) →
    Within Descent (create fuel placement parent src) s

/-- `expand fuel` keeps the lineage for a model node of the heap and its model's name. -/
def ExpandDescends (fuel : Nat) : Prop :=
  ∀ (id : InlaidId) (name : String) (s : State), Lineage s → id.val < s.nodes.size →
    s.modelName id = some name → Within Descent (expand fuel id name) s

/-- `start fuel` keeps the lineage. -/
def StartDescends (fuel : Nat) : Prop :=
  ∀ (f : SubscriberId) (s : State), Lineage s → Within Descent (start fuel f) s

/-- `fill fuel` keeps the lineage. -/
def FillDescends (fuel : Nat) : Prop :=
  ∀ (f : SubscriberId) (src : Option SourceId) (s : State), Lineage s →
    Within Descent (fill fuel f src) s

/-- A copy of a source node is a new node standing for that source node, and the heap keeps its
lineage whether the copy is made or fails. -/
theorem create_origin_succ (hc : CreateDescends fuel) (he : ExpandDescends fuel)
    (placement : Placement) (parent : Option InlaidId) (src : SourceId) (hl : Lineage s)
    (hpar : ∀ p, parent = some p → p.val < s.nodes.size) :
    Ensures (create (fuel + 1) placement parent src) s
      (fun x s' => Descent s s' ∧ s.nodes.size ≤ x.val ∧ (s'.node x).source = src)
      fun _ s' => Descent s s' := by
  rw [create]
  refine Ensures.bind (Ensures.get ?_)
  dsimp only
  refine Ensures.andThen (P := fun _ s' => s = s')
    (Ensures.ofExcept (fun _ _ => rfl) fun _ _ => Descent.refl hl) fun _ s₁ hs₁ => ?_
  subst hs₁
  refine Ensures.andThen (addNode_descends hl hpar (fun n hn => by simpa [Option.map_map] using hn)
    (by cases (s.forest.node src).model <;> rfl)) fun id s₂ hs₂ => ?_
  obtain ⟨h₂, hid₀, hid, hnode⟩ := hs₂
  have hname : s₂.modelName id = (s.forest.node src).model := by
    simp [State.modelName, hnode, Option.map_map, Function.comp_def]
  refine Ensures.andThen (P := fun _ s₃ => Descent s s₃ ∧ Descent s₂ s₃) ((Within.tryCatch ?_
    fun e s₃ h₃ => Within.seq (stopFeeds_descends h₃.lineage id) fun _ s₄ h₄ =>
      Within.throw (Descent.refl h₄.lineage) e).mono (fun _ s₃ h => ⟨h₂.trans h, h⟩)
    fun _ _ h => h₂.trans h) fun _ s₃ h₃ => Ensures.pure ⟨h₃.1, Nat.le_of_eq (by rw [hid₀]), ?_⟩
  · refine Within.seq (Within.forIn_rounds (Descent.refl h₂.lineage) (fun c _ t h => ?_) _ _)
      fun _ t h => ?_
    · refine Within.seq (hc _ _ c t h.lineage fun p hp => ?_) fun child t₁ h₁ => Within.seq
        (modifyNode_descends h₁.lineage id (fun _ => rfl) fun _ _ hh => hh) fun _ t₂ h₂ =>
          Within.pure (Descent.refl h₂.lineage) _
      cases hp
      exact Nat.lt_of_lt_of_le hid h.size
    · split
      · rename_i name hm
        exact he id name t h.lineage (Nat.lt_of_lt_of_le hid h.size)
          (by rw [h.modelName hid, hname, hm])
      · exact Within.pure (Descent.refl h.lineage) _
  · rw [Inlaid.Node.source_eq_of_origin (h₃.2.origin id hid), hnode]

theorem create_descends_succ (hc : CreateDescends fuel) (he : ExpandDescends fuel) :
    CreateDescends (fuel + 1) := fun placement parent src _ hl hpar =>
  (create_origin_succ hc he placement parent src hl hpar).mono (fun _ _ h => h.1) fun _ _ h => h

/-- Inlining a resolved model into a guarded model node: a new feed for it, started, or stopped
again on a fault. -/
theorem inline_descends (hs : StartDescends fuel) {id : InlaidId} (tree : TreeId) (announces : Bool)
    (hl : Lineage s) (hid : id.val < s.nodes.size) (hguard : Guarded s id) :
    Within Descent (do
        let f ← addFeed { mount := .owner id, tree, announcesModel := announces, active := true,
                          subscription := none }
        try start fuel f catch e => do stopFeed f; throw e
        modifyInlining id fun i => { i with feed := some f } : Run Unit) s := by
  refine Within.seq (addFeed_descends hl fun o ho => ?_) fun f s₁ h₁ => ?_
  · cases ho
    exact ⟨hid, hguard⟩
  refine Within.seq (Within.tryCatch (hs f s₁ h₁.lineage) fun e s₂ h₂ =>
    Within.seq (stopFeed_descends h₂.lineage f) fun _ s₃ h₃ =>
      Within.throw (Descent.refl h₃.lineage) e) fun _ s₂ h₂ => ?_
  exact modifyNode_descends h₂.lineage id (fun m => Inlaid.Node.origin_withFeed m f)
    fun m h hh => (Inlaid.Node.hidden_withFeed m f).symm.trans hh

theorem expand_descends_succ (hs : StartDescends fuel) : ExpandDescends (fuel + 1) := by
  intro id name s hl hid hname
  rw [expand]
  refine Within.get ?_
  dsimp only
  split <;> split
  case h_1.isTrue | h_2.isTrue => exact Within.pure (Descent.refl hl) _
  case h_1.isFalse =>
    rename_i p hp hu
    have hu' : s.usesModel (fun _ => true) p name = false := by
      revert hu
      cases s.usesModel (fun _ => true) p name <;> simp
    cases s.resolve name with
    | none => exact Within.pure (Descent.refl hl) _
    | some r => exact inline_descends hs r.1 r.2 hl hid (hl.guarded_of_unused hid hname hp hu')
  case h_2.isFalse =>
    rename_i hp _
    cases s.resolve name with
    | none => exact Within.pure (Descent.refl hl) _
    | some r => exact inline_descends hs r.1 r.2 hl hid (guarded_of_root hp)

theorem start_descends_succ (hf : FillDescends fuel) : StartDescends (fuel + 1) := by
  intro f s hl
  rw [start]
  refine Within.seq (subscribe_descends hl f) fun root s₁ h₁ => Within.get ?_
  split
  · exact Within.discard (hf f root s₁ h₁.lineage)
  · exact Within.pure (Descent.refl h₁.lineage) _

theorem fill_descends_succ (hc : CreateDescends fuel) : FillDescends (fuel + 1) := by
  intro f src s hl
  rw [fill]
  refine Within.get ?_
  dsimp only
  split
  · cases src <;> refine Within.seq ?_ fun root s₁ h₁ =>
      Within.seq (modifyTracker_descends h₁.lineage _) fun _ s₂ h₂ =>
        Within.pure (Descent.refl h₂.lineage) _
    · exact Within.pure (Descent.refl hl) _
    · exact Within.map (hc _ _ _ s hl (by intros; contradiction))
  · rename_i owner hm
    obtain ⟨ho, hguard⟩ := hl.owner f owner hm
    cases src with
    | some src =>
      refine Within.seq (Ensures.ofExcept (fun _ _ => Descent.refl hl) fun _ _ => Descent.refl hl)
        fun _ s₁ h₁ => Within.seq (hc _ _ src s₁ h₁.lineage fun p hp => ?_) fun hidden s₂ h₂ => ?_
      · cases hp
        exact Nat.lt_of_lt_of_le ho h₁.size
      exact Within.seq (modifyNode_descends_guarded h₂.lineage
        (fun m => Inlaid.Node.origin_attach m hidden) ((h₁.trans h₂).guarded hl ho hguard))
        fun _ s₃ h₃ => Within.pure (Descent.refl h₃.lineage) _
    | none =>
      exact Within.seq (detachHidden_descends hl owner) fun _ s₁ h₁ =>
        Within.pure (Descent.refl h₁.lineage) _

/-- The four builders keep the lineage at every fuel. -/
theorem build_descends (fuel : Nat) :
    CreateDescends fuel ∧ ExpandDescends fuel ∧ StartDescends fuel ∧ FillDescends fuel := by
  induction fuel with
  | zero =>
    refine ⟨fun placement parent src s hl hpar => ?_, fun _ _ s hl _ _ => Within.pure (Descent.refl hl) _,
      fun f s hl => ?_, fun _ _ s hl => Within.pure (Descent.refl hl) _⟩
    · rw [create]
      exact (addNode_descends hl hpar (fun _ h => by simp at h) rfl).mono (fun _ _ h => h.1) fun _ _ h => h
    · rw [start]
      exact Within.discard (subscribe_descends hl f)
  | succ fuel ih =>
    obtain ⟨hc, he, hs, hf⟩ := ih
    exact ⟨create_descends_succ hc he, expand_descends_succ hs, start_descends_succ hf,
      fill_descends_succ hc⟩

theorem nodeOf_descends (hl : Lineage s) (placement : Placement) {parent : Option InlaidId}
    (hpar : ∀ p, parent = some p → p.val < s.nodes.size) (src : SourceId) :
    Within Descent (nodeOf placement parent src) s :=
  Within.get ((build_descends _).1 placement parent src s hl hpar)

theorem startFeed_descends (hl : Lineage s) (f : SubscriberId) : Within Descent (startFeed f) s :=
  Within.get ((build_descends _).2.2.1 f s hl)

theorem fillMount_descends (hl : Lineage s) (f : SubscriberId) (src : Option SourceId) :
    Within Descent (fillMount f src) s :=
  Within.get ((build_descends _).2.2.2 f src s hl)

/-- A copy of a source node made with any fuel is a new node standing for that source node. -/
theorem create_origin (fuel : Nat) (placement : Placement) {parent : Option InlaidId}
    (src : SourceId) (hl : Lineage s) (hpar : ∀ p, parent = some p → p.val < s.nodes.size) :
    Ensures (create fuel placement parent src) s
      (fun x s' => Descent s s' ∧ s.nodes.size ≤ x.val ∧ (s'.node x).source = src)
      fun _ s' => Descent s s' := by
  cases fuel with
  | zero =>
    rw [create]
    refine (addNode_descends hl hpar (fun _ h => by simp at h) rfl).mono (fun x s' h => ?_)
      fun _ _ h => h
    obtain ⟨hd, hx, -, hnode⟩ := h
    exact ⟨hd, Nat.le_of_eq (by rw [hx]), by rw [hnode]⟩
  | succ fuel =>
    exact create_origin_succ (build_descends fuel).1 (build_descends fuel).2.1 placement parent src
      hl hpar

end Building

section Removing

/-- Clearing the inlined root of a model node keeps its origin. -/
theorem clearHidden_descends (hl : Lineage s) (id : InlaidId) :
    Within Descent (modifyInlining id fun i => { i with hidden := none }) s :=
  modifyNode_descends hl id (fun m => Inlaid.Node.origin_mapInlining m fun _ => rfl)
    fun m h hh => by cases hm : m.inlining <;> simp [hm] at hh

/-- Freezing a subtree keeps the lineage: it changes placements, feeds and inlined roots only. -/
theorem removeWithin_descends (fuel : Nat) :
    ∀ (s : State) (id : InlaidId), Lineage s → Within Descent (removeWithin fuel id) s := by
  induction fuel with
  | zero => exact fun s _ hl => Within.pure (Descent.refl hl) _
  | succ fuel ih =>
    intro s id hl
    unfold removeWithin
    refine Within.get (Within.seq (Ensures.ofExcept (fun _ _ => Descent.refl hl)
      fun _ _ => Descent.refl hl) fun _ s₁ h₁ => ?_)
    refine Within.seq (modifyNode_descends h₁.lineage id (fun _ => rfl) fun _ _ hh => hh)
      fun _ s₂ h₂ => ?_
    refine Within.get (Within.seq (Within.forIn_rounds (Descent.refl h₂.lineage)
      (fun c _ t h => Within.seq (ih t c h.lineage) fun _ t' h' =>
        Within.pure (Descent.refl h'.lineage) _) _ _) fun _ s₃ h₃ => ?_)
    refine Within.seq (takeFeed_descends h₃.lineage id) fun r s₄ h₄ => ?_
    rcases r with _ | f <;> dsimp only
    · exact Within.pure (Descent.refl h₄.lineage) _
    · exact Within.seq (stopFeed_descends h₄.lineage f) fun _ s₅ h₅ =>
        clearHidden_descends h₅.lineage id

theorem remove_descends (hl : Lineage s) (id : InlaidId) : Within Descent (remove id) s :=
  Within.get (removeWithin_descends _ s id hl)

end Removing

section Tracking

theorem stopTracking_descends (hl : Lineage s) : Within Descent stopTracking s := by
  unfold stopTracking
  refine Within.get ?_
  dsimp only
  refine Within.seq (modifyTracker_descends hl _) fun _ s₁ h₁ => ?_
  refine Within.seq (Within.tryCatch ?_ fun e s' h => Within.pure (Descent.refl h.lineage) _)
    fun frozen s₂ h₂ => Within.get ?_
  · split
    · exact Within.seq (remove_descends h₁.lineage _) fun _ _ h =>
        Within.pure (Descent.refl h.lineage) _
    · exact Within.pure (Descent.refl h₁.lineage) _
  have hjoin := fun s₃ (h₃ : Lineage s₃) => stopTracking_rest_within (Descent.refl h₃)
    (fun h => Descent.refl h.lineage) (fun _ _ h => stopFeeds_descends h.lineage _) frozen
    s.tracker.root
  split
  · refine Within.seq (modifyTracker_descends h₂.lineage _) fun _ s₃ h₃ => ?_
    exact Within.seq (stopFeed_descends h₃.lineage _) fun _ s₄ h₄ => hjoin s₄ h₄.lineage
  · exact hjoin s₂ h₂.lineage

theorem removeListener_descends (hl : Lineage s) (h : Handle) :
    Within Descent (removeListener h) s := by
  unfold removeListener
  refine Within.get ?_
  split
  · exact Within.pure (Descent.refl hl) _
  · refine Within.seq (modifyTracker_descends hl _) fun _ s₁ h₁ => ?_
    dsimp only
    split
    · exact Within.seq (stopTracking_descends h₁.lineage) fun _ s₂ h₂ =>
        Within.pure (Descent.refl h₂.lineage) _
    · exact Within.pure (Descent.refl h₁.lineage) _

theorem hear_descends (hl : Lineage s) (lid : ListenerId) (change : Change) (node : InlaidId) :
    Within Descent (hear lid change node) s := by
  unfold hear
  refine Within.get ?_
  split
  · dsimp only
    refine Within.seq (note_descends hl _) fun _ s₁ h₁ => ?_
    split
    · refine Within.seq (modifyListener_descends h₁.lineage _ _) fun _ s₂ h₂ => ?_
      refine Within.seq (Within.tryCatch ?_ fun _ s₃ h₃ =>
        Within.pure (Descent.refl h₃.lineage) _) fun _ s₃ h₃ => note_descends h₃.lineage _
      split
      · exact Within.map (removeListener_descends h₂.lineage _)
      · exact Within.pure (Descent.refl h₂.lineage) _
    · exact Within.pure (Descent.refl h₁.lineage) _
  · exact modifyListener_descends hl _ _
  · exact Within.pure (Descent.refl hl) _

theorem notify_descends (hl : Lineage s) (change : Change) (node : InlaidId) :
    Within Descent (notify change node) s := by
  unfold notify
  refine Within.get ?_
  split
  · exact Within.seq (Within.forIn (Descent.refl hl)
      (fun lid _ h => hear_descends h.lineage lid change node) _) fun _ _ h =>
        Within.pure (Descent.refl h.lineage) _
  · exact Within.pure (Descent.refl hl) _

/-- Starting to track opens a feed for the tracker's root, which no guard concerns. -/
theorem startTracking_descends (hl : Lineage s) : Within Descent startTracking s := by
  unfold startTracking
  refine Within.get ?_
  refine Within.seq (addFeed_descends hl (by intros; contradiction)) fun f s₁ h₁ => ?_
  refine Within.seq (Within.tryCatch (startFeed_descends h₁.lineage f) fun e s₂ h₂ => ?_)
    fun _ s₃ h₃ => modifyTracker_descends h₃.lineage _
  refine Within.seq (stopFeed_descends h₂.lineage f) fun _ s₃ h₃ => Within.get ?_
  dsimp only
  split
  · exact Within.seq (modifyTracker_descends h₃.lineage _) fun _ s₄ h₄ =>
      Within.seq (stopFeeds_descends h₄.lineage _) fun _ _ h₅ =>
        Within.throw (Descent.refl h₅.lineage) e
  · exact Within.throw (Descent.refl h₃.lineage) e

theorem addListenerNamed_descends (hl : Lineage s) (l : Listener) :
    Within Descent (addListenerNamed l) s := by
  unfold addListenerNamed
  refine Within.seq (addListenerObject_descends hl l) fun lid s₁ h₁ => Within.get ?_
  cases s₁.tracker.listeners.insert lid with
  | mk h listeners =>
    dsimp only
    refine Within.seq (modifyTracker_descends h₁.lineage _) fun _ s₂ h₂ => ?_
    refine Within.ifThen (Descent.refl h₂.lineage) (fun _ => ?_) fun s₃ h₃ =>
      Within.seq (modifyListener_descends h₃.lineage _ _) fun _ _ h₄ =>
        Within.pure (Descent.refl h₄.lineage) _
    exact Within.tryCatch (startTracking_descends h₂.lineage) fun e s₃ h₃ =>
      Within.seq (modifyTracker_descends h₃.lineage _) fun _ _ h₄ =>
        Within.throw (Descent.refl h₄.lineage) e

theorem dropTracker_descends (hl : Lineage s) : Within Descent dropTracker s := by
  unfold dropTracker
  refine Within.get ?_
  exact Within.ifThen (Descent.refl hl) (fun _ => Within.tryCatch (stopTracking_descends hl)
    fun _ _ h => Within.pure (Descent.refl h.lineage) _) fun _ h => modifyTracker_descends h.lineage _

end Tracking

end Sync

end Inlay
