import Inlay.Proofs.Accounting

namespace Inlay

/-- A model mismatch: a tree says it serves another model than the one a model node asks for. -/
def Fault.Mismatched : Fault → Prop
  | .modelMismatch expected actual => expected ≠ actual
  | _ => False

namespace Sync

section Builders

/-- The check that a tree serves the model a slot's node asks for fails only with a mismatch. -/
theorem State.checkServed_mismatched {s : State} {feed : Feed} {owner : InlaidId} {e : Fault}
    (h : s.checkServed feed owner = .error e) : e.Mismatched := by
  simp only [State.checkServed] at h
  split at h
  · split at h
    · cases h
    · cases h
      assumption
  · cases h

/-- Every fault of `create fuel` from a placement that is not frozen is a model mismatch. -/
def CreateFaults (fuel : Nat) : Prop :=
  ∀ (placement : Placement) (parent : Option InlaidId) (src : SourceId) (s : State),
    placement.isFrozen = false →
    Ensures (create fuel placement parent src) s (fun _ _ => True) fun e _ => e.Mismatched

/-- Every fault of `expand fuel` is a model mismatch. -/
def ExpandFaults (fuel : Nat) : Prop :=
  ∀ (id : InlaidId) (name : String) (s : State),
    Ensures (expand fuel id name) s (fun _ _ => True) fun e _ => e.Mismatched

/-- Every fault of `start fuel` is a model mismatch. -/
def StartFaults (fuel : Nat) : Prop :=
  ∀ (f : SubscriberId) (s : State),
    Ensures (start fuel f) s (fun _ _ => True) fun e _ => e.Mismatched

/-- Every fault of `fill fuel` is a model mismatch. -/
def FillFaults (fuel : Nat) : Prop :=
  ∀ (f : SubscriberId) (src : Option SourceId) (s : State),
    Ensures (fill fuel f src) s (fun _ _ => True) fun e _ => e.Mismatched

variable {fuel : Nat}

theorem create_faults_succ (hc : CreateFaults fuel) (he : ExpandFaults fuel) :
    CreateFaults (fuel + 1) := by
  intro placement parent src s hpl
  rw [create]
  apply Ensures.bind; apply Ensures.get
  dsimp only
  rw [Placement.forChildren_eq_ok hpl]
  apply Ensures.bind
  refine Ensures.ofExcept (fun childPl hcp => ?_) fun _ h => by cases h
  cases hcp
  refine Ensures.andThen (addNode_spec _ s) fun id s₁ _ => ?_
  apply Ensures.bind
  apply Ensures.tryCatch
  refine Ensures.mono (Q := fun _ _ => True) (E := fun e _ => e.Mismatched) ?_
    (fun _ _ _ => Ensures.pure trivial) fun e _ hmis => ?_
  · refine Ensures.andThen (Ensures.forIn (I := fun _ _ => True) (fun c _ t _ => ?_) _ s₁ trivial)
      fun _ t _ => ?_
    · exact Ensures.andThen (hc _ _ c t (Placement.isFrozen_inherited hpl)) fun _ t₁ _ =>
        Ensures.andThen (modifyNode_spec _ _ t₁) fun _ _ _ => Ensures.pure ⟨rfl, trivial⟩
    · split
      · exact he _ _ t
      · exact Ensures.pure trivial
  · exact Ensures.andThen (stopFeeds_spec id _) fun _ _ _ => Ensures.throw hmis

theorem expand_faults_succ (hs : StartFaults fuel) : ExpandFaults (fuel + 1) := by
  intro id name s
  rw [expand]
  apply Ensures.bind; apply Ensures.get
  dsimp only
  split <;> split
  case h_1.isTrue | h_2.isTrue => exact Ensures.pure trivial
  case h_1.isFalse | h_2.isFalse =>
    rcases s.resolve name with _ | ⟨tree, announces⟩
    · exact Ensures.pure trivial
    refine Ensures.andThen (addFeed_spec _ s) fun g s₁ _ => ?_
    apply Ensures.bind
    apply Ensures.tryCatch
    refine (hs g s₁).mono (fun _ s₂ _ => Ensures.modify trivial) fun e s₂ hmis => ?_
    exact Ensures.andThen (stopFeed_spec g s₂) fun _ _ _ => Ensures.throw hmis

theorem start_faults_succ (hf : FillFaults fuel) : StartFaults (fuel + 1) := by
  intro f s
  rw [start]
  refine Ensures.andThen (subscribe_spec f s) fun root s₁ _ => ?_
  apply Ensures.bind; apply Ensures.get
  split
  · exact Ensures.discard (hf f root s₁)
  · exact Ensures.pure trivial

theorem fill_faults_succ (hc : CreateFaults fuel) : FillFaults (fuel + 1) := by
  intro f src s
  rw [fill]
  apply Ensures.bind; apply Ensures.get
  dsimp only
  split
  · cases src with
    | none => exact Ensures.bind (Ensures.pure (Ensures.bind (Ensures.modify (Ensures.pure trivial))))
    | some src =>
      exact Ensures.andThen (P := fun _ _ => True) (Ensures.map (hc _ _ src s rfl)) fun _ _ _ =>
        Ensures.bind (Ensures.modify (Ensures.pure trivial))
  · cases src with
    | some src =>
      apply Ensures.bind
      refine Ensures.ofExcept (fun _ _ => ?_) fun _ h => State.checkServed_mismatched h
      exact Ensures.andThen (hc _ _ src s rfl) fun _ s₁ _ =>
        Ensures.andThen (modifyNode_spec _ _ s₁) fun _ _ _ => Ensures.pure trivial
    | none => exact Ensures.andThen (detachHidden_spec _ s) fun _ _ _ => Ensures.pure trivial

/-- Every fault of the four builders is a model mismatch, at every fuel. -/
theorem build_faults (fuel : Nat) :
    CreateFaults fuel ∧ ExpandFaults fuel ∧ StartFaults fuel ∧ FillFaults fuel := by
  induction fuel with
  | zero =>
    refine ⟨fun placement parent src s _ => ?_, fun _ _ _ => Ensures.pure trivial,
      fun f s => ?_, fun _ _ _ => Ensures.pure trivial⟩
    · rw [create]
      exact Ensures.modifyGet trivial
    · rw [start]
      exact Ensures.discard ((subscribe_spec f s).mono (fun _ _ _ => trivial) fun _ _ h => h)
  | succ fuel ih =>
    obtain ⟨hc, he, hs, hf⟩ := ih
    exact ⟨create_faults_succ hc he, expand_faults_succ hs, start_faults_succ hf,
      fill_faults_succ hc⟩

end Builders

section Walks

variable {s : State}

/-- Walking down from `x` along child indices, each below the literal count of the node it is read
at, ends at `y`: the inlined root of a model node is never walked into. -/
inductive Descends (s : State) : InlaidId → List Nat → InlaidId → Prop
  | nil (x : InlaidId) : Descends s x [] x
  | cons {x y : InlaidId} {i : Nat} {rest : List Nat} :
      i < s.literalCount x → Descends s ((s.node x).children.getD i default) rest y →
        Descends s x (i :: rest) y

/-- Walking down from `x` along child indices meets the index `i` at the node `y`, not below its
literal count, after indices that each were. -/
inductive Strays (s : State) : InlaidId → List Nat → Nat → InlaidId → Prop
  | here {x : InlaidId} {i : Nat} {rest : List Nat} :
      s.literalCount x ≤ i → Strays s x (i :: rest) i x
  | next {x y : InlaidId} {j i : Nat} {rest : List Nat} :
      j < s.literalCount x → Strays s ((s.node x).children.getD j default) rest i y →
        Strays s x (j :: rest) i y

theorem Descends.unique {x y y' : InlaidId} {l : List Nat} (h : Descends s x l y)
    (h' : Descends s x l y') : y = y' := by
  induction h with
  | nil => cases h'; rfl
  | cons _ _ ih =>
    cases h' with
    | cons _ hrest => exact ih hrest

theorem Strays.unique {x y y' : InlaidId} {l : List Nat} {i i' : Nat} (h : Strays s x l i y)
    (h' : Strays s x l i' y') : i = i' ∧ y = y' := by
  induction h with
  | here hle =>
    cases h' with
    | here => exact ⟨rfl, rfl⟩
    | next hlt => omega
  | next hlt _ ih =>
    cases h' with
    | here hle => omega
    | next _ hrest => exact ih hrest

theorem Strays.not_descends {x y z : InlaidId} {l : List Nat} {i : Nat} (h : Strays s x l i y) :
    ¬ Descends s x l z := by
  intro hd
  induction h with
  | here hle =>
    cases hd with
    | cons hlt _ => omega
  | next _ _ ih =>
    cases hd with
    | cons _ hrest => exact ih hrest

/-- A walk from a live node stays in the live tree. -/
theorem Descends.live {x y : InlaidId} {l : List Nat} (h : Descends s x l y) (hx : Live s x) :
    Live s y := by
  induction h with
  | nil => exact hx
  | cons hi _ ih => exact ih (hx.child (State.getD_mem_children hi))

/-- A walk down the literal children stays below where it started. -/
theorem Descends.toBelow {x y : InlaidId} {l : List Nat} (h : Descends s x l y) : Below s x y := by
  induction h with
  | nil => exact .refl
  | cons hi _ ih => exact (Below.single (State.getD_mem_children hi)).trans ih

/-- Navigating follows every index but the last while each is below the literal count of the node
it is read at, and only reads the tree. -/
theorem navigate_walks (x : InlaidId) (a : List Nat) (s : State) :
    Ensures (navigate x a) s
      (fun r s' => s' = s ∧ a = a.dropLast ++ [r.2] ∧ Descends s x a.dropLast r.1)
      fun e s' => s' = s ∧ (a = [] ∧ e = .emptyPath ∨
        ∃ i y, Strays s x a.dropLast i y ∧ e = .indexOutOfBounds i (s.node y).children.length) := by
  unfold navigate
  split
  · rename_i hnone
    exact Ensures.throw ⟨rfl, .inl ⟨List.getLast?_eq_none_iff.1 hnone, rfl⟩⟩
  rename_i last hlast
  have ha : a = a.dropLast ++ [last] := by
    obtain ⟨ys, rfl⟩ := List.getLast?_eq_some_iff.1 hlast
    rw [List.dropLast_concat]
  refine Ensures.mono (Q := fun r s' => s' = s ∧ r.2 = last ∧ Descends s x a.dropLast r.1)
    (E := fun e s' => s' = s ∧ ∃ i y, Strays s x a.dropLast i y ∧
      e = .indexOutOfBounds i (s.node y).children.length) ?_
    (fun r s' h => ⟨h.1, by rw [h.2.1]; exact ha, h.2.2⟩) fun e s' h => ⟨h.1, .inr h.2⟩
  generalize a.dropLast = l
  induction l generalizing x with
  | nil => exact Ensures.pure ⟨rfl, rfl, .nil x⟩
  | cons i rest ih =>
    dsimp only
    rw [List.forIn_cons, bind_assoc]
    refine Ensures.bind (Ensures.bind (Ensures.get ?_))
    split
    · exact Ensures.bind (Ensures.throw ⟨rfl, i, x, .here (by omega), rfl⟩)
    · have hi : i < s.literalCount x := by omega
      refine (ih ((s.node x).children.getD i default)).mono
        (fun r s' h => ⟨h.1, h.2.1, .cons hi h.2.2⟩) fun e s' h => ?_
      obtain ⟨hs', j, y, hj, he⟩ := h
      exact ⟨hs', j, y, .next hi hj, he⟩

/-- An address whose walk ends in range is navigated to its last index. -/
theorem navigate_descends {x y : InlaidId} {pre : List Nat} (hd : Descends s x pre y) (i : Nat)
    {E : Fault → State → Prop} :
    Ensures (navigate x (pre ++ [i])) s (fun r s' => r = (y, i) ∧ s' = s) E := by
  refine (navigate_walks x (pre ++ [i]) s).mono (fun r s' h => ?_) fun e s' h => ?_
  · obtain ⟨hs', ha, hd'⟩ := h
    rw [List.dropLast_concat] at ha hd'
    have hi : i = r.2 := List.singleton_inj.1 (List.append_cancel_left ha)
    rw [hd.unique hd', hi]
    exact ⟨rfl, hs'⟩
  · obtain ⟨-, hnil | ⟨j, z, hj, -⟩⟩ := h
    · exact absurd hnil.1 (List.append_ne_nil_of_right_ne_nil pre (List.cons_ne_nil i []))
    · rw [List.dropLast_concat] at hj
      exact absurd hd hj.not_descends

/-- An address whose walk leaves the literal children before its last index is refused there. -/
theorem navigate_strays {x y : InlaidId} {a : List Nat} {i : Nat} (hs : Strays s x a.dropLast i y) :
    Ensures (navigate x a) s (fun _ _ => False)
      fun e s' => e = .indexOutOfBounds i (s.node y).children.length ∧ s' = s := by
  refine (navigate_walks x a s).mono (fun r s' h => absurd h.2.2 hs.not_descends) fun e s' h => ?_
  obtain ⟨rfl, hnil | ⟨j, z, hj, rfl⟩⟩ := h
  · rw [hnil.1] at hs
    cases hs
  · obtain ⟨rfl, rfl⟩ := hs.unique hj
    exact ⟨rfl, rfl⟩

/-- The literal child of an index, or the refusal of an index not below the literal count; either
way the tree is only read. -/
theorem literalChild_exact (p : InlaidId) (index : Nat) (s : State) :
    Ensures (literalChild p index) s
      (fun c s' => s' = s ∧ index < s.literalCount p ∧ c = (s.node p).children.getD index default)
      fun e s' => s' = s ∧ s.literalCount p ≤ index ∧
        e = .indexOutOfBounds index (s.node p).children.length := by
  unfold literalChild
  refine Ensures.bind (Ensures.get ?_)
  dsimp only
  split
  · exact Ensures.bind (Ensures.throw ⟨rfl, by omega, rfl⟩)
  · exact Ensures.pure ⟨rfl, by omega, rfl⟩

end Walks

section Refusals

variable {s : State} {f : SubscriberId} {e : Source.Event} {err : Fault}

/-- The faults with which a feed whose mount has the root `root` refuses an event, before anything
changes. -/
inductive Refuses (s : State) : Option InlaidId → Source.Event → Fault → Prop
  /-- A root is added where there is one. -/
  | rootExists {r : InlaidId} {src : SourceId} :
      Refuses s (some r) (.added [] src) .rootAlreadyExists
  /-- Every event but an added root needs a root; the fault names the event. -/
  | rootMissing {e : Source.Event} : (e.change = .added → e.address ≠ []) →
      Refuses s none e (.rootMissing e.change.name)
  /-- An index before the last is not below the literal count of the node it is read at. -/
  | strays {r y : InlaidId} {e : Source.Event} {i : Nat} :
      Strays s r e.address.dropLast i y →
        Refuses s (some r) e (.indexOutOfBounds i (s.node y).children.length)
  /-- A node is added past the slot after the last literal child. -/
  | addedPast {r y : InlaidId} {pre : List Nat} {i : Nat} {src : SourceId} :
      Descends s r pre y → s.literalCount y < i →
        Refuses s (some r) (.added (pre ++ [i]) src) (.indexOutOfBounds i (s.node y).children.length)
  /-- A removal names no literal child. -/
  | removedPast {r y : InlaidId} {pre : List Nat} {i : Nat} :
      Descends s r pre y → s.literalCount y ≤ i →
        Refuses s (some r) (.removed (pre ++ [i])) (.indexOutOfBounds i (s.node y).children.length)
  /-- A report of a change names no literal child. -/
  | changedPast {r y : InlaidId} {pre : List Nat} {i : Nat} :
      Descends s r pre y → s.literalCount y ≤ i →
        Refuses s (some r) (.changed (pre ++ [i])) (.indexOutOfBounds i (s.node y).children.length)

/-- An index not below the literal count names no literal child. -/
theorem literalChild_refused {p : InlaidId} {index : Nat} (h : s.literalCount p ≤ index) :
    Ensures (literalChild p index) s (fun _ _ => False)
      fun e s' => e = .indexOutOfBounds index (s.node p).children.length ∧ s' = s :=
  (literalChild_exact p index s).mono (fun _ _ hc => absurd hc.2.1 (Nat.not_lt.2 h))
    fun _ _ he => ⟨he.2.2, he.1⟩

/-- No refusal is a model mismatch. -/
theorem Refuses.not_mismatched {root : Option InlaidId} (h : Refuses s root e err) :
    ¬ err.Mismatched := by
  cases h <;> exact id

/-- A running feed of a present tracker refuses an event with exactly the fault `Refuses` names,
and changes nothing. -/
theorem onEvent_refused (hact : (s.feed f).active = true) (hpresent : s.tracker.present = true)
    (h : Refuses s (s.mountRoot (s.feed f)) e err) : exec (onEvent f e) s = (.error err, s) := by
  refine Ensures.eq_error ?_
  unfold onEvent
  refine Ensures.bind (Ensures.get ?_)
  dsimp only
  rw [if_neg (by simp [hact, hpresent])]
  generalize s.mountRoot (s.feed f) = root at h ⊢
  cases h with
  | rootExists => exact Ensures.bind (Ensures.throw ⟨rfl, rfl⟩)
  | rootMissing hne =>
    cases e with
    | added a src =>
      cases a with
      | nil => exact absurd rfl (hne rfl)
      | cons i rest => exact Ensures.throw ⟨rfl, rfl⟩
    | removed a => exact Ensures.throw ⟨rfl, rfl⟩
    | changed a => exact Ensures.throw ⟨rfl, rfl⟩
  | strays hs =>
    cases e with
    | added a src =>
      cases a with
      | nil => cases hs
      | cons i rest =>
        exact Ensures.discard (Ensures.andThen (navigate_strays hs) fun _ _ h => h.elim)
    | removed a =>
      cases a with
      | nil => cases hs
      | cons i rest =>
        exact Ensures.discard (Ensures.andThen (navigate_strays hs) fun _ _ h => h.elim)
    | changed a =>
      cases a with
      | nil => cases hs
      | cons i rest =>
        exact Ensures.discard (Ensures.andThen (navigate_strays hs) fun _ _ h => h.elim)
  | @addedPast r y pre i src hd hlt =>
    obtain ⟨j, rest, hjr⟩ := List.exists_cons_of_ne_nil (List.concat_ne_nil i pre)
    rw [hjr]
    dsimp only
    rw [← hjr]
    refine Ensures.discard (Ensures.andThen (navigate_descends hd i) fun r s' h => ?_)
    obtain ⟨rfl, rfl⟩ := h
    exact Ensures.bind (Ensures.get (by rw [if_pos hlt]; exact Ensures.bind (Ensures.throw ⟨rfl, rfl⟩)))
  | @removedPast r y pre i hd hle =>
    obtain ⟨j, rest, hjr⟩ := List.exists_cons_of_ne_nil (List.concat_ne_nil i pre)
    rw [hjr]
    dsimp only
    rw [if_neg (by simp), ← hjr]
    refine Ensures.discard (Ensures.andThen (navigate_descends hd i) fun r s' h => ?_)
    obtain ⟨rfl, rfl⟩ := h
    exact Ensures.andThen (literalChild_refused hle) fun _ _ h => h.elim
  | @changedPast r y pre i hd hle =>
    obtain ⟨j, rest, hjr⟩ := List.exists_cons_of_ne_nil (List.concat_ne_nil i pre)
    rw [hjr]
    dsimp only
    rw [if_neg (by simp), ← hjr]
    refine Ensures.discard (Ensures.andThen (navigate_descends hd i) fun r s' h => ?_)
    obtain ⟨rfl, rfl⟩ := h
    exact Ensures.andThen (literalChild_refused hle) fun _ _ h => h.elim

end Refusals

section Hearing

/-- A listener hearing of a change never fails: a fault of leaving is written down. -/
theorem hear_total (lid : ListenerId) (change : Change) (node : InlaidId) (s : State) :
    Ensures (hear lid change node) s (fun _ _ => True) fun _ _ => False := by
  unfold hear
  refine Ensures.bind (Ensures.get ?_)
  split
  · dsimp only
    refine Ensures.bind (Ensures.modify ?_)
    split
    · refine Ensures.bind (Ensures.modify ?_)
      refine Ensures.andThen (P := fun _ _ => True)
        (Ensures.tryCatch (Ensures.of_all (fun _ _ => trivial) fun _ _ => Ensures.pure trivial))
        fun _ _ _ => Ensures.modify trivial
    · exact Ensures.pure trivial
  · exact Ensures.modify trivial
  · exact Ensures.pure trivial

/-- Telling the listeners of a change never fails. -/
theorem notify_total (change : Change) (node : InlaidId) (s : State) :
    Ensures (notify change node) s (fun _ _ => True) fun _ _ => False := by
  unfold notify
  refine Ensures.bind (Ensures.get ?_)
  split
  · exact Ensures.andThen (Ensures.forIn (I := fun _ _ => True) (fun lid _ t _ =>
      Ensures.andThen (hear_total lid change node t) fun _ _ _ => Ensures.pure ⟨rfl, trivial⟩) _ s
      trivial) fun _ _ _ => Ensures.pure trivial
  · exact Ensures.pure trivial

end Hearing

section Failing

variable {s : State} {f : SubscriberId}

/-- Copying a source subtree either builds it or fails with a model mismatch, leaving nothing
reached. -/
theorem nodeOf_fails {placement : Placement} (parent : Option InlaidId) (src : SourceId)
    (ha : Arena s) (hpl : placement.isFrozen = false)
    (hpar : ∀ p, parent = some p → p.val < s.nodes.size) :
    Ensures (nodeOf placement parent src) s (fun x s' => Created s s' x placement parent)
      fun e s' => e.Mismatched ∧ Kept s s' := by
  have hfaults : Ensures (nodeOf placement parent src) s (fun _ _ => True)
      fun e _ => e.Mismatched := by
    unfold nodeOf
    exact Ensures.bind (Ensures.get ((build_faults _).1 placement parent src s hpl))
  exact ((nodeOf_spec parent src ha hpl hpar).and hfaults).mono (fun _ _ h => h.1)
    fun _ _ h => ⟨h.2, h.1⟩

/-- Filling the empty mount of a feed fails only with a model mismatch, leaving nothing reached. -/
theorem fillMount_fails (hw : Wellformed s) (hr : s.mountRoot (s.feed f) = none)
    (src : Option SourceId) :
    Ensures (fillMount f src) s (fun _ _ => True) fun e s' => e.Mismatched ∧ Kept s s' := by
  have hfaults : Ensures (fillMount f src) s (fun _ _ => True) fun e _ => e.Mismatched := by
    unfold fillMount
    exact Ensures.bind (Ensures.get ((build_faults _).2.2.2 f src s))
  have hkept : Ensures (fillMount f src) s (fun _ _ => True) fun _ s' => Kept s s' := by
    unfold fillMount
    refine Ensures.bind (Ensures.get ?_)
    cases hm : (s.feed f).mount with
    | tracker =>
      rw [State.mountRoot_tracker hm] at hr
      exact (fill_tracker_spec hw.arena hm hr _ src).mono (fun _ _ _ => trivial) fun _ _ h => h
    | owner o =>
      rw [State.mountRoot_owner hm] at hr
      exact ((build_spec _).2.2.2 f src o s hw.arena hm (hw.arena.mount_bound f o hm) hr).mono
        (fun _ _ _ => trivial) fun _ _ h => h
  exact (hfaults.and hkept).mono (fun _ _ _ => trivial) fun _ _ h => h

/-- Adding a child below a live node is refused past the slot after its last literal child, and
otherwise fails only while building the child. -/
theorem addChild_fails (hw : Wellformed s) {p : InlaidId} (hp : Live s p) (index : Nat)
    (src : SourceId) :
    Ensures (addChild p index src) s (fun _ _ => True) fun e s' =>
      (s.literalCount p < index ∧ e = .indexOutOfBounds index (s.node p).children.length ∧
        s' = s) ∨ e.Mismatched ∧ Kept s s' := by
  unfold addChild
  refine Ensures.bind (Ensures.get ?_)
  dsimp only
  split
  · exact Ensures.bind (Ensures.throw (.inl ⟨by omega, rfl, rfl⟩))
  have hpl := Live.not_frozen hw hp
  rw [Placement.forChildren_eq_ok hpl]
  refine Ensures.bind (Ensures.ofExcept (fun pl hpl' => ?_) fun _ h => by cases h)
  cases hpl'
  refine Ensures.andThen ((nodeOf_fails (some p) src hw.arena (Placement.isFrozen_inherited hpl)
    fun _ e => by cases e; exact hp.lt_size hw).mono (fun _ _ _ => trivial) fun _ _ h => .inr h)
    fun x s₁ _ => ?_
  exact Ensures.andThen (modifyNode_spec p _ s₁) fun _ s₂ _ =>
    Ensures.andThen ((notify_total _ x s₂).mono (fun _ _ h => h) fun _ _ h => h.elim) fun _ _ _ =>
      Ensures.pure trivial

/-- Removing a literal child of a live node is refused for an index not below the literal count,
and otherwise never fails. -/
theorem removeChild_fails (hw : Wellformed s) (hl : Ledger s) {p : InlaidId} (hp : Live s p)
    (index : Nat) :
    Ensures (removeChild p index) s (fun _ _ => True) fun e s' =>
      s.literalCount p ≤ index ∧ e = .indexOutOfBounds index (s.node p).children.length ∧ s' = s := by
  unfold removeChild
  refine Ensures.andThen ((literalChild_exact p index s).mono (fun _ _ h => h)
    fun _ _ h => ⟨h.2.1, h.2.2, h.1⟩) fun c s₁ h => ?_
  obtain ⟨rfl, hi, rfl⟩ := h
  have hc := hp.child (State.getD_mem_children hi)
  refine Ensures.andThen ((remove_retires hw hl (.inl hc)).mono (fun _ _ _ => trivial)
    fun _ _ h => absurd h.2 (hc.not_dead hw)) fun _ s₂ _ => ?_
  exact Ensures.andThen (modifyNode_spec p _ s₂) fun _ s₃ _ =>
    Ensures.andThen ((notify_total _ _ s₃).mono (fun _ _ h => h) fun _ _ h => h.elim) fun _ _ _ =>
      Ensures.pure trivial

/-- Reporting a change of a literal child is refused for an index not below the literal count, and
otherwise never fails. -/
theorem childChanged_fails (p : InlaidId) (index : Nat) :
    Ensures (childChanged p index) s (fun _ _ => True) fun e s' =>
      s.literalCount p ≤ index ∧ e = .indexOutOfBounds index (s.node p).children.length ∧ s' = s := by
  unfold childChanged
  refine Ensures.andThen ((literalChild_exact p index s).mono (fun _ _ h => h)
    fun _ _ h => ⟨h.2.1, h.2.2, h.1⟩) fun c s₁ h => ?_
  exact Ensures.andThen ((notify_total _ c s₁).mono (fun _ _ h => h) fun _ _ h => h.elim)
    fun _ _ _ => Ensures.pure trivial

/-- Adding at a nonempty address below a live root fails with the refusal of the address or with
a model mismatch of the build. -/
theorem addChildAt_fails (hw : Wellformed s) {r : InlaidId} (hr : Live s r) {a : List Nat}
    (ha : a ≠ []) (src : SourceId) :
    Ensures (addChildAt r a src) s (fun _ _ => True) fun e s' =>
      Refuses s (some r) (.added a src) e ∧ s' = s ∨ e.Mismatched ∧ Kept s s' := by
  unfold addChildAt
  refine Ensures.andThen ((navigate_walks r a s).mono (fun _ _ h => h) fun e s' h => .inl ?_)
    fun ⟨y, last⟩ s₁ h => ?_
  · obtain ⟨rfl, hnil | ⟨i, y, hs, rfl⟩⟩ := h
    · exact absurd hnil.1 ha
    · exact ⟨.strays hs, rfl⟩
  · obtain ⟨rfl, hsplit, hd⟩ := h
    refine (addChild_fails hw (hd.live hr) last src).mono (fun _ _ h => h)
      fun e s' h => h.imp (fun h' => ?_) id
    obtain ⟨hlt, rfl, rfl⟩ := h'
    refine ⟨?_, rfl⟩
    rw [hsplit]
    exact .addedPast hd hlt

/-- Removing at a nonempty address below a live root fails only with the refusal of the address. -/
theorem removeChildAt_fails (hw : Wellformed s) (hl : Ledger s) {r : InlaidId} (hr : Live s r)
    {a : List Nat} (ha : a ≠ []) :
    Ensures (removeChildAt r a) s (fun _ _ => True) fun e s' =>
      Refuses s (some r) (.removed a) e ∧ s' = s := by
  unfold removeChildAt
  refine Ensures.andThen ((navigate_walks r a s).mono (fun _ _ h => h) fun e s' h => ?_)
    fun ⟨y, last⟩ s₁ h => ?_
  · obtain ⟨rfl, hnil | ⟨i, y, hs, rfl⟩⟩ := h
    · exact absurd hnil.1 ha
    · exact ⟨.strays hs, rfl⟩
  · obtain ⟨rfl, hsplit, hd⟩ := h
    refine (removeChild_fails hw hl (hd.live hr) last).mono (fun _ _ h => h) fun e s' h => ?_
    obtain ⟨hle, rfl, rfl⟩ := h
    refine ⟨?_, rfl⟩
    rw [hsplit]
    exact .removedPast hd hle

/-- Reporting a change at a nonempty address fails only with the refusal of the address. -/
theorem childChangedAt_fails (r : InlaidId) {a : List Nat} (ha : a ≠ []) :
    Ensures (childChangedAt r a) s (fun _ _ => True) fun e s' =>
      Refuses s (some r) (.changed a) e ∧ s' = s := by
  unfold childChangedAt
  refine Ensures.andThen ((navigate_walks r a s).mono (fun _ _ h => h) fun e s' h => ?_)
    fun ⟨y, last⟩ s₁ h => ?_
  · obtain ⟨rfl, hnil | ⟨i, y, hs, rfl⟩⟩ := h
    · exact absurd hnil.1 ha
    · exact ⟨.strays hs, rfl⟩
  · obtain ⟨rfl, hsplit, hd⟩ := h
    refine (childChanged_fails y last).mono (fun _ _ h => h) fun e s' h => ?_
    obtain ⟨hle, rfl, rfl⟩ := h
    refine ⟨?_, rfl⟩
    rw [hsplit]
    exact .changedPast hd hle

/-- Removing the live root of a mount never fails. -/
theorem removeRoot_total (hw : Wellformed s) (hl : Ledger s) {r : InlaidId} (hr : Live s r) :
    Ensures (do remove r; discard (fillMount f none); notify .removed r) s (fun _ _ => True)
      fun _ _ => False := by
  refine Ensures.andThen ((remove_retires hw hl (.inl hr)).mono (fun _ _ h => h)
    fun _ _ h => absurd h.2 (hr.not_dead hw)) fun _ s₁ _ => ?_
  have hempty : Ensures (fillMount f none) s₁ (fun _ _ => True) fun _ _ => False := by
    cases hm : (s₁.feed f).mount with
    | tracker => exact (fillMount_none_tracker hm).mono (fun _ _ _ => trivial) fun _ _ h => h
    | owner o => exact (fillMount_none_owner hm).mono (fun _ _ _ => trivial) fun _ _ h => h
  exact Ensures.andThen (P := fun _ _ => True) (Ensures.discard hempty) fun _ s₂ _ =>
    notify_total _ r s₂

/-- A running feed belongs to a present tracker. -/
theorem Ledger.present_of_active (hl : Ledger s) {g : SubscriberId}
    (hg : (s.feed g).active = true) : s.tracker.present = true := by
  cases hm : (s.feed g).mount with
  | tracker => exact (hl.tracking g (hl.tracker_feed g hg hm)).1
  | owner o => exact (hl.owner_live g o hg hm).1

/-- How a feed can fail to follow an event: it refuses it before anything changes, or the event
adds a node whose subtree cannot be built because a tree serves another model than a model node
asks for; then every node and feed that was there is as it was, every feed the build opened is
stopped again, and no listener was told (`Kept`). -/
def Fails (s : State) (root : Option InlaidId) (e : Source.Event) (err : Fault) (s' : State) :
    Prop :=
  Refuses s root e err ∧ s' = s ∨ e.change = .added ∧ err.Mismatched ∧ Kept s s'

/-- Every fault of a running feed following an event is a refusal or a failed build. -/
theorem onEvent_fails (hw : Wellformed s) (hl : Ledger s) (hact : (s.feed f).active = true)
    (e : Source.Event) :
    Ensures (onEvent f e) s (fun _ _ => True) (Fails s (s.mountRoot (s.feed f)) e) := by
  have hpresent := hl.present_of_active hact
  have hlive : ∀ r, s.mountRoot (s.feed f) = some r → Live s r := fun r hr =>
    hl.mountRoot_live hw hact hpresent hr
  unfold onEvent
  refine Ensures.bind (Ensures.get ?_)
  dsimp only
  rw [if_neg (by simp [hact, hpresent])]
  split
  · split
    · rename_i hsome
      obtain ⟨r, hr⟩ := Option.isSome_iff_exists.1 hsome
      exact Ensures.bind (Ensures.throw (.inl ⟨by rw [hr]; exact .rootExists, rfl⟩))
    · rename_i hnone
      refine Ensures.andThen ((fillMount_fails hw (Option.not_isSome_iff_eq_none.1 hnone) _).mono
        (fun _ _ h => h) fun _ _ h => .inr ⟨rfl, h⟩) fun x s₁ _ => ?_
      split
      · exact (notify_total _ _ s₁).mono (fun _ _ h => h) fun _ _ h => h.elim
      · exact Ensures.pure trivial
  · rename_i a src hne
    split
    · rename_i r hr
      exact Ensures.discard ((addChildAt_fails hw (hlive r hr) hne src).mono (fun _ _ _ => trivial)
        fun _ _ h => h.imp (fun h => ⟨by rw [hr]; exact h.1, h.2⟩) fun h => ⟨rfl, h⟩)
    · rename_i hr
      exact Ensures.throw (.inl ⟨by rw [Option.eq_none_iff_forall_ne_some.2 hr]; exact .rootMissing fun _ => hne, rfl⟩)
  · rename_i a
    split
    · rename_i r hr
      split
      · exact (removeRoot_total hw hl (hlive r hr)).mono (fun _ _ h => h) fun _ _ h => h.elim
      · rename_i hne
        exact Ensures.discard ((removeChildAt_fails hw hl (hlive r hr) (by simpa using hne)).mono
          (fun _ _ _ => trivial) fun _ _ h => .inl ⟨by rw [hr]; exact h.1, h.2⟩)
    · rename_i hr
      exact Ensures.throw (.inl ⟨by
        rw [Option.eq_none_iff_forall_ne_some.2 hr]; exact .rootMissing (by intros; contradiction),
        rfl⟩)
  · rename_i a
    split
    · rename_i r hr
      split
      · exact (notify_total _ _ s).mono (fun _ _ h => h) fun _ _ h => h.elim
      · rename_i hne
        exact Ensures.discard ((childChangedAt_fails r (by simpa using hne)).mono
          (fun _ _ _ => trivial) fun _ _ h => .inl ⟨by rw [hr]; exact h.1, h.2⟩)
    · rename_i hr
      exact Ensures.throw (.inl ⟨by
        rw [Option.eq_none_iff_forall_ne_some.2 hr]; exact .rootMissing (by intros; contradiction),
        rfl⟩)

end Failing

section Snapshots

variable {s : State}

/-- A removed node takes no child: an index past its literal children is refused as anywhere, and
any other because a frozen placement hands none on. Either way nothing changes. -/
theorem addChild_of_frozen {p : InlaidId} (hp : (s.node p).placement.isFrozen = true)
    (index : Nat) (src : SourceId) :
    Ensures (addChild p index src) s (fun _ _ => False) fun _ s' => s' = s := by
  unfold addChild
  refine Ensures.bind (Ensures.get ?_)
  dsimp only
  split
  · exact Ensures.bind (Ensures.throw rfl)
  rw [Placement.forChildren_of_frozen hp]
  exact Ensures.bind (Ensures.ofExcept (by intros; contradiction) fun _ _ => rfl)

/-- Below a removed node every addition, at any address, is refused and changes nothing: the walk
to the parent stays inside the removed subtree, whose nodes are all frozen. -/
theorem Dead.addChildAt_refused {n : InlaidId} (hd : Dead s n) (a : List Nat) (src : SourceId) :
    Ensures (addChildAt n a src) s (fun _ _ => False) fun _ s' => s' = s := by
  unfold addChildAt
  refine Ensures.andThen ((navigate_walks n a s).mono (fun _ _ h => h) fun _ _ h => h.1)
    fun ⟨y, last⟩ s₁ h => ?_
  obtain ⟨rfl, -, hwalk⟩ := h
  exact addChild_of_frozen (hd y hwalk.toBelow) last src

end Snapshots

end Sync

namespace Session

open Sync

variable {S : State}

/-- In every state a session reaches, a running feed fails to follow an event exactly when it
refuses it (`Refuses`), with that fault and nothing changed, or when the event adds a node whose
subtree cannot be built because a tree serves another model than a model node asks for: then no
node or feed that was there changed, every feed the build opened is stopped, and no listener was
told. -/
theorem Reachable.event_faults (hS : Reachable S) {f : SubscriberId}
    (hact : (S.sync.feed f).active = true) (e : Source.Event) :
    (∀ err, Refuses S.sync (S.sync.mountRoot (S.sync.feed f)) e err →
      exec (onEvent f e) S.sync = (.error err, S.sync)) ∧
    (∀ err s', exec (onEvent f e) S.sync = (.error err, s') →
      Refuses S.sync (S.sync.mountRoot (S.sync.feed f)) e err ∧ s' = S.sync ∨
        (∀ err', ¬ Refuses S.sync (S.sync.mountRoot (S.sync.feed f)) e err') ∧
          e.change = .added ∧ err.Mismatched ∧ Kept S.sync s') := by
  have hA := hS.accounted
  have hpresent := hA.ledger.present_of_active hact
  have hrefused : ∀ err, Refuses S.sync (S.sync.mountRoot (S.sync.feed f)) e err →
      exec (onEvent f e) S.sync = (.error err, S.sync) := fun err h =>
    onEvent_refused hact hpresent h
  refine ⟨hrefused, fun err s' hexec => ?_⟩
  have hfails := (onEvent_fails hA.wellformed hA.ledger hact e)
  unfold Ensures at hfails
  rw [hexec] at hfails
  refine hfails.imp id fun ⟨hadd, hmis, hkept⟩ => ⟨fun err' h' => ?_, hadd, hmis, hkept⟩
  rw [hrefused err' h'] at hexec
  cases hexec
  exact h'.not_mismatched hmis

/-- In `demo` the root's only literal child is the model node, whose only child is its inlined
root: an addition below index 0 of the model node would walk into the inlined root, and is refused
there. -/
theorem demo_hidden_slot_refused :
    Reachable demoTracked ∧ (demoTracked.sync.feed ⟨0⟩).active = true ∧
      exec (onEvent ⟨0⟩ (.added [0, 0, 0] ⟨0⟩)) demoTracked.sync =
        (.error (.indexOutOfBounds 0 1), demoTracked.sync) := by
  have hact : (demoTracked.sync.feed ⟨0⟩).active = true := by decide +kernel
  have hroot : demoTracked.sync.mountRoot (demoTracked.sync.feed ⟨0⟩) = some ⟨0⟩ := by
    decide +kernel
  have hchild : (demoTracked.sync.node ⟨0⟩).children.getD 0 default = ⟨1⟩ := by decide +kernel
  have hstray : Strays demoTracked.sync ⟨0⟩ [0, 0] 0 ⟨1⟩ :=
    .next (by decide +kernel) (by rw [hchild]; exact .here (by decide +kernel))
  have hlen : (demoTracked.sync.node ⟨1⟩).children.length = 1 := by decide +kernel
  have hrefuse : Refuses demoTracked.sync (demoTracked.sync.mountRoot (demoTracked.sync.feed ⟨0⟩))
      (.added [0, 0, 0] ⟨0⟩) (.indexOutOfBounds 0 1) := by
    rw [hroot, ← hlen]
    exact .strays hstray
  exact ⟨demoTracked_reachable, hact,
    (Reachable.event_faults demoTracked_reachable hact _).1 _ hrefuse⟩

/-- In every state a session reaches, a node that something holds and that has been removed tops
a snapshot that takes no children: an addition at any address below any node of its subtree fails,
and the trees, the inlaid tree and the listeners are exactly as they were. -/
theorem Reachable.removed_subtree_refuses_additions (hS : Reachable S) {n : InlaidId}
    (hn : n ∈ S.holders) (hfrozen : (S.sync.node n).placement.isFrozen = true) {y : InlaidId}
    (hy : Below S.sync n y) (a : List Nat) (src : SourceId) :
    ∃ e, exec (addChildAt y a src) S.sync = (.error e, S.sync) := by
  have hA := hS.accounted
  have hdead : Dead S.sync n := by
    refine (holders_settled hA hn).resolve_left fun hl => ?_
    rw [Live.not_frozen hA.wellformed hl] at hfrozen
    cases hfrozen
  have h := (hdead.below hy).addChildAt_refused a src
  unfold Ensures at h
  rcases hx : exec (addChildAt y a src) S.sync with ⟨_ | _, s'⟩ <;> rw [hx] at h
  · exact ⟨_, by rw [h]⟩
  · exact h.elim

/-- `demo` with its model node held and then taken out of the source tree. -/
def demoHeldPruned : State :=
  ((demoTracked.step (.hold "m" none 0 [0])).2.step (.removeChild "source" [0])).2

/-- The removed model node of `demo` is held; the leaf of its inlined model refuses a child. -/
theorem demo_removed_leaf_refuses :
    Reachable demoHeldPruned ∧ (⟨1⟩ : InlaidId) ∈ demoHeldPruned.holders ∧
      (demoHeldPruned.sync.node ⟨1⟩).placement.isFrozen = true ∧
      Below demoHeldPruned.sync ⟨1⟩ ⟨3⟩ ∧
      ∃ e, exec (addChildAt ⟨3⟩ [0] ⟨0⟩) demoHeldPruned.sync = (.error e, demoHeldPruned.sync) := by
  have hR : Reachable demoHeldPruned := .step _ (.step _ demoTracked_reachable)
  have hheld : (⟨1⟩ : InlaidId) ∈ demoHeldPruned.holders := by decide +kernel
  have hfrozen : (demoHeldPruned.sync.node ⟨1⟩).placement.isFrozen = true := by decide +kernel
  have h₂ : (⟨2⟩ : InlaidId) ∈ (demoHeldPruned.sync.node ⟨1⟩).children := by decide +kernel
  have h₃ : (⟨3⟩ : InlaidId) ∈ (demoHeldPruned.sync.node ⟨2⟩).children := by decide +kernel
  have hb : Below demoHeldPruned.sync ⟨1⟩ ⟨3⟩ := .child (.child .refl h₂) h₃
  exact ⟨hR, hheld, hfrozen, hb,
    Reachable.removed_subtree_refuses_additions hR hheld hfrozen hb [0] ⟨0⟩⟩

end Session

end Inlay
