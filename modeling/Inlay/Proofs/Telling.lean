import Inlay.Proofs.Faults
import Inlay.Proofs.Nesting

namespace Inlay.Sync

/-- A step that tells nobody anything: every listener and the journal stay as they were. -/
structure Silent (s s' : State) : Prop where
  listeners : s'.listeners = s.listeners
  journal : s'.journal = s.journal

section Silence

variable {s s' s₁ s₂ s₃ : State}

theorem Silent.refl (s : State) : Silent s s := ⟨rfl, rfl⟩

theorem Silent.trans (h₁ : Silent s₁ s₂) (h₂ : Silent s₂ s₃) : Silent s₁ s₃ :=
  ⟨h₂.listeners.trans h₁.listeners, h₂.journal.trans h₁.journal⟩

instance : Trans Silent Silent Silent := ⟨Silent.trans⟩

theorem Steady.silent (h : Steady s s') : Silent s s' := ⟨h.listeners, h.journal⟩

theorem addNode_silent (m : Inlaid.Node) : Within Silent (addNode m) s := Ensures.modifyGet ⟨rfl, rfl⟩

theorem modifyNode_silent (id : InlaidId) (g : Inlaid.Node → Inlaid.Node) :
    Within Silent (modifyNode id g) s :=
  Ensures.modify ⟨rfl, rfl⟩

theorem addFeed_silent (fd : Feed) : Within Silent (addFeed fd) s := Ensures.modifyGet ⟨rfl, rfl⟩

theorem modifyTracker_silent (g : Tracker → Tracker) : Within Silent (modifyTracker g) s :=
  Ensures.modify ⟨rfl, rfl⟩

theorem subscribe_silent (f : SubscriberId) : Within Silent (subscribe f) s :=
  (subscribe_spec (E := fun _ _ => False) f s).mono (fun _ _ h => by rw [h.2]; exact ⟨rfl, rfl⟩)
    fun _ _ h => h.elim

theorem stopFeed_silent (f : SubscriberId) : Within Silent (stopFeed f) s :=
  (stopFeed_spec (E := fun _ _ => False) f s).mono (fun _ _ h => h.1.silent) fun _ _ h => h.elim

theorem stopFeeds_silent (id : InlaidId) : Within Silent (stopFeeds id) s :=
  (stopFeeds_spec (E := fun _ _ => False) id s).mono (fun _ _ h => h.steady.silent)
    fun _ _ h => h.elim

theorem detachHidden_silent (id : InlaidId) : Within Silent (detachHidden id) s :=
  (detachHidden_spec (E := fun _ _ => False) id s).mono (fun _ _ h => h.1.silent)
    fun _ _ h => h.elim

end Silence

section Building

variable {fuel : Nat}

/-- `create fuel` tells nobody anything. -/
def CreateSilent (fuel : Nat) : Prop :=
  ∀ (placement : Placement) (parent : Option InlaidId) (src : SourceId) (s : State),
    Within Silent (create fuel placement parent src) s

/-- `expand fuel` tells nobody anything. -/
def ExpandSilent (fuel : Nat) : Prop :=
  ∀ (id : InlaidId) (name : String) (s : State), Within Silent (expand fuel id name) s

/-- `start fuel` tells nobody anything. -/
def StartSilent (fuel : Nat) : Prop :=
  ∀ (f : SubscriberId) (s : State), Within Silent (start fuel f) s

/-- `fill fuel` tells nobody anything. -/
def FillSilent (fuel : Nat) : Prop :=
  ∀ (f : SubscriberId) (src : Option SourceId) (s : State), Within Silent (fill fuel f src) s

theorem create_silent_succ (hc : CreateSilent fuel) (he : ExpandSilent fuel) :
    CreateSilent (fuel + 1) := by
  intro placement parent src s
  rw [create]
  refine Within.get ?_
  dsimp only
  refine Within.seq (Ensures.ofExcept (fun _ _ => Silent.refl s) fun _ _ => Silent.refl s)
    fun _ s₁ _ => Within.seq (addNode_silent _) fun id s₂ _ => ?_
  refine Within.seq (Within.tryCatch ?_ fun e _ _ => Within.seq (stopFeeds_silent id)
    fun _ s₄ _ => Within.throw (Silent.refl s₄) e) fun _ s₃ _ => Within.pure (Silent.refl s₃) _
  refine Within.seq (Within.forIn_rounds (Silent.refl s₂) (fun c _ t _ => Within.seq (hc _ _ c t)
    fun _ t₁ _ => Within.seq (modifyNode_silent _ _) fun _ t₂ _ => Within.pure (Silent.refl t₂) _)
      _ _) fun _ t _ => ?_
  split
  · exact he _ _ t
  · exact Within.pure (Silent.refl t) _

/-- Inlining a resolved model: a new feed for it, started, or stopped again on a fault. -/
theorem inline_silent (hs : StartSilent fuel) (id : InlaidId) (tree : TreeId) (announces : Bool)
    (s : State) :
    Within Silent (do
        let f ← addFeed { mount := .owner id, tree, announcesModel := announces, active := true,
                          subscription := none }
        try start fuel f catch e => do stopFeed f; throw e
        modifyInlining id fun i => { i with feed := some f } : Run Unit) s :=
  Within.seq (addFeed_silent _) fun f s₁ _ => Within.seq (Within.tryCatch (hs f s₁)
    fun e _ _ => Within.seq (stopFeed_silent f) fun _ s₃ _ => Within.throw (Silent.refl s₃) e)
      fun _ _ _ => modifyNode_silent _ _

theorem expand_silent_succ (hs : StartSilent fuel) : ExpandSilent (fuel + 1) := by
  intro id name s
  rw [expand]
  refine Within.get ?_
  dsimp only
  split <;> split
  case h_1.isTrue | h_2.isTrue => exact Within.pure (Silent.refl s) _
  all_goals
    cases s.resolve name with
    | none => exact Within.pure (Silent.refl s) _
    | some r => exact inline_silent hs id r.1 r.2 s

theorem start_silent_succ (hf : FillSilent fuel) : StartSilent (fuel + 1) := by
  intro f s
  rw [start]
  refine Within.seq (subscribe_silent f) fun root s₁ _ => Within.get ?_
  split
  · exact Within.discard (hf f root s₁)
  · exact Within.pure (Silent.refl s₁) _

theorem fill_silent_succ (hc : CreateSilent fuel) : FillSilent (fuel + 1) := by
  intro f src s
  rw [fill]
  refine Within.get ?_
  dsimp only
  split
  · cases src <;> refine Within.seq ?_ fun root s₁ _ =>
      Within.seq (modifyTracker_silent _) fun _ s₂ _ => Within.pure (Silent.refl s₂) _
    · exact Within.pure (Silent.refl s) _
    · exact Within.map (hc _ _ _ s)
  · cases src with
    | some src =>
      exact Within.seq (Ensures.ofExcept (fun _ _ => Silent.refl s) fun _ _ => Silent.refl s)
        fun _ s₁ _ => Within.seq (hc _ _ src s₁) fun _ s₂ _ => Within.seq (modifyNode_silent _ _)
          fun _ s₃ _ => Within.pure (Silent.refl s₃) _
    | none =>
      exact Within.seq (detachHidden_silent _) fun _ s₁ _ => Within.pure (Silent.refl s₁) _

/-- The four builders tell nobody anything, at every fuel. -/
theorem build_silent (fuel : Nat) :
    CreateSilent fuel ∧ ExpandSilent fuel ∧ StartSilent fuel ∧ FillSilent fuel := by
  induction fuel with
  | zero =>
    refine ⟨fun _ _ _ _ => addNode_silent _, fun _ _ s => Within.pure (Silent.refl s) _,
      fun f s => ?_, fun _ _ s => Within.pure (Silent.refl s) _⟩
    rw [start]
    exact Within.discard (subscribe_silent f)
  | succ fuel ih =>
    obtain ⟨hc, he, hs, hf⟩ := ih
    exact ⟨create_silent_succ hc he, expand_silent_succ hs, start_silent_succ hf,
      fill_silent_succ hc⟩

end Building

section Tracking

variable {s : State}

end Tracking

end Inlay.Sync
