import Inlay.Proofs.Shape

namespace Inlay

namespace Sync.State

theorem pathOf_frozen {s : State} {y : InlaidId} {i : Nat} {p : Path}
    (h : (s.node y).placement = .frozen i p) : s.pathOf y = .ok p :=
  pathWithin_frozen h

end Sync.State

namespace Session

open Sync

variable {S S' : State}

/-- A frozen node keeps its index and path in every state that later steps lead to. -/
theorem Follows.frozen_position (hS : Reachable S) (h : Follows S S') {d : InlaidId} {i : Nat}
    {p : Path} (hd : (S.sync.node d).placement = .frozen i p) :
    S'.sync.indexOf d = .ok i ∧ S'.sync.pathOf d = .ok p := by
  have hk := (h.advances hS.valid).holds.keeps.frozen d i p hd
  exact ⟨State.indexOf_frozen hk, State.pathOf_frozen hk⟩

/-- Removing a node of a standing tree cannot fail, and freezes every node of its subtree at the
slot index and path it had just before; a frozen node of a reachable state keeps that index and
path in every state that later steps lead to. -/
theorem removal_freezes_positions :
    (∀ (s₀ : Sync.State) (top n : InlaidId), Arena s₀ → Standing s₀ top → Below s₀ top n →
      ∃ s₁, exec (remove n) s₀ = (.ok (), s₁) ∧
        ∀ d, Below s₀ n d → ∃ i p, s₀.indexOf d = .ok i ∧ s₀.pathOf d = .ok p ∧
          (s₁.node d).placement = .frozen i p) ∧
    (∀ (S S' : State) (d : InlaidId) (i : Nat) (p : Path), Reachable S → Follows S S' →
      (S.sync.node d).placement = .frozen i p →
      S'.sync.indexOf d = .ok i ∧ S'.sync.pathOf d = .ok p) := by
  refine ⟨fun s₀ top n ha hs hn => ?_, fun S S' d i p hS h hd => h.frozen_position hS hd⟩
  obtain ⟨⟨⟩, s₁, hexec, hrem⟩ := (remove_spec hs ha hn).exists_ok
  refine ⟨s₁, hexec, fun d hd => ?_⟩
  obtain ⟨i, p, hi, hp, hnode⟩ := hrem.inside d hd
  exact ⟨i, p, hi, hp, by rw [hnode, Inlaid.Node.placement_retire]⟩

/-- `demo` once the model node below the root is taken out of the source tree. -/
def demoPruned : State := (demoTracked.step (.removeChild "source" [0])).2

/-- Removing the model node of `demo` freezes the inlined model below it; after a new child takes
slot 0 of the root, the frozen leaf still reads the slot and path it had. -/
theorem demo_removal_freezes :
    (∃ s₁, exec (remove ⟨1⟩) demoTracked.sync = (.ok (), s₁) ∧
      ∀ d, Below demoTracked.sync ⟨1⟩ d → ∃ i p, demoTracked.sync.indexOf d = .ok i ∧
        demoTracked.sync.pathOf d = .ok p ∧ (s₁.node d).placement = .frozen i p) ∧
    ((demoPruned.step (.addChild "source" [] 0 (.node "new" none [] []))).2.sync.indexOf ⟨3⟩ = .ok 0 ∧
      (demoPruned.step (.addChild "source" [] 0 (.node "new" none [] []))).2.sync.pathOf ⟨3⟩ =
        .ok ⟨[.key "attachments", .key "0", .key "attachments", .key "0", .key "attachments",
          .key "0"]⟩) := by
  have hw := demoTracked_reachable.valid.wellformed
  have hs : Standing demoTracked.sync ⟨0⟩ := hw.standing (by decide +kernel) (by decide +kernel)
  have hb : Below demoTracked.sync ⟨0⟩ ⟨1⟩ := .child .refl (by decide +kernel)
  have hpruned : Reachable demoPruned := .step _ demoTracked_reachable
  exact ⟨removal_freezes_positions.1 _ ⟨0⟩ ⟨1⟩ hw.arena hs hb,
    removal_freezes_positions.2 _ _ ⟨3⟩ _ _ hpruned (.step _ .refl) (by decide +kernel)⟩

end Session

end Inlay
