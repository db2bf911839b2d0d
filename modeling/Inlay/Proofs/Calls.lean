import Inlay.Proofs.Positions

namespace Inlay

namespace Source.Forest

/-- The calls a forest answers from outside: making a tree, with a root or without, and the edits
of a tree. A node a call brings comes as a description, planted fresh. -/
inductive Call where
  | newTree (style : Style) (serving : Option String) (root : Option Draft)
  | setRoot (t : TreeId) (root : Draft)
  | clearRoot (t : TreeId)
  | addChild (t : TreeId) (parent : List Nat) (index : Nat) (child : Draft)
  | removeChild (t : TreeId) (address : List Nat)
  | setPayload (t : TreeId) (address : List Nat) (payload : Toml.Table)

/-- The forest after a call. A new tree adopts its root without telling anyone; a call its checks
refuse leaves the forest as it was, with the nodes it planted. -/
def answer (f : Forest) : Call → Forest
  | .newTree style serving none => (f.addTree ⟨style, serving, none, Slots.empty⟩).2
  | .newTree style serving (some d) =>
    let (r, f) := f.plant d
    let (t, f) := f.addTree ⟨style, serving, none, Slots.empty⟩
    (f.adopt style r).modifyTree t fun tr => { tr with root := some r }
  | .setRoot t d =>
    let (r, f) := f.plant d
    match f.placeRoot t r with
    | .ok f' => f'
    | .error _ => f
  | .clearRoot t =>
    match f.takeRoot t with
    | .ok (_, f') => f'
    | .error _ => f
  | .addChild t parent index d =>
    let (c, f) := f.plant d
    match f.insertChild t parent index c with
    | .ok f' => f'
    | .error _ => f
  | .removeChild t address =>
    match f.detachChild t address with
    | .ok (_, f') => f'
    | .error _ => f
  | .setPayload t address payload =>
    match f.replacePayload t address payload with
    | .ok f' => f'
    | .error _ => f

/-- The forest after the calls in turn. -/
def replay (f : Forest) (calls : List Call) : Forest := calls.foldl answer f

/-- The node a call takes out of its tree, if it takes one: the root of the tree it clears, or the
child at the address it removes. -/
def taken (f : Forest) : Call → Option SourceId
  | .clearRoot t =>
    match f.takeRoot t with
    | .ok (r, _) => some r
    | .error _ => none
  | .removeChild t address =>
    match f.detachChild t address with
    | .ok (c, _) => some c
    | .error _ => none
  | _ => none

variable {f : Forest}

section Invariant

theorem linked_empty : Linked Forest.empty := by
  have hroot : ∀ t, (Forest.empty.tree t).root = none := fun t => by
    rw [tree_of_size_le (Nat.zero_le _)]; rfl
  have hch : ∀ u, (Forest.empty.node u).children = [] := fun u => by
    rw [node_of_size_le (Nat.zero_le _)]; rfl
  refine ⟨fun t r h => ?_, fun t r u h => ?_, fun t _ r h => ?_, fun t r h => ?_, fun t r u h => ?_,
    fun t r u c h => ?_, fun u => ?_, fun u u' c h => ?_, fun u c h => ?_⟩
  all_goals first
    | (rw [hroot] at h; cases h)
    | (rw [hch] at h; cases h)
    | (rw [hch]; exact List.nodup_nil)

theorem styled_empty : Styled Forest.empty := fun t r u h => by
  rw [tree_of_size_le (Nat.zero_le _)] at h
  cases h

/-- A tree added without a root keeps the trees linked. -/
theorem Linked.addTree (hl : Linked f) {tr : Tree} (h : tr.root = none) : Linked (f.addTree tr).2 :=
  hl.congr (fun _ => rfl) (fun _ => rfl) (fun _ => rfl) (fun _ => root_addTree h) rfl

theorem Loose.addTree {id : SourceId} (hid : Loose f id) {tr : Tree} (h : tr.root = none) :
    Loose (f.addTree tr).2 id :=
  ⟨fun t => by rw [root_addTree h]; exact hid.not_root t, hid.orphan, hid.parent,
    fun u c hu hc => hid.descends u c hu.of_addTree hc, fun u hu => hid.fresh u hu.of_addTree, hid.lt⟩

/-- A new tree takes its root as placing a root in it would. -/
theorem placeRoot_addTree {tr : Tree} (h : tr.root = none) (id : SourceId) :
    (f.addTree tr).2.placeRoot (f.addTree tr).1 id = .ok
      (((f.addTree tr).2.adopt tr.style id).modifyTree (f.addTree tr).1
        fun tr => { tr with root := some id }) := by
  have ht : (f.addTree tr).2.tree (f.addTree tr).1 = tr := by
    rw [tree_addTree]
    exact if_pos rfl
  unfold placeRoot
  rw [ht, h]

/-- Each call keeps the trees linked and styled, and every recorded position. -/
theorem answer_spec (hl : Linked f) (hs : Styled f) :
    ∀ c : Call, Linked (f.answer c) ∧ Styled (f.answer c) ∧ Retains f (f.answer c)
  | .newTree style serving none =>
    ⟨hl.addTree rfl, hs.addTree rfl, retains_addTree _⟩
  | .newTree style serving (some d) => by
    obtain ⟨hl₁, hg₁, hid, _⟩ := plant_spec f hl d
    let tr : Tree := ⟨style, serving, none, Slots.empty⟩
    have hnone : tr.root = none := rfl
    have hp : ((f.plant d).2.addTree tr).2.placeRoot ((f.plant d).2.addTree tr).1 (f.plant d).1 =
        .ok (f.answer (.newTree style serving (some d))) := placeRoot_addTree hnone _
    have hl₂ := hl₁.addTree hnone
    have hid₂ := hid.addTree hnone
    exact ⟨hl₂.placeRoot hid₂ hp, ((hs.grow hl hg₁).addTree hnone).placeRoot hl₂ hid₂ hp,
      hg₁.retains.trans ((retains_addTree tr).trans (retains_placeRoot hp))⟩
  | .setRoot t d => by
    obtain ⟨hl₁, hg₁, hid, _⟩ := plant_spec f hl d
    have hs₁ := hs.grow hl hg₁
    simp only [answer]
    split
    · rename_i f' h
      exact ⟨hl₁.placeRoot hid h, hs₁.placeRoot hl₁ hid h, hg₁.retains.trans (retains_placeRoot h)⟩
    · exact ⟨hl₁, hs₁, hg₁.retains⟩
  | .clearRoot t => by
    simp only [answer]
    split
    · rename_i r f' h
      exact ⟨hl.takeRoot h, hs.takeRoot h, (takeRoot_records hl h).1⟩
    · exact ⟨hl, hs, .refl f⟩
  | .addChild t parent index d => by
    obtain ⟨hl₁, hg₁, hid, _⟩ := plant_spec f hl d
    have hs₁ := hs.grow hl hg₁
    simp only [answer]
    split
    · rename_i f' h
      exact ⟨hl₁.insertChild hid h, hs₁.insertChild hl₁ hid h,
        hg₁.retains.trans (retains_insertChild h)⟩
    · exact ⟨hl₁, hs₁, hg₁.retains⟩
  | .removeChild t address => by
    simp only [answer]
    split
    · rename_i c f' h
      exact ⟨hl.detachChild h, hs.detachChild h, (detachChild_records hl h).1⟩
    · exact ⟨hl, hs, .refl f⟩
  | .setPayload t address payload => by
    simp only [answer]
    split
    · rename_i f' h
      exact ⟨hl.replacePayload h, hs.replacePayload h, retains_replacePayload h⟩
    · exact ⟨hl, hs, .refl f⟩

/-- Calls in turn keep the trees linked and styled, and every recorded position. -/
theorem replay_spec : ∀ (calls : List Call) (f : Forest), Linked f → Styled f →
    Linked (f.replay calls) ∧ Styled (f.replay calls) ∧ Retains f (f.replay calls)
  | [], f, hl, hs => ⟨hl, hs, .refl f⟩
  | c :: calls, f, hl, hs => by
    obtain ⟨hl₁, hs₁, hr₁⟩ := answer_spec hl hs c
    obtain ⟨hl₂, hs₂, hr₂⟩ := replay_spec calls _ hl₁ hs₁
    exact ⟨hl₂, hs₂, hr₁.trans hr₂⟩

end Invariant

section Positions

/-- After any calls from the empty forest, the node a tree resolves an address to stands where the
address says. -/
theorem replay_resolve (calls : List Call) {t : TreeId} {a : List Nat} {u : SourceId}
    (h : (Forest.empty.replay calls).resolve t a = .ok u) :
    (Forest.empty.replay calls).childIndex u = a.getLast?.getD 0 ∧
      (Forest.empty.replay calls).path u = ((Forest.empty.replay calls).tree t).style.addressPath a ∧
      ∀ p, ((Forest.empty.replay calls).node u).parent = some p →
        u ∈ ((Forest.empty.replay calls).node p).children := by
  obtain ⟨hl, hs, _⟩ := replay_spec calls _ linked_empty styled_empty
  obtain ⟨r, hr, _⟩ := resolve_ok h
  exact position_of_resolve hl hs hr h

/-- A call that takes a node out of its tree records the position of every node of its subtree,
and later calls keep it: from then on each answers the index and path it had before. -/
theorem taken_keeps_positions (hl : Linked f) (hs : Styled f) {c : Call} {x : SourceId}
    (hx : f.taken c = some x) {u : SourceId} (hu : Below f x u) (rest : List Call) :
    ((f.answer c).replay rest).childIndex u = f.childIndex u ∧
      ((f.answer c).replay rest).path u = f.path u := by
  have hrec : ((f.answer c).node u).detached = some (f.childIndex u, f.path u) := by
    cases c with
    | clearRoot t =>
      simp only [taken] at hx
      simp only [answer]
      split at hx
      · rename_i r f' h
        cases hx
        exact (takeRoot_records hl h).2 u hu
      · cases hx
    | removeChild t a =>
      simp only [taken] at hx
      simp only [answer]
      split at hx
      · rename_i c f' h
        cases hx
        exact (detachChild_records hl h).2 u hu
      · cases hx
    | _ => cases hx
  obtain ⟨hl₁, hs₁, _⟩ := answer_spec hl hs c
  obtain ⟨_, _, hR⟩ := replay_spec rest _ hl₁ hs₁
  exact position_of_detached (hR u _ hrec)

end Positions

end Source.Forest

namespace Sync

open Source

variable {s : State} {t : TreeId} {e : Fault}

/-- An edit whose forest operation fails throws its fault before anything else: the state stays as
it was and no subscriber hears of it. -/
theorem exec_ofExcept_error {α β : Type} {r : Except Fault α} (h : r = .error e) (k : α → Run β) :
    exec (ofExcept r >>= k) s = (.error e, s) := by
  rw [exec_bind, h, exec_ofExcept]

theorem setRoot_refused {src : SourceId} (h : s.forest.placeRoot t src = .error e) :
    exec (setRoot t src) s = (.error e, s) := by
  unfold setRoot
  rw [exec_bind, exec_get]
  exact exec_ofExcept_error h _

theorem clearRoot_refused (h : s.forest.takeRoot t = .error e) :
    exec (clearRoot t) s = (.error e, s) := by
  unfold clearRoot
  rw [exec_bind, exec_get]
  exact exec_ofExcept_error h _

theorem addSourceChild_refused {parent : List Nat} {index : Nat} {src : SourceId}
    (h : s.forest.insertChild t parent index src = .error e) :
    exec (addSourceChild t parent index src) s = (.error e, s) := by
  unfold addSourceChild
  rw [exec_bind, exec_get]
  exact exec_ofExcept_error h _

theorem removeSourceChild_refused {address : List Nat} (h : s.forest.detachChild t address = .error e) :
    exec (removeSourceChild t address) s = (.error e, s) := by
  unfold removeSourceChild
  rw [exec_bind, exec_get]
  exact exec_ofExcept_error h _

theorem setPayload_refused {address : List Nat} {payload : Toml.Table}
    (h : s.forest.replacePayload t address payload = .error e) :
    exec (setPayload t address payload) s = (.error e, s) := by
  unfold setPayload
  rw [exec_bind, exec_get]
  exact exec_ofExcept_error h _

end Sync

namespace Source.Forest

/-- A source tree kept by any calls: the node at an address stands where the address says, a node
taken out keeps the index and path it had whatever calls follow, and an edit its checks refuse
leaves the whole state as it was, telling no one. -/
theorem tree_calls_keep_positions :
    (∀ (calls : List Call) (t : TreeId) (a : List Nat) (u : SourceId),
      (Forest.empty.replay calls).resolve t a = .ok u →
      (Forest.empty.replay calls).childIndex u = a.getLast?.getD 0 ∧
        (Forest.empty.replay calls).path u =
          ((Forest.empty.replay calls).tree t).style.addressPath a ∧
        ∀ p, ((Forest.empty.replay calls).node u).parent = some p →
          u ∈ ((Forest.empty.replay calls).node p).children) ∧
    (∀ (calls : List Call) (c : Call) (x u : SourceId) (rest : List Call),
      (Forest.empty.replay calls).taken c = some x → Below (Forest.empty.replay calls) x u →
      (((Forest.empty.replay calls).answer c).replay rest).childIndex u =
          (Forest.empty.replay calls).childIndex u ∧
        (((Forest.empty.replay calls).answer c).replay rest).path u =
          (Forest.empty.replay calls).path u) ∧
    (∀ (s : Sync.State) t src e, s.forest.placeRoot t src = .error e →
      Sync.exec (Sync.setRoot t src) s = (.error e, s)) ∧
    (∀ (s : Sync.State) t e, s.forest.takeRoot t = .error e →
      Sync.exec (Sync.clearRoot t) s = (.error e, s)) ∧
    (∀ (s : Sync.State) t parent index src e, s.forest.insertChild t parent index src = .error e →
      Sync.exec (Sync.addSourceChild t parent index src) s = (.error e, s)) ∧
    (∀ (s : Sync.State) t address e, s.forest.detachChild t address = .error e →
      Sync.exec (Sync.removeSourceChild t address) s = (.error e, s)) ∧
    (∀ (s : Sync.State) t address payload e, s.forest.replacePayload t address payload = .error e →
      Sync.exec (Sync.setPayload t address payload) s = (.error e, s)) := by
  refine ⟨fun calls t a u h => replay_resolve calls h, fun calls c x u rest hx hu => ?_,
    fun _ _ _ _ h => Sync.setRoot_refused h, fun _ _ _ h => Sync.clearRoot_refused h,
    fun _ _ _ _ _ _ h => Sync.addSourceChild_refused h, fun _ _ _ _ h => Sync.removeSourceChild_refused h,
    fun _ _ _ _ _ h => Sync.setPayload_refused h⟩
  obtain ⟨hl, hs, _⟩ := replay_spec calls _ linked_empty styled_empty
  exact taken_keeps_positions hl hs hx hu rest

/-- A tree of three nodes in a line, `g` over `a` over `b`. -/
def demoCalls : List Call :=
  [.newTree Style.standard none (some (.mk "g" none [] [.mk "a" none [] [.mk "b" none [] []]]))]

/-- In the tree of `demoCalls`, `b` stands at `/attachments/0/attachments/0`; once `a` is removed
and a new node takes its slot, `b` still answers index `0` and that path; and each edit refused
leaves the state as it was. -/
theorem demo_calls_keep_positions :
    let f := Forest.empty.replay demoCalls
    let s : Sync.State := { (default : Sync.State) with forest := f }
    (f.childIndex ⟨0⟩ = 0 ∧ f.path ⟨0⟩ = Style.standard.addressPath [0, 0] ∧
      ∀ p, (f.node ⟨0⟩).parent = some p → ⟨0⟩ ∈ (f.node p).children) ∧
    (((f.answer (.removeChild ⟨0⟩ [0])).replay [.addChild ⟨0⟩ [] 0 (.mk "n" none [] [])]).childIndex
        ⟨0⟩ = f.childIndex ⟨0⟩ ∧
      ((f.answer (.removeChild ⟨0⟩ [0])).replay [.addChild ⟨0⟩ [] 0 (.mk "n" none [] [])]).path
        ⟨0⟩ = f.path ⟨0⟩) ∧
    Sync.exec (Sync.setRoot ⟨0⟩ ⟨0⟩) s = (.error .rootAlreadyExists, s) ∧
    Sync.exec (Sync.clearRoot ⟨1⟩) s = (.error (.rootMissing "removed"), s) ∧
    Sync.exec (Sync.addSourceChild ⟨0⟩ [] 2 ⟨0⟩) s = (.error (.indexOutOfBounds 2 1), s) ∧
    Sync.exec (Sync.removeSourceChild ⟨0⟩ []) s = (.error .emptyPath, s) ∧
    Sync.exec (Sync.setPayload ⟨0⟩ [1] []) s = (.error (.indexOutOfBounds 1 1), s) := by
  obtain ⟨h₁, h₂, h₃, h₄, h₅, h₆, h₇⟩ := tree_calls_keep_positions
  exact ⟨h₁ demoCalls ⟨0⟩ [0, 0] ⟨0⟩ rfl, h₂ demoCalls (.removeChild ⟨0⟩ [0]) ⟨1⟩ ⟨0⟩ _ rfl
      (.single (by decide)), h₃ _ _ _ _ rfl, h₄ _ _ _ rfl, h₅ _ _ _ _ _ _ rfl, h₆ _ _ _ _ rfl,
    h₇ _ _ _ _ _ rfl⟩

end Source.Forest

end Inlay
