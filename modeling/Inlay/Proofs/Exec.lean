import Inlay.Sync.Edit

namespace Inlay.Sync

section Exec

variable {σ ε α β : Type}

/-- What an operation answers from a state, together with the state it leaves. -/
def exec (p : ExceptT ε (StateM σ) α) (s : σ) : Except ε α × σ := (p.run).run s

@[simp] theorem exec_pure (a : α) (s : σ) :
    exec (pure a : ExceptT ε (StateM σ) α) s = (.ok a, s) := rfl

theorem exec_bind (x : ExceptT ε (StateM σ) α) (f : α → ExceptT ε (StateM σ) β) (s : σ) :
    exec (x >>= f) s = match exec x s with
      | (.ok a, s') => exec (f a) s'
      | (.error e, s') => (.error e, s') := by
  simp only [exec, ExceptT.run_bind]
  show (StateT.run (ExceptT.run x >>= _) s) = _
  simp only [StateT.run_bind]
  rcases (ExceptT.run x).run s with ⟨r, s'⟩
  cases r <;> rfl

@[simp] theorem exec_get (s : σ) : exec (get : ExceptT ε (StateM σ) σ) s = (.ok s, s) := rfl

@[simp] theorem exec_set (s' s : σ) :
    exec (set s' : ExceptT ε (StateM σ) PUnit) s = (.ok PUnit.unit, s') := rfl

@[simp] theorem exec_modify (g : σ → σ) (s : σ) :
    exec (modify g : ExceptT ε (StateM σ) PUnit) s = (.ok PUnit.unit, g s) := rfl

@[simp] theorem exec_modifyGet (g : σ → α × σ) (s : σ) :
    exec (modifyGet g : ExceptT ε (StateM σ) α) s = (.ok (g s).1, (g s).2) := rfl

@[simp] theorem exec_throw (e : ε) (s : σ) :
    exec (throw e : ExceptT ε (StateM σ) α) s = (.error e, s) := rfl

theorem exec_tryCatch (x : ExceptT ε (StateM σ) α) (h : ε → ExceptT ε (StateM σ) α) (s : σ) :
    exec (tryCatch x h) s = match exec x s with
      | (.ok a, s') => (.ok a, s')
      | (.error e, s') => exec (h e) s' := by
  simp only [exec, ExceptT.run_tryCatch, StateT.run_bind]
  rcases (ExceptT.run x).run s with ⟨_ | _, s'⟩ <;> rfl

/-- Discarding an answer is binding it to nothing. -/
theorem exec_discard (x : ExceptT ε (StateM σ) α) (s : σ) :
    exec (discard x) s = exec (x >>= fun _ => pure PUnit.unit) s := by
  simp only [exec, discard, Functor.discard, Functor.mapConst, Function.comp_apply, ExceptT.map,
    ExceptT.run_mk, ExceptT.run_bind, StateT.run_bind]
  rfl

end Exec

@[simp] theorem exec_ofExcept {α : Type} (r : Except Fault α) (s : State) :
    exec (ofExcept r) s = (r, s) := by
  cases r <;> rfl

/-- `Ensures p s Q E`: running `p` from `s` either answers `a` in a state where `Q a` holds, or
fails with a fault `e` in a state where `E e` holds. -/
def Ensures {σ ε α : Type} (p : ExceptT ε (StateM σ) α) (s : σ) (Q : α → σ → Prop)
    (E : ε → σ → Prop) : Prop :=
  match exec p s with
  | (.ok a, s') => Q a s'
  | (.error e, s') => E e s'

namespace Ensures

variable {σ ε α β : Type} {s : σ} {Q Q' : α → σ → Prop} {E E' : ε → σ → Prop}

theorem mono {p : ExceptT ε (StateM σ) α} (h : Ensures p s Q E) (hq : ∀ a s', Q a s' → Q' a s')
    (he : ∀ e s', E e s' → E' e s') : Ensures p s Q' E' := by
  unfold Ensures at *
  rcases hp : exec p s with ⟨_ | _, s'⟩ <;> rw [hp] at h
  · exact he _ _ h
  · exact hq _ _ h

/-- What holds after every run, whether it succeeds or fails. -/
theorem always {p : ExceptT ε (StateM σ) α} {P : σ → Prop} (h : Ensures p s (fun _ => P) fun _ => P) :
    P (exec p s).2 := by
  unfold Ensures at h
  rcases hp : exec p s with ⟨_ | _, s'⟩ <;> rw [hp] at h <;> exact h

/-- An operation that cannot fail answers. -/
theorem exists_ok {p : ExceptT ε (StateM σ) α} (h : Ensures p s Q fun _ _ => False) :
    ∃ a s', exec p s = (.ok a, s') ∧ Q a s' := by
  unfold Ensures at h
  rcases hp : exec p s with ⟨_ | a, s'⟩ <;> rw [hp] at h
  · exact h.elim
  · exact ⟨a, s', rfl, h⟩

theorem ok_of {p : ExceptT ε (StateM σ) α} {a : α} {s' : σ} (h : Ensures p s Q E)
    (hr : exec p s = (.ok a, s')) : Q a s' := by
  simpa only [Ensures, hr] using h

/-- An operation that can only fail with `e` in `s'` does so. -/
theorem eq_error {p : ExceptT ε (StateM σ) α} {e : ε} {s' : σ}
    (h : Ensures p s (fun _ _ => False) fun e' t => e' = e ∧ t = s') : exec p s = (.error e, s') := by
  unfold Ensures at h
  rcases hp : exec p s with ⟨_ | _, t⟩ <;> rw [hp] at h
  · obtain ⟨rfl, rfl⟩ := h
    rfl
  · exact h.elim

/-- A contract that every answer and every fault meets. -/
theorem of_all {p : ExceptT ε (StateM σ) α} (hq : ∀ a s', Q a s') (he : ∀ e s', E e s') :
    Ensures p s Q E := by
  unfold Ensures
  rcases exec p s with ⟨_ | _, _⟩
  · exact he _ _
  · exact hq _ _

theorem pure {a : α} (h : Q a s) : Ensures (pure a : ExceptT ε (StateM σ) α) s Q E := h

theorem bind {x : ExceptT ε (StateM σ) α} {f : α → ExceptT ε (StateM σ) β} {Q : β → σ → Prop}
    (h : Ensures x s (fun a s' => Ensures (f a) s' Q E) E) : Ensures (x >>= f) s Q E := by
  unfold Ensures at *
  rw [exec_bind]
  rcases hx : exec x s with ⟨_ | _, s'⟩ <;> rw [hx] at h <;> exact h

/-- Run `x`, then `f` from whatever `x` ensures. -/
theorem andThen {x : ExceptT ε (StateM σ) α} {f : α → ExceptT ε (StateM σ) β}
    {P : α → σ → Prop} {Q : β → σ → Prop}
    (hx : Ensures x s P E) (hf : ∀ a s', P a s' → Ensures (f a) s' Q E) :
    Ensures (x >>= f) s Q E :=
  bind (hx.mono hf fun _ _ h => h)

/-- An `if` with no `else` in a `do` block: the rest `k` runs after either branch, from a state
where the joining condition `P` holds. -/
theorem ifThen {c : Prop} [Decidable c] {x : ExceptT ε (StateM σ) PUnit}
    {k : PUnit → ExceptT ε (StateM σ) α} {P : σ → Prop}
    (hx : c → Ensures x s (fun _ => P) E) (hskip : ¬c → P s)
    (hk : ∀ s', P s' → Ensures (k PUnit.unit) s' Q E) :
    Ensures (if c then x >>= k else k PUnit.unit) s Q E := by
  split
  · exact andThen (hx ‹c›) fun _ s' h => hk s' h
  · exact hk s (hskip ‹¬c›)

theorem tryCatch {x : ExceptT ε (StateM σ) α} {h : ε → ExceptT ε (StateM σ) α}
    (hx : Ensures x s Q fun e s' => Ensures (h e) s' Q E) : Ensures (tryCatch x h) s Q E := by
  unfold Ensures at *
  rw [exec_tryCatch]
  rcases hr : exec x s with ⟨_ | _, s'⟩ <;> rw [hr] at hx <;> exact hx

theorem get {Q : σ → σ → Prop} (h : Q s s) : Ensures (get : ExceptT ε (StateM σ) σ) s Q E := h

theorem set {s' : σ} {Q : PUnit → σ → Prop} (h : Q PUnit.unit s') :
    Ensures (set s' : ExceptT ε (StateM σ) PUnit) s Q E := h

theorem modify {g : σ → σ} {Q : PUnit → σ → Prop} (h : Q PUnit.unit (g s)) :
    Ensures (modify g : ExceptT ε (StateM σ) PUnit) s Q E := h

theorem modifyGet {g : σ → α × σ} (h : Q (g s).1 (g s).2) :
    Ensures (modifyGet g : ExceptT ε (StateM σ) α) s Q E := h

theorem throw {e : ε} (h : E e s) : Ensures (throw e : ExceptT ε (StateM σ) α) s Q E := h

/-- Two contracts of one run hold together. -/
theorem and {p : ExceptT ε (StateM σ) α} (h₁ : Ensures p s Q E) (h₂ : Ensures p s Q' E') :
    Ensures p s (fun a s' => Q a s' ∧ Q' a s') fun e s' => E e s' ∧ E' e s' := by
  unfold Ensures at *
  rcases hp : exec p s with ⟨_ | _, s'⟩ <;> rw [hp] at h₁ h₂ <;> exact ⟨h₁, h₂⟩

/-- A second contract adds to the answer of a first, whose faults stand. -/
theorem also {p : ExceptT ε (StateM σ) α} (h₁ : Ensures p s Q E) (h₂ : Ensures p s Q' E') :
    Ensures p s (fun a s' => Q a s' ∧ Q' a s') E :=
  (h₁.and h₂).mono (fun _ _ h => h) fun _ _ h => h.1

theorem map {x : ExceptT ε (StateM σ) α} {f : α → β} {Q : β → σ → Prop}
    (h : Ensures x s (fun a s' => Q (f a) s') E) : Ensures (f <$> x) s Q E := by
  rw [map_eq_pure_bind]
  exact bind (h.mono (fun _ _ h => h) fun _ _ h => h)

theorem discard {x : ExceptT ε (StateM σ) α} {Q : PUnit → σ → Prop}
    (h : Ensures x s (fun _ s' => Q PUnit.unit s') E) : Ensures (Functor.discard x) s Q E := by
  unfold Ensures at *
  rw [exec_discard, exec_bind]
  rcases hx : exec x s with ⟨_ | _, s'⟩ <;> rw [hx] at h <;> exact h

/-- A loop keeps an invariant indexed by the elements still to come, as long as each run of the
body yields and keeps it, and the body's faults satisfy `E`. -/
theorem forIn {g : β → PUnit → ExceptT ε (StateM σ) (ForInStep PUnit)} {I : List β → σ → Prop}
    (hstep : ∀ c rest s, I (c :: rest) s →
      Ensures (g c PUnit.unit) s (fun r s' => r = .yield PUnit.unit ∧ I rest s') E) :
    ∀ (xs : List β) (s : σ), I xs s → Ensures (forIn xs PUnit.unit g) s (fun _ s' => I [] s') E := by
  intro xs
  induction xs with
  | nil => intro s h; exact h
  | cons c rest ih =>
    intro s h
    rw [List.forIn_cons]
    apply Ensures.bind
    refine (hstep c rest s h).mono (fun r s' ⟨hr, hI⟩ => ?_) fun _ _ h => h
    subst hr
    exact ih s' hI

/-- A loop that carries a value keeps an invariant of the value, as long as every round yields a
value that keeps it. -/
theorem forIn_yield {γ : Type} {g : β → γ → ExceptT ε (StateM σ) (ForInStep γ)}
    {I : γ → σ → Prop}
    (hstep : ∀ b acc s, I acc s →
      Ensures (g b acc) s (fun r s' => ∃ acc', r = .yield acc' ∧ I acc' s') E) :
    ∀ (xs : List β) (acc : γ) (s : σ), I acc s →
      Ensures (ForIn.forIn xs acc g) s (fun r s' => I r s') E := by
  intro xs
  induction xs with
  | nil => intro acc s h; exact h
  | cons c rest ih =>
    intro acc s h
    rw [List.forIn_cons]
    apply Ensures.bind
    refine (hstep c acc s h).mono (fun r s' ⟨acc', hr, hI⟩ => ?_) fun _ _ h => h
    subst hr
    exact ih acc' s' hI

end Ensures

theorem Ensures.ofExcept {α : Type} {s : State} {Q : α → State → Prop} {E : Fault → State → Prop}
    {r : Except Fault α} (hok : ∀ a, r = .ok a → Q a s) (herr : ∀ e, r = .error e → E e s) :
    Ensures (Sync.ofExcept r) s Q E := by
  cases r with
  | error e => exact herr e rfl
  | ok a => exact hok a rfl

end Inlay.Sync
