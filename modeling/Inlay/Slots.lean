namespace Inlay

/-- A slot together with the generation under which its occupant was inserted. -/
structure Handle where
  slot : Nat
  generation : Nat
  deriving DecidableEq, Repr, Inhabited

/-- Occupants in numbered slots, with the freed slots and the current generation. -/
structure Slots (α : Type) where
  /-- Each slot: empty, or an occupant with the generation of its insertion. -/
  entries : List (Option (Nat × α))
  /-- Freed slots, the most recently freed first. -/
  free : List Nat
  /-- Advanced by every removal. -/
  generation : Nat

namespace Slots

variable {α : Type}

/-- The table with no slot. -/
def empty : Slots α := ⟨[], [], 0⟩

instance : Inhabited (Slots α) := ⟨empty⟩

/-- The occupants in slot order. -/
def values (s : Slots α) : List α := s.entries.filterMap (·.map (·.2))

/-- The number of occupants. -/
def count (s : Slots α) : Nat := s.values.length

/-- Stores `a` in the most recently freed slot, or in a new last slot. -/
def insert (s : Slots α) (a : α) : Handle × Slots α :=
  match s.free with
  | slot :: rest =>
    (⟨slot, s.generation⟩,
      { s with entries := s.entries.set slot (some (s.generation, a)), free := rest })
  | [] =>
    (⟨s.entries.length, s.generation⟩,
      { s with entries := s.entries ++ [some (s.generation, a)] })

/-- Removes the occupant that `h` names, if it is still there: its slot becomes the most
recently freed one and the generation advances. -/
def remove (s : Slots α) (h : Handle) : Option (α × Slots α) :=
  match s.entries[h.slot]? with
  | some (some (g, a)) =>
    if g = h.generation then
      some (a, { entries := s.entries.set h.slot none, free := h.slot :: s.free,
                 generation := s.generation + 1 })
    else none
  | _ => none

/-- The occupant that `h` names, if it is still there. -/
def get? (s : Slots α) (h : Handle) : Option α :=
  match s.entries[h.slot]? with
  | some (some (g, a)) => if g = h.generation then some a else none
  | _ => none

/-- A table whose freed slots are empty and freed once, and none of whose occupants is younger
than the generation. -/
structure Wf (s : Slots α) : Prop where
  free_empty : ∀ i ∈ s.free, s.entries[i]? = some none
  free_nodup : s.free.Nodup
  generation_le : ∀ (i g : Nat) (a : α), s.entries[i]? = some (some (g, a)) → g ≤ s.generation

/-- A handle that names no occupant and never will: its generation has passed. -/
def Retired (s : Slots α) (h : Handle) : Prop := h.generation < s.generation ∧ s.get? h = none

section Lemmas

variable {s t : Slots α} {h : Handle} {a : α}

theorem get?_eq_some_iff : s.get? h = some a ↔ s.entries[h.slot]? = some (some (h.generation, a)) := by
  unfold get?
  split
  · rename_i g b he
    rw [he]
    by_cases hg : g = h.generation
    · subst hg
      simp
    · simp [hg]
  · rename_i he
    refine ⟨nofun, fun e => ?_⟩
    exact absurd e (he _ _)

/-- Removing takes out the occupant a handle names, and nothing else. -/
theorem remove_eq (s : Slots α) (h : Handle) :
    s.remove h = (s.get? h).map fun a =>
      (a, { entries := s.entries.set h.slot none, free := h.slot :: s.free,
            generation := s.generation + 1 }) := by
  unfold remove get?
  split
  · split <;> rfl
  · rfl

theorem get?_of_remove (hr : s.remove h = some (a, t)) : s.get? h = some a := by
  rw [remove_eq] at hr
  obtain ⟨b, hb, e⟩ := Option.map_eq_some_iff.1 hr
  cases e
  exact hb

theorem get?_remove (hr : s.remove h = some (a, t)) (h' : Handle) :
    t.get? h' = if h'.slot = h.slot then none else s.get? h' := by
  rw [remove_eq] at hr
  obtain ⟨b, -, e⟩ := Option.map_eq_some_iff.1 hr
  cases e
  apply Option.ext
  intro c
  rw [get?_eq_some_iff]
  split
  · rename_i hs
    rw [hs, List.getElem?_set, if_pos rfl]
    split <;> simp
  · rename_i hs
    rw [List.getElem?_set_ne (Ne.symm hs), get?_eq_some_iff]

/-- Inserting fills a slot that held nothing: the new handle names the new occupant, and every
other handle what it named before. -/
theorem get?_insert (hs : s.Wf) (a : α) (h' : Handle) :
    (s.insert a).2.get? h' = if h' = (s.insert a).1 then some a else s.get? h' := by
  apply Option.ext
  intro b
  rw [get?_eq_some_iff]
  unfold insert
  split
  · rename_i slot rest hfree
    have hempty := hs.free_empty slot (by rw [hfree]; exact List.mem_cons_self)
    have hslot : slot < s.entries.length := (List.getElem?_eq_some_iff.1 hempty).1
    by_cases hh : h' = ⟨slot, s.generation⟩
    · subst hh
      simp [List.getElem?_set_self hslot]
    · rw [if_neg hh, get?_eq_some_iff]
      by_cases hsl : h'.slot = slot
      · rw [hsl, List.getElem?_set_self hslot, hempty]
        have hg : s.generation ≠ h'.generation := fun e => hh (by cases h'; simp_all)
        simp [hg]
      · rw [List.getElem?_set_ne (Ne.symm hsl)]
  · by_cases hh : h' = ⟨s.entries.length, s.generation⟩
    · subst hh
      simp
    · rw [if_neg hh, get?_eq_some_iff]
      rcases Nat.lt_or_ge h'.slot s.entries.length with hlt | hge
      · rw [List.getElem?_append_left hlt]
      · rw [List.getElem?_append_right hge, List.getElem?_eq_none hge]
        by_cases hsl : h'.slot = s.entries.length
        · have hg : s.generation ≠ h'.generation := fun e => hh (by cases h'; simp_all)
          simp [hsl, hg]
        · have : h'.slot - s.entries.length ≠ 0 := by omega
          simp [this]

/-- The handle that inserting hands out named nothing before. -/
theorem get?_insert_handle (hs : s.Wf) (a : α) : s.get? (s.insert a).1 = none := by
  unfold Slots.insert
  split
  · rename_i slot rest hfree
    have hempty := hs.free_empty slot (by rw [hfree]; exact List.mem_cons_self)
    simp [get?, hempty]
  · simp [get?]

/-- A handle just handed out gives its occupant back when removed. -/
theorem remove_insert (hs : s.Wf) (a : α) :
    ∃ t, (s.insert a).2.remove (s.insert a).1 = some (a, t) := by
  rw [remove_eq, get?_insert hs, if_pos rfl]
  exact ⟨_, rfl⟩

theorem wf_empty : (empty : Slots α).Wf :=
  ⟨nofun, List.nodup_nil, fun _ _ _ h => by simp [empty] at h⟩

theorem Wf.insert (hs : s.Wf) (a : α) : (s.insert a).2.Wf := by
  unfold Slots.insert
  split
  · rename_i slot rest hfree
    have hnd : (slot :: rest).Nodup := hfree ▸ hs.free_nodup
    refine ⟨fun i hi => ?_, (List.nodup_cons.1 hnd).2, fun i g b hi => ?_⟩
    · have hne : slot ≠ i := fun e => (List.nodup_cons.1 hnd).1 (e ▸ hi)
      rw [List.getElem?_set_ne hne]
      exact hs.free_empty i (by rw [hfree]; exact List.mem_cons_of_mem _ hi)
    · rw [List.getElem?_set] at hi
      split at hi
      · split at hi
        · cases hi
          exact Nat.le_refl _
        · cases hi
      · exact hs.generation_le i g b hi
  · rename_i hfree
    refine ⟨fun i hi => ?_, by rw [hfree]; exact List.nodup_nil, fun i g b hi => ?_⟩
    · rw [hfree] at hi
      cases hi
    · rcases Nat.lt_or_ge i s.entries.length with hlt | hge
      · rw [List.getElem?_append_left hlt] at hi
        exact hs.generation_le i g b hi
      · rw [List.getElem?_append_right hge] at hi
        cases hk : i - s.entries.length with
        | zero => rw [hk] at hi; cases hi; exact Nat.le_refl _
        | succ k => rw [hk] at hi; cases hi

theorem Wf.remove (hs : s.Wf) (hr : s.remove h = some (a, t)) : t.Wf := by
  have hga := get?_of_remove hr
  have hget := get?_eq_some_iff.1 hga
  rw [remove_eq, hga] at hr
  cases hr
  have hslot : h.slot < s.entries.length := (List.getElem?_eq_some_iff.1 hget).1
  have hfresh : h.slot ∉ s.free := fun hm => by
    rw [hs.free_empty _ hm] at hget
    cases hget
  refine ⟨fun i hi => ?_, List.nodup_cons.2 ⟨hfresh, hs.free_nodup⟩, fun i g b hi => ?_⟩
  · rcases List.mem_cons.1 hi with rfl | hi
    · exact List.getElem?_set_self hslot
    · have hne : h.slot ≠ i := fun e => hfresh (e ▸ hi)
      rw [List.getElem?_set_ne hne]
      exact hs.free_empty i hi
  · rw [List.getElem?_set] at hi
    split at hi
    · simp at hi
    · exact Nat.le_succ_of_le (hs.generation_le i g b hi)

theorem mem_values : a ∈ s.values ↔ ∃ h, s.get? h = some a := by
  simp only [values, List.mem_filterMap, get?_eq_some_iff]
  constructor
  · rintro ⟨e, he, hea⟩
    obtain ⟨⟨g, b⟩, rfl, rfl⟩ := Option.map_eq_some_iff.1 hea
    obtain ⟨i, hi⟩ := List.mem_iff_getElem?.1 he
    exact ⟨⟨i, g⟩, hi⟩
  · rintro ⟨⟨i, g⟩, hi⟩
    exact ⟨_, List.mem_of_getElem? hi, rfl⟩

/-- Occupants are listed once each when no two handles name the same occupant. -/
theorem nodup_values (hinj : ∀ h₁ h₂ a, s.get? h₁ = some a → s.get? h₂ = some a → h₁ = h₂) :
    s.values.Nodup := by
  rw [List.Nodup, values, List.pairwise_filterMap, List.pairwise_iff_getElem]
  intro i j hi hj hij b hb b' hb' e
  subst e
  obtain ⟨⟨g, x⟩, hgi, rfl⟩ := Option.map_eq_some_iff.1 hb
  obtain ⟨⟨g', x'⟩, hgj, e⟩ := Option.map_eq_some_iff.1 hb'
  cases e
  have h₁ : s.get? ⟨i, g⟩ = some x := get?_eq_some_iff.2 (by rw [List.getElem?_eq_getElem hi, hgi])
  have h₂ : s.get? ⟨j, g'⟩ = some x := get?_eq_some_iff.2 (by rw [List.getElem?_eq_getElem hj, hgj])
  cases hinj _ _ _ h₁ h₂
  exact Nat.lt_irrefl _ hij

/-- Replacing the entry of a slot trades its occupant for the new one. -/
theorem filterMap_set_perm {β γ : Type} (f : β → Option γ) {l : List β} {i : Nat} {e : β}
    (hi : l[i]? = some e) (e' : β) :
    List.Perm ((l.set i e').filterMap f ++ (f e).toList) (l.filterMap f ++ (f e').toList) := by
  have hlt : i < l.length := (List.getElem?_eq_some_iff.1 hi).1
  have hl : l = l.take i ++ e :: l.drop (i + 1) := by
    conv => lhs; rw [← List.take_append_drop i l]
    rw [List.drop_eq_getElem_cons hlt, (List.getElem?_eq_some_iff.1 hi).2]
  rw [List.set_eq_take_append_cons_drop, if_pos hlt]
  conv => rhs; rw [hl]
  simp only [List.filterMap_append, List.filterMap_cons]
  cases f e <;> cases f e' <;> simp only [Option.toList_none, Option.toList_some, List.append_nil]
  · exact List.Perm.refl _
  · exact List.perm_middle.trans (List.perm_append_singleton _ _).symm
  · exact (List.perm_append_singleton _ _).trans List.perm_middle.symm
  · exact (List.perm_append_singleton _ _).trans ((List.perm_middle.cons _).trans ((List.Perm.swap _ _ _).trans
      ((List.perm_middle.symm.cons _).trans (List.perm_append_singleton _ _).symm)))

theorem values_insert (hs : s.Wf) (a : α) : List.Perm (s.insert a).2.values (a :: s.values) := by
  unfold Slots.insert
  split
  · rename_i slot rest hfree
    have hempty := hs.free_empty slot (by rw [hfree]; exact List.mem_cons_self)
    have := filterMap_set_perm (fun e : Option (Nat × α) => e.map (·.2)) hempty (some (s.generation, a))
    simp only [Option.map_none, Option.toList_none, List.append_nil, Option.map_some,
      Option.toList_some] at this
    exact this.trans (List.perm_append_singleton _ _)
  · simp only [values, List.filterMap_append, List.filterMap_cons, List.filterMap_nil,
      Option.map_some]
    exact List.perm_append_singleton _ _

theorem values_remove (hr : s.remove h = some (a, t)) : List.Perm s.values (a :: t.values) := by
  have hga := get?_of_remove hr
  have hget := get?_eq_some_iff.1 hga
  rw [remove_eq, hga] at hr
  cases hr
  have := filterMap_set_perm (fun e : Option (Nat × α) => e.map (·.2)) hget none
  simp only [Option.map_none, Option.toList_none, List.append_nil, Option.map_some,
    Option.toList_some] at this
  exact this.symm.trans (List.perm_append_singleton _ _)

theorem count_insert (hs : s.Wf) (a : α) : (s.insert a).2.count = s.count + 1 :=
  (values_insert hs a).length_eq

theorem count_remove (hr : s.remove h = some (a, t)) : s.count = t.count + 1 :=
  (values_remove hr).length_eq

/-- A removed handle is retired: the generation moved past it. -/
theorem retired_of_remove (hs : s.Wf) (hr : s.remove h = some (a, t)) : t.Retired h := by
  have hga := get?_of_remove hr
  have hle := hs.generation_le _ _ _ (get?_eq_some_iff.1 hga)
  have hgen : t.generation = s.generation + 1 := by
    rw [remove_eq, hga] at hr
    cases hr
    rfl
  refine ⟨by omega, ?_⟩
  rw [get?_remove hr, if_pos rfl]

theorem Retired.insert (hr : s.Retired h) (hs : s.Wf) (a : α) : (s.insert a).2.Retired h := by
  have hgen : (s.insert a).2.generation = s.generation := by
    unfold Slots.insert
    split <;> rfl
  have hnew : (s.insert a).1.generation = s.generation := by
    unfold Slots.insert
    split <;> rfl
  refine ⟨by rw [hgen]; exact hr.1, ?_⟩
  have hlt := hr.1
  rw [get?_insert hs, if_neg fun e => by rw [e, hnew] at hlt; exact Nat.lt_irrefl _ hlt]
  exact hr.2

theorem Retired.remove {h' : Handle} (hr : s.Retired h) (hm : s.remove h' = some (a, t)) :
    t.Retired h := by
  have hgen : t.generation = s.generation + 1 := by
    have hga := get?_of_remove hm
    rw [remove_eq, hga] at hm
    cases hm
    rfl
  have hlt := hr.1
  refine ⟨by omega, ?_⟩
  rw [get?_remove hm]
  split
  · rfl
  · exact hr.2

end Lemmas

end Slots

end Inlay
