import Mathlib.Data.List.Forall2
import Inlay.Proofs.PathText

namespace Inlay.Path

/-- The written forms of a position `n` that reading accepts: an optional `+`, any number of
zeros, then the decimal writing of `n`, which must fit a machine word. -/
def PositionText (d : List Char) (n : Nat) : Prop :=
  ∃ (sign : List Char) (zeros : Nat), (sign = [] ∨ sign = ['+']) ∧
    d = sign ++ List.replicate zeros '0' ++ Nat.toDigits 10 n ∧ n ≤ maxPosition

/-- Bracket groups side by side, one around each text. -/
def bracketed (ds : List (List Char)) : List Char := ds.flatMap fun d => '[' :: d ++ [']']

/-- The segment a key gives: none for the empty key. -/
def keySegments (key : List Char) : List Segment :=
  if key = [] then [] else [.key (String.ofList key)]

/-- A part between slashes that reads as `segs`: a key with no bracket, then bracket groups around
written positions. It reads as the key's segment, if any, then the positions. -/
def PartSpells (part : List Char) (segs : List Segment) : Prop :=
  ∃ (key : List Char) (ds : List (List Char)) (ns : List Nat),
    part = key ++ bracketed ds ∧ '[' ∉ key ∧ ']' ∉ key ∧ List.Forall₂ PositionText ds ns ∧
    segs = keySegments key ++ ns.map .index

/-- The first bad bracket group, where the good ones end: a `[` that is never closed, a group whose
text up to its first `]` is no written position, or text that does not open a group. -/
inductive GroupFault : List Char → PathFault → Prop
  | unclosed {t : List Char} : ']' ∉ t → GroupFault ('[' :: t) .unclosedBracket
  | notANumber {d t : List Char} : ']' ∉ d → (∀ n, ¬PositionText d n) →
      GroupFault ('[' :: (d ++ ']' :: t)) .indexNotANumber
  | textAfter {c : Char} {t : List Char} : c ≠ '[' → GroupFault (c :: t) .textAfterBracket

/-- Why a part between slashes does not read: a `]` in its key (the text before its first `[`),
or else the first bad group after the good ones. -/
def PartFault (part : List Char) (fault : PathFault) : Prop :=
  (']' ∈ part.takeWhile (· ≠ '[') ∧ fault = .strayClose) ∨
  (']' ∉ part.takeWhile (· ≠ '[') ∧ ∃ (ds : List (List Char)) (ns : List Nat) (tail : List Char),
    List.Forall₂ PositionText ds ns ∧ part.dropWhile (· ≠ '[') = bracketed ds ++ tail ∧
    GroupFault tail fault)

/-- The parts of a text: the pieces between slashes that are not empty. -/
def slashParts (text : List Char) : List (List Char) := (text.splitOn '/').filter (· ≠ [])

/-- A path text that reads as `segs`: a slash, then parts that read, one after another, as the
pieces of `segs`. -/
def Spells (text : List Char) (segs : List Segment) : Prop :=
  ∃ (rest : List Char) (segss : List (List Segment)), text = '/' :: rest ∧
    List.Forall₂ PartSpells (slashParts rest) segss ∧ segs = segss.flatten

/-- The fault reported for a path text: a missing leading slash, else the fault of the first part
that does not read. -/
def FirstFault (text : List Char) (fault : PathFault) : Prop :=
  (text.head? ≠ some '/' ∧ fault = .missingLeadingSlash) ∨
  ∃ (rest : List Char) (good : List (List Char)) (bad : List Char) (more : List (List Char)),
    text = '/' :: rest ∧ slashParts rest = good ++ bad :: more ∧
    (∀ part ∈ good, ∃ segs, PartSpells part segs) ∧ PartFault bad fault

section Positions

theorem toNat_bounds_of_isDigit {c : Char} (h : c.isDigit = true) :
    48 ≤ c.toNat ∧ c.toNat ≤ 57 := by
  simp only [Char.isDigit, Bool.and_eq_true, decide_eq_true_eq] at h
  exact h

/-- A decimal digit is written by the digit character of its value. -/
theorem digitChar_of_isDigit {c : Char} (h : c.isDigit = true) :
    Nat.digitChar (c.toNat - '0'.toNat) = c := by
  have hc := toNat_bounds_of_isDigit h
  apply Char.toNat_inj.mp
  rw [Nat.toNat_digitChar_of_lt_ten (by simp; omega)]
  simp
  omega

/-- Leading zeros do not change the value of a run of digits. -/
theorem digitsValue_zeros_append (zeros : Nat) {ds : List Char} (hds : ds ≠ []) :
    digitsValue (List.replicate zeros '0' ++ ds) = digitsValue ds := by
  have hfold : (List.replicate zeros '0').foldl
      (fun acc c => acc * 10 + (c.toNat - '0'.toNat)) 0 = 0 := by
    induction zeros with
    | zero => rfl
    | succ z ih => rw [List.replicate_succ, List.foldl_cons]; exact ih
  have hzeros : (List.replicate zeros '0').all Char.isDigit = true := by
    simp [List.all_replicate]
  simp only [digitsValue, List.foldl_append, hfold, List.all_append, hzeros, Bool.true_and]
  simp [hds]

/-- Digits that follow a positive number write, together with it, the number they read as. -/
theorem toDigits_append_digits {cs : List Char} (hcs : ∀ c ∈ cs, c.isDigit = true) :
    ∀ {acc : Nat}, 0 < acc →
      Nat.toDigits 10 acc ++ cs =
        Nat.toDigits 10 (cs.foldl (fun acc c => acc * 10 + (c.toNat - '0'.toNat)) acc) := by
  induction cs with
  | nil => intro acc _; simp
  | cons c cs ih =>
    intro acc hacc
    have hc := hcs c List.mem_cons_self
    have hlt : c.toNat - '0'.toNat < 10 := by
      have := toNat_bounds_of_isDigit hc
      simp; omega
    have hstep : Nat.toDigits 10 acc ++ [c] =
        Nat.toDigits 10 (acc * 10 + (c.toNat - '0'.toNat)) := by
      have h := Nat.toDigits_append_toDigits (b := 10) (by decide) hacc hlt
      rw [Nat.toDigits_of_lt_base hlt, digitChar_of_isDigit hc] at h
      rw [h, Nat.mul_comm]
    calc Nat.toDigits 10 acc ++ c :: cs = (Nat.toDigits 10 acc ++ [c]) ++ cs := by simp
      _ = _ := by
        rw [hstep, ih (fun d hd => hcs d (List.mem_cons_of_mem _ hd)) (by omega)]
        rfl

/-- A nonempty run of digits is some zeros, then the decimal writing of the number it reads as. -/
theorem eq_zeros_toDigits_foldl : ∀ {ds : List Char}, ds ≠ [] → (∀ c ∈ ds, c.isDigit = true) →
    ∃ zeros, ds = List.replicate zeros '0' ++
      Nat.toDigits 10 (ds.foldl (fun acc c => acc * 10 + (c.toNat - '0'.toNat)) 0)
  | [], hne, _ => absurd rfl hne
  | c :: cs, _, hdigits => by
    by_cases hzero : c = '0'
    · subst hzero
      cases cs with
      | nil => exact ⟨0, rfl⟩
      | cons d ds =>
        obtain ⟨zeros, hz⟩ := eq_zeros_toDigits_foldl (List.cons_ne_nil d ds)
          fun x hx => hdigits x (List.mem_cons_of_mem _ hx)
        have hfold : ('0' :: d :: ds).foldl (fun acc c => acc * 10 + (c.toNat - '0'.toNat)) 0 =
            (d :: ds).foldl (fun acc c => acc * 10 + (c.toNat - '0'.toNat)) 0 := rfl
        refine ⟨zeros + 1, ?_⟩
        rw [hfold, List.replicate_succ, List.cons_append, ← hz]
    · have hc := hdigits c List.mem_cons_self
      have hbounds := toNat_bounds_of_isDigit hc
      have hpos : 0 < c.toNat - '0'.toNat := by
        have : c.toNat ≠ 48 := fun e => hzero (Char.toNat_inj.mp e)
        simp; omega
      have hlt : c.toNat - '0'.toNat < 10 := by simp; omega
      have h := toDigits_append_digits (fun x hx => hdigits x (List.mem_cons_of_mem _ hx)) hpos
      rw [Nat.toDigits_of_lt_base hlt, digitChar_of_isDigit hc] at h
      exact ⟨0, by simpa using h⟩

/-- A run of digits is some zeros, then the decimal writing of its value. -/
theorem eq_zeros_toDigits {ds : List Char} {n : Nat} (h : digitsValue ds = some n) :
    ∃ zeros, ds = List.replicate zeros '0' ++ Nat.toDigits 10 n := by
  unfold digitsValue at h
  split at h
  · rename_i hds
    cases h
    exact eq_zeros_toDigits_foldl hds.1 (List.all_eq_true.1 hds.2)
  · cases h

theorem readPosition_plus (rest : List Char) :
    readPosition ('+' :: rest) = (digitsValue rest).filter (· ≤ maxPosition) := by
  simp only [readPosition]
  cases digitsValue rest with
  | none => rfl
  | some n => by_cases hn : n ≤ maxPosition <;> simp [Option.filter, hn]

theorem readPosition_unsigned {cs : List Char} (h : cs.head? ≠ some '+') :
    readPosition cs = (digitsValue cs).filter (· ≤ maxPosition) := by
  unfold readPosition
  split
  · simp at h
  · dsimp only
    cases digitsValue cs with
    | none => rfl
    | some n => by_cases hn : n ≤ maxPosition <;> simp [Option.filter, hn]

/-- The texts reading accepts as a position are exactly its written forms. -/
theorem readPosition_eq_some_iff {d : List Char} {n : Nat} :
    readPosition d = some n ↔ PositionText d n := by
  constructor
  · intro h
    by_cases hplus : d.head? = some '+'
    · obtain ⟨rest, rfl⟩ : ∃ rest, d = '+' :: rest := by
        cases d with
        | nil => cases hplus
        | cons c rest => exact ⟨rest, by simpa using hplus⟩
      rw [readPosition_plus, Option.filter_eq_some_iff] at h
      obtain ⟨zeros, hz⟩ := eq_zeros_toDigits h.1
      exact ⟨['+'], zeros, .inr rfl, by simp [hz], by simpa using h.2⟩
    · rw [readPosition_unsigned hplus, Option.filter_eq_some_iff] at h
      obtain ⟨zeros, hz⟩ := eq_zeros_toDigits h.1
      exact ⟨[], zeros, .inl rfl, by simp [hz], by simpa using h.2⟩
  · rintro ⟨sign, zeros, hsign, rfl, hn⟩
    have hvalue := (digitsValue_zeros_append zeros Nat.toDigits_ne_nil).trans
      (digitsValue_toDigits n)
    rcases hsign with rfl | rfl
    · have hhead : (List.replicate zeros '0' ++ Nat.toDigits 10 n).head? ≠ some '+' := by
        intro e
        have hmem := List.mem_of_head? e
        rcases List.mem_append.1 hmem with h | h
        · exact absurd (List.eq_of_mem_replicate h) (by decide)
        · exact absurd (Nat.isDigit_of_mem_toDigits (by decide) (by decide) h) (by decide)
      rw [List.nil_append, readPosition_unsigned hhead, hvalue]
      simpa using hn
    · rw [List.singleton_append, List.cons_append, readPosition_plus, hvalue]
      simpa using hn

/-- A written position holds no `]`. -/
theorem PositionText.close_not_mem {d : List Char} {n : Nat} (h : PositionText d n) : ']' ∉ d := by
  obtain ⟨sign, zeros, hsign, rfl, _⟩ := h
  intro hmem
  rcases List.mem_append.1 hmem with hmem | hmem
  · rcases List.mem_append.1 hmem with hmem | hmem
    · rcases hsign with rfl | rfl <;> simp at hmem
    · exact absurd (List.eq_of_mem_replicate hmem) (by decide)
  · exact absurd (Nat.isDigit_of_mem_toDigits (by decide) (by decide) hmem) (by decide)

end Positions

section Groups

@[simp] theorem bracketed_nil : bracketed [] = [] := rfl

theorem bracketed_cons (d : List Char) (ds : List (List Char)) :
    bracketed (d :: ds) = '[' :: (d ++ ']' :: bracketed ds) := by
  simp [bracketed]

/-- A group whose `]` never comes is reported unclosed. -/
theorem readGroups_unclosed {t : List Char} (h : ']' ∉ t) :
    ∀ {acc : List Char}, readGroups (some acc) t = .error .unclosedBracket := by
  induction t with
  | nil => intro acc; rfl
  | cons c t ih =>
    intro acc
    have hc : c ≠ ']' := fun e => h (e ▸ List.mem_cons_self)
    rw [readGroups.eq_5, if_neg hc]
    exact ih fun m => h (List.mem_cons_of_mem _ m)

/-- A group whose text up to its `]` is no position is reported as such, whatever follows. -/
theorem readGroups_notANumber {rest : List Char} :
    ∀ {acc cs : List Char}, ']' ∉ cs → readPosition (acc.reverse ++ cs) = none →
      readGroups (some acc) (cs ++ ']' :: rest) = .error .indexNotANumber
  | acc, [], _, hn => by
    rw [List.append_nil] at hn
    rw [List.nil_append, readGroups.eq_5, if_pos rfl, hn]
  | acc, c :: cs, hcs, hn => by
    have hc : c ≠ ']' := fun e => hcs (e ▸ List.mem_cons_self)
    rw [List.cons_append, readGroups.eq_5, if_neg hc]
    exact readGroups_notANumber (fun h => hcs (List.mem_cons_of_mem _ h)) (by simpa using hn)

/-- Good groups read one position each, and reading goes on after them. -/
theorem readGroups_bracketed {ds : List (List Char)} {ns : List Nat}
    (h : List.Forall₂ PositionText ds ns) (tail : List Char) :
    readGroups none (bracketed ds ++ tail) = (readGroups none tail).map (ns ++ ·) := by
  induction h with
  | nil =>
    rw [bracketed_nil, List.nil_append]
    cases readGroups none tail <;> rfl
  | @cons d n ds ns hd _ ih =>
    have hread : readPosition ([].reverse ++ d) = some n := readPosition_eq_some_iff.2 hd
    rw [bracketed_cons, List.cons_append, List.append_assoc, List.cons_append, readGroups.eq_2,
      readGroups_some_append hd.close_not_mem hread, ih]
    cases readGroups none tail <;> rfl

theorem readGroups_of_bracketed {ds : List (List Char)} {ns : List Nat}
    (h : List.Forall₂ PositionText ds ns) : readGroups none (bracketed ds) = .ok ns := by
  simpa [readGroups.eq_1, Except.map] using readGroups_bracketed h []

/-- The first bad group ends the reading with its fault. -/
theorem readGroups_of_groupFault {tail : List Char} {fault : PathFault}
    (h : GroupFault tail fault) : readGroups none tail = .error fault := by
  cases h with
  | unclosed ht => rw [readGroups.eq_2]; exact readGroups_unclosed ht
  | notANumber hd hn =>
    rename_i d t
    have hnone : readPosition ([].reverse ++ d) = none := by
      cases hr : readPosition ([].reverse ++ d) with
      | none => rfl
      | some n => exact absurd (readPosition_eq_some_iff.1 (by simpa using hr)) (hn n)
    rw [readGroups.eq_2]
    exact readGroups_notANumber hd hnone
  | textAfter hc => exact readGroups.eq_3 _ _ hc

/-- A text that holds `]` is the text before its first `]`, the `]` and the rest. -/
theorem exists_first_close : ∀ {t : List Char}, ']' ∈ t →
    ∃ d rest, ']' ∉ d ∧ t = d ++ ']' :: rest
  | c :: t, h => by
    by_cases hc : c = ']'
    · exact ⟨[], t, List.not_mem_nil, by rw [hc]; rfl⟩
    · have ht : ']' ∈ t := (List.mem_cons.1 h).resolve_left (Ne.symm hc)
      obtain ⟨d, rest, hd, rfl⟩ := exists_first_close ht
      exact ⟨c :: d, rest, by simp [Ne.symm hc, hd], rfl⟩

/-- Every text after a key is good groups, then nothing or a first bad group. -/
theorem groups_split (g : List Char) :
    (∃ ds ns, List.Forall₂ PositionText ds ns ∧ g = bracketed ds) ∨
    ∃ ds ns tail fault, List.Forall₂ PositionText ds ns ∧ g = bracketed ds ++ tail ∧
      GroupFault tail fault := by
  induction hlen : g.length using Nat.strong_induction_on generalizing g with
  | _ len ih =>
    match g with
    | [] => exact .inl ⟨[], [], .nil, rfl⟩
    | c :: t =>
      by_cases hc : c = '['
      · subst hc
        by_cases hclose : ']' ∈ t
        · obtain ⟨d, rest, hd, rfl⟩ := exists_first_close hclose
          cases hread : readPosition d with
          | none =>
            have hn : ∀ n, ¬PositionText d n := fun n hn =>
              absurd (readPosition_eq_some_iff.2 hn) (by simp [hread])
            exact .inr ⟨[], [], _, _, .nil, rfl, .notANumber hd hn⟩
          | some n =>
            have hpos := readPosition_eq_some_iff.1 hread
            have hshort : rest.length < len := by simp [← hlen]; omega
            rcases ih rest.length hshort rest rfl with ⟨ds, ns, hds, rfl⟩ |
                ⟨ds, ns, tail, fault, hds, rfl, hf⟩
            · exact .inl ⟨d :: ds, n :: ns, .cons hpos hds, by simp [bracketed_cons]⟩
            · exact .inr ⟨d :: ds, n :: ns, tail, fault, .cons hpos hds, by simp [bracketed_cons],
                hf⟩
        · exact .inr ⟨[], [], _, _, .nil, rfl, .unclosed hclose⟩
      · exact .inr ⟨[], [], _, _, .nil, rfl, .textAfter hc⟩

theorem readGroups_eq_ok_iff {g : List Char} {ns : List Nat} :
    readGroups none g = .ok ns ↔ ∃ ds, List.Forall₂ PositionText ds ns ∧ g = bracketed ds := by
  constructor
  · intro h
    rcases groups_split g with ⟨ds, ns', hds, rfl⟩ | ⟨ds, ns', tail, fault, hds, rfl, hf⟩
    · rw [readGroups_of_bracketed hds] at h
      cases h
      exact ⟨ds, hds, rfl⟩
    · rw [readGroups_bracketed hds, readGroups_of_groupFault hf] at h
      cases h
  · rintro ⟨ds, hds, rfl⟩
    exact readGroups_of_bracketed hds

theorem readGroups_eq_error_iff {g : List Char} {fault : PathFault} :
    readGroups none g = .error fault ↔
      ∃ ds ns tail, List.Forall₂ PositionText ds ns ∧ g = bracketed ds ++ tail ∧
        GroupFault tail fault := by
  constructor
  · intro h
    rcases groups_split g with ⟨ds, ns, hds, rfl⟩ | ⟨ds, ns, tail, fault', hds, rfl, hf⟩
    · rw [readGroups_of_bracketed hds] at h
      cases h
    · rw [readGroups_bracketed hds, readGroups_of_groupFault hf] at h
      obtain rfl : fault' = fault := by simpa [Except.map] using h
      exact ⟨ds, ns, tail, hds, rfl, hf⟩
  · rintro ⟨ds, ns, tail, hds, rfl, hf⟩
    rw [readGroups_bracketed hds, readGroups_of_groupFault hf]
    rfl

end Groups

section Parts

/-- Reading a part: a `]` in its key is refused first; then its groups are read, after the key's
segment. -/
theorem readPart_eq (part : List Char) :
    readPart part =
      if ']' ∈ part.takeWhile (· ≠ '[') then .error .strayClose
      else (readGroups none (part.dropWhile (· ≠ '['))).map
        fun ns => keySegments (part.takeWhile (· ≠ '[')) ++ ns.map .index := by
  unfold readPart keySegments
  by_cases hclose : ']' ∈ part.takeWhile (· ≠ '[')
  · simp only [hclose, if_true, List.contains_iff_mem]
    rfl
  · simp only [hclose, if_false, List.contains_iff_mem, List.isEmpty_iff]
    cases readGroups none (part.dropWhile (· ≠ '[')) <;> rfl

/-- A key with no `[` ends where the groups after it begin. -/
theorem key_bracketed {key : List Char} (hkey : '[' ∉ key) (ds : List (List Char)) :
    (key ++ bracketed ds).takeWhile (· ≠ '[') = key ∧
      (key ++ bracketed ds).dropWhile (· ≠ '[') = bracketed ds := by
  have hopen : ∀ c ∈ key, decide (c ≠ '[') = true := fun c hc => by
    simp only [ne_eq, decide_eq_true_eq]
    rintro rfl
    exact hkey hc
  have hgroups : (bracketed ds).takeWhile (· ≠ '[') = [] ∧
      (bracketed ds).dropWhile (· ≠ '[') = bracketed ds := by
    cases ds with
    | nil => simp
    | cons d ds => simp [bracketed_cons]
  rw [List.takeWhile_append_of_pos hopen, hgroups.1, List.append_nil,
    List.dropWhile_append_of_pos hopen, hgroups.2]
  exact ⟨rfl, rfl⟩

theorem readPart_eq_ok_iff {part : List Char} {segs : List Segment} :
    readPart part = .ok segs ↔ PartSpells part segs := by
  rw [readPart_eq]
  constructor
  · intro h
    split at h
    · cases h
    · rename_i hclose
      cases hg : readGroups none (part.dropWhile (· ≠ '[')) with
      | error e => rw [hg] at h; cases h
      | ok ns =>
        rw [hg] at h
        obtain ⟨ds, hds, hrest⟩ := readGroups_eq_ok_iff.1 hg
        refine ⟨part.takeWhile (· ≠ '['), ds, ns, ?_, fun e => ?_, hclose, hds, ?_⟩
        · rw [← hrest, List.takeWhile_append_dropWhile]
        · simpa using List.mem_takeWhile_imp e
        · cases h; rfl
  · rintro ⟨key, ds, ns, rfl, hopen, hclose, hds, rfl⟩
    obtain ⟨hkey, hrest⟩ := key_bracketed hopen ds
    have hread := readGroups_eq_ok_iff.2 ⟨ds, hds, rfl⟩
    rw [hkey, hrest, if_neg hclose, hread]
    rfl

theorem readPart_eq_error_iff {part : List Char} {fault : PathFault} :
    readPart part = .error fault ↔ PartFault part fault := by
  rw [readPart_eq]
  constructor
  · intro h
    split at h
    · rename_i hclose
      cases h
      exact .inl ⟨hclose, rfl⟩
    · rename_i hclose
      cases hg : readGroups none (part.dropWhile (· ≠ '[')) with
      | ok ns => rw [hg] at h; cases h
      | error e =>
        rw [hg] at h
        cases h
        exact .inr ⟨hclose, readGroups_eq_error_iff.1 hg⟩
  · rintro (⟨hclose, rfl⟩ | ⟨hclose, hgroups⟩)
    · rw [if_pos hclose]
    · rw [if_neg hclose, readGroups_eq_error_iff.2 hgroups]
      rfl

theorem readParts_cons (part : List Char) (parts : List (List Char)) :
    readParts (part :: parts) =
      (readPart part).bind fun first => (readParts parts).map (first ++ ·) := by
  rw [readParts.eq_2]
  cases readPart part with
  | error e => rfl
  | ok first => cases readParts parts <;> rfl

theorem readParts_eq_ok_iff {parts : List (List Char)} {segs : List Segment} :
    readParts parts = .ok segs ↔
      ∃ segss, List.Forall₂ PartSpells parts segss ∧ segs = segss.flatten := by
  induction parts generalizing segs with
  | nil =>
    constructor
    · intro h
      cases h
      exact ⟨[], .nil, rfl⟩
    · rintro ⟨segss, hsegss, rfl⟩
      cases List.forall₂_nil_left_iff.1 hsegss
      rfl
  | cons part parts ih =>
    rw [readParts_cons]
    constructor
    · intro h
      cases hp : readPart part with
      | error e => rw [hp] at h; cases h
      | ok first =>
        cases hr : readParts parts with
        | error e => rw [hp, hr] at h; cases h
        | ok rest =>
          rw [hp, hr] at h
          cases h
          obtain ⟨segss, hsegss, rfl⟩ := ih.1 hr
          exact ⟨first :: segss, .cons (readPart_eq_ok_iff.1 hp) hsegss, rfl⟩
    · rintro ⟨segss, hsegss, rfl⟩
      obtain ⟨first, segss, hfirst, hrest, rfl⟩ := List.forall₂_cons_left_iff.1 hsegss
      rw [readPart_eq_ok_iff.2 hfirst, ih.2 ⟨segss, hrest, rfl⟩]
      rfl

theorem readParts_eq_error_iff {parts : List (List Char)} {fault : PathFault} :
    readParts parts = .error fault ↔
      ∃ good bad more, parts = good ++ bad :: more ∧ (∀ part ∈ good, ∃ segs, PartSpells part segs) ∧
        PartFault bad fault := by
  induction parts with
  | nil =>
    constructor
    · intro h
      cases h
    · rintro ⟨good, bad, more, h, -, -⟩
      exact absurd h.symm (by simp)
  | cons part parts ih =>
    rw [readParts_cons]
    constructor
    · intro h
      cases hp : readPart part with
      | error e =>
        rw [hp] at h
        cases h
        exact ⟨[], part, parts, rfl, by simp, readPart_eq_error_iff.1 hp⟩
      | ok first =>
        cases hr : readParts parts with
        | ok rest => rw [hp, hr] at h; cases h
        | error e =>
          rw [hp, hr] at h
          cases h
          obtain ⟨good, bad, more, rfl, hgood, hbad⟩ := ih.1 hr
          refine ⟨part :: good, bad, more, rfl, fun q hq => ?_, hbad⟩
          rcases List.mem_cons.1 hq with rfl | hq
          · exact ⟨first, readPart_eq_ok_iff.1 hp⟩
          · exact hgood q hq
    · rintro ⟨good, bad, more, hparts, hgood, hbad⟩
      cases good with
      | nil =>
        obtain ⟨rfl, rfl⟩ := List.cons.inj (by simpa using hparts)
        rw [readPart_eq_error_iff.2 hbad]
        rfl
      | cons g good =>
        obtain ⟨rfl, rfl⟩ := List.cons.inj (by simpa using hparts)
        obtain ⟨first, hfirst⟩ := hgood _ List.mem_cons_self
        rw [readPart_eq_ok_iff.2 hfirst,
          ih.2 ⟨good, bad, more, rfl, fun q hq => hgood q (List.mem_cons_of_mem _ hq), hbad⟩]
        rfl

end Parts

section Paths

theorem parse_of_slash {text : String} {rest : List Char} (h : text.toList = '/' :: rest) :
    parse text = ((readParts (slashParts rest)).map Path.mk).mapError (PathError.mk text) := by
  unfold parse
  split
  · rename_i rest' hrest'
    obtain rfl : rest' = rest := by simpa [h] using hrest'.symm
    unfold slashParts
    cases readParts ((rest'.splitOn '/').filter (· ≠ [])) <;> rfl
  · rename_i hnot
    exact absurd h (hnot rest)

theorem parse_of_not_slash {text : String} (h : text.toList.head? ≠ some '/') :
    parse text = .error ⟨text, .missingLeadingSlash⟩ := by
  unfold parse
  split
  · rename_i rest hrest
    rw [hrest] at h
    exact absurd rfl h
  · rfl

/-- Reading accepts exactly the texts of the grammar, and gives the segments they spell. -/
theorem parse_eq_ok_iff (text : String) (p : Path) :
    parse text = .ok p ↔ Spells text.toList p.segments := by
  by_cases hslash : text.toList.head? = some '/'
  · obtain ⟨rest, hrest⟩ : ∃ rest, text.toList = '/' :: rest := by
      cases h : text.toList with
      | nil => rw [h] at hslash; cases hslash
      | cons c rest => rw [h] at hslash; exact ⟨rest, by simpa using hslash⟩
    rw [parse_of_slash hrest]
    constructor
    · intro h
      cases hr : readParts (slashParts rest) with
      | error e => rw [hr] at h; cases h
      | ok segs =>
        rw [hr] at h
        cases h
        obtain ⟨segss, hsegss, rfl⟩ := readParts_eq_ok_iff.1 hr
        exact ⟨rest, segss, hrest, hsegss, rfl⟩
    · rintro ⟨rest', segss, hrest', hsegss, hsegs⟩
      obtain rfl : rest' = rest := by simpa [hrest] using hrest'.symm
      rw [readParts_eq_ok_iff.2 ⟨segss, hsegss, hsegs⟩]
      rfl
  · rw [parse_of_not_slash hslash]
    constructor
    · intro h
      cases h
    · rintro ⟨rest, segss, hrest, -, -⟩
      exact absurd (by simp [hrest]) hslash

/-- Reading refuses every other text with the fault of its first offence: a missing leading
slash, else the first part that does not read. -/
theorem parse_eq_error_iff (text : String) (e : PathError) :
    parse text = .error e ↔ e.input = text ∧ FirstFault text.toList e.fault := by
  obtain ⟨input, fault⟩ := e
  by_cases hslash : text.toList.head? = some '/'
  · obtain ⟨rest, hrest⟩ : ∃ rest, text.toList = '/' :: rest := by
      cases h : text.toList with
      | nil => rw [h] at hslash; cases hslash
      | cons c rest => rw [h] at hslash; exact ⟨rest, by simpa using hslash⟩
    rw [parse_of_slash hrest]
    constructor
    · intro h
      cases hr : readParts (slashParts rest) with
      | ok segs => rw [hr] at h; cases h
      | error f =>
        rw [hr] at h
        cases h
        obtain ⟨good, bad, more, hparts, hgood, hbad⟩ := readParts_eq_error_iff.1 hr
        exact ⟨rfl, .inr ⟨rest, good, bad, more, hrest, hparts, hgood, hbad⟩⟩
    · rintro ⟨rfl, ⟨hnot, -⟩ | ⟨rest', good, bad, more, hrest', hparts, hgood, hbad⟩⟩
      · exact absurd hslash hnot
      · obtain rfl : rest' = rest := by simpa [hrest] using hrest'.symm
        rw [readParts_eq_error_iff.2 ⟨good, bad, more, hparts, hgood, hbad⟩]
        rfl
  · rw [parse_of_not_slash hslash]
    constructor
    · intro h
      cases h
      exact ⟨rfl, .inl ⟨hslash, rfl⟩⟩
    · rintro ⟨rfl, ⟨-, rfl⟩ | ⟨rest, -, -, -, hrest, -⟩⟩
      · rfl
      · exact absurd (by simp [hrest]) hslash

/-- Reading a written path follows its grammar exactly: a text reads as a path precisely when it
spells that path's segments, and it is refused, naming itself, with the fault of its first
offence otherwise. -/
theorem parse_follows_grammar (text : String) :
    (∀ p : Path, parse text = .ok p ↔ Spells text.toList p.segments) ∧
    (∀ e : PathError, parse text = .error e ↔ e.input = text ∧ FirstFault text.toList e.fault) :=
  ⟨parse_eq_ok_iff text, parse_eq_error_iff text⟩

end Paths

end Inlay.Path
