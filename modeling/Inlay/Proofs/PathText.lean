import Mathlib.Data.List.TakeWhile
import Inlay.Path.Parse

namespace Inlay

namespace Segment

/-- A segment that writing and reading keep: a nonempty key with no slash and no bracket, or a
position that fits a machine word. -/
def Readable : Segment → Prop
  | .key name => name.toList ≠ [] ∧ ∀ c ∈ name.toList, c ≠ '/' ∧ c ≠ '[' ∧ c ≠ ']'
  | .index position => position ≤ Path.maxPosition

instance : DecidablePred Readable
  | .key _ => inferInstanceAs (Decidable (_ ∧ _))
  | .index _ => inferInstanceAs (Decidable (_ ≤ _))

@[simp] theorem toList_render_key (name : String) :
    (Segment.render (.key name)).toList = '/' :: name.toList := by
  simp [Segment.render]

@[simp] theorem toList_render_index (n : Nat) :
    (Segment.render (.index n)).toList = '[' :: Nat.toDigits 10 n ++ [']'] := by
  simp [Segment.render, Nat.toString_eq_repr, Nat.toList_repr]

end Segment

namespace Path

/-- Whether the written form starts with a slash: it does for the root and when the first
segment is a key. -/
def opensWithKey (p : Path) : Bool :=
  match p.segments with
  | .index _ :: _ => false
  | _ => true

section Positions

/-- The decimal writing of a number reads as that number. -/
theorem digitsValue_toDigits (n : Nat) : digitsValue (Nat.toDigits 10 n) = some n := by
  have hdigits : (Nat.toDigits 10 n).all Char.isDigit = true :=
    List.all_eq_true.2 fun c hc => Nat.isDigit_of_mem_toDigits (by decide) (by decide) hc
  have hfold : (Nat.toDigits 10 n).foldl (fun acc c => acc * 10 + (c.toNat - '0'.toNat)) 0 =
      Nat.ofDigitChars 10 (Nat.toDigits 10 n) 0 := by
    simp only [Nat.ofDigitChars_eq_foldl, Nat.mul_comm]
  rw [digitsValue, if_pos ⟨Nat.toDigits_ne_nil, hdigits⟩, hfold, Nat.ofDigitChars_ten_toDigits]

/-- A number that fits a machine word reads back from its decimal writing. -/
theorem readPosition_toDigits {n : Nat} (h : n ≤ maxPosition) :
    readPosition (Nat.toDigits 10 n) = some n := by
  have hhead : ∀ rest, Nat.toDigits 10 n ≠ '+' :: rest := fun rest e => by
    have hplus : '+' ∈ Nat.toDigits 10 n := e ▸ List.mem_cons_self
    exact absurd (Nat.isDigit_of_mem_toDigits (by decide) (by decide) hplus) (by decide)
  unfold readPosition
  split
  · rename_i rest e
    exact absurd e (hhead rest)
  · dsimp only
    rw [digitsValue_toDigits]
    exact if_pos h

theorem le_of_readPosition {cs : List Char} {n : Nat} (h : readPosition cs = some n) :
    n ≤ maxPosition := by
  unfold readPosition at h
  dsimp only at h
  split at h
  · split at h
    · exact (Option.some.inj h) ▸ (by assumption)
    · cases h
  · cases h

/-- Bracket groups read one position each. -/
theorem le_of_readGroups {pending : Option (List Char)} {cs : List Char} {ns : List Nat}
    (h : readGroups pending cs = .ok ns) : ∀ n ∈ ns, n ≤ maxPosition := by
  fun_induction readGroups pending cs generalizing ns with
  | case1 => cases h; simp
  | case2 _ ih => exact ih h
  | case3 | case4 | case5 => cases h
  | case6 acc cs n hread ih =>
    obtain ⟨ms, hms, rfl⟩ : ∃ ms, readGroups none cs = .ok ms ∧ n :: ms = ns := by
      cases hm : readGroups none cs <;> simp_all [Except.map]
    intro m hm
    rcases List.mem_cons.1 hm with rfl | hm
    · exact le_of_readPosition hread
    · exact ih hms m hm
  | case7 _ _ _ _ ih => exact ih h

end Positions

section Reading

/-- No piece of a text split at `a` holds `a`. -/
theorem not_mem_of_mem_splitOn {a : Char} :
    ∀ {l part : List Char}, part ∈ l.splitOn a → a ∉ part
  | [], part, h => by simp_all
  | x :: xs, part, h => by
    rw [List.splitOn_cons_eq_if_modifyHead] at h
    split at h
    · rcases List.mem_cons.1 h with rfl | h
      · simp
      · exact not_mem_of_mem_splitOn h
    · rename_i hx
      obtain ⟨first, rest, hfr⟩ := List.exists_cons_of_ne_nil (List.splitOn_ne_nil a xs)
      rw [hfr, List.modifyHead_cons] at h
      rcases List.mem_cons.1 h with rfl | h
      · have hfirst := not_mem_of_mem_splitOn (hfr ▸ List.mem_cons_self : first ∈ xs.splitOn a)
        simp only [List.mem_cons, not_or]
        exact ⟨fun e => hx (by simp [e]), hfirst⟩
      · exact not_mem_of_mem_splitOn (hfr ▸ List.mem_cons_of_mem _ h)

/-- The segments read from one part: its key, cut before the first bracket, and its positions. -/
theorem readable_of_readPart {part : List Char} {segs : List Segment} (hpart : '/' ∉ part)
    (h : readPart part = .ok segs) : ∀ seg ∈ segs, seg.Readable := by
  unfold readPart at h
  dsimp only at h
  split at h
  · cases h
  · rename_i hclose
    cases hg : readGroups none (part.dropWhile (· ≠ '[')) with
    | error e => rw [hg] at h; cases h
    | ok ns =>
      rw [hg] at h
      cases h
      intro seg hseg
      rcases List.mem_append.1 hseg with hkey | hpos
      · split at hkey
        · cases hkey
        · rename_i hne
          rw [List.mem_singleton.1 hkey]
          refine ⟨by simpa using hne, fun c hc => ?_⟩
          rw [String.toList_ofList] at hc
          refine ⟨fun e => hpart (e ▸ List.takeWhile_subset _ hc), fun e => ?_, fun e => ?_⟩
          · simpa [e] using List.mem_takeWhile_imp hc
          · exact hclose (List.contains_iff_mem.2 (e ▸ hc))
      · obtain ⟨n, hn, rfl⟩ := List.mem_map.1 hpos
        exact le_of_readGroups hg n hn

/-- The parts of a text read into readable segments. -/
theorem readable_of_readParts :
    ∀ {parts : List (List Char)} {segs : List Segment}, (∀ part ∈ parts, '/' ∉ part) →
      readParts parts = .ok segs → ∀ seg ∈ segs, seg.Readable
  | [], segs, _, h => by cases h; simp
  | part :: parts, segs, hparts, h => by
    unfold readParts at h
    cases hp : readPart part with
    | error e => rw [hp] at h; cases h
    | ok first =>
      cases hr : readParts parts with
      | error e => rw [hp, hr] at h; cases h
      | ok rest =>
        rw [hp, hr] at h
        cases h
        intro seg hseg
        rcases List.mem_append.1 hseg with hseg | hseg
        · exact readable_of_readPart (hparts part List.mem_cons_self) hp seg hseg
        · exact readable_of_readParts (fun q hq => hparts q (List.mem_cons_of_mem _ hq)) hr seg hseg

/-- Every path read from a text has nonempty keys without slash or bracket, and positions that
fit a machine word. -/
theorem readable_of_parse {text : String} {p : Path} (h : parse text = .ok p) :
    ∀ seg ∈ p.segments, seg.Readable := by
  unfold parse at h
  split at h
  · rename_i rest _
    split at h
    · rename_i segs hsegs
      cases h
      refine readable_of_readParts (fun part hpart => ?_) hsegs
      exact not_mem_of_mem_splitOn (List.mem_filter.1 hpart).1
    · cases h
  · cases h

end Reading

section Writing

/-- The written form of a run of positions: its bracket groups side by side. -/
def groupsText (ns : List Nat) : List Char := (ns.map Segment.index).flatMap (·.render.toList)

@[simp] theorem groupsText_nil : groupsText [] = [] := rfl

theorem groupsText_cons (n : Nat) (ns : List Nat) :
    groupsText (n :: ns) = '[' :: (Nat.toDigits 10 n ++ ']' :: groupsText ns) := by
  simp [groupsText]

theorem groupsText_append (ns ms : List Nat) :
    groupsText (ns ++ ms) = groupsText ns ++ groupsText ms := by
  simp [groupsText]

/-- Bracket groups hold digits and brackets only. -/
theorem mem_groupsText {ns : List Nat} {c : Char} (h : c ∈ groupsText ns) :
    c = '[' ∨ c = ']' ∨ c.isDigit = true := by
  induction ns with
  | nil => simp at h
  | cons n ns ih =>
    rw [groupsText_cons] at h
    simp only [List.mem_cons, List.mem_append] at h
    rcases h with h | h | h | h
    · exact .inl h
    · exact .inr (.inr (Nat.isDigit_of_mem_toDigits (by decide) (by decide) h))
    · exact .inr (.inl h)
    · exact ih h

theorem slash_not_mem_groupsText (ns : List Nat) : '/' ∉ groupsText ns := fun h => by
  rcases mem_groupsText h with h | h | h <;> revert h <;> decide

/-- Reading a group: the text up to its first `]` is the position. -/
theorem readGroups_some_append {rest : List Char} {n : Nat} :
    ∀ {acc cs : List Char}, ']' ∉ cs → readPosition (acc.reverse ++ cs) = some n →
      readGroups (some acc) (cs ++ ']' :: rest) = (readGroups none rest).map (n :: ·)
  | acc, [], _, hn => by
    rw [List.append_nil] at hn
    rw [List.nil_append, readGroups.eq_5, if_pos rfl, hn]
  | acc, c :: cs, hcs, hn => by
    have hc : c ≠ ']' := fun e => hcs (e ▸ List.mem_cons_self)
    rw [List.cons_append, readGroups.eq_5, if_neg hc]
    exact readGroups_some_append (fun h => hcs (List.mem_cons_of_mem _ h)) (by simpa using hn)

/-- Written positions that fit a machine word read back. -/
theorem readGroups_groupsText :
    ∀ (ns : List Nat), (∀ n ∈ ns, n ≤ maxPosition) → readGroups none (groupsText ns) = .ok ns
  | [], _ => rfl
  | n :: ns, hns => by
    have hdigits : ']' ∉ Nat.toDigits 10 n := fun h => by
      have := Nat.isDigit_of_mem_toDigits (by decide) (by decide) h
      revert this; decide
    have hread : readPosition ([].reverse ++ Nat.toDigits 10 n) = some n :=
      readPosition_toDigits (hns n List.mem_cons_self)
    rw [groupsText_cons, readGroups.eq_2, readGroups_some_append hdigits hread,
      readGroups_groupsText ns fun m hm => hns m (List.mem_cons_of_mem _ hm)]
    rfl

/-- A readable key followed by its positions reads back as one part. -/
theorem readPart_key_groups {name : String} {ns : List Nat} (hk : (Segment.key name).Readable)
    (hns : ∀ n ∈ ns, n ≤ maxPosition) :
    readPart (name.toList ++ groupsText ns) = .ok (.key name :: ns.map .index) := by
  obtain ⟨hne, hchars⟩ := hk
  have hopen : ∀ c ∈ name.toList, decide (c ≠ '[') = true := fun c hc => by
    simpa using (hchars c hc).2.1
  have hgroups : (groupsText ns).takeWhile (· ≠ '[') = [] ∧
      (groupsText ns).dropWhile (· ≠ '[') = groupsText ns := by
    cases ns with
    | nil => simp
    | cons n ns => simp [groupsText_cons]
  have hkey : (name.toList ++ groupsText ns).takeWhile (· ≠ '[') = name.toList := by
    rw [List.takeWhile_append_of_pos hopen, hgroups.1, List.append_nil]
  have hrest : (name.toList ++ groupsText ns).dropWhile (· ≠ '[') = groupsText ns := by
    rw [List.dropWhile_append_of_pos hopen, hgroups.2]
  have hclose : name.toList.contains ']' = false := by
    simpa using fun h => (hchars ']' h).2.2 rfl
  unfold readPart
  simp only [hkey, hrest, hclose, readGroups_groupsText ns hns]
  simp [hne]

/-- The text of a segment list after its leading slash, for a list that opens with a key: every
part between slashes is a key with its positions, and reads back as them. -/
theorem readParts_written (rest : List Segment) :
    ∀ (name : String) (ns : List Nat), (Segment.key name).Readable → (∀ n ∈ ns, n ≤ maxPosition) →
      (∀ seg ∈ rest, seg.Readable) →
      readParts (((name.toList ++ groupsText ns ++ rest.flatMap (·.render.toList)).splitOn '/').filter
        (· ≠ [])) = .ok (.key name :: ns.map .index ++ rest) := by
  induction rest with
  | nil =>
    intro name ns hk hns _
    have hslash : '/' ∉ name.toList ++ groupsText ns := by
      simpa using ⟨fun h => (hk.2 '/' h).1 rfl, slash_not_mem_groupsText ns⟩
    have hne : name.toList ++ groupsText ns ≠ [] := List.append_ne_nil_of_left_ne_nil hk.1 _
    rw [List.flatMap_nil, List.append_nil, List.splitOn_eq_singleton hslash,
      List.filter_cons, if_pos (decide_eq_true hne), List.filter_nil, readParts,
      readPart_key_groups hk hns]
    rfl
  | cons seg rest ih =>
    intro name ns hk hns hrest
    have hseg := hrest seg List.mem_cons_self
    have hrest' : ∀ s ∈ rest, s.Readable := fun s hs => hrest s (List.mem_cons_of_mem _ hs)
    cases seg with
    | index n =>
      have hns' : ∀ m ∈ ns ++ [n], m ≤ maxPosition := fun m hm =>
        (List.mem_append.1 hm).elim (hns m) fun h => (List.mem_singleton.1 h) ▸ hseg
      have h := ih name (ns ++ [n]) hk hns' hrest'
      rw [groupsText_append] at h
      simpa [groupsText] using h
    | key k =>
      have hslash : '/' ∉ name.toList ++ groupsText ns := by
        simpa using ⟨fun h => (hk.2 '/' h).1 rfl, slash_not_mem_groupsText ns⟩
      have hne : name.toList ++ groupsText ns ≠ [] := List.append_ne_nil_of_left_ne_nil hk.1 _
      have h := ih k [] hseg (by simp) hrest'
      rw [List.flatMap_cons, Segment.toList_render_key, List.cons_append, List.append_assoc,
        ← List.append_assoc, List.splitOn_append_cons_self_of_not_mem hslash, List.filter_cons,
        if_pos (decide_eq_true hne), readParts, readPart_key_groups hk hns]
      simp only [groupsText_nil, List.append_nil] at h
      rw [h]
      rfl

end Writing

section RoundTrip

/-- A path with segments is written as its segments side by side. -/
theorem toList_render_cons (seg : Segment) (rest : List Segment) :
    (Path.render ⟨seg :: rest⟩).toList = (seg :: rest).flatMap (·.render.toList) := by
  simp [Path.render, String.toList_join, List.flatMap_map]

/-- A path that opens with a key, whose keys and positions are readable, reads back. -/
theorem parse_render_of_readable {p : Path} (hopen : p.opensWithKey = true)
    (hread : ∀ seg ∈ p.segments, seg.Readable) : parse p.render = .ok p := by
  obtain ⟨segments⟩ := p
  cases segments with
  | nil => rfl
  | cons seg rest =>
    cases seg with
    | index n => cases hopen
    | key name =>
      have h := readParts_written rest name [] (hread _ List.mem_cons_self) (by simp)
        fun s hs => hread s (List.mem_cons_of_mem _ hs)
      rw [groupsText_nil, List.append_nil] at h
      unfold parse
      rw [toList_render_cons, List.flatMap_cons, Segment.toList_render_key, List.cons_append]
      simp only [h]
      rfl

/-- The written form of a path that opens with a position starts with a bracket, and is refused. -/
theorem parse_render_of_index {p : Path} {n : Nat} {rest : List Segment}
    (h : p.segments = .index n :: rest) :
    parse p.render = .error ⟨p.render, .missingLeadingSlash⟩ := by
  obtain ⟨segments⟩ := p
  cases h
  unfold parse
  rw [toList_render_cons, List.flatMap_cons, Segment.toList_render_index]
  rfl

/-- Reading the written form of a path gives the path back exactly when it opens with a key (or
is the root), every key is nonempty and holds no slash or bracket, and every position fits a
machine word. -/
theorem parse_render_eq_ok_iff (p : Path) :
    parse p.render = .ok p ↔ p.opensWithKey = true ∧ ∀ seg ∈ p.segments, seg.Readable := by
  refine ⟨fun h => ⟨?_, readable_of_parse h⟩, fun ⟨hopen, hread⟩ => parse_render_of_readable hopen hread⟩
  unfold opensWithKey
  split
  · rename_i n rest hseg
    rw [parse_render_of_index hseg] at h
    cases h
  · rfl

theorem readsBack_iff (p : Path) : p.readsBack = true ↔ parse p.render = .ok p := by
  unfold readsBack
  split
  · rename_i q hq
    rw [hq, beq_iff_eq]
    exact ⟨fun e => e ▸ rfl, fun e => Except.ok.inj e⟩
  · rename_i e he
    rw [he]
    simp

/-- Reading back the written form of a path. The program's check `readsBack` answers whether
reading gives the path back, which it does exactly for the paths that open with a key and whose
keys and positions are readable; and every path read from a text is readable, so it reads back
unless it opens with a position. -/
theorem parse_render_iff_readable :
    (∀ p : Path, (p.readsBack = true ↔ parse p.render = .ok p) ∧
      (parse p.render = .ok p ↔ p.opensWithKey = true ∧ ∀ seg ∈ p.segments, seg.Readable)) ∧
    ∀ (text : String) (p : Path), parse text = .ok p →
      (∀ seg ∈ p.segments, seg.Readable) ∧ (parse p.render = .ok p ↔ p.opensWithKey = true) := by
  refine ⟨fun p => ⟨readsBack_iff p, parse_render_eq_ok_iff p⟩, fun text p h => ?_⟩
  have hread := readable_of_parse h
  exact ⟨hread, (parse_render_eq_ok_iff p).trans ⟨fun h => h.1, fun h => ⟨h, hread⟩⟩⟩

/-- `/[0]` is read as a readable path that opens with a position, so its written form `[0]` does
not read back. -/
theorem leading_position_reads_once :
    parse "/[0]" = .ok ⟨[.index 0]⟩ ∧ (∀ seg ∈ [Segment.index 0], seg.Readable) ∧
      (parse (Path.render ⟨[.index 0]⟩) = .ok ⟨[.index 0]⟩ ↔ false = true) :=
  ⟨rfl, parse_render_iff_readable.2 "/[0]" ⟨[.index 0]⟩ rfl⟩

example : (⟨[.index 0]⟩ : Path).render = "[0]" ∧ (parse "[0]").toBool = false := ⟨by decide, rfl⟩

end RoundTrip

end Path

end Inlay
