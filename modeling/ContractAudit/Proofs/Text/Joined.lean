import ContractAudit.Text.Name
import ContractAudit.Text.Pattern

/-!
# Patterns and names in joined texts

A pattern made of character classes alone covers words, wherever they stand; it is found in a text if the text
has such a word in it. A character that is in none of its classes stands in none of its words, so texts joined
by that character hold no word that is in none of them. The names in a text are its words of name characters
that cannot be made longer and were not begun before; they do not reach across a blank either.
-/

namespace ContractAudit.Text

/-! ## Patterns -/

namespace Pattern

/-- The word is one that the pattern covers, whatever stands around it. -/
inductive Covers : Pattern → List Char → Prop where
  | empty : Covers empty []
  | char {p c} (hc : p c = true) : Covers (char p) [c]
  | run {p w} (hw : ∀ c ∈ w, p c = true) : Covers (run p) w
  | seq {a b v w} (ha : Covers a v) (hb : Covers b w) : Covers (seq a b) (v ++ w)
  | left {a b w} (ha : Covers a w) : Covers (either a b) w
  | right {a b w} (hb : Covers b w) : Covers (either a b) w

/-- The pattern is made of character classes alone, and the character is in none of them. -/
def avoids (c : Char) : Pattern → Bool
  | empty => true
  | char p => ! p c
  | run p => ! p c
  | seq a b => a.avoids c && b.avoids c
  | either a b => a.avoids c && b.avoids c
  | _ => false

theorem mem_runRests {p : Char → Bool} {before : Option Char} {cs : List Char} {s : Place}
    (hs : s ∈ runRests p before cs) : ∃ w, (∀ c ∈ w, p c = true) ∧ cs = w ++ s.after := by
  induction cs generalizing before with
  | nil =>
    cases List.mem_singleton.mp hs
    exact ⟨[], by simp, rfl⟩
  | cons c cs ih =>
    rcases List.mem_cons.mp hs with rfl | hs
    · exact ⟨[], by simp, rfl⟩
    · obtain ⟨hc, hs⟩ := List.mem_ite_nil_right.mp hs
      obtain ⟨w, hw, rfl⟩ := ih hs
      exact ⟨c :: w, List.forall_mem_cons.mpr ⟨hc, hw⟩, rfl⟩

theorem exists_mem_runRests {p : Char → Bool} {w : List Char} (hw : ∀ c ∈ w, p c = true)
    (before : Option Char) (rest : List Char) : ∃ b, ⟨b, rest⟩ ∈ runRests p before (w ++ rest) := by
  induction w generalizing before with
  | nil =>
    refine ⟨before, ?_⟩
    cases rest <;> simp [runRests]
  | cons c w ih =>
    obtain ⟨hc, hw⟩ := List.forall_mem_cons.mp hw
    obtain ⟨b, hb⟩ := ih hw (some c)
    exact ⟨b, by simp [runRests, hc, hb]⟩

variable {p : Pattern} {c : Char}

/-- A way that the pattern covers leads over one of its words. -/
theorem exists_covers (h : p.avoids c = true) {s s' : Place} (hs : s' ∈ p.rests s) :
    ∃ w, Covers p w ∧ s.after = w ++ s'.after := by
  induction p generalizing s s' with
  | empty =>
    cases List.mem_singleton.mp hs
    exact ⟨[], .empty, rfl⟩
  | char p =>
    obtain ⟨before, after⟩ := s
    cases after with
    | nil => cases hs
    | cons d cs =>
      simp only [rests, List.mem_ite_nil_right, List.mem_singleton] at hs
      obtain ⟨hd, rfl⟩ := hs
      exact ⟨[d], .char hd, rfl⟩
  | run p =>
    obtain ⟨w, hw, hcs⟩ := mem_runRests hs
    exact ⟨w, .run hw, hcs⟩
  | seq a b iha ihb =>
    obtain ⟨ha, hb⟩ := Bool.and_eq_true_iff.mp h
    obtain ⟨m, hm, hs⟩ := List.mem_flatMap.mp hs
    obtain ⟨v, hv, hv'⟩ := iha ha hm
    obtain ⟨w, hw, hw'⟩ := ihb hb hs
    exact ⟨v ++ w, .seq hv hw, by rw [hv', hw', List.append_assoc]⟩
  | either a b iha ihb =>
    obtain ⟨ha, hb⟩ := Bool.and_eq_true_iff.mp h
    rcases List.mem_append.mp hs with hs | hs
    · obtain ⟨w, hw, hcs⟩ := iha ha hs
      exact ⟨w, .left hw, hcs⟩
    · obtain ⟨w, hw, hcs⟩ := ihb hb hs
      exact ⟨w, .right hw, hcs⟩
  | start => cases h
  | stop => cases h
  | notAfter p => cases h
  | notBefore p => cases h
  | boundary => cases h

theorem Covers.exists_mem_rests {w : List Char} (h : Covers p w) (before : Option Char) (rest : List Char) :
    ∃ b, ⟨b, rest⟩ ∈ p.rests ⟨before, w ++ rest⟩ := by
  induction h generalizing before rest with
  | empty => exact ⟨before, List.mem_singleton_self _⟩
  | @char p c hc => exact ⟨some c, by simp [rests, hc]⟩
  | run hw => exact exists_mem_runRests hw before rest
  | @seq a b v w _ _ iha ihb =>
    obtain ⟨m, hm⟩ := iha before (w ++ rest)
    obtain ⟨b, hb⟩ := ihb m rest
    rw [List.append_assoc]
    exact ⟨b, List.mem_flatMap.mpr ⟨_, hm, hb⟩⟩
  | left _ ih =>
    obtain ⟨b, hb⟩ := ih before rest
    exact ⟨b, List.mem_append_left _ hb⟩
  | right _ ih =>
    obtain ⟨b, hb⟩ := ih before rest
    exact ⟨b, List.mem_append_right _ hb⟩

theorem Covers.not_mem {w : List Char} (h : Covers p w) (hp : p.avoids c = true) : c ∉ w := by
  induction h with
  | empty => simp
  | char hd =>
    rintro hmem
    cases List.mem_singleton.mp hmem
    simp [avoids, hd] at hp
  | run hw =>
    intro hmem
    simp [avoids, hw c hmem] at hp
  | seq _ _ iha ihb =>
    obtain ⟨ha, hb⟩ := Bool.and_eq_true_iff.mp hp
    simp [iha ha, ihb hb]
  | left _ ih => exact ih (Bool.and_eq_true_iff.mp hp).1
  | right _ ih => exact ih (Bool.and_eq_true_iff.mp hp).2

theorem rests_isEmpty_iff (h : p.avoids c = true) (before : Option Char) (cs : List Char) :
    (p.rests ⟨before, cs⟩).isEmpty = false ↔ ∃ w, Covers p w ∧ w <+: cs := by
  rw [List.isEmpty_eq_false_iff_exists_mem]
  constructor
  · rintro ⟨s, hs⟩
    obtain ⟨w, hw, hcs⟩ := exists_covers h hs
    exact ⟨w, hw, s.after, hcs.symm⟩
  · rintro ⟨w, hw, rest, rfl⟩
    obtain ⟨b, hb⟩ := hw.exists_mem_rests before rest
    exact ⟨_, hb⟩

/-- The pattern is found where one of its words stands in the text. -/
theorem foundIn_iff (h : p.avoids c = true) (text : String) :
    p.foundIn text = true ↔ ∃ w, Covers p w ∧ w <:+: text.toList := by
  have hfrom : ∀ (cs : List Char) (before : Option Char),
      p.foundFrom before cs = true ↔ ∃ w, Covers p w ∧ w <:+: cs := by
    intro cs
    induction cs with
    | nil =>
      intro before
      rw [foundFrom, Bool.not_eq_true', rests_isEmpty_iff h]
      simp only [List.prefix_nil, List.infix_nil]
    | cons d cs ih =>
      intro before
      rw [foundFrom, Bool.or_eq_true, Bool.not_eq_true', rests_isEmpty_iff h, ih, ← exists_or]
      simp only [List.infix_cons_iff, and_or_left]
  exact hfrom text.toList none

end Pattern

/-! ## Joined texts -/

theorem append_eq_ofList {s t : String} {a b : List Char} (hs : s = String.ofList a) (ht : t = String.ofList b) :
    s ++ t = String.ofList (a ++ b) := by
  rw [hs, ht, String.ofList_append]

theorem infix_append_sep {sep : Char} {w a b : List Char} (hw : sep ∉ w) :
    w <:+: a ++ sep :: b ↔ w <:+: a ∨ w <:+: b := by
  constructor
  · rintro ⟨u, t, h⟩
    -- The separator is behind the word or in front of it.
    rcases List.append_eq_append_iff.mp h with ⟨d, rfl, -⟩ | ⟨d, hleft, hright⟩
    · exact .inl ⟨u, d, rfl⟩
    · cases d with
      | nil => exact .inl ⟨u, [], by simpa using hleft⟩
      | cons e d =>
        obtain ⟨rfl, rfl⟩ := List.cons.inj hright
        rcases List.append_eq_append_iff.mp hleft with ⟨d', -, rfl⟩ | ⟨d', -, hword⟩
        · exact absurd (by simp) hw
        · cases d' with
          | nil =>
            rw [List.nil_append] at hword
            exact absurd (by simp [← hword]) hw
          | cons e' d' =>
            obtain ⟨-, rfl⟩ := List.cons.inj hword
            exact .inr ⟨d', t, rfl⟩
  · rintro (h | h)
    · exact List.infix_append_of_infix_left h
    · exact List.infix_append_of_infix_right (List.infix_cons h)

/-- A word without the separator stands in joined texts only where it stands in one of them. -/
theorem infix_intercalate {sep : Char} {w : List Char} (hw : sep ∉ w) {parts : List (List Char)}
    (hparts : parts ≠ []) : w <:+: [sep].intercalate parts ↔ ∃ part ∈ parts, w <:+: part := by
  induction parts with
  | nil => exact absurd rfl hparts
  | cons a parts ih =>
    cases parts with
    | nil => simp
    | cons b parts =>
      rw [List.intercalate_cons_cons, List.append_assoc, List.singleton_append, infix_append_sep hw,
        ih (List.cons_ne_nil _ _)]
      simp

/-- In texts joined by a character that the pattern avoids, the pattern is found if it is found in one. -/
theorem Pattern.foundIn_intercalate {p : Pattern} {sep : Char} (h : p.avoids sep = true) {parts : List String}
    (hparts : parts ≠ []) :
    p.foundIn (String.intercalate (String.singleton sep) parts) = true ↔ ∃ s ∈ parts, p.foundIn s = true := by
  simp only [foundIn_iff h, String.toList_intercalate, String.toList_singleton]
  constructor
  · rintro ⟨w, hw, hin⟩
    obtain ⟨part, hpart, hin⟩ := (infix_intercalate (hw.not_mem h) (by simpa using hparts)).mp hin
    obtain ⟨s, hs, rfl⟩ := List.mem_map.mp hpart
    exact ⟨s, hs, w, hw, hin⟩
  · rintro ⟨s, hs, w, hw, hin⟩
    refine ⟨w, hw, (infix_intercalate (hw.not_mem h) (by simpa using hparts)).mpr ?_⟩
    exact ⟨s.toList, List.mem_map_of_mem hs, hin⟩

/-! ## Names -/

section Names

variable {isPart : Char → Bool}

theorem namesFrom_of_ne_nil {current : List Char} (h : current ≠ []) (cs : List Char) :
    namesFrom isPart current cs =
      String.ofList (current ++ cs.takeWhile isPart) :: namesFrom isPart [] (cs.dropWhile isPart) := by
  induction cs generalizing current with
  | nil => simp [namesFrom, h]
  | cons c cs ih =>
    by_cases hc : isPart c = true
    · have hne : current ++ [c] ≠ [] := by simp
      simp [namesFrom, h, hc, ih hne]
    · simp [namesFrom, h, hc]

/-- The names in a text, one by one. -/
theorem namesFrom_cons (c : Char) (cs : List Char) :
    namesFrom isPart [] (c :: cs) =
      if isNameStart c then
        String.ofList (c :: cs.takeWhile isPart) :: namesFrom isPart [] (cs.dropWhile isPart)
      else namesFrom isPart [] cs := by
  by_cases hc : isNameStart c = true
  · simp [namesFrom, hc, namesFrom_of_ne_nil]
  · simp [namesFrom, hc]

theorem namesFrom_append_sep {sep : Char} (hpart : isPart sep = false) (hstart : isNameStart sep = false)
    (current a b : List Char) :
    namesFrom isPart current (a ++ sep :: b) = namesFrom isPart current a ++ namesFrom isPart [] b := by
  induction a generalizing current with
  | nil =>
    by_cases h : current = []
    · simp [namesFrom, h, hstart]
    · simp [namesFrom, h, hpart, hstart]
  | cons c a ih =>
    simp only [List.cons_append, namesFrom, ih]
    split
    · rfl
    · split
      · rfl
      · rfl

/-- No name reaches over a separator that is no part of names. -/
theorem names_intercalate {sep : Char} (hpart : isPart sep = false) (hstart : isNameStart sep = false)
    (parts : List String) :
    names isPart (String.intercalate (String.singleton sep) parts) = parts.flatMap (names isPart) := by
  have hlist : ∀ parts : List (List Char), namesFrom isPart [] ([sep].intercalate parts) =
      parts.flatMap (namesFrom isPart []) := by
    intro parts
    induction parts with
    | nil => rfl
    | cons a parts ih =>
      cases parts with
      | nil => simp
      | cons b parts =>
        rw [List.intercalate_cons_cons, List.append_assoc, List.singleton_append,
          namesFrom_append_sep hpart hstart, ih]
        rfl
  rw [names, String.toList_intercalate, String.toList_singleton, hlist, List.flatMap_map]
  rfl

/-- No name that was begun in the text goes on up to its end. -/
def Settled (isPart : Char → Bool) (before : List Char) : Prop :=
  ∀ run, run <:+ before → (∀ d ∈ run, isPart d = true) → ∀ d ∈ run, isNameStart d = false

/-- `w` is a name between `before` and `after`: it begins as a name does and goes on with name characters, as
far as it can, and no name that was begun earlier goes on up to it. -/
structure IsNameAt (isPart : Char → Bool) (before w after : List Char) : Prop where
  name : ∃ c cs, w = c :: cs ∧ isNameStart c = true ∧ ∀ d ∈ cs, isPart d = true
  maximal : ∀ d ∈ after.head?, isPart d = false
  leftmost : Settled isPart before

theorem Settled.nil : Settled isPart [] := by
  intro run hrun _ d hd
  rw [List.suffix_nil.mp hrun] at hd
  cases hd

theorem Settled.of_suffix {before before' : List Char} (h : Settled isPart before) (hs : before' <:+ before) :
    Settled isPart before' :=
  fun run hrun => h run (hrun.trans hs)

theorem Settled.concat {before : List Char} {c : Char} (h : Settled isPart before ∨ isPart c = false)
    (hc : isNameStart c = false) : Settled isPart (before ++ [c]) := by
  intro run hrun hall d hd
  rcases List.suffix_concat_iff.mp hrun with rfl | ⟨run, rfl, hsuffix⟩
  · cases hd
  · rcases List.mem_append.mp hd with hd | hd
    · rcases h with h | h
      · exact h run hsuffix (fun e he => hall e (List.mem_append_left _ he)) d hd
      · exact absurd (hall c (by simp)) (by simp [h])
    · rw [List.mem_singleton.mp hd]
      exact hc

/-- A name of a text stands somewhere in it. -/
theorem exists_isNameAt (hpart : ∀ c, isNameStart c = true → isPart c = true) {before cs : List Char} {s : String}
    (hbefore : Settled isPart before ∨ ∀ d ∈ cs.head?, isPart d = false) (hs : s ∈ namesFrom isPart [] cs) :
    ∃ a b, before ++ cs = a ++ s.toList ++ b ∧ IsNameAt isPart a s.toList b := by
  induction h : cs.length using Nat.strongRecOn generalizing before cs with
  | _ n ih =>
    cases cs with
    | nil => simp [namesFrom] at hs
    | cons c cs =>
      rw [namesFrom_cons] at hs
      split at hs
      · rename_i hc
        have hsettled : Settled isPart before :=
          hbefore.resolve_right fun hhead => by simp [hpart c hc] at hhead
        have hrest : ∀ d ∈ (cs.dropWhile isPart).head?, isPart d = false := fun d hd => by
          simpa [Option.mem_def.mp hd] using List.head?_dropWhile_not isPart cs
        rcases List.mem_cons.mp hs with rfl | hs
        · refine ⟨before, cs.dropWhile isPart, by simp, ⟨⟨c, cs.takeWhile isPart, by simp, hc, ?_⟩, hrest, hsettled⟩⟩
          exact List.all_eq_true.mp List.all_takeWhile
        · have hlength : (cs.dropWhile isPart).length < n := by
            have := (List.dropWhile_suffix isPart (l := cs)).length_le
            rw [List.length_cons] at h
            omega
          obtain ⟨a, b, hab, hname⟩ : ∃ a b, before ++ c :: cs.takeWhile isPart ++ cs.dropWhile isPart =
              a ++ s.toList ++ b ∧ IsNameAt isPart a s.toList b := ih _ hlength (.inr hrest) hs rfl
          exact ⟨a, b, by simpa using hab, hname⟩
      · rename_i hc
        have hlength : cs.length < n := by
          rw [List.length_cons] at h
          omega
        have hsettled : Settled isPart (before ++ [c]) :=
          .concat (hbefore.imp_right fun hhead => hhead c rfl) (by simpa using hc)
        obtain ⟨a, b, hab, hname⟩ := ih _ hlength (.inl hsettled) hs rfl
        exact ⟨a, b, by simpa using hab, hname⟩

/-- What stands as a name in a text is one of its names. -/
theorem IsNameAt.mem_namesFrom (hpart : ∀ c, isNameStart c = true → isPart c = true) {before w after : List Char}
    (h : IsNameAt isPart before w after) :
    String.ofList w ∈ namesFrom isPart [] (before ++ w ++ after) := by
  induction hn : before.length using Nat.strongRecOn generalizing before with
  | _ n ih =>
    cases before with
    | nil =>
      obtain ⟨c, cs, rfl, hc, hcs⟩ := h.name
      have hstop : after.takeWhile isPart = [] := by
        cases after with
        | nil => rfl
        | cons d after => simp [h.maximal d rfl]
      simp [namesFrom_cons, hc, List.takeWhile_append_of_pos hcs, hstop]
    | cons c before =>
      have hlength : (before.dropWhile isPart).length ≤ before.length :=
        (List.dropWhile_suffix isPart).length_le
      rw [List.length_cons] at hn
      simp only [List.cons_append, namesFrom_cons]
      split
      · -- The name that `c` begins ends inside `before`.
        rename_i hc
        have hne : before.dropWhile isPart ≠ [] := by
          intro hnil
          have hall : ∀ d ∈ before, isPart d = true := by
            have := List.takeWhile_append_dropWhile (p := isPart) (l := before)
            rw [hnil, List.append_nil] at this
            rw [← this]
            exact List.all_eq_true.mp List.all_takeWhile
          have := h.leftmost (c :: before) (List.suffix_refl _)
            (List.forall_mem_cons.mpr ⟨hpart c hc, hall⟩) c List.mem_cons_self
          rw [hc] at this
          cases this
        have hdrop : (before ++ w ++ after).dropWhile isPart = before.dropWhile isPart ++ w ++ after := by
          rw [List.append_assoc, List.dropWhile_append, if_neg (by simpa using hne), List.append_assoc]
        rw [hdrop]
        refine List.mem_cons_of_mem _ (ih _ (by omega) ⟨h.name, h.maximal, h.leftmost.of_suffix ?_⟩ rfl)
        exact (List.dropWhile_suffix isPart).trans (List.suffix_cons c before)
      · exact ih _ (by omega) ⟨h.name, h.maximal, h.leftmost.of_suffix (List.suffix_cons c before)⟩ rfl

/-- The names in a text are the longest words of name characters that were not begun before. -/
theorem mem_names_iff (hpart : ∀ c, isNameStart c = true → isPart c = true) {text name : String} :
    name ∈ names isPart text ↔
      ∃ before after, text.toList = before ++ name.toList ++ after ∧ IsNameAt isPart before name.toList after := by
  constructor
  · intro h
    exact exists_isNameAt hpart (.inl .nil) h
  · rintro ⟨before, after, htext, hname⟩
    rw [names, htext, ← String.ofList_toList (s := name)]
    simpa using hname.mem_namesFrom hpart

end Names

end ContractAudit.Text
