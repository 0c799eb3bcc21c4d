import ContractAudit.Audit

/-!
# Bytes that identify a batch

A unit is written as its name, its path and its text, with a zero byte behind the first two and a one byte behind the
text. Nothing is escaped and no length is given. A byte below 128 stands in the bytes of a text only for the character
of that number, so a name or a path without that character ends at the first zero byte, and a text at the first one
byte. A zero byte in a text and a one byte in a name do no harm: which mark is looked for depends on the field. So
every batch is told by its bytes, and so is every beginning of it.
-/

namespace ContractAudit

namespace Text

/-! ## Bytes of texts -/

theorem byteArray_toList_loop (bytes : ByteArray) (i : Nat) (taken : List UInt8) :
    ByteArray.toList.loop bytes i taken = taken.reverse ++ bytes.data.toList.drop i := by
  fun_induction ByteArray.toList.loop bytes i taken with
  | case1 i taken h ih =>
    have hi : i < bytes.data.toList.length := by simpa using h
    have hget : bytes.get! i = bytes.data.toList[i] := by
      simp only [ByteArray.get!]
      exact getElem!_pos bytes.data i (by simpa using h)
    rw [ih, List.drop_eq_getElem_cons hi, hget]
    simp
  | case2 i taken h =>
    rw [List.drop_eq_nil_of_le (by simpa using h), List.append_nil]

theorem byteArray_toList (bytes : ByteArray) : bytes.toList = bytes.data.toList := byteArray_toList_loop bytes 0 []

theorem toList_toUTF8 (s : String) : s.toUTF8.toList = s.toList.flatMap String.utf8EncodeChar := by
  rw [byteArray_toList, String.toUTF8_eq_toByteArray, ← String.utf8Encode_toList, List.utf8Encode,
    List.toList_data_toByteArray]

theorem toUTF8_inj {s s' : String} (h : s.toUTF8.toList = s'.toUTF8.toList) : s = s' := by
  rw [byteArray_toList, byteArray_toList, Array.toList_inj] at h
  exact String.toByteArray_inj.mp (ByteArray.ext h)

/-- A byte below 128 is all of its character: of a character that takes more bytes each is 128 or above. -/
theorem toNat_of_mem_utf8EncodeChar {c : Char} {b : UInt8} (h : b ∈ String.utf8EncodeChar c) (hb : b.toNat < 128) :
    c.toNat = b.toNat := by
  -- First bytes and further ones have 128 or more added, and stay below 256.
  have hlead {n lead : Nat} (hl : 128 ≤ lead) (hn : n + lead < 256) : ¬ (UInt8.ofNat (n + lead)).toNat < 128 := by
    rw [UInt8.toNat_ofNat', Nat.mod_eq_of_lt hn]
    omega
  unfold String.utf8EncodeChar at h
  simp only at h
  split at h
  · rw [List.mem_singleton.mp h, UInt8.toNat_ofNat', Nat.mod_eq_of_lt (by omega)]
    rfl
  · refine absurd hb ?_
    split at h
    · simp only [List.mem_cons, List.not_mem_nil, or_false] at h
      rcases h with rfl | rfl <;> exact hlead (by omega) (by omega)
    · split at h
      · simp only [List.mem_cons, List.not_mem_nil, or_false] at h
        rcases h with rfl | rfl | rfl <;> exact hlead (by omega) (by omega)
      · simp only [List.mem_cons, List.not_mem_nil, or_false] at h
        rcases h with rfl | rfl | rfl | rfl <;> exact hlead (by omega) (by omega)

/-- A character below 128 that a text does not have is not in the bytes of the text. -/
theorem notMem_toUTF8 {c : Char} {b : UInt8} (hc : c.toNat = b.toNat) (hb : b.toNat < 128) {s : String}
    (h : c ∉ s.toList) : b ∉ s.toUTF8.toList := by
  rw [toList_toUTF8]
  intro hmem
  obtain ⟨c', hc', hbyte⟩ := List.mem_flatMap.mp hmem
  have hsame : c' = c := Char.toNat_inj.mp ((toNat_of_mem_utf8EncodeChar hbyte hb).trans hc.symm)
  exact h (hsame ▸ hc')

/-- A mark that is in neither of two runs ends both. -/
theorem append_mark_inj {mark : UInt8} {a b rest rest' : List UInt8} (ha : mark ∉ a) (hb : mark ∉ b)
    (h : a ++ mark :: rest = b ++ mark :: rest') : a = b ∧ rest = rest' := by
  rcases List.append_eq_append_iff.mp h with ⟨mid, rfl, hmid⟩ | ⟨mid, rfl, hmid⟩
  · cases mid with
    | nil =>
      cases hmid
      exact ⟨(List.append_nil a).symm, rfl⟩
    | cons x mid =>
      cases hmid
      exact absurd (List.mem_append_right a List.mem_cons_self) hb
  · cases mid with
    | nil =>
      cases hmid
      exact ⟨List.append_nil b, rfl⟩
    | cons x mid =>
      cases hmid
      exact absurd (List.mem_append_right b List.mem_cons_self) ha

end Text

namespace SourceUnit

/-! ## Units and batches -/

/-- No field has the character whose byte ends it. -/
structure IsFramed (u : SourceUnit) : Prop where
  name : '\x00' ∉ u.name.toList
  path : '\x00' ∉ u.path.toList
  text : '\x01' ∉ u.text.toList

instance (u : SourceUnit) : Decidable u.IsFramed :=
  decidable_of_iff ('\x00' ∉ u.name.toList ∧ '\x00' ∉ u.path.toList ∧ '\x01' ∉ u.text.toList)
    ⟨fun h => ⟨h.1, h.2.1, h.2.2⟩, fun h => ⟨h.name, h.path, h.text⟩⟩

variable {u u' : SourceUnit} {units units' : List SourceUnit} {rest : List UInt8}

theorem idBytes_cons (u : SourceUnit) (units : List SourceUnit) :
    idBytes (u :: units) =
      u.name.toUTF8.toList ++ 0 :: (u.path.toUTF8.toList ++ 0 :: (u.text.toUTF8.toList ++ 1 :: idBytes units)) := by
  simp [idBytes]

theorem idBytes_cons_ne_nil (u : SourceUnit) (units : List SourceUnit) : idBytes (u :: units) ≠ [] := by
  simp [idBytes_cons]

/-- The bytes of a unit tell the unit and where they end. -/
theorem idBytes_cons_inj (hu : u.IsFramed) (hu' : u'.IsFramed)
    (h : idBytes (u :: units) ++ rest = idBytes (u' :: units')) : u = u' ∧ idBytes units ++ rest = idBytes units' := by
  have hzero {s : String} (hs : '\x00' ∉ s.toList) : (0 : UInt8) ∉ s.toUTF8.toList :=
    Text.notMem_toUTF8 rfl (by decide) hs
  have hone {s : String} (hs : '\x01' ∉ s.toList) : (1 : UInt8) ∉ s.toUTF8.toList :=
    Text.notMem_toUTF8 rfl (by decide) hs
  simp only [idBytes_cons, List.append_assoc, List.cons_append] at h
  obtain ⟨hname, hpathOn⟩ := Text.append_mark_inj (hzero hu.name) (hzero hu'.name) h
  obtain ⟨hpath, htextOn⟩ := Text.append_mark_inj (hzero hu.path) (hzero hu'.path) hpathOn
  obtain ⟨htext, hrest⟩ := Text.append_mark_inj (hone hu.text) (hone hu'.text) htextOn
  refine ⟨?_, hrest⟩
  cases u
  cases u'
  rw [mk.injEq]
  exact ⟨Text.toUTF8_inj hname, Text.toUTF8_inj hpath, Text.toUTF8_inj htext⟩

/-- A batch whose bytes begin with those of another begins with the other. -/
theorem exists_of_idBytes_append (h : ∀ u ∈ units, u.IsFramed) (h' : ∀ u ∈ units', u.IsFramed)
    (hrun : idBytes units ++ rest = idBytes units') : ∃ more, units' = units ++ more ∧ rest = idBytes more := by
  induction units generalizing units' with
  | nil => exact ⟨units', rfl, hrun⟩
  | cons u units ih =>
    cases units' with
    | nil => exact absurd (List.append_eq_nil_iff.mp hrun).1 (idBytes_cons_ne_nil u units)
    | cons u' units' =>
      obtain ⟨hu, hunits⟩ := List.forall_mem_cons.mp h
      obtain ⟨hu', hunits'⟩ := List.forall_mem_cons.mp h'
      obtain ⟨rfl, hrest⟩ := idBytes_cons_inj hu hu' hrun
      obtain ⟨more, rfl, hmore⟩ := ih hunits hunits' hrest
      exact ⟨more, rfl, hmore⟩

/-- Different batches have different bytes, and the bytes of one begin with those of the other exactly if the batch
begins with the other. -/
theorem idBytes_distinguish (h : ∀ u ∈ units, u.IsFramed) (h' : ∀ u ∈ units', u.IsFramed) :
    (units ≠ units' → idBytes units ≠ idBytes units') ∧ (idBytes units <+: idBytes units' ↔ units <+: units') := by
  constructor
  · intro hne heq
    obtain ⟨more, rfl, hmore⟩ := exists_of_idBytes_append h h' ((List.append_nil _).trans heq)
    cases more with
    | nil => exact hne (List.append_nil units).symm
    | cons u more => exact absurd hmore.symm (idBytes_cons_ne_nil u more)
  · constructor
    · rintro ⟨rest, hrun⟩
      obtain ⟨more, rfl, -⟩ := exists_of_idBytes_append h h' hrun
      exact List.prefix_append units more
    · rintro ⟨more, rfl⟩
      rw [idBytes, idBytes, List.flatMap_append]
      exact List.prefix_append _ _

/-- The mark of the other kind stands inside a text and inside a name. -/
theorem idBytes_distinguish_marks :
    let whole : List SourceUnit := [⟨"Bank.sol", "src", "a\x00b"⟩, ⟨"Coin\x01", "", "\x00"⟩]
    let cut : List SourceUnit := [⟨"Bank.sol", "src", "a"⟩, ⟨"b", "Coin\x01", "\x00"⟩]
    (∀ u ∈ whole, u.IsFramed) ∧ (∀ u ∈ cut, u.IsFramed) ∧ whole ≠ cut ∧ idBytes whole ≠ idBytes cut ∧
      ¬ idBytes whole <+: idBytes cut := by
  intro whole cut
  have hwhole : ∀ u ∈ whole, u.IsFramed := by decide
  have hcut : ∀ u ∈ cut, u.IsFramed := by decide
  have hne : whole ≠ cut := by decide
  obtain ⟨hdistinct, hbegins⟩ := idBytes_distinguish hwhole hcut
  exact ⟨hwhole, hcut, hne, hdistinct hne, fun h => absurd (hbegins.mp h) (by decide)⟩

/-- A text with the character of its mark is taken for the end of a unit and the start of another. -/
example : idBytes [⟨"A", "", "x\x01B\x00\x00y"⟩] = idBytes [⟨"A", "", "x"⟩, ⟨"B", "", "y"⟩] := by decide +kernel

end SourceUnit

end ContractAudit
