import Mutability.Json.Printer
import Mutability.Json.Reader

/-!
# What is printed is read back

A value without numbers that is not nested too deeply is read back from the lines it is printed on
(`parse?_pretty`). The text of a value starts with a character that tells its form, and ends where
the value ends, so whatever follows is left to the reader (`readValue_pretty`). The reader takes at
most two steps for each character of the text, so it never runs out of fuel.
-/

namespace Mutability.Json

/-! ## Strings -/

theorem hexValue?_hexDigit : ∀ n < 16, hexValue? (hexDigit n) = some n := by
  decide

/-- A character is printed as an escape of one letter, as an escape of its number, or as itself. -/
theorem escapeChar_cases (c : Char) :
    (∃ e, escapeChar c = ['\\', e] ∧ e ≠ 'u' ∧ escaped? e = some c) ∨
    (escapeChar c = ['\\', 'u', '0', '0', hexDigit (c.toNat / 16), hexDigit (c.toNat % 16)] ∧
      c.toNat < 0x20) ∨
    (escapeChar c = [c] ∧ c ≠ '"' ∧ c ≠ '\\' ∧ ¬ c.toNat < 0x20) := by
  have hof : ∀ n, c.toNat = n → c = Char.ofNat n := by
    intro n h
    rw [← h, Char.ofNat_toNat]
  unfold escapeChar
  by_cases h1 : c = '"'
  · subst h1; exact Or.inl ⟨'"', rfl, by decide, rfl⟩
  by_cases h2 : c = '\\'
  · subst h2; exact Or.inl ⟨'\\', rfl, by decide, rfl⟩
  by_cases h3 : c.toNat = 0x08
  · rw [hof _ h3]; exact Or.inl ⟨'b', rfl, by decide, rfl⟩
  by_cases h4 : c.toNat = 0x0C
  · rw [hof _ h4]; exact Or.inl ⟨'f', rfl, by decide, rfl⟩
  by_cases h5 : c = '\n'
  · subst h5; exact Or.inl ⟨'n', rfl, by decide, rfl⟩
  by_cases h6 : c = '\r'
  · subst h6; exact Or.inl ⟨'r', rfl, by decide, rfl⟩
  by_cases h7 : c = '\t'
  · subst h7; exact Or.inl ⟨'t', rfl, by decide, rfl⟩
  by_cases h8 : c.toNat < 0x20
  · simp [h1, h2, h3, h4, h5, h6, h7, h8]
  · simp [h1, h2, h3, h4, h5, h6, h7, h8]

theorem readString_escapeChar (chars : List Char) (c : Char) (rest : List Char) :
    readString ⟨chars, none, false⟩ (escapeChar c ++ rest) =
      readString ⟨c :: chars, none, false⟩ rest := by
  rcases escapeChar_cases c with ⟨e, h, hu, he⟩ | ⟨h, hlow⟩ | ⟨h, hquote, hslash, hlow⟩
  · rw [h]
    show readString _ ('\\' :: e :: rest) = _
    rw [readString, he]
    · rfl
    · intro _ _ _ _ _ heq _
      exact hu heq
  · have hhigh := hexValue?_hexDigit (c.toNat / 16) (by omega)
    have hdigit := hexValue?_hexDigit (c.toNat % 16) (by omega)
    have hzero : hexValue? '0' = some 0 := rfl
    have hunit : StringState.pushUnit ⟨chars, none, false⟩
        (0 * 4096 + 0 * 256 + c.toNat / 16 * 16 + c.toNat % 16) = ⟨c :: chars, none, false⟩ := by
      have hsum : 0 * 4096 + 0 * 256 + c.toNat / 16 * 16 + c.toNat % 16 = c.toNat := by omega
      have hnotHigh : ¬ (55296 ≤ c.toNat ∧ c.toNat ≤ 56319) := by omega
      have hnotLow : ¬ (56320 ≤ c.toNat ∧ c.toNat ≤ 57343) := by omega
      rw [hsum]
      simp [StringState.pushUnit, hnotHigh, hnotLow]
    rw [h]
    show readString _ ('\\' :: 'u' :: '0' :: '0' :: _ :: _ :: rest) = _
    rw [readString]
    simp only [hzero, hhigh, hdigit, hunit]
  · rw [h]
    show readString _ (c :: rest) = _
    rw [readString, if_neg (not_or.2 ⟨hlow, hslash⟩)]
    · rfl
    · exact hquote
    · intro _ _ _ _ _ heq _
      exact hslash heq
    · intro _ _ heq _
      exact hslash heq

theorem readString_flatMap (chars cs rest : List Char) :
    readString ⟨chars, none, false⟩ (cs.flatMap escapeChar ++ '"' :: rest) =
      some (some (String.ofList (chars.reverse ++ cs)), rest) := by
  induction cs generalizing chars with
  | nil =>
    rw [List.flatMap_nil, List.nil_append, readString, List.append_nil]
    rfl
  | cons c cs ih =>
    rw [List.flatMap_cons, List.append_assoc, readString_escapeChar, ih]
    simp

theorem toList_quote (s : String) :
    (quote s).toList = '"' :: (s.toList.flatMap escapeChar ++ ['"']) := by
  simp [quote, String.toList_append]

/-- A string is read back after its opening mark. -/
theorem readString_quoted (s : String) (rest : List Char) :
    readString .start (s.toList.flatMap escapeChar ++ '"' :: rest) = some (some s, rest) := by
  rw [StringState.start, readString_flatMap]
  simp

/-! ## Blanks -/

theorem skipSpace_cons {c : Char} (h : isSpace c = false) (cs : List Char) :
    skipSpace (c :: cs) = c :: cs := by
  simp [skipSpace, h]

theorem skipSpace_idem (cs : List Char) : skipSpace (skipSpace cs) = skipSpace cs := by
  induction cs with
  | nil => rfl
  | cons c cs ih =>
    cases h : isSpace c with
    | true => simpa [skipSpace, h] using ih
    | false => rw [skipSpace_cons h, skipSpace_cons h]

theorem skipSpace_lineBreak (level : Nat) (cs : List Char) :
    skipSpace ((lineBreak level).toList ++ cs) = skipSpace cs := by
  have hblanks : ∀ n, skipSpace (List.replicate n ' ' ++ cs) = skipSpace cs := by
    intro n
    induction n with
    | zero => rfl
    | succ n ih => simpa [skipSpace, List.replicate_succ, isSpace] using ih
  simpa [lineBreak, String.toList_append, skipSpace, isSpace] using hblanks (2 * level)

theorem readValue_skipSpace (fuel room : Nat) (cs : List Char) :
    readValue fuel room (skipSpace cs) = readValue fuel room cs := by
  cases fuel with
  | zero => rfl
  | succ fuel => rw [readValue, readValue, skipSpace_idem]

theorem readValue_blank {fuel room : Nat} {cs : List Char} {r : Json × List Char}
    (h : readValue fuel room cs = some r) : readValue fuel room (' ' :: cs) = some r := by
  rw [← h, ← readValue_skipSpace, ← readValue_skipSpace fuel room cs]
  rfl

theorem readItems_skipSpace (fuel room : Nat) (cs : List Char) :
    readItems fuel room (skipSpace cs) = readItems fuel room cs := by
  cases fuel with
  | zero => rfl
  | succ fuel => rw [readItems, readItems, readValue_skipSpace]

theorem readMembers_skipSpace (fuel room : Nat) (cs : List Char) :
    readMembers fuel room (skipSpace cs) = readMembers fuel room cs := by
  cases fuel with
  | zero => rfl
  | succ fuel => rw [readMembers, readMembers, skipSpace_idem]

/-! ## Values -/

mutual

/-- Whether the value has no number in it and nothing that was skipped. -/
def isPlain : Json → Bool
  | num _ | skipped => false
  | arr items => isPlainItems items
  | obj members => isPlainMembers members
  | _ => true

/-- Whether the items have no number in them. -/
def isPlainItems : List Json → Bool
  | [] => true
  | j :: rest => isPlain j && isPlainItems rest

/-- Whether the members have no number in them. -/
def isPlainMembers : List (String × Json) → Bool
  | [] => true
  | (_, j) :: rest => isPlain j && isPlainMembers rest

end

theorem isPlainItems_iff {items : List Json} :
    isPlainItems items = true ↔ ∀ j ∈ items, j.isPlain = true := by
  induction items with
  | nil => simp [isPlainItems]
  | cons j items ih => simp [isPlainItems, ih]

theorem isPlainMembers_iff {ms : List (String × Json)} :
    isPlainMembers ms = true ↔ ∀ m ∈ ms, m.2.isPlain = true := by
  induction ms with
  | nil => simp [isPlainMembers]
  | cons m ms ih => simp [isPlainMembers, ih]

theorem isPlain_of_items {j : Json} {items : List Json} (h : isPlainItems (j :: items) = true) :
    j.isPlain = true ∧ isPlainItems items = true := by
  simpa [isPlainItems] using h

theorem isPlain_of_members {m : String × Json} {members : List (String × Json)}
    (h : isPlainMembers (m :: members) = true) :
    m.2.isPlain = true ∧ isPlainMembers members = true := by
  simpa [isPlainMembers] using h

theorem toList_prettyAt_arr (level : Nat) (j : Json) (items : List Json) :
    (prettyAt level (arr (j :: items))).toList =
      '[' :: ((block level (prettyItems (level + 1) (j :: items))).toList ++ [']']) := by
  simp [prettyAt, String.toList_append]

theorem toList_prettyAt_obj (level : Nat) (m : String × Json) (members : List (String × Json)) :
    (prettyAt level (obj (m :: members))).toList =
      '\x7b' :: ((block level (prettyMembers (level + 1) (m :: members))).toList ++ ['\x7d']) := by
  simp [prettyAt, String.toList_append]

/-- The first character of a value is no blank and closes nothing. -/
theorem exists_head_pretty (level : Nat) {j : Json} (h : j.isPlain = true) :
    ∃ c cs, (prettyAt level j).toList = c :: cs ∧ isSpace c = false ∧ c ≠ ']' := by
  cases j with
  | null => exact ⟨'n', ['u', 'l', 'l'], by simp [prettyAt], rfl, by decide⟩
  | bool b =>
    cases b with
    | false => exact ⟨'f', ['a', 'l', 's', 'e'], by simp [prettyAt], rfl, by decide⟩
    | true => exact ⟨'t', ['r', 'u', 'e'], by simp [prettyAt], rfl, by decide⟩
  | num n => cases h
  | str s => exact ⟨'"', _, toList_quote s, rfl, by decide⟩
  | arr items =>
    cases items with
    | nil => exact ⟨'[', [']'], by simp [prettyAt], rfl, by decide⟩
    | cons j items => exact ⟨'[', _, toList_prettyAt_arr level j items, rfl, by decide⟩
  | obj members =>
    cases members with
    | nil => exact ⟨'\x7b', ['\x7d'], by simp [prettyAt], rfl, by decide⟩
    | cons m members => exact ⟨'\x7b', _, toList_prettyAt_obj level m members, rfl, by decide⟩
  | skipped => cases h

theorem exists_fuel {level fuel : Nat} {j : Json} (h : j.isPlain = true)
    (hfuel : 2 * (prettyAt level j).toList.length ≤ fuel) : ∃ n, fuel = n + 1 := by
  obtain ⟨c, cs, htext, -⟩ := exists_head_pretty level h
  rw [htext, List.length_cons] at hfuel
  exact ⟨fuel - 1, by omega⟩

/-- The items or members of a value as they are printed at a level, up to the last of them. -/
def joined (level : Nat) (lines : List String) : List Char :=
  (("," ++ lineBreak level).intercalate lines).toList

theorem joined_singleton (level : Nat) (line : String) : joined level [line] = line.toList := by
  rw [joined, String.intercalate_singleton]

theorem joined_cons_cons (level : Nat) (line line' : String) (lines : List String) :
    joined level (line :: line' :: lines) =
      line.toList ++ ',' :: ((lineBreak level).toList ++ joined level (line' :: lines)) := by
  simp [joined, String.intercalate_cons_cons, String.toList_append]

theorem exists_joined_cons (level : Nat) (line : String) (lines : List String) :
    ∃ cs, joined level (line :: lines) = line.toList ++ cs := by
  cases lines with
  | nil => exact ⟨[], by rw [joined_singleton, List.append_nil]⟩
  | cons line' lines => exact ⟨_, joined_cons_cons level line line' lines⟩

theorem toList_block (level : Nat) (lines : List String) :
    (block level lines).toList =
      (lineBreak (level + 1)).toList ++ (joined (level + 1) lines ++ (lineBreak level).toList) := by
  rw [block, String.toList_append, String.toList_append, List.append_assoc, joined]

/-- The reader finds the first item of an array behind the blanks. -/
theorem readValue_arr {fuel room level : Nat} {c : Char} {cs : List Char}
    (hspace : isSpace c = false) (hc : c ≠ ']') {items : List Json} {rest : List Char}
    (h : readItems fuel room (c :: cs) = some (items, rest)) :
    readValue (fuel + 1) (room + 1) ('[' :: ((lineBreak level).toList ++ c :: cs)) =
      some (arr items, rest) := by
  rw [readValue, skipSpace_cons rfl]
  simp only [skipSpace_lineBreak, skipSpace_cons hspace]
  split
  · next heq => exact absurd (List.cons.inj heq).1 hc
  · rw [Nat.add_sub_cancel, h]
    simp

theorem readValue_obj {fuel room level : Nat} {cs : List Char} {members : List (String × Json)}
    {rest : List Char} (h : readMembers fuel room ('"' :: cs) = some (some members, rest)) :
    readValue (fuel + 1) (room + 1) ('\x7b' :: ((lineBreak level).toList ++ '"' :: cs)) =
      some (obj members, rest) := by
  have hquote : isSpace '"' = false := rfl
  rw [readValue, skipSpace_cons rfl]
  simp [skipSpace_lineBreak, skipSpace_cons hquote, h]

section Steps

variable {fuel room : Nat} {cs cs' cs'' rest : List Char} {j : Json}

theorem readItems_last (hvalue : readValue fuel room cs = some (j, cs'))
    (hend : skipSpace cs' = ']' :: rest) : readItems (fuel + 1) room cs = some ([j], rest) := by
  simp [readItems, hvalue, hend]

theorem readItems_next (hvalue : readValue fuel room cs = some (j, cs'))
    (hcomma : skipSpace cs' = ',' :: cs'') {items : List Json}
    (hitems : readItems fuel room cs'' = some (items, rest)) :
    readItems (fuel + 1) room cs = some (j :: items, rest) := by
  simp [readItems, hvalue, hcomma, hitems]

/-- The text of a member with `cs` after its colon. -/
def memberStart (name : String) (cs : List Char) : List Char :=
  '"' :: (name.toList.flatMap escapeChar ++ '"' :: ':' :: cs)

theorem readMembers_last {name : String} (hvalue : readValue fuel room cs = some (j, cs'))
    (hend : skipSpace cs' = '\x7d' :: rest) :
    readMembers (fuel + 1) room (memberStart name cs) = some (some [(name, j)], rest) := by
  have hquote : isSpace '"' = false := rfl
  have hcolon : isSpace ':' = false := rfl
  rw [readMembers, memberStart, skipSpace_cons hquote]
  simp [readString_quoted, skipSpace_cons hcolon, hvalue, hend]

theorem readMembers_next {name : String} (hvalue : readValue fuel room cs = some (j, cs'))
    (hcomma : skipSpace cs' = ',' :: cs'') {members : List (String × Json)}
    (hmembers : readMembers fuel room cs'' = some (some members, rest)) :
    readMembers (fuel + 1) room (memberStart name cs) =
      some (some ((name, j) :: members), rest) := by
  have hquote : isSpace '"' = false := rfl
  have hcolon : isSpace ':' = false := rfl
  rw [readMembers, memberStart, skipSpace_cons hquote]
  simp [readString_quoted, skipSpace_cons hcolon, hvalue, hcomma, hmembers]

end Steps

/-- The printed line of a member. -/
theorem toList_member (level : Nat) (name : String) (j : Json) :
    (quote name ++ ": " ++ prettyAt level j).toList =
      memberStart name (' ' :: (prettyAt level j).toList) := by
  simp [memberStart, String.toList_append, toList_quote]

theorem memberStart_append (name : String) (cs cs' : List Char) :
    memberStart name cs ++ cs' = memberStart name (cs ++ cs') := by
  simp [memberStart]

theorem length_memberStart (name : String) (cs : List Char) :
    cs.length + 3 ≤ (memberStart name cs).length := by
  simp only [memberStart, List.length_cons, List.length_append]
  omega

mutual

/-- A printed value is read back. Two steps of fuel for each character are enough, as the reader
takes one for a value and one more for the item or member it is. -/
theorem readValue_pretty : ∀ (j : Json), j.isPlain = true →
    ∀ (level room fuel : Nat) (rest : List Char), j.depth ≤ room →
      2 * (prettyAt level j).toList.length ≤ fuel →
      readValue fuel room ((prettyAt level j).toList ++ rest) = some (j, rest)
  | null, hplain => by
    intro level room fuel rest _ hfuel
    obtain ⟨fuel, rfl⟩ := exists_fuel hplain hfuel
    simp [prettyAt, readValue, skipSpace, isSpace]
  | bool b, hplain => by
    intro level room fuel rest _ hfuel
    obtain ⟨fuel, rfl⟩ := exists_fuel hplain hfuel
    cases b <;> simp [prettyAt, readValue, skipSpace, isSpace]
  | num _, hplain | skipped, hplain => by cases hplain
  | str s, hplain => by
    intro level room fuel rest _ hfuel
    obtain ⟨fuel, rfl⟩ := exists_fuel hplain hfuel
    rw [prettyAt, toList_quote, List.cons_append, List.append_assoc, List.singleton_append,
      readValue, skipSpace_cons rfl]
    simp [readString_quoted]
  | arr items, hplain => by
    intro level room fuel rest hdepth hfuel
    obtain ⟨fuel, rfl⟩ := exists_fuel hplain hfuel
    obtain ⟨room, rfl⟩ : ∃ n, room = n + 1 := ⟨room - 1, by rw [depth] at hdepth; omega⟩
    have hitems := readItems_pretty items
    cases items with
    | nil => simp [prettyAt, readValue, skipSpace, isSpace]
    | cons j items =>
      rw [toList_prettyAt_arr, toList_block] at hfuel ⊢
      simp only [List.length_cons, List.length_append] at hfuel
      specialize hitems (List.cons_ne_nil _ _) hplain (level + 1) level room fuel rest
        (Nat.le_of_succ_le_succ hdepth) (by omega)
      -- the first item starts with a character that the reader does not skip
      obtain ⟨c, cs, htext, hspace, hc⟩ :=
        exists_head_pretty (level + 1) (isPlain_of_items hplain).1
      obtain ⟨tail, hjoined⟩ := exists_joined_cons (level + 1) (prettyAt (level + 1) j)
        (prettyItems (level + 1) items)
      rw [prettyItems, hjoined, htext] at hitems ⊢
      simpa using readValue_arr hspace hc (by simpa using hitems)
  | obj members, hplain => by
    intro level room fuel rest hdepth hfuel
    obtain ⟨fuel, rfl⟩ := exists_fuel hplain hfuel
    obtain ⟨room, rfl⟩ : ∃ n, room = n + 1 := ⟨room - 1, by rw [depth] at hdepth; omega⟩
    have hmembers := readMembers_pretty members
    cases members with
    | nil => simp [prettyAt, readValue, skipSpace, isSpace]
    | cons m members =>
      rw [toList_prettyAt_obj, toList_block] at hfuel ⊢
      simp only [List.length_cons, List.length_append] at hfuel
      specialize hmembers (List.cons_ne_nil _ _) hplain (level + 1) level room fuel rest
        (Nat.le_of_succ_le_succ hdepth) (by omega)
      obtain ⟨tail, hjoined⟩ := exists_joined_cons (level + 1)
        (quote m.1 ++ ": " ++ prettyAt (level + 1) m.2) (prettyMembers (level + 1) members)
      rw [prettyMembers, hjoined, toList_member, memberStart] at hmembers ⊢
      simpa using readValue_obj (by simpa using hmembers)

theorem readItems_pretty : ∀ (items : List Json), items ≠ [] → isPlainItems items = true →
    ∀ (level outer room fuel : Nat) (rest : List Char), depthItems items ≤ room →
      2 * (joined level (prettyItems level items)).length < fuel →
      readItems fuel room (joined level (prettyItems level items) ++
        ((lineBreak outer).toList ++ ']' :: rest)) = some (items, rest)
  | [], hne => absurd rfl hne
  | j :: items, _ => by
    intro hplain level outer room fuel rest hdepth hfuel
    obtain ⟨fuel, rfl⟩ : ∃ n, fuel = n + 1 := ⟨fuel - 1, by omega⟩
    have hvalue := readValue_pretty j (isPlain_of_items hplain).1 level room fuel
    have hitems := readItems_pretty items
    have hj : j.depth ≤ room := Nat.le_trans (Nat.le_max_left _ _) hdepth
    cases items with
    | nil =>
      rw [prettyItems, prettyItems, joined_singleton] at hfuel ⊢
      exact readItems_last (hvalue _ hj (by omega)) (skipSpace_lineBreak outer _)
    | cons j' items =>
      specialize hitems (List.cons_ne_nil _ _) (isPlain_of_items hplain).2 level outer room fuel
        rest (Nat.le_trans (Nat.le_max_right _ _) hdepth)
      rw [prettyItems] at hitems
      rw [prettyItems, prettyItems, joined_cons_cons] at hfuel ⊢
      simp only [List.length_cons, List.length_append] at hfuel
      simp only [List.append_assoc, List.cons_append]
      refine readItems_next (hvalue _ hj (by omega)) (skipSpace_cons rfl _) ?_
      rw [← readItems_skipSpace, skipSpace_lineBreak, readItems_skipSpace]
      exact hitems (by omega)

theorem readMembers_pretty : ∀ (members : List (String × Json)), members ≠ [] →
    isPlainMembers members = true →
    ∀ (level outer room fuel : Nat) (rest : List Char), depthMembers members ≤ room →
      2 * (joined level (prettyMembers level members)).length < fuel →
      readMembers fuel room (joined level (prettyMembers level members) ++
        ((lineBreak outer).toList ++ '\x7d' :: rest)) = some (some members, rest)
  | [], hne => absurd rfl hne
  | (name, j) :: members, _ => by
    intro hplain level outer room fuel rest hdepth hfuel
    obtain ⟨fuel, rfl⟩ : ∃ n, fuel = n + 1 := ⟨fuel - 1, by omega⟩
    have hvalue := readValue_pretty j (isPlain_of_members hplain).1 level room fuel
    have hmembers := readMembers_pretty members
    have hj : j.depth ≤ room := Nat.le_trans (Nat.le_max_left _ _) hdepth
    have hlength := length_memberStart name (' ' :: (prettyAt level j).toList)
    cases members with
    | nil =>
      rw [prettyMembers, prettyMembers, joined_singleton, toList_member] at hfuel ⊢
      simp only [List.length_cons] at hlength
      rw [memberStart_append]
      exact readMembers_last (readValue_blank (hvalue _ hj (by omega)))
        (skipSpace_lineBreak outer _)
    | cons m members =>
      specialize hmembers (List.cons_ne_nil _ _) (isPlain_of_members hplain).2 level outer room
        fuel rest (Nat.le_trans (Nat.le_max_right _ _) hdepth)
      rw [prettyMembers] at hmembers
      rw [prettyMembers, prettyMembers, joined_cons_cons, toList_member] at hfuel ⊢
      simp only [List.length_cons, List.length_append] at hfuel hlength
      simp only [List.append_assoc, memberStart_append, List.cons_append]
      refine readMembers_next (readValue_blank (hvalue _ hj (by omega))) (skipSpace_cons rfl _) ?_
      rw [← readMembers_skipSpace, skipSpace_lineBreak, readMembers_skipSpace]
      exact hmembers (by omega)

end

/-- A value without numbers is what its printed text says, also with blanks after it. -/
theorem parse?_pretty {j : Json} (hplain : j.isPlain = true) (hdepth : j.depth ≤ maxDepth)
    {blanks : String} (hblanks : skipSpace blanks.toList = []) :
    parse? (j.pretty ++ blanks) = some j := by
  have hread := readValue_pretty j hplain 0 maxDepth (2 * (j.pretty ++ blanks).toList.length + 2)
    blanks.toList hdepth (by rw [String.toList_append, List.length_append, pretty]; omega)
  rw [← pretty, ← String.toList_append] at hread
  rw [parse?, hread]
  simp [hblanks]

end Mutability.Json
