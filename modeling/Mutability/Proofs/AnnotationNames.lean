import Mathlib.Data.List.DropRight
import Mutability.Qualifier.Name

/-!
# The texts that name a qualifier

An annotation is read by cutting: blanks at both ends, then marks at the start, then all that stands
up to the last dot. `Qualifier.Spells` says which texts a qualifier has without cutting anything:
blanks, marks, a package that ends with a dot or none, a name of the qualifier, and blanks again.
The two agree on all texts (`Qualifier.parse_eq_ok_iff`), although a package may itself have blanks,
marks and dots in it.

What is left when blanks and marks are cut off (`Qualifier.bareText`) depends on whether there is a
mark. Without one it is what is left of the core (`bareText_of_decorates_zero`); behind one the core
keeps the blanks at its start (`toList_bareText_of_decorates_succ`). Either way a character that is
neither a blank nor a mark protects what stands behind it (`exists_bareText_append_cons`).
-/

namespace Mutability

namespace Text

/-- There is nothing but blanks in the text. -/
def Blank (text : String) : Prop :=
  ∀ c ∈ text.toList, isBlank c = true

instance (text : String) : Decidable (Blank text) :=
  decidable_of_iff (text.toList.all isBlank = true) List.all_eq_true

/-- That many marks. -/
def marks (n : Nat) : String :=
  .ofList (List.replicate n '@')

/-- The text is the core behind `n` marks, with blanks before the marks and after the core. -/
def Decorates (n : Nat) (core text : String) : Prop :=
  ∃ before after, Blank before ∧ Blank after ∧ text = before ++ marks n ++ core ++ after

/-- There is nothing to cut off: the text starts neither with a blank nor with a mark, and it does
not end with a blank. -/
def Plain (text : String) : Prop :=
  (∀ c ∈ text.toList.head?, isBlank c = false ∧ c ≠ '@') ∧
    ∀ c ∈ text.toList.getLast?, isBlank c = false

instance (text : String) : Decidable (Plain text) :=
  decidable_of_iff ((text.toList.head?.all fun c => !isBlank c && c != '@') ∧
    text.toList.getLast?.all fun c => !isBlank c) (by simp [Plain, Option.all_eq_true])

theorem toList_marks (n : Nat) : (marks n).toList = List.replicate n '@' :=
  String.toList_ofList

theorem blank_empty : Blank "" := by
  intro c hc
  simp at hc

/-- Marks alone are a decoration. -/
theorem decorates_marks (n : Nat) (core : String) : Decorates n core (marks n ++ core) :=
  ⟨"", "", blank_empty, blank_empty, by rw [String.empty_append, String.append_empty]⟩

/-- So is nothing at all. -/
theorem Decorates.refl (core : String) : Decorates 0 core core := by
  have h := decorates_marks 0 core
  rwa [show marks 0 = "" from rfl, String.empty_append] at h

theorem Decorates.toList_eq {n : Nat} {core text : String} (h : Decorates n core text) :
    ∃ w₁ w₂, (∀ c ∈ w₁, isBlank c = true) ∧ (∀ c ∈ w₂, isBlank c = true) ∧
      text.toList = w₁ ++ List.replicate n '@' ++ core.toList ++ w₂ := by
  obtain ⟨before, after, hbefore, hafter, rfl⟩ := h
  refine ⟨before.toList, after.toList, hbefore, hafter, ?_⟩
  simp only [String.toList_append, toList_marks]

theorem decorates_of_toList_eq {n : Nat} {core text : String} {w₁ w₂ : List Char}
    (h₁ : ∀ c ∈ w₁, isBlank c = true) (h₂ : ∀ c ∈ w₂, isBlank c = true)
    (h : text.toList = w₁ ++ List.replicate n '@' ++ core.toList ++ w₂) :
    Decorates n core text := by
  refine ⟨.ofList w₁, .ofList w₂, ?_, ?_, ?_⟩
  · rwa [Blank, String.toList_ofList]
  · rwa [Blank, String.toList_ofList]
  · apply String.toList_injective
    simp only [String.toList_append, String.toList_ofList, toList_marks, h]

/-! ## Cutting lists of characters -/

/-- What stands from a character on that is not cut off stays whole. -/
theorem dropWhile_append_cons {α : Type} {p : α → Bool} {c : α} (hc : p c = false)
    (xs rest : List α) : (xs ++ c :: rest).dropWhile p = xs.dropWhile p ++ c :: rest := by
  have hstop : (c :: rest).dropWhile p = c :: rest :=
    List.dropWhile_cons_of_neg (by rw [hc]; decide)
  rw [List.dropWhile_append, hstop]
  split
  · next hempty => rw [List.isEmpty_iff.1 hempty, List.nil_append]
  · rfl

theorem dropWhile_eq_self {α : Type} {p : α → Bool} {cs : List α}
    (h : ∀ c ∈ cs.head?, p c = false) : cs.dropWhile p = cs := by
  cases cs with
  | nil => rfl
  | cons c rest => exact dropWhile_append_cons (h c rfl) [] rest

theorem trimEnd_append_blank (cs : List Char) {w : List Char} (hw : ∀ c ∈ w, isBlank c = true) :
    trimEnd (cs ++ w) = trimEnd cs := by
  unfold trimEnd
  rw [List.reverse_append, List.dropWhile_append_of_pos]
  intro c hc
  exact hw c (List.mem_reverse.1 hc)

theorem trimEnd_append_cons {c : Char} (hc : isBlank c = false) (xs rest : List Char) :
    trimEnd (xs ++ c :: rest) = xs ++ c :: trimEnd rest := by
  unfold trimEnd
  rw [List.reverse_append, List.reverse_cons, List.append_assoc, List.singleton_append,
    dropWhile_append_cons hc]
  simp

theorem trimEnd_eq_self {cs : List Char} (h : ∀ c ∈ cs.getLast?, isBlank c = false) :
    trimEnd cs = cs := by
  refine List.rdropWhile_eq_self_iff.2 fun hne => ?_
  rw [h _ (List.getLast?_eq_some_getLast hne)]
  decide

theorem isBlank_of_getLast?_trimEnd {cs : List Char} {c : Char} (h : c ∈ (trimEnd cs).getLast?) :
    isBlank c = false := by
  obtain ⟨hne, rfl⟩ := List.mem_getLast?_eq_getLast h
  exact Bool.eq_false_iff.2 (List.rdropWhile_last_not isBlank cs hne)

theorem trim_append_blank {w₁ w₂ : List Char} (h₁ : ∀ c ∈ w₁, isBlank c = true)
    (h₂ : ∀ c ∈ w₂, isBlank c = true) (cs : List Char) : trim (w₁ ++ cs ++ w₂) = trim cs := by
  unfold trim trimStart
  rw [List.append_assoc, List.dropWhile_append_of_pos h₁, List.dropWhile_append]
  split
  · next hempty => rw [List.isEmpty_iff.1 hempty, List.dropWhile_eq_nil_iff.2 h₂]
  · rw [trimEnd_append_blank _ h₂]

theorem trim_append_cons {c : Char} (hc : isBlank c = false) (xs rest : List Char) :
    trim (xs ++ c :: rest) = trimStart xs ++ c :: trimEnd rest := by
  unfold trim
  rw [trimStart, dropWhile_append_cons hc, trimEnd_append_cons hc]
  rfl

/-- What stands after the last separator has none in it, and is the whole text or follows one. -/
theorem afterLast_eq_iff {sep : Char} {cs t : List Char} :
    afterLast sep cs = t ↔ sep ∉ t ∧ (cs = t ∨ ∃ p, cs = p ++ sep :: t) := by
  constructor
  · rintro rfl
    refine ⟨fun hmem => ?_, ?_⟩
    · have hne := List.mem_rtakeWhile_imp (p := fun x => x != sep) hmem
      simp at hne
    · have hsplit : cs.rdropWhile (· != sep) ++ afterLast sep cs = cs :=
        List.rdropWhile_append_rtakeWhile
      rcases List.eq_nil_or_concat (cs.rdropWhile (· != sep)) with hnil | ⟨p, c, hp⟩
      · rw [hnil] at hsplit
        exact Or.inl hsplit.symm
      · have hlast := List.rdropWhile_last_not (· != sep) cs (by rw [hp]; simp)
        simp only [hp, List.concat_eq_append, List.getLast_append_singleton, bne_iff_ne, ne_eq,
          not_not] at hlast
        subst hlast
        rw [hp, List.concat_eq_append, List.append_assoc] at hsplit
        exact Or.inr ⟨p, hsplit.symm⟩
  · rintro ⟨hnot, hcs⟩
    have hall : ∀ c ∈ t.reverse, (c != sep) = true := by
      intro c hc
      refine bne_iff_ne.2 fun heq => hnot ?_
      exact heq ▸ List.mem_reverse.1 hc
    unfold afterLast
    rcases hcs with rfl | ⟨p, rfl⟩
    · rw [List.takeWhile_eq_self_iff.2 hall, List.reverse_reverse]
    · rw [List.reverse_append, List.reverse_cons, List.append_assoc,
        List.takeWhile_append_of_pos hall]
      simp

end Text

namespace Qualifier

open Text

/-! ## What is left of a text -/

/-- The text without blanks around it and without the marks before it. -/
def bareText (text : String) : String :=
  .ofList (bare text.toList)

theorem toList_bareText (text : String) : (bareText text).toList = bare text.toList :=
  String.toList_ofList

/-- Every text is what is left of it, decorated. -/
theorem exists_decorates_bareText (text : String) : ∃ n, Decorates n (bareText text) text := by
  have hstart : text.toList.takeWhile isBlank ++ trimStart text.toList = text.toList :=
    List.takeWhile_append_dropWhile
  have hend : trim text.toList ++ (trimStart text.toList).rtakeWhile isBlank =
      trimStart text.toList :=
    List.rdropWhile_append_rtakeWhile
  have hmarks : (trim text.toList).takeWhile (· == '@') ++ (bareText text).toList =
      trim text.toList := by
    rw [toList_bareText]
    exact List.takeWhile_append_dropWhile
  have hreplicate : (trim text.toList).takeWhile (· == '@') =
      List.replicate ((trim text.toList).takeWhile (· == '@')).length '@' :=
    List.eq_replicate_of_mem fun c hc =>
      eq_of_beq (List.mem_takeWhile_imp (p := fun x => x == '@') hc)
  have htext : text.toList = text.toList.takeWhile isBlank ++
      List.replicate ((trim text.toList).takeWhile (· == '@')).length '@' ++
      (bareText text).toList ++ (trimStart text.toList).rtakeWhile isBlank := by
    rw [← hreplicate, List.append_assoc _ _ (bareText text).toList, hmarks, List.append_assoc, hend,
      hstart]
  exact ⟨_, decorates_of_toList_eq (fun c hc => List.mem_takeWhile_imp hc)
    (fun c hc => List.mem_rtakeWhile_imp hc) htext⟩

/-- A text without marks in front is cut down as its core is. -/
theorem bareText_of_decorates_zero {core text : String} (h : Decorates 0 core text) :
    bareText text = bareText core := by
  obtain ⟨w₁, w₂, h₁, h₂, htext⟩ := h.toList_eq
  unfold bareText bare
  rw [htext, List.replicate_zero, List.append_nil, trim_append_blank h₁ h₂]

/-- Behind a mark the blanks at the start of the core stay. -/
theorem toList_bareText_of_decorates_succ {n : Nat} {core text : String}
    (h : Decorates (n + 1) core text) :
    (bareText text).toList = (trimEnd core.toList).dropWhile (· == '@') := by
  obtain ⟨w₁, w₂, h₁, h₂, htext⟩ := h.toList_eq
  have hmarks : ∀ m, (trimEnd (List.replicate m '@' ++ core.toList)).dropWhile (· == '@') =
      (trimEnd core.toList).dropWhile (· == '@') := by
    intro m
    induction m with
    | zero => rfl
    | succ m ih =>
      rw [List.replicate_succ, List.cons_append, ← List.nil_append ('@' :: _),
        trimEnd_append_cons (by decide)]
      exact ih
  have hsplit : text.toList = w₁ ++ '@' :: ((List.replicate n '@' ++ core.toList) ++ w₂) := by
    rw [htext, List.replicate_succ]
    simp
  rw [toList_bareText, bare, hsplit, trim_append_cons (by decide), trimEnd_append_blank _ h₂,
    trimStart, List.dropWhile_eq_nil_iff.2 h₁]
  exact hmarks n

/-- A character that is neither a blank nor a mark protects what stands behind it. -/
theorem exists_bareText_append_cons {c : Char} (hblank : isBlank c = false) (hmark : c ≠ '@')
    {xs rest : List Char} (hrest : trimEnd rest = rest) {n : Nat} {core text : String}
    (hcore : core.toList = xs ++ c :: rest) (h : Decorates n core text) :
    ∃ ys, (bareText text).toList = ys ++ c :: rest := by
  have hstop : ∀ ys, (ys ++ c :: rest).dropWhile (· == '@') =
      ys.dropWhile (· == '@') ++ c :: rest := fun ys =>
    dropWhile_append_cons (p := (· == '@')) (beq_false_of_ne hmark) ys rest
  cases n with
  | zero =>
    rw [bareText_of_decorates_zero h, toList_bareText, hcore, bare, trim_append_cons hblank, hrest,
      hstop]
    exact ⟨_, rfl⟩
  | succ n =>
    rw [toList_bareText_of_decorates_succ h, hcore, trimEnd_append_cons hblank, hrest, hstop]
    exact ⟨_, rfl⟩

theorem bareText_of_plain {text : String} (h : Plain text) : bareText text = text := by
  obtain ⟨hhead, hlast⟩ := h
  have hstart : trimStart text.toList = text.toList :=
    dropWhile_eq_self fun c hc => (hhead c hc).1
  have hmarks : text.toList.dropWhile (· == '@') = text.toList :=
    dropWhile_eq_self fun c hc => beq_false_of_ne (hhead c hc).2
  unfold bareText bare
  rw [trim, hstart, trimEnd_eq_self hlast, hmarks, String.ofList_toList]

/-- Behind a mark nothing is cut off a core that starts with no further one and does not end with a
blank. -/
theorem bareText_of_decorates_succ {n : Nat} {core text : String}
    (hhead : '@' ∉ core.toList.head?) (hlast : ∀ c ∈ core.toList.getLast?, isBlank c = false)
    (h : Decorates (n + 1) core text) : bareText text = core := by
  apply String.toList_injective
  rw [toList_bareText_of_decorates_succ h, trimEnd_eq_self hlast]
  exact dropWhile_eq_self fun c hc => beq_false_of_ne fun heq => hhead (heq ▸ hc)

/-- From a plain text that is decorated, the decoration is cut off and nothing else. -/
theorem bareText_of_decorates_plain {n : Nat} {core text : String} (hcore : Plain core)
    (h : Decorates n core text) : bareText text = core := by
  cases n with
  | zero => rw [bareText_of_decorates_zero h, bareText_of_plain hcore]
  | succ n => exact bareText_of_decorates_succ (fun hc => (hcore.1 _ hc).2 rfl) hcore.2 h

theorem not_mem_head?_bareText (text : String) : '@' ∉ (bareText text).toList.head? := by
  intro h
  have hnot := List.head?_dropWhile_not (· == '@') (trim text.toList)
  rw [toList_bareText] at h
  rw [show ((trim text.toList).dropWhile (· == '@')).head? = some '@' from h] at hnot
  exact absurd hnot (by decide)

theorem isBlank_of_getLast?_bareText {text : String} {c : Char}
    (h : c ∈ (bareText text).toList.getLast?) : isBlank c = false := by
  rw [toList_bareText] at h
  obtain ⟨cut, hcut⟩ : bare text.toList <:+ trim text.toList := List.dropWhile_suffix _
  have hlast : c ∈ (trim text.toList).getLast? := by
    rw [← hcut, List.getLast?_append, show (bare text.toList).getLast? = some c from h]
    rfl
  exact isBlank_of_getLast?_trimEnd hlast

/-- What is left has no blanks behind the core that it decorates. -/
theorem exists_bareText_eq {n : Nat} {core text : String} (h : Decorates n core (bareText text)) :
    ∃ before, Blank before ∧ bareText text = before ++ marks n ++ core := by
  obtain ⟨before, after, hbefore, hafter, hbare⟩ := h
  suffices hnil : after.toList = [] by
    obtain rfl : after = "" := String.toList_injective hnil
    exact ⟨before, hbefore, by rw [hbare, String.append_empty]⟩
  by_contra hne
  have hlast : after.toList.getLast hne ∈ (bareText text).toList.getLast? := by
    rw [hbare, String.toList_append, List.getLast?_append_of_ne_nil _ hne]
    exact List.getLast?_eq_some_getLast hne
  have hblank := hafter _ (List.getLast_mem hne)
  rw [isBlank_of_getLast?_bareText hlast] at hblank
  exact Bool.false_ne_true hblank

/-! ## Names -/

/-- The names of a qualifier, the older spelling included. -/
def names : Qualifier → List String
  | polyMutable => ["PolyMutable", "PolyImmutable"]
  | q => [q.simpleName]

theorem simpleName_mem_names (q : Qualifier) : q.simpleName ∈ q.names := by
  cases q <;> decide

/-- A name is not empty, and there are no blanks, marks or dots in it. -/
theorem char_of_mem_names {q : Qualifier} : ∀ name ∈ q.names,
    name.toList ≠ [] ∧ ∀ c ∈ name.toList, isBlank c = false ∧ c ≠ '@' ∧ c ≠ '.' := by
  cases q <;> simp [names, simpleName, isBlank]

theorem plain_of_mem_names {q : Qualifier} {name : String} (h : name ∈ q.names) : Plain name := by
  obtain ⟨-, hchar⟩ := char_of_mem_names name h
  refine ⟨fun c hc => ?_, fun c hc => ?_⟩
  · have hc' := hchar c (List.mem_of_mem_head? hc)
    exact ⟨hc'.1, hc'.2.1⟩
  · exact (hchar c (List.mem_of_mem_getLast? hc)).1

theorem ofSimpleName?_of_mem_names {q : Qualifier} :
    ∀ name ∈ q.names, ofSimpleName? name.toList = some q := by
  cases q <;> decide

theorem ofSimpleName?_eq_some {name : String} {q : Qualifier} :
    ofSimpleName? name.toList = some q ↔ name ∈ q.names := by
  refine ⟨fun h => ?_, ofSimpleName?_of_mem_names name⟩
  unfold ofSimpleName? at h
  split at h
  · next hold =>
    obtain rfl := Option.some.inj h
    rw [String.toList_injective hold]
    decide
  · have hq := List.find?_some h
    rw [← String.toList_injective (of_decide_eq_true hq)]
    exact simpleName_mem_names q

/-! ## Texts of a qualifier -/

/-- The text is a name of the qualifier, with or without a package before it, decorated. -/
def Spells (q : Qualifier) (text : String) : Prop :=
  ∃ n package name, (package = "" ∨ ∃ p, package = p ++ ".") ∧ name ∈ q.names ∧
    Decorates n (package ++ name) text

theorem parse_eq_ok {text : String} {q : Qualifier} :
    parse text = .ok q ↔ .ofList (afterLast '.' (bareText text).toList) ∈ q.names := by
  rw [← ofSimpleName?_eq_some, String.toList_ofList, toList_bareText]
  show parse text = .ok q ↔ ofText? text.toList = some q
  unfold parse
  cases ofText? text.toList with
  | none => simp
  | some q' => simp

/-- Where no dot is left, all that is left has to be a name. -/
theorem parse_eq_ok_of_no_dot {text : String} {q : Qualifier}
    (hdot : '.' ∉ (bareText text).toList) : parse text = .ok q ↔ bareText text ∈ q.names := by
  rw [parse_eq_ok, afterLast_eq_iff.2 ⟨hdot, Or.inl rfl⟩, String.ofList_toList]

theorem afterLast_of_decorates {n : Nat} {package name text : String} {q : Qualifier}
    (hpackage : package = "" ∨ ∃ p, package = p ++ ".") (hname : name ∈ q.names)
    (h : Decorates n (package ++ name) text) :
    afterLast '.' (bareText text).toList = name.toList := by
  have hplain := plain_of_mem_names hname
  have hdot : '.' ∉ name.toList := fun hdot => ((char_of_mem_names name hname).2 '.' hdot).2.2 rfl
  refine afterLast_eq_iff.2 ⟨hdot, ?_⟩
  rcases hpackage with rfl | ⟨p, rfl⟩
  · rw [String.empty_append] at h
    rw [bareText_of_decorates_plain hplain h]
    exact Or.inl rfl
  · -- The package may start with blanks and marks of its own; its last dot protects the name.
    have hcore : (p ++ "." ++ name).toList = p.toList ++ '.' :: name.toList := by simp
    exact Or.inr (exists_bareText_append_cons (by decide) (by decide) (trimEnd_eq_self hplain.2)
      hcore h)

/-- A text is read as a qualifier exactly if it is one of its texts. -/
theorem parse_eq_ok_iff {text : String} {q : Qualifier} : parse text = .ok q ↔ q.Spells text := by
  rw [parse_eq_ok]
  constructor
  · intro hname
    obtain ⟨n, hn⟩ := exists_decorates_bareText text
    obtain ⟨-, hbare | ⟨p, hbare⟩⟩ :=
      afterLast_eq_iff.1 (rfl : _ = afterLast '.' (bareText text).toList)
    · refine ⟨n, "", _, Or.inl rfl, hname, ?_⟩
      rwa [String.empty_append, ← hbare, String.ofList_toList]
    · refine ⟨n, .ofList p ++ ".", _, Or.inr ⟨_, rfl⟩, hname, ?_⟩
      have hcore : String.ofList p ++ "." ++ .ofList (afterLast '.' (bareText text).toList) =
          bareText text := by
        apply String.toList_injective
        conv_rhs => rw [hbare]
        simp
      rwa [hcore]
  · rintro ⟨n, package, name, hpackage, hname, h⟩
    rwa [afterLast_of_decorates hpackage hname h, String.ofList_toList]

/-- A text of no qualifier is reported as it is given. -/
theorem parse_eq_error_iff {text : String} {e : UnknownName} :
    parse text = .error e ↔ (∀ q, ¬ Spells q text) ∧ e = ⟨text⟩ := by
  simp only [← parse_eq_ok_iff]
  unfold parse
  cases ofText? text.toList with
  | none => simp [eq_comm]
  | some q => simp

/-- An annotation is read as the qualifier whose text it is. There is at most one. A text of no
qualifier is reported as it is given. The annotation that is printed for a qualifier, and its name
behind any package, are among its texts. -/
theorem parse_spelled_exactly (text : String) :
    (∀ q, parse text = .ok q ↔ Spells q text) ∧
    (∀ q q', Spells q text → Spells q' text → q = q') ∧
    (∀ e, parse text = .error e ↔ (∀ q, ¬ Spells q text) ∧ e = ⟨text⟩) ∧
    ∀ q : Qualifier, parse q.annotationName = .ok q ∧
      ∀ package, parse (package ++ "." ++ q.simpleName) = .ok q := by
  refine ⟨fun q => parse_eq_ok_iff, fun q q' h h' => ?_, fun e => parse_eq_error_iff,
    fun q => ⟨?_, fun package => ?_⟩⟩
  · have heq := (parse_eq_ok_iff.2 h).symm.trans (parse_eq_ok_iff.2 h')
    exact Except.ok.inj heq
  · refine parse_eq_ok_iff.2 ⟨1, "", _, Or.inl rfl, simpleName_mem_names q, ?_⟩
    rw [String.empty_append]
    exact decorates_marks 1 q.simpleName
  · exact parse_eq_ok_iff.2 ⟨0, _, _, Or.inr ⟨package, rfl⟩, simpleName_mem_names q, .refl _⟩

/-- Marks and blanks inside a package do no harm, but blanks between a mark and a name do. -/
example : parse " @a@ .\t@PolyImmutable\n" = .error ⟨" @a@ .\t@PolyImmutable\n"⟩ ∧
    parse "\u3000@@@ a@ .PolyImmutable\n" = .ok polyMutable ∧
    parse "@ Mutable" = .error ⟨"@ Mutable"⟩ := by
  decide

end Qualifier

end Mutability
