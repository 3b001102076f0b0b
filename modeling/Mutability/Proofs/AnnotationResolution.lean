import Mutability.Configuration
import Mutability.Proofs.AnnotationNames

/-!
# Annotations under a configuration

A configuration has names of its own for qualifiers. An annotation is stripped of blanks and marks,
looked up among these names, and if it is not there what is left is read as any other text, which
strips it once more.

The second time is not always idle. Behind a mark there may be blanks and further marks, which the
first time leaves: such a text is read under a configuration, though by itself it is the text of no
qualifier. Every other text that is not among the names is read as by itself
(`resolve_without_alias_iff`).

The names of the configuration are taken as they stand. So a name is found under every decoration
exactly if there is nothing to strip from it, and is never found if it starts with a mark or ends
with a blank (`alias_honoured_iff`).
-/

namespace Mutability

open Text

namespace Configuration

variable {c : Configuration} {text : String} {q : Qualifier}

theorem resolve_eq (c : Configuration) (text : String) :
    c.resolve text = match c.aliases.get? (Qualifier.bareText text) with
      | some q => .ok q
      | none => Qualifier.parse (Qualifier.bareText text) :=
  rfl

theorem resolve_of_mem_entries {k : String} (hk : (k, q) ∈ c.aliases.entries)
    (h : Qualifier.bareText text = k) : c.resolve text = .ok q := by
  rw [resolve_eq, h, OrderedMap.get?_of_mem_entries hk]

theorem resolve_of_not_mem_keys (h : Qualifier.bareText text ∉ c.aliases.keys) :
    c.resolve text = Qualifier.parse (Qualifier.bareText text) := by
  rw [resolve_eq, OrderedMap.get?_eq_none_iff.2 h]

/-- A further name matters to the texts of which it is left, and to no other. -/
theorem resolve_insert (c : Configuration) (name : String) (q : Qualifier) (text : String) :
    resolve { c with aliases := c.aliases.insert name q } text =
      if Qualifier.bareText text = name then .ok q else c.resolve text := by
  rw [resolve_eq, OrderedMap.get?_insert]
  by_cases h : Qualifier.bareText text = name
  · rw [if_pos h, if_pos h]
  · rw [if_neg h, if_neg h, resolve_eq]

end Configuration

/-! ## Stripping twice -/

namespace Qualifier

/-- The text is a name of the qualifier behind a mark, at least one blank and any further marks,
decorated. -/
def SpellsBehindGap (q : Qualifier) (text : String) : Prop :=
  ∃ n gap m name, Blank gap ∧ gap ≠ "" ∧ name ∈ q.names ∧
    Decorates (n + 1) (gap ++ marks m ++ name) text

variable {q : Qualifier} {text : String}

/-- What is left is read as the text itself if it has a dot, which protects the name, or if it does
not start with a blank, so that there is nothing more to strip. -/
theorem parse_bareText (h : '.' ∈ (bareText text).toList ∨
    ∀ c ∈ (bareText text).toList.head?, isBlank c = false) :
    parse (bareText text) = .ok q ↔ parse text = .ok q := by
  suffices hsame : afterLast '.' (bareText (bareText text)).toList =
      afterLast '.' (bareText text).toList by
    rw [parse_eq_ok, parse_eq_ok, hsame]
  rcases h with hdot | hhead
  · obtain ⟨hnot, hall | ⟨p, hp⟩⟩ :=
      afterLast_eq_iff.1 (rfl : _ = afterLast '.' (bareText text).toList)
    · exact absurd (hall ▸ hdot) hnot
    · have hend : trimEnd (afterLast '.' (bareText text).toList) =
          afterLast '.' (bareText text).toList := by
        refine trimEnd_eq_self fun c hc => ?_
        have hlast : c ∈ (bareText text).toList.getLast? := by
          rw [hp, List.getLast?_append, List.getLast?_cons, show _ = some c from hc]
          rfl
        exact isBlank_of_getLast?_bareText hlast
      exact afterLast_eq_iff.2 ⟨hnot, Or.inr
        (exists_bareText_append_cons (by decide) (by decide) hend hp (.refl _))⟩
  · have hplain : Plain (bareText text) :=
      ⟨fun c hc => ⟨hhead c hc, fun heq => not_mem_head?_bareText text (heq ▸ hc)⟩,
        fun c hc => isBlank_of_getLast?_bareText hc⟩
    rw [bareText_of_plain hplain]

theorem parse_bareText_of_parse (h : parse text = .ok q) : parse (bareText text) = .ok q := by
  refine (parse_bareText ?_).2 h
  by_cases hdot : '.' ∈ (bareText text).toList
  · exact Or.inl hdot
  · have hname := (parse_eq_ok_of_no_dot hdot).1 h
    exact Or.inr fun c hc => ((plain_of_mem_names hname).1 c hc).1

/-- The gap is stripped the second time, and only then. -/
theorem SpellsBehindGap.parse_eq (h : q.SpellsBehindGap text) :
    parse (bareText text) = .ok q ∧ parse text = .error ⟨text⟩ := by
  obtain ⟨n, gap, m, name, hgap, hne, hname, htext⟩ := h
  obtain ⟨hname_ne, hchar⟩ := char_of_mem_names name hname
  obtain ⟨b, rest, hb⟩ := List.exists_cons_of_ne_nil
    fun hnil => hne (String.toList_injective (hnil : gap.toList = "".toList))
  have hblank : isBlank b = true := hgap b (by rw [hb]; exact List.mem_cons_self)
  have hcore : (gap ++ marks m ++ name).toList =
      b :: (rest ++ List.replicate m '@' ++ name.toList) := by
    simp only [String.toList_append, toList_marks, hb, List.cons_append]
  have hbare : bareText text = gap ++ marks m ++ name := by
    refine bareText_of_decorates_succ (fun hmark => ?_) (fun c hc => ?_) htext
    · rw [hcore] at hmark
      rw [Option.some.inj hmark] at hblank
      exact absurd hblank (by decide)
    · rw [String.toList_append, List.getLast?_append_of_ne_nil _ hname_ne] at hc
      exact (plain_of_mem_names hname).2 c hc
  constructor
  · refine parse_eq_ok_iff.2 ⟨m, "", name, Or.inl rfl, hname, gap, "", hgap, blank_empty, ?_⟩
    rw [hbare, String.empty_append, String.append_empty]
  · refine parse_eq_error_iff.2 ⟨fun q' hq' => ?_, rfl⟩
    -- Without a dot the whole core would have to be a name, but no name starts with a blank.
    have hdot : '.' ∉ (bareText text).toList := by
      intro hdot
      simp only [hbare, String.toList_append, toList_marks, List.mem_append,
        List.mem_replicate] at hdot
      rcases hdot with (hdot | ⟨-, hdot⟩) | hdot
      · exact absurd (hgap _ hdot) (by decide)
      · exact absurd hdot (by decide)
      · exact (hchar _ hdot).2.2 rfl
    have hwhole := (parse_eq_ok_of_no_dot hdot).1 (parse_eq_ok_iff.2 hq')
    have hb' := ((plain_of_mem_names hwhole).1 b (by rw [hbare, hcore]; rfl)).1
    exact absurd (hblank.symm.trans hb') (by decide)

/-- What is read only the second time has a gap. -/
theorem spellsBehindGap_of_parse (h : parse (bareText text) = .ok q) (hnot : parse text ≠ .ok q) :
    q.SpellsBehindGap text := by
  have hdot : '.' ∉ (bareText text).toList := fun hdot =>
    hnot ((parse_bareText (Or.inl hdot)).1 h)
  have hhead : ¬ ∀ c ∈ (bareText text).toList.head?, isBlank c = false := fun hhead =>
    hnot ((parse_bareText (Or.inr hhead)).1 h)
  obtain ⟨m, package, name, hpackage, hname, hdecorates⟩ := parse_eq_ok_iff.1 h
  obtain ⟨gap, hgap, hbare⟩ := exists_bareText_eq hdecorates
  obtain rfl : package = "" := by
    rcases hpackage with rfl | ⟨p, rfl⟩
    · rfl
    · refine absurd ?_ hdot
      rw [hbare]
      simp
  rw [String.empty_append] at hbare
  have hgap_ne : gap ≠ "" := by
    rintro rfl
    rw [String.empty_append] at hbare
    refine hhead fun c hc => ?_
    rw [hbare, String.toList_append, toList_marks] at hc
    cases m with
    | zero => exact ((plain_of_mem_names hname).1 c hc).1
    | succ m =>
      obtain rfl : '@' = c := Option.some.inj hc
      decide
  obtain ⟨n, hn⟩ := exists_decorates_bareText text
  cases n with
  | zero =>
    rw [parse_eq_ok, ← bareText_of_decorates_zero hn, ← parse_eq_ok] at h
    exact absurd h hnot
  | succ n => exact ⟨n, gap, m, name, hgap, hgap_ne, hname, hbare ▸ hn⟩

end Qualifier

open Qualifier

/-- An annotation that is not among the names of the configuration is read under it if it is read by
itself, and then as the same qualifier. Besides, exactly those texts are read that have a gap
between the marks and the name, and none of these is read by itself. -/
theorem resolve_without_alias_iff (c : Configuration) (text : String)
    (h : bareText text ∉ c.aliases.keys) :
    (∀ q, c.resolve text = .ok q ↔ parse text = .ok q ∨ q.SpellsBehindGap text) ∧
      ∀ q, SpellsBehindGap q text → parse text = .error ⟨text⟩ := by
  refine ⟨fun q => ?_, fun q hq => hq.parse_eq.2⟩
  rw [Configuration.resolve_of_not_mem_keys h]
  constructor
  · intro hread
    by_cases hself : parse text = .ok q
    · exact Or.inl hself
    · exact Or.inr (spellsBehindGap_of_parse hread hself)
  · rintro (hself | hgap)
    · exact parse_bareText_of_parse hself
    · exact hgap.parse_eq.1

/-- One blank is gap enough. -/
theorem resolve_without_alias_iff_gap :
    bareText "@ Immutable" ∉ Configuration.standard.aliases.keys ∧
      Configuration.standard.resolve "@ Immutable" = .ok .immutable ∧
      parse "@ Immutable" = .error ⟨"@ Immutable"⟩ := by
  have hkeys : bareText "@ Immutable" ∉ Configuration.standard.aliases.keys := by decide
  have hgap : SpellsBehindGap .immutable "@ Immutable" :=
    ⟨0, " ", 0, "Immutable", by decide, by decide, by decide, decorates_marks 1 " Immutable"⟩
  obtain ⟨hread, hself⟩ := resolve_without_alias_iff .standard "@ Immutable" hkeys
  exact ⟨hkeys, (hread .immutable).2 (Or.inr hgap), hself .immutable hgap⟩

/-! ## Names of the configuration -/

/-- Whatever a configuration lets the name stand for, it stands for behind `least` marks or more. -/
def HonouredBehind (least : Nat) (name : String) : Prop :=
  ∀ (c : Configuration) (q : Qualifier), (name, q) ∈ c.aliases.entries →
    ∀ n ≥ least, ∀ text, Decorates n name text → c.resolve text = .ok q

/-- The name is what is left of some text: it does not start with a mark or end with a blank. -/
def Findable (name : String) : Prop :=
  '@' ∉ name.toList.head? ∧ ∀ c ∈ name.toList.getLast?, isBlank c = false

instance (name : String) : Decidable (Findable name) :=
  decidable_of_iff ('@' ∉ name.toList.head? ∧ name.toList.getLast?.all fun c => !isBlank c)
    (by simp [Findable, Option.all_eq_true])

theorem findable_bareText (text : String) : Findable (bareText text) :=
  ⟨not_mem_head?_bareText text, fun _ hc => isBlank_of_getLast?_bareText hc⟩

theorem length_bareText_le (text : String) :
    (bareText text).toList.length ≤ text.toList.length := by
  obtain ⟨n, before, after, -, -, htext⟩ := exists_decorates_bareText text
  have hlength := congrArg (fun s : String => s.toList.length) htext
  simp only [String.toList_append, List.length_append] at hlength
  omega

theorem bareText_eq_self_iff {text : String} : bareText text = text ↔ Plain text := by
  refine ⟨fun h => ?_, bareText_of_plain⟩
  obtain ⟨hhead, hlast⟩ := findable_bareText text
  rw [h] at hhead hlast
  refine ⟨fun c hc => ⟨?_, fun heq => hhead (heq ▸ hc)⟩, hlast⟩
  -- A blank in front would be a decoration, so that what is left would be shorter.
  obtain ⟨rest, hrest⟩ := List.head?_eq_some_iff.1 hc
  by_contra hblank
  have hdecorates : Decorates 0 (.ofList rest) text := by
    have htext : text.toList =
        [c] ++ List.replicate 0 '@' ++ (String.ofList rest).toList ++ [] := by
      simp [hrest]
    exact decorates_of_toList_eq (by simpa using hblank) (by simp) htext
  have hle := length_bareText_le (.ofList rest)
  rw [← bareText_of_decorates_zero hdecorates, h, hrest, String.toList_ofList,
    List.length_cons] at hle
  omega

/-- A name that is not what is left of a text can be given a meaning that the text does not have. -/
theorem exists_resolve_ne {name text : String} (h : bareText text ≠ name) :
    ∃ (c : Configuration) (q : Qualifier),
      (name, q) ∈ c.aliases.entries ∧ c.resolve text ≠ .ok q := by
  let c : Configuration := { Configuration.standard with aliases := ∅ }
  obtain ⟨q, hq⟩ : ∃ q, c.resolve text ≠ .ok q := by
    by_cases hm : c.resolve text = .ok .mutable
    · exact ⟨.immutable, by rw [hm]; decide⟩
    · exact ⟨.mutable, hm⟩
  refine ⟨{ c with aliases := c.aliases.insert name q }, q, List.mem_singleton.2 rfl, ?_⟩
  rw [Configuration.resolve_insert, if_neg h]
  exact hq

theorem honouredBehind_iff {least : Nat} {name : String} :
    HonouredBehind least name ↔
      ∀ n ≥ least, ∀ text, Decorates n name text → bareText text = name := by
  constructor
  · intro h n hn text htext
    by_contra hne
    obtain ⟨c, q, hentry, hresolve⟩ := exists_resolve_ne hne
    exact hresolve (h c q hentry n hn text htext)
  · intro h c q hentry n hn text htext
    exact Configuration.resolve_of_mem_entries hentry (h n hn text htext)

/-- A name of the configuration is found under every decoration exactly if there is nothing to strip
from it, and behind every mark exactly if it neither starts with a mark nor ends with a blank. A
name that does one of the two means nothing: every annotation is resolved as without it. -/
theorem alias_honoured_iff (name : String) :
    (HonouredBehind 0 name ↔ Plain name) ∧ (HonouredBehind 1 name ↔ Findable name) ∧
    ((∀ (c : Configuration) (q : Qualifier) (text : String),
      Configuration.resolve { c with aliases := c.aliases.insert name q } text = c.resolve text) ↔
        ¬ Findable name) := by
  have hmarked := decorates_marks 1 name
  refine ⟨?_, ?_, ?_⟩
  · rw [honouredBehind_iff]
    constructor
    · intro h
      exact bareText_eq_self_iff.1 (h 0 le_rfl name (.refl name))
    · intro h n _ text htext
      exact bareText_of_decorates_plain h htext
  · rw [honouredBehind_iff]
    constructor
    · intro h
      exact h 1 le_rfl _ hmarked ▸ findable_bareText (marks 1 ++ name)
    · intro h n hn text htext
      obtain ⟨n, rfl⟩ := Nat.exists_eq_add_of_le' hn
      exact bareText_of_decorates_succ h.1 h.2 htext
  · constructor
    · intro h hname
      have hbare : bareText (marks 1 ++ name) = name :=
        bareText_of_decorates_succ hname.1 hname.2 hmarked
      have hall : ∀ q, Configuration.standard.resolve (marks 1 ++ name) = .ok q := by
        intro q
        rw [← h .standard q, Configuration.resolve_insert, if_pos hbare]
      exact absurd ((hall .mutable).symm.trans (hall .immutable)) (by decide)
    · intro h c q text
      rw [Configuration.resolve_insert, if_neg]
      rintro rfl
      exact h (findable_bareText text)

/-- A name that is written with its mark is ignored. Without it the name counts, even if it ends
like another qualifier. -/
theorem alias_honoured_iff_frozen :
    let marked : Configuration := { Configuration.standard with
      aliases := Configuration.standard.aliases.insert "@com.acme.Frozen" .immutable }
    let plain : Configuration := { Configuration.standard with
      aliases := Configuration.standard.aliases.insert "com.acme.Mutable" .immutable }
    marked.resolve "@com.acme.Frozen" = .error ⟨"com.acme.Frozen"⟩ ∧
      plain.resolve " @@com.acme.Mutable\t" = .ok .immutable := by
  intro marked plain
  have hmarked : ¬ Findable "@com.acme.Frozen" := by decide
  have hplain : Plain "com.acme.Mutable" := by decide
  constructor
  · rw [(alias_honoured_iff "@com.acme.Frozen").2.2.2 hmarked]
    decide
  · refine (alias_honoured_iff "com.acme.Mutable").1.2 hplain plain .immutable ?_ 2 (by decide) _ ?_
    · decide
    · exact ⟨" ", "\t", by decide, by decide, by decide⟩

end Mutability
