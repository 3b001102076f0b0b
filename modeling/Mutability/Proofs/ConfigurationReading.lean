import Mutability.CommandLine.Run
import Mutability.Proofs.PrintedText
import Mutability.Proofs.ReportAppend
import Mutability.Proofs.Variations

/-!
# Configurations read back

A configuration is read back from the members it is written with, and from any of them alone: the
members that are given are those of the configuration, the others are those of the standard one
(`Configuration.overriding`). Nothing of the standard value is left in a member that is given, since
a set and a map are read by inserting into the empty one, and what has no repetitions comes out in
the order in which it went in (`OrderedSet.ofList_toList`, `OrderedMap.ofList_entries`).

The text that `config` writes has no numbers and is not nested deeply, so it is read back as the
value that was printed (`Configuration.ofJsonText?_pretty`).
-/

namespace Mutability

/-! ## Sets and maps -/

theorem OrderedSet.toList_foldl_insert {α : Type} [DecidableEq α] (as : List α)
    (s : OrderedSet α) (h : (s.toList ++ as).Nodup) :
    (as.foldl insert s).toList = s.toList ++ as := by
  induction as generalizing s with
  | nil => rw [List.foldl_nil, List.append_nil]
  | cons a as ih =>
    have hassoc : s.toList ++ a :: as = s.toList ++ [a] ++ as := by simp
    have hnew : a ∉ s.toList := by
      intro hmem
      rw [List.nodup_append] at h
      exact h.2.2 a hmem a List.mem_cons_self rfl
    have hinsert : (s.insert a).toList = s.toList ++ [a] := by rw [insert, dif_neg hnew]
    rw [List.foldl_cons, hassoc, ← hinsert]
    exact ih (s.insert a) (by rw [hinsert, ← hassoc]; exact h)

theorem OrderedSet.ext_toList {α : Type} {s t : OrderedSet α} (h : s.toList = t.toList) :
    s = t := by
  obtain ⟨as, has⟩ := s
  obtain ⟨bs, hbs⟩ := t
  have hlist : as = bs := h
  subst hlist
  rfl

theorem OrderedSet.ofList_toList {α : Type} [DecidableEq α] (s : OrderedSet α) :
    ofList s.toList = s := by
  apply ext_toList
  exact toList_foldl_insert s.toList ∅ s.nodup

theorem OrderedMap.ofList_entries {κ α : Type} [DecidableEq κ] (m : OrderedMap κ α) :
    ofList m.entries = m :=
  empty_merge m

/-! ## Members -/

namespace Json

variable {α : Type} {write : α → Json} {read : Json → Option α}

theorem list?_ofList (h : ∀ a, read (write a) = some a) (as : List α) :
    list? read (ofList write as) = some as := by
  rw [ofList, list?]
  induction as with
  | nil => rfl
  | cons a as ih => simp [h, ih]

theorem entries?_obj (h : ∀ a, read (write a) = some a) (es : List (String × α)) :
    entries? read (obj (es.map fun e => (e.1, write e.2))) = some es := by
  rw [entries?]
  induction es with
  | nil => rfl
  | cons e es ih => simp [h, ih]

/-- The members of an object. -/
def members : Json → List (String × Json)
  | obj ms => ms
  | _ => []

theorem slotOf_filter (given : String → Bool) (ms : List (String × Json)) (name : String) :
    slotOf (ms.filter fun m => given m.1) name =
      if given name = true then slotOf ms name else .omitted := by
  by_cases h : given name = true
  · rw [if_pos h]
    apply slotOf_congr
    rw [List.filter_filter]
    apply List.filter_congr
    intro m _
    by_cases hm : m.1 = name
    · simp [hm, h]
    · simp [hm]
  · rw [if_neg h]
    apply slotOf_of_not_mem
    intro hmem
    obtain ⟨m, hm, rfl⟩ := List.mem_map.1 hmem
    exact h (List.mem_filter.1 hm).2

theorem Slot.withDefault_ite {b : Bool} {j : Json} {a : α} (value : α) (h : read j = some a) :
    (if b = true then Slot.given j else .omitted).withDefault value read =
      some (if b = true then a else value) := by
  cases b with
  | true => exact h
  | false => rfl

end Json

theorem Qualifier.ofJson?_toJson (q : Qualifier) : ofJson? q.toJson = some q := by
  cases q <;> decide

namespace Configuration

theorem names_of_members (c : Configuration) : c.toJson.members.map Prod.fst = memberNames := rfl

/-- The standard configuration with the given members replaced by those of `c`. -/
def overriding (given : String → Bool) (c : Configuration) : Configuration where
  immutableTypes :=
    if given "implicitly_immutable_types" then c.immutableTypes else standard.immutableTypes
  aliases := if given "aliases" then c.aliases else standard.aliases
  defaultQualifier :=
    if given "default_qualifier" then c.defaultQualifier else standard.defaultQualifier
  objectMethodDefaults :=
    if given "object_method_defaults" then c.objectMethodDefaults
    else standard.objectMethodDefaults

/-- What is given for the members of a configuration when only some of them are. -/
theorem slots_of_given (c : Configuration) (given : String → Bool) :
    memberNames.map (Json.slotOf (c.toJson.members.filter fun m => given m.1)) =
      c.toJson.members.map fun m => if given m.1 = true then .given m.2 else .omitted := by
  rw [funext (Json.slotOf_filter given c.toJson.members), ← names_of_members c, List.map_map]
  rfl

theorem ofJson?_of_given (c : Configuration) (given : String → Bool)
    {added ms : List (String × Json)} (hadded : ∀ m ∈ added, m.1 ∉ memberNames)
    (hperm : ms.Perm (c.toJson.members.filter (fun m => given m.1) ++ added)) :
    ofJson? (.obj ms) = some (c.overriding given) := by
  have hkept : ((c.toJson.members.filter fun m => given m.1).map Prod.fst).Nodup :=
    (List.filter_sublist.map Prod.fst).nodup (by rw [names_of_members]; decide)
  have htypes : ((Json.ofList Json.str c.immutableTypes.toList).list? Json.string?).map
      OrderedSet.ofList = some c.immutableTypes := by
    have hlist := Json.list?_ofList (fun s => (rfl : (Json.str s).string? = some s))
      c.immutableTypes.toList
    rw [hlist, Option.map_some, OrderedSet.ofList_toList]
  have haliases : ((Json.obj (c.aliases.entries.map fun e => (e.1, e.2.toJson))).entries?
      Qualifier.ofJson?).map OrderedMap.ofList = some c.aliases := by
    rw [Json.entries?_obj Qualifier.ofJson?_toJson, Option.map_some, OrderedMap.ofList_entries]
  have hflag : (Json.bool c.objectMethodDefaults).bool? = some c.objectMethodDefaults := rfl
  rw [ofJson?, Json.record?_of_perm hkept hperm hadded, slots_of_given]
  simp [toJson, Json.members, Json.Slot.withDefault_ite, htypes, haliases, hflag,
    Qualifier.ofJson?_toJson, overriding]

theorem ofJson?_toJson (c : Configuration) : ofJson? c.toJson = some c := by
  have hperm : c.toJson.members.Perm (c.toJson.members.filter (fun _ => true) ++ []) := by simp
  have hadded : ∀ m ∈ ([] : List (String × Json)), m.1 ∉ memberNames := by simp
  exact ofJson?_of_given c (fun _ => true) hadded hperm

/-! ## Texts -/

theorem isPlain_toJson (c : Configuration) : c.toJson.isPlain = true := by
  have htypes : Json.isPlainItems (c.immutableTypes.toList.map Json.str) = true := by
    rw [Json.isPlainItems_iff, List.forall_mem_map]
    intro s _
    rfl
  have haliases :
      Json.isPlainMembers (c.aliases.entries.map fun e => (e.1, e.2.toJson)) = true := by
    rw [Json.isPlainMembers_iff, List.forall_mem_map]
    intro e _
    rfl
  have hqualifier : c.defaultQualifier.toJson.isPlain = true := rfl
  simp [toJson, Json.ofList, Json.isPlain, Json.isPlainMembers, htypes, haliases, hqualifier]

theorem depth_toJson_le (c : Configuration) : c.toJson.depth ≤ 2 := by
  have htypes : Json.depthItems (c.immutableTypes.toList.map Json.str) ≤ 0 := by
    rw [Json.depthItems_le_iff, List.forall_mem_map]
    intro s _
    exact Nat.le_refl 0
  have haliases : Json.depthMembers (c.aliases.entries.map fun e => (e.1, e.2.toJson)) ≤ 0 := by
    rw [Json.depthMembers_le_iff, List.forall_mem_map]
    intro e _
    exact Nat.le_refl 0
  simp only [toJson, Json.ofList, Json.depth, Json.depthMembers, Qualifier.toJson] at haliases ⊢
  omega

/-- A configuration is read back from the text that is printed for it. -/
theorem ofJsonText?_pretty (c : Configuration) :
    ofJsonText? (c.toJson.pretty ++ "\n") = some c := by
  have hdepth : c.toJson.depth ≤ Json.maxDepth := Nat.le_trans c.depth_toJson_le (by decide)
  rw [ofJsonText?, Json.parse?_pretty c.isPlain_toJson hdepth (by decide)]
  exact c.ofJson?_toJson

end Configuration

/-! ## Runs -/

open CommandLine

/-- The text that `config` writes is loaded as the configuration of the run. -/
theorem loadConfiguration_of_config {c : Configuration} {color : Bool} {files files' : Files}
    {i : Invocation} {path : String} (hload : loadConfiguration files i.configPath = .ok c)
    (hcommand : i.command = .config) (hpath : extension? path ≠ some "toml")
    (htext : files' path = .ok (i.run color files).stdout) :
    loadConfiguration files' (some path) = .ok c := by
  have hrun : i.run color files = .written 0 [c.toJson.pretty] := by
    rw [Invocation.run, hload, hcommand]
  have hstdout : (i.run color files).stdout = c.toJson.pretty ++ "\n" := by
    rw [hrun]
    simp [Outcome.written, String.join]
  have hfile : Configuration.load files' path = .ok c := by
    rw [Configuration.load, htext, hstdout]
    simp [hpath, Configuration.ofJsonText, c.ofJsonText?_pretty]
  rw [loadConfiguration, hfile]

/-- A configuration is read back from what it is written as. From an object with some of its
members, in any order and among members of other names, it is read with the standard configuration
in place of the members that are left out; sets and maps come back in their order, as they are
equal. What `config` writes is loaded again as the configuration of the run, so that under both
every annotation stands for the same qualifier and every position gets the same default. -/
theorem configuration_read_back (c : Configuration) :
    Configuration.ofJson? c.toJson = some c ∧
    (∀ (given : String → Bool) (added ms : List (String × Json)),
      (∀ m ∈ added, m.1 ∉ Configuration.memberNames) →
      ms.Perm (c.toJson.members.filter (fun m => given m.1) ++ added) →
      Configuration.ofJson? (.obj ms) = some (c.overriding given)) ∧
    ∀ (color : Bool) (files files' : Files) (i : Invocation) (path : String),
      loadConfiguration files i.configPath = .ok c → i.command = .config →
      extension? path ≠ some "toml" → files' path = .ok (i.run color files).stdout →
      (i.run color files).exitCode = 0 ∧
      ∃ c', loadConfiguration files' (some path) = .ok c' ∧ c' = c ∧
        (∀ text, (Policy.ofConfiguration c').resolve text =
          (Policy.ofConfiguration c).resolve text) ∧
        (∀ p, (Policy.ofConfiguration c').annotate p = (Policy.ofConfiguration c).annotate p) ∧
        ∀ kind host, (Policy.ofConfiguration c').defaultQualifier kind host =
          (Policy.ofConfiguration c).defaultQualifier kind host := by
  refine ⟨c.ofJson?_toJson, ?_, ?_⟩
  · intro given added ms hadded hperm
    exact c.ofJson?_of_given given hadded hperm
  · intro color files files' i path hload hcommand hpath htext
    refine ⟨?_, c, loadConfiguration_of_config hload hcommand hpath htext, rfl, ?_, ?_, ?_⟩
    · rw [Invocation.run, hload, hcommand]
      rfl
    · intro text
      rfl
    · intro p
      rfl
    · intro kind host
      rfl

/-- A configuration that differs from the standard one in every member. -/
def ledgerConfiguration : Configuration where
  immutableTypes := .ofList ["ledger.Money", "ledger.Account"]
  aliases := .ofList [("ledger.Open", .mutable), ("ledger.Closed", .immutable)]
  defaultQualifier := .readonly
  objectMethodDefaults := false

theorem configuration_read_back_ledgerConfiguration :
    Configuration.ofJson? (.obj [("comment", .null),
      ("aliases", .obj [("ledger.Open", .str "Mutable"), ("ledger.Closed", .str "Immutable")]),
      ("implicitly_immutable_types", .arr [.str "ledger.Money", .str "ledger.Account"])]) =
      some { ledgerConfiguration with
        defaultQualifier := .mutable
        objectMethodDefaults := true } ∧
    loadConfiguration
      (fun _ => .ok (Invocation.run false (fun _ => .error .missing) ⟨none, .config⟩).stdout)
      (some "effective.json") = .ok .standard := by
  refine ⟨(configuration_read_back ledgerConfiguration).2.1
    (fun name => name = "aliases" ∨ name = "implicitly_immutable_types") [("comment", .null)] _
    (by decide) (List.reverse_perm [_, _, _]), ?_⟩
  obtain ⟨-, c, hload, rfl, -⟩ := (configuration_read_back .standard).2.2 false
    (fun _ => .error .missing)
    (fun _ => .ok (Invocation.run false (fun _ => .error .missing) ⟨none, .config⟩).stdout)
    ⟨none, .config⟩ "effective.json" rfl rfl (by decide) rfl
  exact hload

end Mutability
