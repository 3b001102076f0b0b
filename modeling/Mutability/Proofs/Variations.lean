import Mathlib.Data.List.Forall2
import Mathlib.Data.List.Nodup
import Mutability.Codec.Program

/-!
# Other ways to write a value

What is written as JSON may be handed around by programs that put the members of an object in
another order, add members of their own and leave out what is there by default. `Varies j j'` says
that `j'` is such a variation of `j`, at any depth. A written value names all its members, so the
names that may be added are those that the object does not have. An object that stands for a case
(`isCase`) has its one member and no other.

A record is read from each of its variations member by member (`record?_of_variesRecord`), and so is
a tagged value (`tagged?_of_varies`). What is given for a member (`Slot.Holds`) is a variation of
what was written, or nothing if that was the default.
-/

namespace Mutability

/-- The names of the host types that are written as an object. -/
def HostType.caseNames : List String :=
  ["primitive", "boxed", "declared", "array", "type_variable"]

namespace Json

/-- Whether these are the members of an object that stands for a case. -/
def isCase : List (String × Json) → Bool
  | [(name, _)] => HostType.caseNames.contains name
  | _ => false

/-- Whether a member with this value may be left out. -/
def isDefault : Json → Bool
  | null | bool false | arr [] => true
  | _ => false

mutual

/-- The second value is a variation of the first one. -/
inductive Varies : Json → Json → Prop
  | null : Varies null null
  | bool (b : Bool) : Varies (bool b) (bool b)
  | num (n : Number) : Varies (num n) (num n)
  | str (s : String) : Varies (str s) (str s)
  | arr {items items' : List Json} (h : VariesItems items items') :
    Varies (arr items) (arr items')
  | payload {name : String} {j j' : Json} (hcase : isCase [(name, j)] = true) (h : Varies j j') :
    Varies (obj [(name, j)]) (obj [(name, j')])
  | members {ms kept added ms' : List (String × Json)} (hcase : isCase ms = false)
    (hkept : VariesMembers ms kept)
    (hadded : ∀ m ∈ added, m.1 ∉ ms.map Prod.fst ∧ m.2.isComplete = true)
    (hperm : ms'.Perm (kept ++ added)) : Varies (obj ms) (obj ms')

/-- The items are varied one by one. -/
inductive VariesItems : List Json → List Json → Prop
  | nil : VariesItems [] []
  | cons {j j' : Json} {js js' : List Json} (h : Varies j j') (hrest : VariesItems js js') :
    VariesItems (j :: js) (j' :: js')

/-- Each member is varied or, if it is there by default, left out. -/
inductive VariesMembers : List (String × Json) → List (String × Json) → Prop
  | nil : VariesMembers [] []
  | keep {name : String} {j j' : Json} {ms kept : List (String × Json)} (h : Varies j j')
    (hrest : VariesMembers ms kept) : VariesMembers ((name, j) :: ms) ((name, j') :: kept)
  | leave {name : String} {j : Json} {ms kept : List (String × Json)} (h : j.isDefault = true)
    (hrest : VariesMembers ms kept) : VariesMembers ((name, j) :: ms) kept

end

/-! ## Objects as tables of members -/

theorem length_filter_le_one {ms : List (String × Json)} (h : (ms.map Prod.fst).Nodup)
    (name : String) : (ms.filter fun m => m.1 == name).length ≤ 1 := by
  have hcount := List.nodup_iff_count_le_one.1 h name
  rwa [List.count_eq_countP, List.countP_map, List.countP_eq_length_filter] at hcount

/-- What an object has under a name does not depend on the order of its members, nor on members of
other names. -/
theorem filter_of_perm {ms kept added : List (String × Json)} (hkept : (kept.map Prod.fst).Nodup)
    (hperm : ms.Perm (kept ++ added)) {name : String} (hadded : ∀ m ∈ added, m.1 ≠ name) :
    (ms.filter fun m => m.1 == name) = kept.filter fun m => m.1 == name := by
  have hnone : (added.filter fun m => m.1 == name) = [] := by
    rw [List.filter_eq_nil_iff]
    intro m hm
    simpa using hadded m hm
  have hfilter := hperm.filter fun m => m.1 == name
  rw [List.filter_append, hnone, List.append_nil] at hfilter
  have hlength := length_filter_le_one hkept name
  -- A list as short as this has no other order.
  generalize (kept.filter fun m => m.1 == name) = given at hfilter hlength ⊢
  match given with
  | [] => exact hfilter.eq_nil
  | [m] => exact hfilter.eq_singleton
  | _ :: _ :: _ => simp at hlength

theorem lookup_eq_head?_filter (ms : List (String × Json)) (name : String) :
    ms.lookup name = (ms.filter fun m => m.1 == name).head?.map Prod.snd := by
  induction ms with
  | nil => rfl
  | cons m rest ih =>
    obtain ⟨k, j⟩ := m
    by_cases h : k = name
    · subst h
      simp
    · have h' : (name == k) = false := by simpa using Ne.symm h
      rw [List.lookup_cons, h', List.filter_cons_of_neg (by simpa using h)]
      exact ih

theorem slotOf_congr {ms ms' : List (String × Json)} {name : String}
    (h : (ms.filter fun m => m.1 == name) = ms'.filter fun m => m.1 == name) :
    slotOf ms name = slotOf ms' name := by
  unfold slotOf
  rw [lookup_eq_head?_filter, lookup_eq_head?_filter, h]

/-- Members of other names and the order of the members do not matter for a record. -/
theorem record?_of_perm {names : List String} {ms kept added : List (String × Json)}
    (hkept : (kept.map Prod.fst).Nodup) (hperm : ms.Perm (kept ++ added))
    (hadded : ∀ m ∈ added, m.1 ∉ names) :
    record? names (obj ms) = some (names.map (slotOf kept)) := by
  have hfilter : ∀ name ∈ names,
      (ms.filter fun m => m.1 == name) = kept.filter fun m => m.1 == name := by
    intro name hname
    exact filter_of_perm hkept hperm fun m hm h => hadded m hm (h ▸ hname)
  have hrepeated : names.any (isRepeated ms) = false := by
    rw [List.any_eq_false]
    intro name hname
    have hlength := length_filter_le_one hkept name
    simp only [isRepeated, List.countP_eq_length_filter, hfilter name hname, decide_eq_true_eq]
    omega
  have hslots : names.map (slotOf ms) = names.map (slotOf kept) :=
    List.map_congr_left fun name hname => slotOf_congr (hfilter name hname)
  rw [record?, hrepeated, hslots]
  rfl

theorem slotOf_cons_self (name : String) (j : Json) (ms : List (String × Json)) :
    slotOf ((name, j) :: ms) name = .given j := by
  simp [slotOf]

theorem slotOf_cons_of_ne {name name' : String} (h : name ≠ name') (j : Json)
    (ms : List (String × Json)) : slotOf ((name', j) :: ms) name = slotOf ms name := by
  have hne : (name == name') = false := by simpa using h
  simp [slotOf, List.lookup_cons, hne]

theorem slotOf_of_not_mem {name : String} {ms : List (String × Json)}
    (h : name ∉ ms.map Prod.fst) : slotOf ms name = .omitted := by
  induction ms with
  | nil => rfl
  | cons m rest ih =>
    rw [List.map_cons, List.mem_cons, not_or] at h
    rw [slotOf_cons_of_ne h.1 m.2 rest, ih h.2]

/-! ## Depth and completeness -/

theorem depthItems_le_iff {n : Nat} {items : List Json} :
    depthItems items ≤ n ↔ ∀ j ∈ items, j.depth ≤ n := by
  induction items with
  | nil => simp [depthItems]
  | cons j rest ih => rw [depthItems, Nat.max_le, ih, List.forall_mem_cons]

theorem depthMembers_le_iff {n : Nat} {ms : List (String × Json)} :
    depthMembers ms ≤ n ↔ ∀ m ∈ ms, m.2.depth ≤ n := by
  induction ms with
  | nil => simp [depthMembers]
  | cons m rest ih => rw [depthMembers, Nat.max_le, ih, List.forall_mem_cons]

theorem isCompleteMembers_iff {ms : List (String × Json)} :
    isCompleteMembers ms = true ↔ ∀ m ∈ ms, m.2.isComplete = true := by
  induction ms with
  | nil => simp [isCompleteMembers]
  | cons m rest ih => simp [isCompleteMembers, ih]

theorem isCompleteItems_iff {items : List Json} :
    isCompleteItems items = true ↔ ∀ j ∈ items, j.isComplete = true := by
  induction items with
  | nil => simp [isCompleteItems]
  | cons j rest ih => simp [isCompleteItems, ih]

theorem isComplete_ofOption {α : Type} {write : α → Json} (h : ∀ a, (write a).isComplete = true)
    (o : Option α) : (ofOption write o).isComplete = true := by
  cases o with
  | none => rfl
  | some a => exact h a

theorem isComplete_ofList {α : Type} {write : α → Json} {as : List α}
    (h : ∀ a ∈ as, (write a).isComplete = true) : (ofList write as).isComplete = true := by
  show isCompleteItems (as.map write) = true
  rw [isCompleteItems_iff]
  simpa using h

mutual

theorem Varies.isComplete : ∀ {j j' : Json}, Varies j j' → j'.isComplete = true
  | _, _, .null => rfl
  | _, _, .bool _ => rfl
  | _, _, .num _ => rfl
  | _, _, .str _ => rfl
  | _, _, .arr h => h.isComplete
  | _, _, .payload _ h => by simp [Json.isComplete, isCompleteMembers, h.isComplete]
  | _, _, .members _ hkept hadded hperm => by
    show isCompleteMembers _ = true
    rw [isCompleteMembers_iff]
    intro m hm
    rcases List.mem_append.1 (hperm.mem_iff.1 hm) with hm | hm
    · exact isCompleteMembers_iff.1 hkept.isComplete m hm
    · exact (hadded m hm).2

theorem VariesItems.isComplete : ∀ {js js' : List Json},
    VariesItems js js' → isCompleteItems js' = true
  | _, _, .nil => rfl
  | _, _, .cons h hrest => by simp [isCompleteItems, h.isComplete, hrest.isComplete]

theorem VariesMembers.isComplete : ∀ {ms kept : List (String × Json)},
    VariesMembers ms kept → isCompleteMembers kept = true
  | _, _, .nil => rfl
  | _, _, .keep h hrest => by simp [isCompleteMembers, h.isComplete, hrest.isComplete]
  | _, _, .leave _ hrest => hrest.isComplete

end

mutual

/-- A value is a variation of itself. -/
theorem varies_self : ∀ j : Json, j.isComplete = true → Varies j j
  | null, _ => .null
  | bool b, _ => .bool b
  | num n, _ => .num n
  | str s, _ => .str s
  | arr items, h => .arr (variesItems_self items h)
  | obj ms, h => by
    have hms := variesMembers_self ms h
    cases hcase : isCase ms with
    | false => exact @Varies.members ms ms [] ms hcase hms (by simp) (by simp)
    | true =>
      match ms, hms with
      | [(name, j)], .keep hj _ => exact .payload hcase hj

theorem variesItems_self : ∀ items : List Json, isCompleteItems items = true →
    VariesItems items items
  | [], _ => .nil
  | j :: items, h => by
    rw [isCompleteItems, Bool.and_eq_true] at h
    exact .cons (varies_self j h.1) (variesItems_self items h.2)

theorem variesMembers_self : ∀ ms : List (String × Json), isCompleteMembers ms = true →
    VariesMembers ms ms
  | [], _ => .nil
  | (name, j) :: ms, h => by
    rw [isCompleteMembers, Bool.and_eq_true] at h
    exact .keep (varies_self j h.1) (variesMembers_self ms h.2)

end

/-! ## Records and tagged values -/

/-- The members of a record are varied. -/
def VariesRecord (ms ms' : List (String × Json)) : Prop :=
  ∃ kept added, VariesMembers ms kept ∧
    (∀ m ∈ added, m.1 ∉ ms.map Prod.fst ∧ m.2.isComplete = true) ∧ ms'.Perm (kept ++ added)

theorem Varies.exists_record {ms : List (String × Json)} (hcase : isCase ms = false) {j' : Json}
    (h : Varies (obj ms) j') : ∃ ms', j' = obj ms' ∧ VariesRecord ms ms' := by
  cases h with
  | payload hcase' _ =>
    rw [hcase] at hcase'
    cases hcase'
  | members _ hkept hadded hperm => exact ⟨_, rfl, _, _, hkept, hadded, hperm⟩

/-- A variation of a case has the same name and a variation of the payload. -/
theorem Varies.exists_payload {name : String} {j j' : Json} (hcase : isCase [(name, j)] = true)
    (h : Varies (obj [(name, j)]) j') :
    ∃ p, j' = obj [(name, p)] ∧ Varies j p ∧ p.depth < j'.depth := by
  cases h with
  | members hcase' =>
    rw [hcase] at hcase'
    cases hcase'
  | @payload _ _ p _ h =>
    refine ⟨p, rfl, h, ?_⟩
    simp [depth, depthMembers]

/-- What is given for a member that is written as `j`: a variation of `j`, nested less than `bound`
deep, or nothing if the member may be left out. -/
inductive Slot.Holds (bound : Nat) (j : Json) : Slot → Prop
  | given {j' : Json} (h : Varies j j') (hdepth : j'.depth < bound) :
    Slot.Holds bound j (.given j')
  | omitted (h : j.isDefault = true) : Slot.Holds bound j .omitted

theorem VariesMembers.sublist {ms kept : List (String × Json)} (h : VariesMembers ms kept) :
    (kept.map Prod.fst).Sublist (ms.map Prod.fst) := by
  induction ms generalizing kept with
  | nil =>
    cases h
    exact .slnil
  | cons m rest ih =>
    cases h with
    | keep _ hrest => exact (ih hrest).cons_cons _
    | leave _ hrest => exact (ih hrest).cons _

theorem VariesMembers.holds {bound : Nat} {ms kept : List (String × Json)}
    (h : VariesMembers ms kept) (hnodup : (ms.map Prod.fst).Nodup)
    (hdepth : ∀ m ∈ kept, m.2.depth < bound) :
    List.Forall₂ (fun m s => Slot.Holds bound m.2 s) ms ((ms.map Prod.fst).map (slotOf kept)) := by
  induction ms generalizing kept with
  | nil => exact .nil
  | cons m rest ih =>
    rw [List.map_cons, List.nodup_cons] at hnodup
    cases h with
    | @keep name j j' _ kept h hrest =>
      have hslots : (rest.map Prod.fst).map (slotOf ((name, j') :: kept)) =
          (rest.map Prod.fst).map (slotOf kept) := by
        apply List.map_congr_left
        intro name' hname'
        have hne : name' ≠ name := fun he => hnodup.1 (he ▸ hname')
        exact slotOf_cons_of_ne hne j' kept
      rw [List.map_cons, List.map_cons, slotOf_cons_self, hslots]
      exact .cons (.given h (hdepth _ List.mem_cons_self))
        (ih hrest hnodup.2 fun m hm => hdepth m (List.mem_cons_of_mem _ hm))
    | @leave name j _ _ h hrest =>
      have hnone : slotOf kept name = .omitted :=
        slotOf_of_not_mem fun hm => hnodup.1 (hrest.sublist.subset hm)
      rw [List.map_cons, List.map_cons, hnone]
      exact .cons (.omitted h) (ih hrest hnodup.2 hdepth)

/-- A variation of a record gives for each member a variation of what is written there, or nothing
where the default is. -/
theorem record?_of_variesRecord (bound : Nat) {ms ms' : List (String × Json)}
    (hnodup : (ms.map Prod.fst).Nodup) (h : VariesRecord ms ms')
    (hdepth : (obj ms').depth ≤ bound) :
    ∃ slots, record? (ms.map Prod.fst) (obj ms') = some slots ∧
      List.Forall₂ (fun m s => Slot.Holds bound m.2 s) ms slots := by
  obtain ⟨kept, added, hkept, hadded, hperm⟩ := h
  refine ⟨_, record?_of_perm (hnodup.sublist hkept.sublist) hperm fun m hm => (hadded m hm).1,
    hkept.holds hnodup fun m hm => ?_⟩
  have hmem : m ∈ ms' := hperm.mem_iff.2 (List.mem_append_left _ hm)
  have hle := depthMembers_le_iff.1 (Nat.le_refl _) _ hmem
  rw [depth] at hdepth
  omega

theorem record?_of_varies (names : List String) {ms : List (String × Json)}
    (hnames : ms.map Prod.fst = names) (hnodup : names.Nodup) (hcase : isCase ms = false)
    {j' : Json} (h : Varies (obj ms) j') :
    ∃ slots, record? names j' = some slots ∧
      List.Forall₂ (fun m s => Slot.Holds j'.depth m.2 s) ms slots := by
  subst hnames
  obtain ⟨ms', rfl, hms⟩ := h.exists_record hcase
  exact record?_of_variesRecord _ hnodup hms (Nat.le_refl _)

theorem depthMembers_filter_le (f : String × Json → Bool) (ms : List (String × Json)) :
    depthMembers (ms.filter f) ≤ depthMembers ms := by
  induction ms with
  | nil => simp [depthMembers]
  | cons m rest ih =>
    by_cases h : f m = true
    · rw [List.filter_cons_of_pos h, depthMembers, depthMembers]
      omega
    · rw [List.filter_cons_of_neg h, depthMembers]
      omega

theorem exists_tagged?_of_varies {tag name : String} {ms : List (String × Json)}
    (hcase : isCase ((tag, str name) :: ms) = false)
    (hnodup : (((tag, str name) :: ms).map Prod.fst).Nodup) {j' : Json}
    (h : Varies (obj ((tag, str name) :: ms)) j') :
    ∃ ms', j'.tagged? tag = some (str name, obj ms') ∧ VariesRecord ms ms' ∧
      (obj ms').depth ≤ j'.depth := by
  have hcomplete := h.isComplete
  obtain ⟨ms', rfl, kept, added, hkept, hadded, hperm⟩ := h.exists_record hcase
  obtain ⟨kept, rfl, hrest⟩ : ∃ kept', kept = (tag, str name) :: kept' ∧
      VariesMembers ms kept' := by
    cases hkept with
    | keep h hrest =>
      cases h
      exact ⟨_, rfl, hrest⟩
    | leave h _ => cases h
  have hnames := hnodup.sublist hkept.sublist
  -- The tag stands nowhere but in the member that is written for it.
  have hrests : ∀ m ∈ kept ++ added, m.1 ≠ tag := by
    rintro m hm rfl
    rw [List.map_cons, List.nodup_cons] at hnames
    rcases List.mem_append.1 hm with hm | hm
    · exact hnames.1 (List.mem_map.2 ⟨m, hm, rfl⟩)
    · exact (hadded m hm).1 List.mem_cons_self
  have htag : (ms'.filter fun m => m.1 == tag) = [(tag, str name)] := by
    rw [filter_of_perm hnames hperm fun m hm => hrests m (List.mem_append_right _ hm),
      List.filter_cons_of_pos (by simp), List.filter_eq_nil_iff.2]
    intro m hm
    simpa using hrests m (List.mem_append_left _ hm)
  have hother : (ms'.filter fun m => m.1 != tag).Perm (kept ++ added) := by
    have hself : ((kept ++ added).filter fun m => m.1 != tag) = kept ++ added := by
      rw [List.filter_eq_self]
      intro m hm
      simpa using hrests m hm
    have hfilter := hperm.filter fun m => m.1 != tag
    rwa [List.cons_append, List.filter_cons_of_neg (by simp), hself] at hfilter
  refine ⟨_, ?_, ⟨kept, added, hrest, fun m hm => ⟨?_, (hadded m hm).2⟩, hother⟩, ?_⟩
  · rw [tagged?, if_pos hcomplete]
    simp only [htag]
  · intro hmem
    exact (hadded m hm).1 (List.mem_cons_of_mem _ hmem)
  · rw [depth, depth]
    exact Nat.succ_le_succ (depthMembers_filter_le _ _)

/-- A variation of a tagged value has the tag, and beside it a variation of the members. -/
theorem tagged?_of_varies (bound : Nat) {tag name : String} (names : List String)
    {ms : List (String × Json)} (hnames : ms.map Prod.fst = names) (hnodup : (tag :: names).Nodup)
    (hcase : isCase ((tag, str name) :: ms) = false) {j' : Json}
    (h : Varies (obj ((tag, str name) :: ms)) j') (hdepth : j'.depth ≤ bound) :
    ∃ rest slots, j'.tagged? tag = some (str name, rest) ∧ rest.isNoMembers = true ∧
      record? names rest = some slots ∧
      List.Forall₂ (fun m s => Slot.Holds bound m.2 s) ms slots := by
  subst hnames
  obtain ⟨ms', htag, hms, hle⟩ := exists_tagged?_of_varies hcase hnodup h
  obtain ⟨slots, hrecord, hslots⟩ :=
    record?_of_variesRecord bound (List.nodup_cons.1 hnodup).2 hms (Nat.le_trans hle hdepth)
  exact ⟨_, slots, htag, rfl, hrecord, hslots⟩

/-! ## Reading from a variation -/

variable {α : Type}

/-- The value that is written as `j` is read from each of its variations that is nested less than
`bound` deep. -/
def Reads (bound : Nat) (read : Json → Option α) (j : Json) (a : α) : Prop :=
  ∀ j', Varies j j' → j'.depth < bound → read j' = some a

theorem reads_string (bound : Nat) (s : String) : Reads bound string? (str s) s := by
  intro j' h _
  cases h
  rfl

theorem mapM_of_variesItems {bound : Nat} {write : α → Json} {read : Json → Option α}
    {as : List α} {js : List Json} (h : VariesItems (as.map write) js)
    (hdepth : ∀ j ∈ js, j.depth < bound) (hread : ∀ a ∈ as, Reads bound read (write a) a) :
    js.mapM read = some as := by
  induction as generalizing js with
  | nil =>
    cases h
    rfl
  | cons a rest ih =>
    cases h with
    | @cons _ j _ js h hrest =>
      have hfirst : read j = some a :=
        hread a List.mem_cons_self j h (hdepth j List.mem_cons_self)
      have hothers : js.mapM read = some rest :=
        ih hrest (fun j hj => hdepth j (List.mem_cons_of_mem _ hj))
          fun a ha => hread a (List.mem_cons_of_mem _ ha)
      rw [List.mapM_cons, hfirst, hothers]
      rfl

theorem Varies.ne_null {j j' : Json} (h : Varies j j') (hj : j.isDefault = false) :
    j' ≠ Json.null := by
  rintro rfl
  cases h
  cases hj

namespace Slot.Holds

variable {bound : Nat} {s : Slot}

theorem required {read : Json → Option α} {j : Json} {a : α} (h : Slot.Holds bound j s)
    (hj : j.isDefault = false) (hread : Reads bound read j a) : s.required read = some a := by
  cases h with
  | given h hdepth => exact hread _ h hdepth
  | omitted h =>
    rw [hj] at h
    cases h

theorem text {t : String} (h : Slot.Holds bound (str t) s) : s.required string? = some t :=
  h.required rfl (reads_string bound t)

theorem flag {b : Bool} (h : Slot.Holds bound (.bool b) s) :
    s.withDefault false bool? = some b := by
  cases h with
  | given h _ =>
    cases h
    rfl
  | omitted h =>
    cases b with
    | false => rfl
    | true => cases h

theorem optional {write : α → Json} {read : Json → Option α} {o : Option α}
    (h : Slot.Holds bound (ofOption write o) s) (hwrite : ∀ a, (write a).isDefault = false)
    (hread : ∀ a, o = some a → Reads bound read (write a) a) : s.optional read = some o := by
  cases o with
  | none =>
    cases h with
    | given h _ =>
      cases h
      rfl
    | omitted _ => rfl
  | some a =>
    cases h with
    | given h hdepth =>
      have hnull := h.ne_null (hwrite a)
      have hsome := hread a rfl _ h hdepth
      show nullable read _ = _
      unfold nullable
      split
      · exact absurd rfl hnull
      · rw [hsome]
        rfl
    | omitted h => exact absurd h (by simp [ofOption, hwrite])

theorem optionalText {o : Option String} (h : Slot.Holds bound (textOrNull o) s) :
    s.optional string? = some o :=
  h.optional (fun _ => rfl) fun t _ => reads_string bound t

theorem list {write : α → Json} {read : Json → Option α} {as : List α}
    (h : Slot.Holds bound (ofList write as) s)
    (hread : ∀ a ∈ as, Reads bound read (write a) a) :
    s.withDefault [] (list? read) = some as := by
  cases h with
  | given h hdepth =>
    cases h with
    | arr hitems =>
      refine mapM_of_variesItems hitems (fun j hj => ?_) hread
      have hle := depthItems_le_iff.1 (Nat.le_refl _) _ hj
      rw [depth] at hdepth
      omega
  | omitted h =>
    cases as with
    | nil => rfl
    | cons a rest => cases h

end Slot.Holds

end Json

end Mutability
