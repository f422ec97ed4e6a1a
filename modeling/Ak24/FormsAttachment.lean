import Ak24.FormsAffordances
import Ak24.FormsCompatible

namespace Ak24.FormsAttachment

open FormsAffordances FormsCompatible FormsModel

def newAffects (s : Affects) (made : String → Bool) : List String → List (String × Option Nat) × Affects
  | [] => ([], s)
  | name :: names =>
    let (affect, s) := akAffectNew s name (made name)
    let (affects, s) := newAffects s made names
    ((name, affect) :: affects, s)

def addAffects (form : Form) (pushed : String → Bool) : List (String × Option Nat) → Form
  | [] => form
  | (name, affect) :: affects => addAffects (addAffect form affect (pushed name)).2 pushed affects

def attach (s : Affects) (form : Form) (made pushed : String → Bool) (names : List String) : Form × Affects :=
  let (affects, s) := newAffects s made names
  (addAffects form pushed affects, s)

/-- Which affects are made and which of them have room in the list is given by
their names, which are different ones for each kind. -/
def akFormAttachBuiltinAffects (s : Affects) (form : Form) (made pushed : String → Bool) : Form × Affects :=
  match unwrap form with
  | .optional _ _ => attach s form made pushed ["is_none", "is_some"]
  | .repeatable _ _ => attach s form made pushed ["append", "pop", "push", "rest"]
  | .list _ _ => attach s form made pushed ["index", "length"]
  | .map _ _ _ => attach s form made pushed ["get", "set", "has"]
  | _ => (form, s)

def builtins : Form → List String
  | .optional _ _ => ["is_none", "is_some"]
  | .repeatable _ _ => ["append", "pop", "push", "rest"]
  | .list _ _ => ["index", "length"]
  | .map _ _ _ => ["get", "set", "has"]
  | _ => []

theorem akFormAttachBuiltinAffects_eq (s : Affects) (form : Form) (made pushed : String → Bool) :
    akFormAttachBuiltinAffects s form made pushed = attach s form made pushed (builtins (unwrap form)) := by
  rw [akFormAttachBuiltinAffects]
  cases unwrap form <;> rfl

section Added

variable {s s' : Affects} {form : Form} {affect : Nat} {name : String} {made pushed : String → Bool}

theorem affectsOf_add (form : Form) (affect : Nat) :
    affectsOf (akFormAddAffect affect form) = affectsOf form ++ [affect] := by
  cases form <;> rfl

theorem unwrap_add (form : Form) (affect : Nat) :
    unwrap (akFormAddAffect affect form) = if isNamed form then unwrap form else akFormAddAffect affect form := by
  cases form <;> rfl

theorem isNamed_add (form : Form) (affect : Nat) : isNamed (akFormAddAffect affect form) = isNamed form := by
  cases form <;> rfl

theorem unwrap_of_not_named (h : isNamed form = false) : unwrap form = form := by
  cases form with
  | named => cases h
  | primitive | compound | optional | repeatable | struct | list | map => rfl

/-- Looking an affect up by its name finds one of that name, and so does the query
for the affordance. -/
def Found (s : Affects) (form : Form) (name : String) : Prop :=
  (∃ affect, akFormGetAffect s form name = some affect ∧ (s.record affect).name = name) ∧
    akFormHasAffordance s form name = true

theorem found_iff : Found s form name ↔ ∃ affect ∈ affectsOf (unwrap form), (s.record affect).name = name := by
  constructor
  · rintro ⟨⟨affect, hget, hname⟩, -⟩
    exact ⟨affect, (akFormGetAffect_spec hget).1, hname⟩
  · intro h
    obtain ⟨affect, hget⟩ := Option.isSome_iff_exists.mp (akFormGetAffect_isSome.mpr h)
    exact ⟨⟨affect, hget, (akFormGetAffect_spec hget).2⟩, akFormHasAffordance_iff.mpr (.inl h)⟩

def attached (made pushed : String → Bool) (names : List String) : List String :=
  names.filter fun name => made name && pushed name

def addAll (form : Form) (affects : List Nat) : Form :=
  affects.foldl (fun form affect => akFormAddAffect affect form) form

theorem affectsOf_addAll (form : Form) (affects : List Nat) :
    affectsOf (addAll form affects) = affectsOf form ++ affects := by
  induction affects generalizing form with
  | nil => exact (List.append_nil _).symm
  | cons affect affects ih =>
      rw [addAll, List.foldl_cons, ← addAll, ih, affectsOf_add, List.append_assoc, List.singleton_append]

theorem unwrap_addAll (form : Form) (affects : List Nat) :
    unwrap (addAll form affects) = if isNamed form then unwrap form else addAll form affects := by
  induction affects generalizing form with
  | nil =>
      cases hnamed : isNamed form with
      | false => exact unwrap_of_not_named hnamed
      | true => rfl
  | cons affect affects ih =>
      rw [addAll, List.foldl_cons, ← addAll, ih, isNamed_add, unwrap_add]
      cases isNamed form <;> rfl

theorem akAffectNew_spec (s : Affects) (name : String) :
    akAffectNew s name true = (some s.next, ⟨Function.update s.record s.next ⟨name, []⟩, s.next + 1⟩) := rfl

theorem newAffects_spec (s : Affects) (made pushed : String → Bool) (names : List String) :
    (∀ affect < s.next, (newAffects s made names).2.record affect = s.record affect) ∧
    ∃ new : List Nat, (∀ affect ∈ new, s.next ≤ affect) ∧
      new.map (fun affect => ((newAffects s made names).2.record affect).name) = attached made pushed names ∧
      ∀ form : Form, addAffects form pushed (newAffects s made names).1 = addAll form new := by
  induction names generalizing s with
  | nil => exact ⟨fun _ _ => rfl, [], by simp, rfl, fun _ => rfl⟩
  | cons name names ih =>
      cases hmade : made name with
      | false =>
          obtain ⟨hold, new, hfresh, hnames, hadd⟩ := ih s
          have hattached : attached made pushed (name :: names) = attached made pushed names := by
            simp [attached, hmade]
          rw [newAffects, hmade, hattached]
          exact ⟨hold, new, hfresh, hnames, hadd⟩
      | true =>
          rw [newAffects, hmade, akAffectNew_spec]
          obtain ⟨hold, new, hfresh, hnames, hadd⟩ := ih ⟨Function.update s.record s.next ⟨name, []⟩, s.next + 1⟩
          refine ⟨fun affect ha => ?_, ?_⟩
          · rw [hold affect (ha.trans (Nat.lt_succ_self _))]
            exact Function.update_of_ne ha.ne _ _
          · cases hpushed : pushed name with
            | false =>
                refine ⟨new, fun affect ha => (Nat.le_succ _).trans (hfresh affect ha), ?_, fun form => ?_⟩
                · simpa [attached, hmade, hpushed] using hnames
                · simpa [addAffects, addAffect, hpushed] using hadd form
            | true =>
                refine ⟨s.next :: new, fun affect ha => ?_, ?_, fun form => ?_⟩
                · rcases List.mem_cons.mp ha with rfl | ha
                  · exact le_rfl
                  · exact (Nat.le_succ _).trans (hfresh affect ha)
                · simp only [List.map_cons, hold s.next (Nat.lt_succ_self _), Function.update_self, hnames]
                  simp [attached, hmade, hpushed]
                · simpa [addAffects, addAffect, hpushed, addAll] using hadd (akFormAddAffect s.next form)

theorem affectsOf_subset (form : Form) : affectsOf form ⊆ akFormFree form := by
  cases form <;> simp [affectsOf, akFormFree]

theorem affectsOf_unwrap_subset (form : Form) : affectsOf (unwrap form) ⊆ akFormFree form := by
  cases form with
  | named name actualForm affects =>
      intro affect ha
      exact List.mem_append_left _ (affectsOf_subset actualForm ha)
  | primitive | compound | optional | repeatable | struct | list | map => exact affectsOf_subset _

theorem found_addAll (s : Affects) (form : Form) (name : String) (new : List Nat) :
    Found s (addAll form new) name ↔ (isNamed form = false ∧ ∃ affect ∈ new, (s.record affect).name = name) ∨
      ∃ affect ∈ affectsOf (unwrap form), (s.record affect).name = name := by
  rw [found_iff, unwrap_addAll]
  cases hnamed : isNamed form with
  | true => simp
  | false =>
      rw [if_neg (by simp), affectsOf_addAll, unwrap_of_not_named hnamed]
      simp only [List.mem_append, or_and_right, exists_or, true_and]
      exact or_comm

theorem found_new {new : List Nat} {names : List String} (hmade : ∀ affect ∈ akFormFree form, affect < s.next)
    (hold : ∀ affect < s.next, s'.record affect = s.record affect) (hfresh : ∀ affect ∈ new, s.next ≤ affect)
    (hnames : new.map (fun affect => (s'.record affect).name) = names) :
    (∀ affect ∈ affectsOf (addAll form new), affect ∉ affectsOf form →
        Found s' (addAll form new) (s'.record affect).name) ↔
      isNamed form = false ∨ ∀ name ∈ names, ∃ other ∈ affectsOf (unwrap form), (s.record other).name = name := by
  have hnew : (∀ affect ∈ affectsOf (addAll form new), affect ∉ affectsOf form →
      Found s' (addAll form new) (s'.record affect).name) ↔ ∀ name ∈ names, Found s' (addAll form new) name := by
    rw [← hnames, affectsOf_addAll]
    simp only [List.forall_mem_map, List.mem_append]
    constructor
    · intro h affect ha
      exact h affect (.inr ha) fun hown => (hmade affect (affectsOf_subset form hown)).not_ge (hfresh affect ha)
    · intro h affect ha hown
      exact h affect (ha.resolve_left hown)
  have hbefore : ∀ name, (∃ other ∈ affectsOf (unwrap form), (s'.record other).name = name) ↔
      ∃ other ∈ affectsOf (unwrap form), (s.record other).name = name := by
    intro name
    refine exists_congr fun other => and_congr_right fun hother => ?_
    rw [hold other (hmade other (affectsOf_unwrap_subset form hother))]
  rw [hnew]
  simp only [found_addAll, hbefore]
  cases isNamed form with
  | true => simp
  | false =>
      rw [← hnames]
      simp only [true_and, true_or, iff_true, List.forall_mem_map]
      exact fun affect ha => .inl ⟨affect, ha, rfl⟩

end Added

/-- An affect is put on the form itself and looked for on the form that it names,
if it is a named form. -/
theorem attached_found_iff (s : Affects) (form : Form) (hmade : ∀ affect ∈ akFormFree form, affect < s.next) :
    (∀ affect granted, (addAffect form (some affect) granted).1 = 0 →
      (Found s (addAffect form (some affect) granted).2 (s.record affect).name ↔
        isNamed form = false ∨ ∃ other ∈ affectsOf (unwrap form), (s.record other).name = (s.record affect).name)) ∧
    ∀ made pushed, ∃ form' s', akFormAttachBuiltinAffects s form made pushed = (form', s') ∧
      ((∀ affect ∈ affectsOf form', affect ∉ affectsOf form → Found s' form' (s'.record affect).name) ↔
        isNamed form = false ∨ ∀ name ∈ builtins (unwrap form), made name → pushed name →
          ∃ other ∈ affectsOf (unwrap form), (s.record other).name = name) := by
  refine ⟨fun affect granted hcode => ?_, fun made pushed => ?_⟩
  · cases granted with
    | false => simp [addAffect] at hcode
    | true =>
        have hfound := found_addAll s form (s.record affect).name [affect]
        simpa [addAffect, addAll] using hfound
  · obtain ⟨hold, new, hfresh, hnames, hadd⟩ := newAffects_spec s made pushed (builtins (unwrap form))
    refine ⟨addAll form new, (newAffects s made (builtins (unwrap form))).2, ?_, ?_⟩
    · rw [akFormAttachBuiltinAffects_eq, attach, ← hadd]
    · rw [found_new hmade hold hfresh hnames]
      simp only [attached, List.mem_filter, Bool.and_eq_true, and_imp]

/-- An optional form, which has its builtins afterwards. -/
theorem attached_found_optional :
    (∀ affect ∈ akFormFree (.optional (.primitive .i32 []) []), affect < Affects.start.next) ∧
    ∃ form' s', akFormAttachBuiltinAffects Affects.start (.optional (.primitive .i32 []) []) (fun _ => true)
        (fun _ => true) = (form', s') ∧ affectsOf form' = [0, 1] ∧ Found s' form' "is_none" ∧ Found s' form' "is_some" := by
  have hmade : ∀ affect ∈ akFormFree (.optional (.primitive .i32 []) []), affect < Affects.start.next := by
    simp [akFormFree]
  obtain ⟨form', s', heq, hfound⟩ := (attached_found_iff _ _ hmade).2 (fun _ => true) (fun _ => true)
  have hall := hfound.mpr (.inl rfl)
  refine ⟨hmade, form', s', heq, ?_⟩
  cases heq
  exact ⟨rfl, hall 0 (by decide) (by decide), hall 1 (by decide) (by decide)⟩

/-- An affect is added to a named form with code 0 and not found on it, and
neither is what the builtins add to the name of an optional form. -/
theorem named_affect_not_found :
    (let (affect, s) := akAffectNew Affects.start "show" true
     let (code, form) := addAffect (akFormNewNamed "Money" (.primitive .i32 [])) affect true
     code = 0 ∧ affect = some 0 ∧ akFormGetAffect s form "show" = none ∧ akFormHasAffordance s form "show" = false) ∧
    let (form, s) := akFormAttachBuiltinAffects Affects.start (akFormNewNamed "Maybe" (.optional (.primitive .i32 []) []))
      (fun _ => true) fun _ => true
    affectsOf form = [0, 1] ∧ (s.record 0).name = "is_none" ∧ akFormGetAffect s form "is_none" = none := by
  decide

end Ak24.FormsAttachment
