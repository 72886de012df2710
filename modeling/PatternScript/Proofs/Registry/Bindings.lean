import Mathlib.Data.List.Induction
import Mathlib.Data.List.Nodup
import PatternScript.Registry

/-!
Contract: entries that keep the order in which they first came.

A key that is bound again keeps its place and gets the new value. So after any number of bindings the
keys stand in the order of their first binding and each has the value of its last one.

Owns: names in the order of their first occurrence, and what a sequence of bindings leaves behind.
Does not own: what is bound.
-/

namespace PatternScript

/-! ## First occurrences -/

/-- A name at the end of a list is kept if it is not there before. -/
theorem eraseDups_concat (names : List String) (name : String) :
    (names ++ [name]).eraseDups =
      if name ∈ names then names.eraseDups else names.eraseDups ++ [name] := by
  rw [List.eraseDups_append, List.removeAll]
  by_cases known : name ∈ names
  · simp [known]
  · simp [known, List.eraseDups_cons]

theorem nodup_eraseDups (names : List String) : names.eraseDups.Nodup := by
  induction names using List.reverseRecOn with
  | nil => exact List.nodup_nil
  | append_singleton names name inductionHypothesis =>
      rw [eraseDups_concat]
      split
      · exact inductionHypothesis
      case isFalse isNew =>
          rw [List.nodup_append]
          refine ⟨inductionHypothesis, List.nodup_singleton name, ?_⟩
          intro other member last isLast same
          rw [List.mem_singleton] at isLast
          rw [same, isLast, List.mem_eraseDups] at member
          exact isNew member

/-- Names that differ are their own first occurrences. -/
theorem eraseDups_of_nodup {names : List String} (distinct : names.Nodup) :
    names.eraseDups = names := by
  induction names using List.reverseRecOn with
  | nil => rfl
  | append_singleton names name inductionHypothesis =>
      obtain ⟨distinctNames, -, apart⟩ := List.nodup_append.mp distinct
      have isNew : name ∉ names := fun member => apart name member name List.mem_cons_self rfl
      rw [eraseDups_concat, if_neg isNew, inductionHypothesis distinctNames]

/-! ## Bindings -/

namespace Registry

variable {α β : Type}

/-- The values that a list of bindings gives to a key, in order. -/
def valuesOf (key : String) (entries : List (String × α)) : List α :=
  entries.filterMap fun entry => if entry.1 = key then some entry.2 else none

theorem map_fst_bind (key : String) (value : α) (bindings : List (String × α)) :
    (bind key value bindings).map Prod.fst =
      if key ∈ bindings.map Prod.fst then bindings.map Prod.fst
      else bindings.map Prod.fst ++ [key] := by
  induction bindings with
  | nil => rfl
  | cons entry rest inductionHypothesis =>
      obtain ⟨bound, held⟩ := entry
      rw [bind]
      by_cases same : bound = key
      · simp [same]
      · rw [if_neg same, List.map_cons, inductionHypothesis]
        have differ : key ≠ bound := Ne.symm same
        by_cases later : key ∈ rest.map Prod.fst
        · simp only [later, List.map_cons, List.mem_cons, or_true, ↓reduceIte]
        · simp only [later, List.map_cons, List.mem_cons, differ, or_false, ↓reduceIte,
            List.cons_append]

theorem lookup_bind (key : String) (value : α) (bindings : List (String × α)) (other : String) :
    (bind key value bindings).lookup other =
      if other = key then some value else bindings.lookup other := by
  have lookup_cons : ∀ (bound : String) (held : α) (rest : List (String × α)),
      List.lookup other ((bound, held) :: rest) =
        if other = bound then some held else List.lookup other rest := by
    intro bound held rest
    by_cases same : other = bound
    · simp [same]
    · simp [List.lookup_cons, same, beq_false_of_ne same]
  induction bindings with
  | nil => rw [bind, lookup_cons]
  | cons entry rest inductionHypothesis =>
      obtain ⟨bound, held⟩ := entry
      rw [bind]
      by_cases isBound : bound = key
      · subst isBound
        rw [if_pos rfl, lookup_cons, lookup_cons]
        split <;> rfl
      · rw [if_neg isBound, lookup_cons, lookup_cons, inductionHypothesis]
        by_cases same : other = bound
        · subst same
          rw [if_pos rfl, if_neg isBound, if_pos rfl]
        · rw [if_neg same, if_neg same]

theorem map_bind (change : α → β) (key : String) (value : α) (bindings : List (String × α)) :
    (bind key value bindings).map (Prod.map id change) =
      bind key (change value) (bindings.map (Prod.map id change)) := by
  induction bindings with
  | nil => rfl
  | cons entry rest inductionHypothesis =>
      simp only [bind, List.map_cons, Prod.map, id]
      split
      · rfl
      · rw [List.map_cons, inductionHypothesis]
        rfl

/-- Makes bindings one after the other. -/
def bindAll (bindings entries : List (String × α)) : List (String × α) :=
  entries.foldl (fun bindings entry => bind entry.1 entry.2 bindings) bindings

theorem bindAll_append (bindings entries more : List (String × α)) :
    bindAll bindings (entries ++ more) = bindAll (bindAll bindings entries) more :=
  List.foldl_append

theorem bindAll_concat (bindings entries : List (String × α)) (entry : String × α) :
    bindAll bindings (entries ++ [entry]) = bind entry.1 entry.2 (bindAll bindings entries) :=
  bindAll_append bindings entries [entry]

/-- Keys stand in the order of their first binding. -/
theorem map_fst_bindAll (entries : List (String × α)) :
    (bindAll [] entries).map Prod.fst = (entries.map Prod.fst).eraseDups := by
  induction entries using List.reverseRecOn with
  | nil => rfl
  | append_singleton entries entry inductionHypothesis =>
      rw [bindAll_concat, map_fst_bind, inductionHypothesis, List.map_append, List.map_singleton,
        eraseDups_concat]
      simp only [List.mem_eraseDups]

/-- A key has the value of its last binding. -/
theorem lookup_bindAll (entries : List (String × α)) (key : String) :
    (bindAll [] entries).lookup key = (valuesOf key entries).getLast? := by
  induction entries using List.reverseRecOn with
  | nil => rfl
  | append_singleton entries entry inductionHypothesis =>
      rw [bindAll_concat, lookup_bind, inductionHypothesis, valuesOf, valuesOf,
        List.filterMap_append]
      by_cases same : key = entry.1
      · simp [same]
      · simp [same, Ne.symm same]

theorem map_bindAll (change : α → β) (entries : List (String × α)) :
    (bindAll [] entries).map (Prod.map id change) =
      bindAll [] (entries.map (Prod.map id change)) := by
  induction entries using List.reverseRecOn with
  | nil => rfl
  | append_singleton entries entry inductionHypothesis =>
      rw [bindAll_concat, map_bind, inductionHypothesis, List.map_append, List.map_singleton,
        bindAll_concat]
      rfl

theorem bind_of_new {key : String} {bindings : List (String × α)}
    (isNew : key ∉ bindings.map Prod.fst) (value : α) :
    bind key value bindings = bindings ++ [(key, value)] := by
  induction bindings with
  | nil => rfl
  | cons entry rest inductionHypothesis =>
      rw [List.map_cons, List.mem_cons, not_or] at isNew
      rw [bind, if_neg (Ne.symm isNew.1), inductionHypothesis isNew.2, List.cons_append]

/-- Bindings with different keys stay as they are. -/
theorem bindAll_of_nodup {entries : List (String × α)} (distinct : (entries.map Prod.fst).Nodup) :
    bindAll [] entries = entries := by
  induction entries using List.reverseRecOn with
  | nil => rfl
  | append_singleton entries entry inductionHypothesis =>
      rw [List.map_append, List.map_singleton] at distinct
      obtain ⟨distinctEntries, -, apart⟩ := List.nodup_append.mp distinct
      have isNew : entry.1 ∉ entries.map Prod.fst := fun member =>
        apart entry.1 member entry.1 List.mem_cons_self rfl
      rw [bindAll_concat, inductionHypothesis distinctEntries, bind_of_new isNew]

/-- Bindings with different keys are determined by their keys and the values of these. -/
theorem eq_filterMap_lookup {bindings : List (String × α)}
    (distinct : (bindings.map Prod.fst).Nodup) :
    bindings = (bindings.map Prod.fst).filterMap fun key =>
      (bindings.lookup key).map fun value => (key, value) := by
  induction bindings with
  | nil => rfl
  | cons entry rest inductionHypothesis =>
      obtain ⟨key, value⟩ := entry
      rw [List.map_cons, List.nodup_cons] at distinct
      have elsewhere : ∀ other ∈ rest.map Prod.fst,
          ((key, value) :: rest).lookup other = rest.lookup other := by
        intro other member
        have differ : other ≠ key := by
          rintro rfl
          exact distinct.1 member
        simp [List.lookup_cons, beq_false_of_ne differ]
      have atHead : ((key, value) :: rest).lookup key = some value := by
        simp
      have atRest : (rest.map Prod.fst).filterMap (fun other =>
          (((key, value) :: rest).lookup other).map fun held => (other, held)) = rest := by
        rw [List.filterMap_congr fun other member => by rw [elsewhere other member],
          ← inductionHypothesis distinct.2]
      rw [List.map_cons, List.filterMap_cons, atHead, atRest]
      rfl

/-- Bindings in closed form. -/
theorem bindAll_eq (entries : List (String × α)) :
    bindAll [] entries = (entries.map Prod.fst).eraseDups.filterMap fun key =>
      (valuesOf key entries).getLast?.map fun value => (key, value) := by
  have distinct : ((bindAll [] entries).map Prod.fst).Nodup := by
    rw [map_fst_bindAll]
    exact nodup_eraseDups _
  have closed := eq_filterMap_lookup distinct
  simpa only [map_fst_bindAll, lookup_bindAll] using closed

end Registry

end PatternScript
