import PatternScript.Wire.Decoding

/-!
Contract: records that are written field by field, and what every record that is read keeps.

A record is written as the entries of those of its fields that have a value, in the order of the
record. Read again, each entry finds its own field, so that the values go into the fields one after
the other. What every field keeps of a record while a value is put into it holds of whatever is read,
whether the record is given as an object or as an array.

Owns: the entries of a record, reading them, and invariants of reading.
Does not own: the records of the library.
-/

namespace PatternScript

/-- The values that an array or an object is made of. -/
def Json.parts : Json → List Json
  | .array items => items
  | .object fields => fields.map Prod.snd
  | _ => []

theorem exists_of_bind_eq_ok {ε α β : Type} {answer : Except ε α} {next : α → Except ε β} {after : β}
    (done : (answer >>= next) = .ok after) :
    ∃ value, answer = .ok value ∧ next value = .ok after := by
  cases answer with
  | error cause => cases done
  | ok value => exact ⟨value, rfl, done⟩

theorem exists_of_map_eq_ok {ε α β : Type} {answer : Except ε α} {change : α → β} {after : β}
    (done : answer.map change = .ok after) : ∃ value, answer = .ok value ∧ change value = after := by
  cases answer with
  | error cause => cases done
  | ok value => exact ⟨value, rfl, Except.ok.inj done⟩

namespace Wire

theorem mem_decodeAll {α : Type} {decode : Json → Decoded α} {items : List Json} {values : List α}
    (decoded : decodeAll decode items = .ok values) :
    ∀ value ∈ values, ∃ item ∈ items, decode item = .ok value := by
  induction items generalizing values with
  | nil =>
      obtain rfl := Except.ok.inj decoded
      intro value member
      exact absurd member List.not_mem_nil
  | cons item rest inductionHypothesis =>
      obtain ⟨first, firstDecoded, decoded⟩ := exists_of_bind_eq_ok decoded
      obtain ⟨others, othersDecoded, decoded⟩ := exists_of_bind_eq_ok decoded
      obtain rfl := Except.ok.inj decoded
      intro value member
      rcases List.mem_cons.mp member with rfl | inOthers
      · exact ⟨item, List.mem_cons_self, firstDecoded⟩
      · obtain ⟨other, isOther, otherDecoded⟩ := inductionHypothesis othersDecoded value inOthers
        exact ⟨other, List.mem_cons_of_mem _ isOther, otherDecoded⟩

theorem decodeAll_map {α β : Type} {decode : Json → Decoded β} {encode : α → Json} {change : α → β}
    (each : ∀ value, decode (encode value) = .ok (change value)) (values : List α) :
    decodeAll decode (values.map encode) = .ok (values.map change) := by
  induction values with
  | nil => rfl
  | cons value rest inductionHypothesis =>
      rw [List.map_cons, decodeAll, each, inductionHypothesis]
      rfl

namespace Record

variable {σ : Type} {record : Record σ}

/-! ## Entries -/

/-- The entries of the fields that have a value. -/
def entries : List (Field σ) → List (Option Json) → List (String × Json)
  | field :: fields, some given :: values => (field.name, given) :: entries fields values
  | _ :: fields, none :: values => entries fields values
  | _, _ => []

/-- There is one value for each field, and none is absent that must be given. -/
def isComplete : List (Field σ) → List (Option Json) → Bool
  | field :: fields, value :: values => (!field.required || value.isSome) && isComplete fields values
  | [], [] => true
  | _, _ => false

/-- Puts the values that are there into their fields, one after the other. -/
def fill : List (Field σ) → List (Option Json) → σ → Decoded σ
  | field :: fields, some given :: values, held => do
      let held ← field.put held given
      fill fields values held
  | _ :: fields, none :: values, held => fill fields values held
  | _, _, held => .ok held

theorem field?_of_mem (distinct : record.names.Nodup) {field : Field σ}
    (member : field ∈ record.fields) : record.field? field.name = some field := by
  unfold field? names at *
  generalize record.fields = fields at distinct member
  induction fields with
  | nil => exact absurd member List.not_mem_nil
  | cons first rest inductionHypothesis =>
      rw [List.map_cons, List.nodup_cons] at distinct
      rcases List.mem_cons.mp member with rfl | inRest
      · rw [List.find?_cons_of_pos (by simp)]
      · have other : first.name ≠ field.name := by
          intro same
          apply distinct.1
          rw [same]
          exact List.mem_map_of_mem inRest
        rw [List.find?_cons_of_neg (by simpa using other)]
        exact inductionHypothesis distinct.2 inRest

theorem putFields_entries {fields : List (Field σ)}
    (known : ∀ field ∈ fields, record.field? field.name = some field)
    (values : List (Option Json)) (held : σ) :
    record.putFields held (entries fields values) = fill fields values held := by
  induction fields generalizing values held with
  | nil => cases values <;> rfl
  | cons field rest inductionHypothesis =>
      rw [List.forall_mem_cons] at known
      match values with
      | [] => rfl
      | none :: values => exact inductionHypothesis known.2 values held
      | some given :: values =>
          rw [entries, putFields, known.1, fill]
          apply congrArg (field.put held given >>= ·)
          funext held
          exact inductionHypothesis known.2 values held

theorem exists_mem_entries {fields : List (Field σ)} {values : List (Option Json)}
    (complete : isComplete fields values = true) {field : Field σ} (member : field ∈ fields)
    (required : field.required = true) : ∃ given, (field.name, given) ∈ entries fields values := by
  induction fields generalizing values with
  | nil => exact absurd member List.not_mem_nil
  | cons first rest inductionHypothesis =>
      match values with
      | [] => simp [isComplete] at complete
      | value :: values =>
          rw [isComplete, Bool.and_eq_true] at complete
          rcases List.mem_cons.mp member with rfl | inRest
          · cases value with
            | none => simp [required] at complete
            | some given => exact ⟨given, List.mem_cons_self⟩
          · obtain ⟨given, isEntry⟩ := inductionHypothesis complete.2 inRest
            refine ⟨given, ?_⟩
            cases value with
            | none => exact isEntry
            | some _ => exact List.mem_cons_of_mem _ isEntry

/-- A record that is written field by field is read value by value. -/
theorem decode_entries (distinct : record.names.Nodup) {values : List (Option Json)}
    (complete : isComplete record.fields values = true) (format : Format) :
    record.decode format (.object (entries record.fields values)) =
      fill record.fields values record.blank := by
  have nothingMissing : record.missing? (entries record.fields values) = none := by
    unfold missing?
    rw [Option.map_eq_none_iff, List.find?_eq_none]
    intro field member
    cases required : field.required with
    | false => simp
    | true =>
        obtain ⟨given, isEntry⟩ := exists_mem_entries complete member required
        simp only [Bool.true_and, Bool.not_eq_true', Bool.not_eq_false, List.any_eq_true]
        exact ⟨_, isEntry, by simp⟩
  rw [decode, putFields_entries fun field member => field?_of_mem distinct member, nothingMissing]
  cases fill record.fields values record.blank <;> rfl

end Record

/-! ## Invariants -/

/-- The field keeps a property of records when a value of some kind is put into it. -/
def Field.Keeps {σ : Type} (accepted : Json → Prop) (holds : σ → Prop) (field : Field σ) : Prop :=
  ∀ ⦃before given after⦄, holds before → accepted given → field.put before given = .ok after →
    holds after

section Invariants

variable {σ : Type} {accepted : Json → Prop} {holds : σ → Prop}

theorem Field.keeps_of_put {α : Type} {field : Field σ} {decode : Json → Decoded α} {set : σ → α → σ}
    (puts : field.put = fun record value => (decode value).map (set record))
    (each : ∀ ⦃before given value⦄, holds before → accepted given → decode given = .ok value →
      holds (set before value)) :
    field.Keeps accepted holds := by
  intro before given after held isAccepted done
  rw [puts] at done
  obtain ⟨value, decoded, rfl⟩ := exists_of_map_eq_ok done
  exact each held isAccepted decoded

namespace Record

variable {record : Record σ}

theorem holds_putFields (each : ∀ field ∈ record.fields, field.Keeps accepted holds)
    {given : List (String × Json)} {before after : σ} (held : holds before)
    (isAccepted : ∀ entry ∈ given, accepted entry.2)
    (done : record.putFields before given = .ok after) : holds after := by
  induction given generalizing before with
  | nil => exact Except.ok.inj done ▸ held
  | cons entry rest inductionHypothesis =>
      rw [List.forall_mem_cons] at isAccepted
      obtain ⟨name, value⟩ := entry
      rw [putFields] at done
      split at done
      case h_1 field found =>
          obtain ⟨between, put, done⟩ := exists_of_bind_eq_ok done
          have member := List.mem_of_find?_eq_some found
          exact inductionHypothesis (each field member held isAccepted.1 put) isAccepted.2 done
      case h_2 =>
          -- An unknown field is passed over or refused.
          split at done
          · cases done
          · exact inductionHypothesis held isAccepted.2 done

theorem holds_putItems {format : Format} {fields : List (Field σ)}
    (each : ∀ field ∈ fields, field.Keeps accepted holds) {items : List Json} {before after : σ}
    (held : holds before) (isAccepted : ∀ item ∈ items, accepted item)
    (done : putItems format before fields items = .ok after) : holds after := by
  induction fields generalizing items before with
  | nil =>
      cases items with
      | nil => exact Except.ok.inj done ▸ held
      | cons item rest =>
          cases format with
          | json => cases done
          | toml => exact Except.ok.inj done ▸ held
  | cons field rest inductionHypothesis =>
      rw [List.forall_mem_cons] at each
      cases items with
      | nil =>
          rw [putItems] at done
          · split at done
            · cases done
            · exact Except.ok.inj done ▸ held
          · simp
      | cons item items =>
          rw [List.forall_mem_cons] at isAccepted
          obtain ⟨between, put, done⟩ := exists_of_bind_eq_ok done
          exact inductionHypothesis each.2 (each.1 held isAccepted.1 put) isAccepted.2 done

/-- What holds of the record without any field given, and is kept by every field, holds of every
record that is read. -/
theorem holds_decode (accepted : Json → Prop) (holds : σ → Prop) (blank : holds record.blank)
    (each : ∀ field ∈ record.fields, field.Keeps accepted holds) {format : Format} {value : Json}
    {after : σ} (isAccepted : ∀ part ∈ value.parts, accepted part)
    (done : record.decode format value = .ok after) : holds after := by
  cases value with
  | object given =>
      simp only [Json.parts, List.forall_mem_map] at isAccepted
      obtain ⟨between, put, done⟩ := exists_of_bind_eq_ok done
      have held := holds_putFields each blank isAccepted put
      split at done
      · cases done
      · exact Except.ok.inj done ▸ held
  | array items => exact holds_putItems each blank isAccepted done
  | null | bool | integer | float | string => cases done

end Record

end Invariants

end Wire

end PatternScript
