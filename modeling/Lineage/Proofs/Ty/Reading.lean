import Lineage.Proofs.Json.Record
import Lineage.Proofs.Path.Json
import Lineage.Proofs.Ty.Json
import Lineage.Proofs.Ty.Membership

set_option autoImplicit false

/-!
# Types and schemas are read back

## Main definitions

* `Lineage.Ty.Proper`: what the parts of a type can hold.
* `Lineage.Schema.Proper`: the same of a schema.

## Main results

* `Lineage.Ty.ofJson?_toJson`: a proper type is read back from its value.
* `Lineage.Schema.ofJson?_toJson`: so is a proper schema.
-/

namespace Lineage

open Json

/-! ### What types hold -/

namespace Ty

/-- What a leaf can hold: whole numbers of 64 bits and finite doubles. -/
def Leaf.Proper : Leaf → Prop
  | .integer min max _ => Number.IsInt64 min ∧ Number.IsInt64 max
  | .enum nameValues _ => ∀ entry ∈ nameValues, Number.IsInt64 entry.2
  | .float min max _ => Binary64.isFinite min = true ∧ Binary64.isFinite max = true
  | _ => True

/-- What a wrapper can hold: whole numbers of 64 bits without sign. -/
def Wrapper.Proper : Wrapper → Prop
  | .list maxSize => Number.IsNat64 maxSize
  | .array shape => ∀ n ∈ shape, Number.IsNat64 n
  | _ => True

/-- What a type can hold: whole numbers that fit their words, finite doubles, and properties in the
order of their keys. -/
inductive Proper : Ty → Prop
  /-- A leaf. -/
  | leaf {info : Info} {content : Leaf} (properties : info.properties.Sorted)
      (range : Leaf.Proper content) : Proper (.leaf info content)
  /-- A struct or a union. -/
  | members {info : Info} {form : Form} {fields : List (String × Ty)}
      (properties : info.properties.Sorted) (below : ∀ member ∈ fields, Proper member.2) :
      Proper (.members info form fields)
  /-- A wrapped type. -/
  | wrapped {info : Info} {wrapper : Wrapper} {inner : Ty} (properties : info.properties.Sorted)
      (range : Wrapper.Proper wrapper) (inside : Proper inner) :
      Proper (.wrapped info wrapper inner)
  /-- Candidates. -/
  | hypothesis {info : Info} {types : List (Ty × Float)} (properties : info.properties.Sorted)
      (scores : ∀ candidate ∈ types, Binary64.isFinite candidate.2 = true)
      (candidates : ∀ candidate ∈ types, Proper candidate.1) : Proper (.hypothesis info types)

/-! ### Types -/

/-- The name and the properties of a type are read back, and its kind is found. -/
lemma ofJson?_infoJson {info : Info} (h : info.properties.Sorted) (kind : Json) :
    ofJson? (infoJson kind info) = ofKind? info kind := by
  have hproperties : textDict? "properties" (("kind", kind) ::
      optionalMember "name" .string info.name ++ dictMember "properties" info.properties) =
        some info.properties := by
    rw [textDict?_append ?_, textDict?_dictMember h]
    cases info.name <;> simp [optionalMember]
  have hname : nullable? "name" asString? (("kind", kind) :: optionalMember "name" .string info.name
      ++ dictMember "properties" info.properties) = some info.name := by
    cases info.name <;> cases info.properties <;>
      simp [nullable?, Json.lookup?, optionalMember, dictMember, asString?]
  have hinfo : infoOfMembers? (("kind", kind) :: optionalMember "name" .string info.name
      ++ dictMember "properties" info.properties) = some info := by
    rw [infoOfMembers?, hname, hproperties]
    rfl
  rw [infoJson, List.singleton_append, ofJson?, hinfo]
  simp [kindIn?]

/-- The stored forms are read back from their names. -/
lemma asChoice?_choiceName :
    (∀ base, asChoice? idBases (choiceName idBases base) = some base) ∧
      (∀ base, asChoice? integerBases (choiceName integerBases base) = some base) ∧
      (∀ base, asChoice? floatBases (choiceName floatBases base) = some base) ∧
      ∀ base, asChoice? datetimeBases (choiceName datetimeBases base) = some base := by
  refine ⟨?_, ?_, ?_, ?_⟩ <;> rintro (_ | _ | _ | _) <;> rfl

/-- A leaf is read back from its kind. -/
lemma ofKind?_leafJson (info : Info) {content : Leaf} (h : Leaf.Proper content) :
    ofKind? info (leafJson content) = some (.leaf info content) := by
  obtain ⟨hid, hinteger, hfloat, hdatetime⟩ := asChoice?_choiceName
  cases content with
  | null | unit | boolean | bytes => simp [leafJson, ofKind?, leafOfName?]
  | id unique base reference =>
    cases reference with
    | none =>
      simp [leafJson, kindJson, ofKind?, formOfName?, wrapperOfMembers?, leafOfMembers?,
        required?, defaulted?, nullable?, Json.lookup?, optionalMember, asBool?, hid]
    | some path =>
      have hpath : ∃ ms, path.toJson = .object ms := by
        obtain ⟨label, _ | ⟨p, ps⟩⟩ := path <;> exact ⟨_, rfl⟩
      obtain ⟨ms, hms⟩ := hpath
      have hread := Path.ofJson?_toJson path
      rw [hms] at hread
      simp [leafJson, kindJson, ofKind?, formOfName?, wrapperOfMembers?, leafOfMembers?,
        required?, defaulted?, nullable?, Json.lookup?, optionalMember, asBool?, hid, hms, hread]
  | integer min max base =>
    simp [leafJson, kindJson, ofKind?, formOfName?, wrapperOfMembers?, leafOfMembers?,
      required?, defaulted?, Json.lookup?, asInt64?_int h.1, asInt64?_int h.2, hinteger]
  | enum nameValues ordered =>
    have hentry : ∀ e ∈ nameValues, asPair? asString? asInt64? (.array [.string e.1, .int e.2])
        = some e := fun e he => by simp [asPair?, asString?, asInt64?_int (h e he)]
    have hread := asListOf?_map hentry
    simp [leafJson, kindJson, ofKind?, formOfName?, wrapperOfMembers?, leafOfMembers?,
      required?, defaulted?, Json.lookup?, asBool?, hread]
  | float min max base =>
    simp [leafJson, kindJson, ofKind?, formOfName?, wrapperOfMembers?, leafOfMembers?,
      required?, defaulted?, Json.lookup?, asFloat?_ofFloat h.1, asFloat?_ofFloat h.2, hfloat]
  | text encoding =>
    simp [leafJson, kindJson, ofKind?, formOfName?, wrapperOfMembers?, leafOfMembers?,
      required?, Json.lookup?, asString?]
  | datetime format min max base =>
    simp [leafJson, kindJson, ofKind?, formOfName?, wrapperOfMembers?, leafOfMembers?,
      required?, defaulted?, Json.lookup?, asString?, hdatetime]

/-- Members are read back if their types are. -/
lemma fieldsOf?_fieldsJson {fields : List (String × Ty)}
    (h : ∀ member ∈ fields, ofJson? member.2.toJson = some member.2) :
    fieldsOf? (fieldsJson fields) = some fields := by
  induction fields with
  | nil => rw [fieldsJson, fieldsOf?]
  | cons field fields ih =>
    obtain ⟨hfirst, hrest⟩ := List.forall_mem_cons.mp h
    rw [fieldsJson, fieldsOf?, hfirst, ih hrest]
    rfl

/-- Candidates are read back if their types are and their scores are finite. -/
lemma typesOf?_scoredJson {types : List (Ty × Float)}
    (h : ∀ candidate ∈ types, ofJson? candidate.1.toJson = some candidate.1)
    (hscore : ∀ candidate ∈ types, Binary64.isFinite candidate.2 = true) :
    typesOf? (scoredJson types) = some types := by
  induction types with
  | nil => rw [scoredJson, typesOf?]
  | cons entry types ih =>
    obtain ⟨hfirst, hrest⟩ := List.forall_mem_cons.mp h
    obtain ⟨hfinite, hscores⟩ := List.forall_mem_cons.mp hscore
    rw [scoredJson, typesOf?, hfirst, asFloat?_ofFloat hfinite, ih hrest hscores]
    rfl

/-- A wrapper is read back from what it adds. -/
lemma wrapperOfMembers?_wrapperMembers {wrapper : Wrapper} (h : Wrapper.Proper wrapper)
    (inner : Json) : wrapperOfMembers? (wrapperKind wrapper)
      (("inner", inner) :: wrapperMembers wrapper) = some wrapper := by
  cases wrapper with
  | optional => rfl
  | list maxSize =>
    simp [wrapperKind, wrapperMembers, wrapperOfMembers?, required?, Json.lookup?,
      asNat64?_ofNat h]
  | array shape =>
    simp [wrapperKind, wrapperMembers, wrapperOfMembers?, required?, Json.lookup?,
      asListOf?_map fun n hn => asNat64?_ofNat (h n hn)]
  | constrained constraint =>
    simp [wrapperKind, wrapperMembers, wrapperOfMembers?, required?, Json.lookup?, asString?]

/-- **A proper type is read back** from its value. -/
theorem ofJson?_toJson {t : Ty} (h : t.Proper) : ofJson? t.toJson = some t := by
  induction h with
  | @leaf info content properties range =>
    rw [toJson, ofJson?_infoJson properties, ofKind?_leafJson info range]
  | @members info form fields properties below ih =>
    rw [toJson, ofJson?_infoJson properties]
    have hform : formOfName? (formKind form) = some form := by cases form <;> rfl
    rw [kindJson, ofKind?, hform]
    simp [fieldsIn?, fieldsOf?_fieldsJson ih]
  | @wrapped info wrapper inner properties range inside ih =>
    rw [toJson, ofJson?_infoJson properties]
    have hform : formOfName? (wrapperKind wrapper) = none := by cases wrapper <;> rfl
    rw [kindJson, ofKind?, hform]
    simp [wrapperKind_ne wrapper, wrapperOfMembers?_wrapperMembers range, innerIn?, ih]
  | @hypothesis info types properties scores candidates ih =>
    rw [toJson, ofJson?_infoJson properties, kindJson, ofKind?]
    simp [formOfName?, typesIn?, typesOf?_scoredJson ih scores]

end Ty

/-! ### Schemas -/

/-- A list of paths is read back. -/
lemma Path.asListOf?_toJsonList (paths : List Path) :
    asListOf? ofJson? (.array (toJsonList paths)) = some paths := by
  have hmap : toJsonList paths = paths.map toJson := by
    induction paths with
    | nil => rfl
    | cons p ps ih => rw [toJsonList, List.map_cons, ih]
  rw [hmap]
  exact asListOf?_map fun p _ => ofJson?_toJson p

/-- What a schema can hold. -/
structure Schema.Proper (s : Schema) : Prop where
  /-- The type. -/
  ty : s.ty.Proper
  /-- The properties are in the order of their keys. -/
  properties : s.properties.Sorted

/-- **A proper schema is read back** from its value. -/
theorem Schema.ofJson?_toJson {s : Schema} (h : s.Proper) : ofJson? s.toJson = some s := by
  obtain ⟨name, t, paths, properties⟩ := s
  obtain ⟨ht, hproperties⟩ := h
  have hpaths := Path.asListOf?_toJsonList paths
  have hread : textDict? "properties" ([("name", .string name), ("type", t.toJson)]
      ++ (if paths.isEmpty then [] else [("protected_paths", .array (Path.toJsonList paths))])
      ++ dictMember "properties" properties) = some properties := by
    rw [textDict?_append ?_, textDict?_dictMember hproperties]
    cases paths <;> simp
  have hprotected : defaulted? "protected_paths" [] (asListOf? Path.ofJson?)
      ([("name", .string name), ("type", t.toJson)]
      ++ (if paths.isEmpty then [] else [("protected_paths", .array (Path.toJsonList paths))])
      ++ dictMember "properties" properties) = some paths := by
    cases paths with
    | nil => cases properties <;> simp [defaulted?, lookup?, dictMember]
    | cons p ps => simpa [defaulted?, lookup?] using hpaths
  rw [toJson, ofJson?, asRecord?, Option.bind_eq_bind, Option.bind_some]
  simp only [hread, hprotected]
  simp [required?, lookup?, asString?, Ty.ofJson?_toJson ht]

end Lineage
