import DataShapes.Json.Equality
import DataShapes.Model.Decoding
import DataShapes.Proofs.Workspace
import Mathlib.Data.List.Nodup
import Mathlib.Data.List.Perm.Basic
import Mathlib.Data.Option.Defs
import Mathlib.Logic.Relation

/-! # What a data model is read from

Only the keys that the format names count in the objects of a document, in any order. An edit is one change to the
other keys of an object, or to the order of its keys, anywhere in a document. Each decoder respects the edits of what it
decodes: the members it looks up are the same before and after, or edited inside, where the decoder of the part
respects the edit. A data model under its key is read as it is alone. -/

namespace DataShapes

namespace Model

/-! ### Shapes and edits -/

/-- What the format names in a value: nothing, parts of the elements of a list, or the keys of an object. -/
inductive Shape where
  | plain
  | list (element : Shape)
  | record (members : List (String × Shape))

/-- An object with nothing named under its keys. -/
def Shape.flat (keys : List String) : Shape := .record (keys.map (·, .plain))

def fieldShape : Shape := .flat fieldKeys

def keyShape : Shape := .flat ["name", "fields"]

def entityShape : Shape :=
  .record [("name", .plain), ("fields", .list fieldShape), ("primaryKey", keyShape), ("uniqueFields", .plain),
    ("uniqueIndexes", .list keyShape)]

def enumerationValueShape : Shape := .flat ["name"]

def enumerationShape : Shape := .record [("name", .plain), ("values", .list enumerationValueShape)]

def entriesMembers : List (String × Shape) := [("models", .list entityShape), ("enums", .list enumerationShape)]

/-- A document with its data model under a key. -/
def wrapperShape : Shape := .record [("datamodel", .record entriesMembers)]

/-- A document that is a data model. The key of the other form is named here too. -/
def bareShape : Shape := .record (("datamodel", .record entriesMembers) :: entriesMembers)

/-- What is named in a document depends on its form. -/
def documentShape (document : Json) : Shape :=
  if (wrappedEntries? document).isSome then wrapperShape else bareShape

/-- One change that leaves all that is named as it is, to the value or inside a named part of it: an entry under
another key is added or removed, or the entries of an object are reordered. -/
inductive Edit : Shape → Json → Json → Prop
  | add {members : List (String × Shape)} (front rest : List (String × Json)) {key : String} (value : Json)
      (h : key ∉ members.map Prod.fst) :
      Edit (.record members) (.object (front ++ rest)) (.object (front ++ (key, value) :: rest))
  | remove {members : List (String × Shape)} (front rest : List (String × Json)) {key : String} (value : Json)
      (h : key ∉ members.map Prod.fst) :
      Edit (.record members) (.object (front ++ (key, value) :: rest)) (.object (front ++ rest))
  | reorder {members : List (String × Shape)} {entries entries' : List (String × Json)} (h : entries.Perm entries') :
      Edit (.record members) (.object entries) (.object entries')
  | member {members : List (String × Shape)} (front rest : List (String × Json)) {key : String} {shape : Shape}
      {value value' : Json} (hkey : (key, shape) ∈ members) (h : Edit shape value value') :
      Edit (.record members) (.object (front ++ (key, value) :: rest)) (.object (front ++ (key, value') :: rest))
  | element {shape : Shape} (front rest : List Json) {value value' : Json} (h : Edit shape value value') :
      Edit (.list shape) (.array (front ++ value :: rest)) (.array (front ++ value' :: rest))

/-- One document comes from another by edits. -/
def Edited : Json → Json → Prop :=
  Relation.ReflTransGen fun document document' => Edit (documentShape document) document document'

/-! ### Members -/

/-- What an object has under a key, if anything; `none` for a key that stands more than once. -/
def member? (entries : List (String × Json)) (key : String) : Option (Option Json) :=
  match entries.filter (·.1 == key) with
  | [] => some none
  | [(_, value)] => some (some value)
  | _ => none

theorem members?_object (keys : List String) (entries : List (String × Json)) :
    members? keys (.object entries) = keys.mapM (member? entries) := rfl

theorem member?_insert_of_ne {key other : String} (h : key ≠ other) (front rest : List (String × Json)) (value : Json) :
    member? (front ++ (key, value) :: rest) other = member? (front ++ rest) other := by
  simp [member?, List.filter_append, h]

theorem member?_perm {entries entries' : List (String × Json)} (h : entries.Perm entries') (key : String) :
    member? entries key = member? entries' key := by
  have hfilter := h.filter (·.1 == key)
  unfold member?
  generalize entries.filter (·.1 == key) = found at hfilter
  generalize entries'.filter (·.1 == key) = found' at hfilter
  rcases found with _ | ⟨entry, _ | ⟨second, found⟩⟩
  · rw [hfilter.nil_eq]
  · rw [hfilter.singleton_eq]
  · -- A key that stands twice still does, so the order of its entries does not come out.
    rcases found' with _ | ⟨_, _ | ⟨_, _⟩⟩
    · cases hfilter.length_eq
    · cases hfilter.length_eq
    · rfl

/-- A member as it was, or edited inside. -/
abbrev MemberEdit (shape : Shape) : Option Json → Option Json → Prop := Option.Rel (Relation.ReflGen (Edit shape))

/-- What no edit of a value changes in a member is the same for both. -/
theorem MemberEdit.congr {α : Type} {shape : Shape} {m m' : Option Json} (hm : MemberEdit shape m m')
    (read : Option Json → α) (h : ∀ value value', Edit shape value value' → read (some value) = read (some value')) :
    read m = read m' := by
  cases hm with
  | none => rfl
  | some hm =>
    rcases hm with _ | hedit
    · rfl
    · exact h _ _ hedit

theorem MemberEdit.eq {m m' : Option Json} (hm : MemberEdit .plain m m') : m = m' :=
  hm.congr id fun _ _ hedit => by cases hedit

theorem memberEdit_of_eq {shape : Shape} {m m' : Option (Option Json)} (h : m = m') :
    Option.Rel (MemberEdit shape) m m' := by
  subst h
  rcases m with _ | _ | value
  · exact .none
  · exact .some .none
  · exact .some (.some .refl)

theorem memberEdit_replace {shape : Shape} {value value' : Json} (h : Edit shape value value') (key : String)
    (front rest : List (String × Json)) :
    Option.Rel (MemberEdit shape) (member? (front ++ (key, value) :: rest) key)
      (member? (front ++ (key, value') :: rest) key) := by
  simp only [member?, List.filter_append, List.filter_cons, beq_self_eq_true, ↓reduceIte]
  generalize front.filter (·.1 == key) = before
  generalize rest.filter (·.1 == key) = after
  rcases before with _ | ⟨_, _ | _⟩
  · rcases after with _ | _
    · exact .some (.some (.single h))
    · exact .none
  · exact .none
  · exact .none

/-- The members of a record before and after an edit. -/
inductive MembersEdit : List (String × Shape) → List (Option Json) → List (Option Json) → Prop
  | nil : MembersEdit [] [] []
  | cons {key : String} {shape : Shape} {members : List (String × Shape)} {m m' : Option Json}
      {ms ms' : List (Option Json)} (head : MemberEdit shape m m') (tail : MembersEdit members ms ms') :
      MembersEdit ((key, shape) :: members) (m :: ms) (m' :: ms')

theorem MembersEdit.eq {members : List (String × Shape)} {ms ms' : List (Option Json)} (h : MembersEdit members ms ms')
    (hplain : ∀ x ∈ members, x.2 = .plain) : ms = ms' := by
  induction h with
  | nil => rfl
  | cons head tail ih =>
    rw [List.forall_mem_cons] at hplain
    obtain ⟨rfl, hplain⟩ := hplain
    rw [head.eq, ih hplain]

theorem membersEdit_mapM {members : List (String × Shape)} {before after : String → Option (Option Json)}
    (h : ∀ x ∈ members, Option.Rel (MemberEdit x.2) (before x.1) (after x.1)) :
    Option.Rel (MembersEdit members) ((members.map Prod.fst).mapM before) ((members.map Prod.fst).mapM after) := by
  induction members with
  | nil => exact .some .nil
  | cons x members ih =>
    have hhead := h x List.mem_cons_self
    have htail := ih fun y hy => h y (List.mem_cons_of_mem x hy)
    simp only [List.map_cons, List.mapM_cons, Option.bind_eq_bind]
    generalize before x.1 = m at hhead
    generalize after x.1 = m' at hhead
    generalize (members.map Prod.fst).mapM before = ms at htail
    generalize (members.map Prod.fst).mapM after = ms' at htail
    cases hhead with
    | none => exact .none
    | some hhead =>
      cases htail with
      | none => exact .none
      | some htail => exact .some (.cons hhead htail)

section

variable {members some : List (String × Shape)} {value value' : Json}

theorem Edit.exists_objects (h : Edit (.record members) value value') :
    ∃ entries entries', value = .object entries ∧ value' = .object entries' := by
  cases h <;> exact ⟨_, _, rfl, rfl⟩

/-- What an edit of a record does to some of its members. -/
theorem Edit.membersEdit (hdistinct : (members.map Prod.fst).Nodup) (hsome : some ⊆ members)
    (h : Edit (.record members) value value') :
    Option.Rel (MembersEdit some) (members? (some.map Prod.fst) value) (members? (some.map Prod.fst) value') := by
  have hne {key : String} (hkey : key ∉ members.map Prod.fst) : ∀ x ∈ some, key ≠ x.1 := fun x hx heq =>
    hkey (heq ▸ List.mem_map_of_mem (hsome hx))
  cases h with
  | add front rest added hkey =>
    exact membersEdit_mapM fun x hx => memberEdit_of_eq (member?_insert_of_ne (hne hkey x hx) front rest added).symm
  | remove front rest removed hkey =>
    exact membersEdit_mapM fun x hx => memberEdit_of_eq (member?_insert_of_ne (hne hkey x hx) front rest removed)
  | reorder hperm => exact membersEdit_mapM fun x _ => memberEdit_of_eq (member?_perm hperm x.1)
  | @member _ front rest key shape old new hkey hinner =>
    refine membersEdit_mapM fun x hx => ?_
    by_cases hx' : key = x.1
    · obtain rfl : (key, shape) = x := List.inj_on_of_nodup_map hdistinct hkey (hsome hx) hx'
      exact memberEdit_replace hinner key front rest
    · have hother := member?_insert_of_ne hx' front rest
      exact memberEdit_of_eq ((hother old).trans (hother new).symm)

end

/-! ### Decoders of parts -/

/-- A decoder gives the same before and after an edit. -/
def Respects {α : Type} (shape : Shape) (decode : Json → Option α) : Prop :=
  ∀ ⦃value value' : Json⦄, Edit shape value value' → decode value = decode value'

section

variable {α : Type} {shape : Shape} {decode : Json → Option α} {m m' : Option Json}

theorem Respects.list (h : Respects shape decode) : Respects (.list shape) (list? decode) := by
  rintro _ _ (_ | _ | _ | _ | ⟨front, rest, hinner⟩)
  simp only [list?, List.mapM_append, List.mapM_cons, h hinner]

theorem Respects.nullable (h : Respects shape decode) : Respects shape (nullable? decode) := by
  intro value value' hedit
  have heq := h hedit
  cases hedit <;> simp only [nullable?, heq]

theorem Respects.bind (h : Respects shape decode) (hm : MemberEdit shape m m') : m.bind decode = m'.bind decode :=
  hm.congr (·.bind decode) fun _ _ hedit => h hedit

theorem Respects.defaulted (h : Respects shape decode) (missing : α) (hm : MemberEdit shape m m') :
    defaulted? missing decode m = defaulted? missing decode m' :=
  hm.congr (defaulted? missing decode) fun _ _ hedit => h hedit

variable {body : List (Option Json) → Option α}

/-- A decoder that reads an object by some of its named members, and gives the same for edited ones. -/
theorem Respects.record {members some : List (String × Shape)} (hdistinct : (members.map Prod.fst).Nodup)
    (hsome : some ⊆ members)
    (hdecode : ∀ entries, decode (.object entries) = (members? (some.map Prod.fst) (.object entries)).bind body)
    (hbody : ∀ ms ms', MembersEdit some ms ms' → body ms = body ms') : Respects (.record members) decode := by
  intro value value' h
  have hmembers := h.membersEdit hdistinct hsome
  obtain ⟨entries, entries', rfl, rfl⟩ := h.exists_objects
  rw [hdecode, hdecode]
  generalize members? (some.map Prod.fst) (.object entries) = ms at hmembers
  generalize members? (some.map Prod.fst) (.object entries') = ms' at hmembers
  cases hmembers with
  | none => rfl
  | some hmembers => exact hbody _ _ hmembers

theorem Respects.flat {keys : List String} (hdistinct : keys.Nodup)
    (hdecode : ∀ value, decode value = (members? keys value).bind body) : Respects (.flat keys) decode := by
  have hkeys : (keys.map fun key => (key, Shape.plain)).map Prod.fst = keys := by simp [Function.comp_def]
  refine .record (hkeys.symm ▸ hdistinct) (List.Subset.refl _) (fun _ => hkeys.symm ▸ hdecode _) fun ms ms' h => ?_
  rw [h.eq (by simp)]

end

theorem respects_fieldEntry? : Respects fieldShape fieldEntry? := .flat (by decide) fun _ => rfl

theorem respects_compoundKey? : Respects keyShape compoundKey? := .flat (by decide) fun _ => rfl

theorem respects_enumerationValue? : Respects enumerationValueShape enumerationValue? := .flat (by decide) fun _ => rfl

theorem respects_entityEntry? : Respects entityShape entityEntry? := by
  refine .record (by decide) (List.Subset.refl _) (fun _ => rfl) fun ms ms' h => ?_
  rcases h with _ | ⟨hname, _ | ⟨hfields, _ | ⟨hprimaryKey, _ | ⟨huniqueFields, _ | ⟨huniqueIndexes, ⟨⟩⟩⟩⟩⟩⟩
  have hfields := respects_fieldEntry?.list.bind hfields
  have hprimaryKey := respects_compoundKey?.nullable.defaulted none hprimaryKey
  have huniqueIndexes := respects_compoundKey?.list.defaulted [] huniqueIndexes
  cases hname.eq
  cases huniqueFields.eq
  simp only [Option.bind_eq_bind, ← Option.bind_assoc, hfields, hprimaryKey, huniqueIndexes]

theorem respects_enumeration? : Respects enumerationShape enumeration? := by
  refine .record (by decide) (List.Subset.refl _) (fun _ => rfl) fun ms ms' h => ?_
  rcases h with _ | ⟨hname, _ | ⟨hvalues, ⟨⟩⟩⟩
  have hvalues := respects_enumerationValue?.list.bind hvalues
  cases hname.eq
  simp only [Option.bind_eq_bind, ← Option.bind_assoc, hvalues]

/-! ### Decoders of documents -/

theorem respects_entries? {members : List (String × Shape)} (hdistinct : (members.map Prod.fst).Nodup)
    (hmembers : entriesMembers ⊆ members) : Respects (.record members) entries? := by
  refine .record hdistinct hmembers (fun _ => rfl) fun ms ms' h => ?_
  rcases h with _ | ⟨hentities, _ | ⟨henumerations, ⟨⟩⟩⟩
  have hentities := respects_entityEntry?.list.bind hentities
  have henumerations := respects_enumeration?.list.defaulted [] henumerations
  simp only [Option.bind_eq_bind, ← Option.bind_assoc, hentities, henumerations]

theorem wrappedEntries?_object (entries : List (String × Json)) :
    wrappedEntries? (.object entries) =
      (members? ["datamodel"] (.object entries)).bind fun ms => ms.head?.join.bind entries? := by
  simp only [wrappedEntries?, members?_object, List.mapM_cons, List.mapM_nil, member?]
  generalize entries.filter (·.1 == "datamodel") = found
  rcases found with _ | ⟨_, _ | _⟩ <;> rfl

theorem respects_wrappedEntries? {members : List (String × Shape)} (hdistinct : (members.map Prod.fst).Nodup)
    (hmember : ("datamodel", .record entriesMembers) ∈ members) : Respects (.record members) wrappedEntries? := by
  refine .record hdistinct (List.cons_subset.mpr ⟨hmember, List.nil_subset _⟩) wrappedEntries?_object fun ms ms' h => ?_
  rcases h with _ | ⟨hentries, ⟨⟩⟩
  exact (respects_entries? (by decide) (List.Subset.refl _)).bind hentries

theorem documentEntries?_eq_of_edit {document document' : Json} (h : Edit (documentShape document) document document') :
    documentEntries? document = documentEntries? document' := by
  unfold documentShape at h
  split at h
  next hsome =>
    -- What is read under the key stays, and the keys of the other form are never looked at.
    have hwrapped := respects_wrappedEntries? (by decide) List.mem_cons_self h
    obtain ⟨entries, hentries⟩ := Option.isSome_iff_exists.mp hsome
    rw [documentEntries?, documentEntries?, ← hwrapped, hentries, Option.some_or, Option.some_or]
  next =>
    rw [documentEntries?, documentEntries?, respects_wrappedEntries? (by decide) List.mem_cons_self h,
      respects_entries? (by decide) (List.subset_cons_self ..) h]

theorem Edited.documentEntries?_eq {document document' : Json} (h : Edited document document') :
    documentEntries? document = documentEntries? document' := by
  induction h with
  | refl => rfl
  | tail _ hedit ih => exact ih.trans (documentEntries?_eq_of_edit hedit)

/-- A data model is read under its key as it is alone, unless what is around it could be a data model itself. -/
theorem documentEntries?_wrapped {entries front rest : List (String × Json)}
    (hentries : ∀ x ∈ entries, x.1 ≠ "datamodel")
    (haround : ∀ x ∈ front ++ rest, x.1 ≠ "datamodel" ∧ x.1 ≠ "models") :
    documentEntries? (.object (front ++ ("datamodel", .object entries) :: rest)) =
      documentEntries? (.object entries) := by
  obtain ⟨hfront, hrest⟩ := List.forall_mem_append.mp haround
  have hinside : wrappedEntries? (.object entries) = none := by
    rw [wrappedEntries?, List.filter_eq_nil_iff.mpr fun x hx => by simpa using hentries x hx]
  have hwrapped : wrappedEntries? (.object (front ++ ("datamodel", .object entries) :: rest)) =
      entries? (.object entries) := by
    have hnone {others : List (String × Json)} (h : ∀ x ∈ others, x.1 ≠ "datamodel" ∧ x.1 ≠ "models") :
        others.filter (·.1 == "datamodel") = [] := List.filter_eq_nil_iff.mpr fun x hx => by simpa using (h x hx).1
    rw [wrappedEntries?, List.filter_append, List.filter_cons_of_pos rfl, hnone hfront, hnone hrest, List.nil_append]
  have hbare : entries? (.object (front ++ ("datamodel", .object entries) :: rest)) = none := by
    have hmissing : (front ++ ("datamodel", Json.object entries) :: rest).filter (·.1 == "models") = [] := by
      refine List.filter_eq_nil_iff.mpr (List.forall_mem_append.mpr ⟨?_, List.forall_mem_cons.mpr ⟨by simp, ?_⟩⟩)
      · exact fun x hx => by simpa using (hfront x hx).2
      · exact fun x hx => by simpa using (hrest x hx).2
    rw [entries?, members?_object, List.mapM_cons, List.mapM_cons, member?, hmissing]
    generalize member? _ "enums" = enumerations
    cases enumerations <;> rfl
  rw [documentEntries?, documentEntries?, hinside, hwrapped, hbare, Option.or_none, Option.none_or]

end Model

/-! ### Texts -/

namespace DataModel

open Model

/-- A text of one JSON value is read by the value alone. -/
theorem readEntries_of_parse {text : String} {value : Json} (h : Json.parse text = .ok value) :
    readEntries text = match documentEntries? value with
      | none => .error .wrongShape
      | some entries => .ok entries := by
  unfold Json.parse at h
  cases hhead : Json.readHead text with
  | error stop =>
    rw [hhead] at h
    cases h
  | ok read =>
    obtain ⟨value', rest⟩ := read
    rw [hhead] at h
    change (Json.atEnd rest >>= fun _ => .ok value') = .ok value at h
    cases hend : Json.atEnd rest with
    | error stop =>
      rw [hend] at h
      cases h
    | ok =>
      rw [hend] at h
      cases h
      cases hentries : documentEntries? value <;> simp only [readEntries, hhead, hend, hentries]

theorem parse_eq_of_documentEntries? {text text' path : String} {value value' : Json}
    (hvalue : Json.parse text = .ok value) (hvalue' : Json.parse text' = .ok value')
    (h : documentEntries? value = documentEntries? value') : parse text path = parse text' path := by
  rw [parse, parse, readEntries_of_parse hvalue, readEntries_of_parse hvalue', h]

/-- A data model is read from a text under its key as it is read alone, or refused as it is alone, whatever else the
document has, as long as that has no list of models. And edits of a document change nothing. -/
theorem parse_wrapped_and_edited (path : String) :
    (∀ text wrapped entries front rest, Json.parse text = .ok (.object entries) →
      Json.parse wrapped = .ok (.object (front ++ ("datamodel", .object entries) :: rest)) →
      (∀ x ∈ entries, x.1 ≠ "datamodel") → (∀ x ∈ front ++ rest, x.1 ≠ "datamodel" ∧ x.1 ≠ "models") →
      parse wrapped path = parse text path) ∧
    ∀ text edited value value', Json.parse text = .ok value → Json.parse edited = .ok value' → Edited value value' →
      parse edited path = parse text path :=
  ⟨fun _ _ _ _ _ htext hwrapped hentries haround =>
      parse_eq_of_documentEntries? hwrapped htext (documentEntries?_wrapped hentries haround),
    fun _ _ _ _ htext hedited h => parse_eq_of_documentEntries? hedited htext h.documentEntries?_eq.symm⟩

/-- A data model of one entity, with some more entries in front of its field. -/
def userEntries (front : List (String × Json)) : List (String × Json) :=
  [("models", .array [.object [("name", .string "User"), ("fields", .array [.object (front ++
    [("name", .string "id"), ("kind", .string "scalar"), ("type", .string "Int")])])]])]

/-- The data model under its key, behind another one. -/
def wrappedUser (front : List (String × Json)) : List (String × Json) :=
  [("version", .int 2), ("datamodel", .object (userEntries front))]

def userText : String :=
  "\x7b\"models\":[\x7b\"name\":\"User\",\"fields\":[\x7b\"name\":\"id\",\"kind\":\"scalar\"," ++
    "\"type\":\"Int\"\x7d]\x7d]\x7d"

def wrappedText : String := "\x7b\"version\":2,\"datamodel\":" ++ userText ++ "\x7d"

/-- A key is added to the field, and the keys of the document are reordered. -/
def editedText : String :=
  "\x7b\"datamodel\":\x7b\"models\":[\x7b\"name\":\"User\",\"fields\":[\x7b\"dbName\":null,\"name\":\"id\"," ++
    "\"kind\":\"scalar\",\"type\":\"Int\"\x7d]\x7d]\x7d,\"version\":2\x7d"

theorem user_wrapped_and_edited :
    (parse userText "m").toOption.isSome ∧ parse wrappedText "m" = parse userText "m" ∧
      parse editedText "m" = parse wrappedText "m" := by
  have huser : Json.parse userText = .ok (.object (userEntries [])) := eq_ok_of_toOption (by decide +kernel)
  have hwrapped : Json.parse wrappedText = .ok (.object (wrappedUser [])) := eq_ok_of_toOption (by decide +kernel)
  have hedited : Json.parse editedText = .ok (.object (wrappedUser [("dbName", .null)]).reverse) :=
    eq_ok_of_toOption (by decide +kernel)
  have hadd : Edit wrapperShape (.object (wrappedUser [])) (.object (wrappedUser [("dbName", .null)])) := by
    refine .member [("version", .int 2)] [] List.mem_cons_self (.member [] [] List.mem_cons_self (.element [] [] ?_))
    refine .member [("name", .string "User")] [] (List.mem_cons_of_mem _ List.mem_cons_self) (.element [] [] ?_)
    exact .add [] _ .null (by decide)
  have hreorder : Edit wrapperShape (.object (wrappedUser [("dbName", .null)]))
      (.object (wrappedUser [("dbName", .null)]).reverse) := .reorder (List.reverse_perm _).symm
  have hform (front : List (String × Json)) (h : (wrappedEntries? (.object (wrappedUser front))).isSome) :
      documentShape (.object (wrappedUser front)) = wrapperShape := if_pos h
  rw [← hform [] (by decide +kernel)] at hadd
  rw [← hform [("dbName", .null)] (by decide +kernel)] at hreorder
  obtain ⟨hwrap, hedit⟩ := parse_wrapped_and_edited "m"
  refine ⟨by decide +kernel, ?_, ?_⟩
  · exact hwrap _ _ (userEntries []) [("version", .int 2)] [] huser hwrapped (by decide) (by decide)
  · exact hedit _ _ _ _ hwrapped hedited (.tail (.single hadd) hreorder)

end DataModel

end DataShapes
