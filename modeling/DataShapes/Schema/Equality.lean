import DataShapes.Schema.Basic

/-! # Equality of schemas

Schemas are compared constructor by constructor. -/

namespace DataShapes

namespace Schema

mutual

def decEq : (a b : Schema) → Decidable (a = b)
  | .leaf a, .leaf b => if h : a = b then isTrue (h ▸ rfl) else isFalse fun e => h (Schema.leaf.inj e)
  | .ref a, .ref b => if h : a = b then isTrue (h ▸ rfl) else isFalse fun e => h (Schema.ref.inj e)
  | .enumeration a, .enumeration b =>
    if h : a = b then isTrue (h ▸ rfl) else isFalse fun e => h (Schema.enumeration.inj e)
  | .object a s, .object b t =>
    if hs : s = t then
      match decEqProperties a b with
      | isTrue h => isTrue (h ▸ hs ▸ rfl)
      | isFalse h => isFalse fun e => h (Schema.object.inj e).1
    else isFalse fun e => hs (Schema.object.inj e).2
  | .union a, .union b =>
    match decEqArms a b with
    | isTrue h => isTrue (h ▸ rfl)
    | isFalse h => isFalse fun e => h (Schema.union.inj e)
  | .array a, .array b =>
    match decEq a b with
    | isTrue h => isTrue (h ▸ rfl)
    | isFalse h => isFalse fun e => h (Schema.array.inj e)
  | .record a, .record b =>
    match decEq a b with
    | isTrue h => isTrue (h ▸ rfl)
    | isFalse h => isFalse fun e => h (Schema.record.inj e)
  | .optional a, .optional b =>
    match decEq a b with
    | isTrue h => isTrue (h ▸ rfl)
    | isFalse h => isFalse fun e => h (Schema.optional.inj e)
  | .nullable a, .nullable b =>
    match decEq a b with
    | isTrue h => isTrue (h ▸ rfl)
    | isFalse h => isFalse fun e => h (Schema.nullable.inj e)
  | .nullish a, .nullish b =>
    match decEq a b with
    | isTrue h => isTrue (h ▸ rfl)
    | isFalse h => isFalse fun e => h (Schema.nullish.inj e)
  | .leaf _, .ref _ | .leaf _, .enumeration _ | .leaf _, .object _ _ | .leaf _, .union _
  | .leaf _, .array _ | .leaf _, .record _ | .leaf _, .optional _ | .leaf _, .nullable _
  | .leaf _, .nullish _ | .ref _, .leaf _ | .ref _, .enumeration _ | .ref _, .object _ _
  | .ref _, .union _ | .ref _, .array _ | .ref _, .record _ | .ref _, .optional _
  | .ref _, .nullable _ | .ref _, .nullish _ | .enumeration _, .leaf _ | .enumeration _, .ref _
  | .enumeration _, .object _ _ | .enumeration _, .union _ | .enumeration _, .array _
  | .enumeration _, .record _ | .enumeration _, .optional _ | .enumeration _, .nullable _
  | .enumeration _, .nullish _ | .object _ _, .leaf _ | .object _ _, .ref _
  | .object _ _, .enumeration _ | .object _ _, .union _ | .object _ _, .array _
  | .object _ _, .record _ | .object _ _, .optional _ | .object _ _, .nullable _
  | .object _ _, .nullish _ | .union _, .leaf _ | .union _, .ref _ | .union _, .enumeration _
  | .union _, .object _ _ | .union _, .array _ | .union _, .record _ | .union _, .optional _
  | .union _, .nullable _ | .union _, .nullish _ | .array _, .leaf _ | .array _, .ref _
  | .array _, .enumeration _ | .array _, .object _ _ | .array _, .union _ | .array _, .record _
  | .array _, .optional _ | .array _, .nullable _ | .array _, .nullish _ | .record _, .leaf _
  | .record _, .ref _ | .record _, .enumeration _ | .record _, .object _ _ | .record _, .union _
  | .record _, .array _ | .record _, .optional _ | .record _, .nullable _ | .record _, .nullish _
  | .optional _, .leaf _ | .optional _, .ref _ | .optional _, .enumeration _
  | .optional _, .object _ _ | .optional _, .union _ | .optional _, .array _
  | .optional _, .record _ | .optional _, .nullable _ | .optional _, .nullish _
  | .nullable _, .leaf _ | .nullable _, .ref _ | .nullable _, .enumeration _
  | .nullable _, .object _ _ | .nullable _, .union _ | .nullable _, .array _
  | .nullable _, .record _ | .nullable _, .optional _ | .nullable _, .nullish _
  | .nullish _, .leaf _ | .nullish _, .ref _ | .nullish _, .enumeration _
  | .nullish _, .object _ _ | .nullish _, .union _ | .nullish _, .array _ | .nullish _, .record _
  | .nullish _, .optional _ | .nullish _, .nullable _ => isFalse nofun

def decEqArms : (a b : List Schema) → Decidable (a = b)
  | [], [] => isTrue rfl
  | [], _ :: _ => isFalse nofun
  | _ :: _, [] => isFalse nofun
  | a :: as, b :: bs =>
    match decEq a b, decEqArms as bs with
    | isTrue h, isTrue hs => isTrue (h ▸ hs ▸ rfl)
    | isFalse h, _ => isFalse fun e => h (List.cons.inj e).1
    | _, isFalse hs => isFalse fun e => hs (List.cons.inj e).2

def decEqProperties : (a b : List (String × Schema)) → Decidable (a = b)
  | [], [] => isTrue rfl
  | [], _ :: _ => isFalse nofun
  | _ :: _, [] => isFalse nofun
  | (k, a) :: as, (l, b) :: bs =>
    if hk : k = l then
      match decEq a b, decEqProperties as bs with
      | isTrue h, isTrue hs => isTrue (hk ▸ h ▸ hs ▸ rfl)
      | isFalse h, _ => isFalse fun e => h (Prod.mk.inj (List.cons.inj e).1).2
      | _, isFalse hs => isFalse fun e => hs (List.cons.inj e).2
    else isFalse fun e => hk (Prod.mk.inj (List.cons.inj e).1).1

end

instance : DecidableEq Schema := decEq

end Schema

end DataShapes
